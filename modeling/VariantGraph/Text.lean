/-!
# Text: cutting, joining and substituting

Labels, package paths and property paths are cut at single characters. Every function works on the
characters of the text. `cutChars?_eq_some_iff` says where a text is cut, and `pieces_ne_nil`,
`not_mem_of_mem_pieces` and `intercalate_pieces` that a split has a piece, that no piece holds the
separator and that nothing is lost.
-/
namespace VariantGraph.Text

/-! ## Characters -/

/-- What stands before and after the first separator. -/
def cutChars? (sep : Char) : List Char → Option (List Char × List Char)
  | [] => none
  | c :: rest =>
    if c = sep then some ([], rest)
    else (cutChars? sep rest).map fun (before, after) => (c :: before, after)

/-- The pieces between separators: one more than there are separators. -/
def pieces (sep : Char) : List Char → List (List Char)
  | [] => [[]]
  | c :: rest =>
    if c = sep then [] :: pieces sep rest
    else match pieces sep rest with
      | [] => [[c]]
      | first :: others => (c :: first) :: others

/-- The characters after a given beginning, if the text has that beginning. -/
def after? : List Char → List Char → Option (List Char)
  | [], text => some text
  | _ :: _, [] => none
  | c :: lead, d :: text => if c = d then after? lead text else none

/-- Replaces every occurrence of a two-character mark, from left to right. -/
def substituteChars (a b : Char) (value : List Char) : List Char → List Char
  | [] => []
  | [c] => [c]
  | c :: d :: rest =>
    if c = a ∧ d = b then value ++ substituteChars a b value rest
    else c :: substituteChars a b value (d :: rest)

/-- A lower-case hexadecimal digit. -/
def hexDigit (n : Nat) : Char :=
  if n < 10 then Char.ofNat ('0'.toNat + n) else Char.ofNat ('a'.toNat + (n - 10))

theorem cutChars?_eq_some_iff {sep : Char} {text before after : List Char} :
    cutChars? sep text = some (before, after) ↔ text = before ++ sep :: after ∧ sep ∉ before := by
  induction text generalizing before with
  | nil => simp [cutChars?]
  | cons c rest ih =>
    unfold cutChars?
    split
    · next h =>
      subst h
      cases before with
      | nil => simp [eq_comm]
      | cons d before => simp; rintro rfl; simp
    · next h =>
      cases before with
      | nil => simp [h]
      | cons d before =>
        simp only [Option.map_eq_some_iff, Prod.exists, Prod.mk.injEq, List.cons.injEq, List.cons_append,
          List.mem_cons, not_or]
        constructor
        · rintro ⟨a, b, hab, ⟨rfl, rfl⟩, rfl⟩
          exact ⟨⟨rfl, (ih.1 hab).1⟩, fun e => h e.symm, (ih.1 hab).2⟩
        · rintro ⟨⟨rfl, hr⟩, -, hs⟩
          exact ⟨before, after, ih.2 ⟨hr, hs⟩, ⟨rfl, rfl⟩, rfl⟩

theorem pieces_ne_nil (sep : Char) (text : List Char) : pieces sep text ≠ [] := by
  cases text with
  | nil => simp [pieces]
  | cons c rest =>
    unfold pieces
    split
    · simp
    · split <;> simp

theorem not_mem_of_mem_pieces {sep : Char} {text piece : List Char} (h : piece ∈ pieces sep text) :
    sep ∉ piece := by
  induction text generalizing piece with
  | nil => simp_all [pieces]
  | cons c rest ih =>
    unfold pieces at h
    split at h
    · rcases List.mem_cons.mp h with rfl | h
      · simp
      · exact ih h
    · next hc =>
      split at h
      · next he => exact absurd he (pieces_ne_nil sep rest)
      · next first others he =>
        rw [he] at ih
        rcases List.mem_cons.mp h with rfl | h
        · simp [Ne.symm hc, ih (List.mem_cons_self ..)]
        · exact ih (List.mem_cons_of_mem _ h)

theorem intercalate_pieces (sep : Char) (text : List Char) :
    [sep].intercalate (pieces sep text) = text := by
  induction text with
  | nil => simp [pieces]
  | cons c rest ih =>
    unfold pieces
    split
    · next hc =>
      obtain ⟨first, others, he⟩ := List.exists_cons_of_ne_nil (pieces_ne_nil sep rest)
      rw [he] at ih ⊢
      rw [List.intercalate_cons_cons, ih, hc]
      rfl
    · split
      · next he => exact absurd he (pieces_ne_nil sep rest)
      · next first others he =>
        rw [he] at ih
        cases others with
        | nil => simp_all
        | cons second others => simp_all [List.intercalate_cons_cons]

/-! ## Strings -/

/-- Cuts a text at its first separator. -/
def cut? (sep : Char) (text : String) : Option (String × String) :=
  (cutChars? sep text.toList).map fun (before, after) => (String.ofList before, String.ofList after)

/-- Splits a text at every separator. -/
def split (sep : Char) (text : String) : List String :=
  (pieces sep text.toList).map String.ofList

/-- What follows a given beginning. -/
def stripLead? (lead text : String) : Option String :=
  (after? lead.toList text.toList).map String.ofList

/-- Whether a text has a given beginning. -/
def startsWith (lead text : String) : Bool := (after? lead.toList text.toList).isSome

/-- Whether a character occurs. -/
def has (c : Char) (text : String) : Bool := text.toList.contains c

/-- Whether a text ends in a character. -/
def endsIn (c : Char) (text : String) : Bool := text.toList.getLast? == some c

/-- Joins texts with a separator between them. -/
def join (sep : String) (texts : List String) : String := sep.intercalate texts

/-- Writes a value in place of every mark `%s`. -/
def fill (value text : String) : String :=
  String.ofList (substituteChars '%' 's' value.toList text.toList)

/-- A text between double quotes, nothing escaped. -/
def quoted (text : String) : String := "\"" ++ text ++ "\""

end VariantGraph.Text
