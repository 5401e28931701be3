import VariantGraph.Json.Compact
import VariantGraph.Json.Raw
import Mathlib.Data.List.Basic
/-!
# Compact text is unambiguous

`write value rest` says what `value` and `rest` are, as long as all numbers are integers and `rest` does
not go on with a numeral (`Exact.told`): no value is written as the beginning of another one, so
nothing is lost when items and members are put one behind the other. A string is read again by the
reader of documents (`readString_written`), which stops at the closing quote and nowhere before.
-/
namespace VariantGraph

/-! ## Strings -/

theorem RawJson.hexValue?_hexDigit : ∀ n < 16, hexValue? (Text.hexDigit n) = some n := by decide

/-- What a character is read as after it was written: a control character that has no short escape
comes back as its code. -/
def StringUnit.ofWritten (c : Char) : StringUnit :=
  if c.toNat < 0x20 ∧ c ∉ ['\n', '\r', '\t', '\x08', '\x0c'] then .escape c.toNat else .char c

theorem StringUnit.ofWritten_injective : Function.Injective ofWritten := by
  intro c d h
  unfold ofWritten at h
  split at h <;> split at h
  · exact Char.ofNat_toNat c ▸ Char.ofNat_toNat d ▸ congrArg Char.ofNat (StringUnit.escape.inj h)
  · exact absurd h (by simp)
  · exact absurd h (by simp)
  · exact StringUnit.char.inj h

namespace Json

open RawJson in
/-- One written character is one unit for the reader. -/
theorem readString_escaped (units : List StringUnit) (c : Char) (rest : List Char) :
    readString units (escaped c ++ rest) = readString (.ofWritten c :: units) rest := by
  unfold escaped
  split_ifs with hquote hback hnewline hreturn htab hbell hfeed hcontrol
  · subst hquote; rfl
  · subst hback; rfl
  · subst hnewline; rfl
  · subst hreturn; rfl
  · subst htab; rfl
  · subst hbell; rfl
  · subst hfeed; rfl
  · have hcode : ((0 * 16 + 0) * 16 + c.toNat / 16) * 16 + c.toNat % 16 = c.toNat := by omega
    have hunit : StringUnit.ofWritten c = .escape c.toNat := if_pos ⟨hcontrol, by simp [*]⟩
    have hzero : hexValue? '0' = some 0 := rfl
    simp only [List.cons_append, List.nil_append, readString, hzero,
      hexValue?_hexDigit (c.toNat / 16) (by omega), hexValue?_hexDigit (c.toNat % 16) (by omega), hcode, hunit]
  · have hunit : StringUnit.ofWritten c = .char c := if_neg fun h => hcontrol h.1
    rw [hunit, List.singleton_append, readString.eq_4 _ _ _ hquote (fun _ _ _ _ _ h => absurd h hback)
      (fun _ _ h => absurd h hback), if_neg hcontrol]

theorem readString_written (units : List StringUnit) (text rest : List Char) :
    RawJson.readString units (text.flatMap escaped ++ '"' :: rest) =
      some (units.reverse ++ text.map .ofWritten, rest) := by
  induction text generalizing units with
  | nil => simp [RawJson.readString]
  | cons c text ih =>
    rw [List.flatMap_cons, List.append_assoc, readString_escaped, ih]
    simp

theorem writeString_inj {name other : String} {rest rest' : List Char}
    (h : writeString name rest = writeString other rest') : name = other ∧ rest = rest' := by
  have hread := congrArg (RawJson.readString []) (List.cons.inj h).2
  simp only [readString_written, Option.some.injEq, Prod.mk.injEq, List.append_cancel_left_eq] at hread
  exact ⟨String.toList_inj.1 (StringUnit.ofWritten_injective.list_map hread.1), hread.2⟩

/-! ## Numbers -/

/-- Whether a character may stand in an integer. -/
def isNumeral (c : Char) : Bool := RawJson.isDigit c || c = '-'

/-- Whether a text does not go on with an integer. -/
def Ends (rest : List Char) : Prop := rest.takeWhile isNumeral = []

/-- An integer is written as its digits, behind a sign if it is negative. -/
theorem toList_int (value : Int) : (toString value).toList =
    if 0 ≤ value then Nat.toDigits 10 value.toNat else '-' :: Nat.toDigits 10 (-value).toNat := by
  rw [Int.toString_eq_repr, Int.repr_eq_if]
  split
  · exact Nat.toList_repr
  · simp [Nat.toList_repr]

theorem toDigits_inj {m n : Nat} (h : Nat.toDigits 10 m = Nat.toDigits 10 n) : m = n := by
  rw [← @Nat.ofDigitChars_ten_toDigits m, h, Nat.ofDigitChars_ten_toDigits]

theorem sign_not_mem_toDigits (n : Nat) : '-' ∉ Nat.toDigits 10 n := fun hsign =>
  absurd (Nat.isDigit_of_mem_toDigits (by decide) (by decide) hsign) (by decide)

/-- The sign tells the negative integers from the others, and the digits tell integers of one sign.
(`Int.repr_injective` says the same, but only the whole library imports it.) -/
theorem toList_int_inj {value other : Int} (h : (toString value).toList = (toString other).toList) : value = other := by
  rw [toList_int, toList_int] at h
  split at h
  · split at h
    · have hsize := toDigits_inj h
      omega
    · exact absurd (h ▸ List.mem_cons_self) (sign_not_mem_toDigits _)
  · split at h
    · exact absurd (h ▸ List.mem_cons_self) (sign_not_mem_toDigits _)
    · have hsize := toDigits_inj (List.cons.inj h).2
      omega

theorem isNumeral_of_mem_toDigits {n : Nat} {c : Char} (hc : c ∈ Nat.toDigits 10 n) : isNumeral c = true := by
  have hdigit := Nat.isDigit_of_mem_toDigits (by decide) (by decide) hc
  simp only [Char.isDigit, Bool.and_eq_true, decide_eq_true_eq] at hdigit
  simpa [isNumeral, RawJson.isDigit, Char.le_def] using .inl hdigit

theorem isNumeral_of_mem_int {value : Int} {c : Char} (hc : c ∈ (toString value).toList) :
    isNumeral c = true := by
  rw [toList_int] at hc
  split at hc
  · exact isNumeral_of_mem_toDigits hc
  · rcases List.mem_cons.1 hc with rfl | hdigits
    · rfl
    · exact isNumeral_of_mem_toDigits hdigits

theorem int_inj {value other : Int} {rest rest' : List Char} (hrest : Ends rest) (hrest' : Ends rest')
    (h : (toString value).toList ++ rest = (toString other).toList ++ rest') :
    value = other ∧ rest = rest' := by
  have hdigits := congrArg (List.takeWhile isNumeral) h
  rw [List.takeWhile_append_of_pos fun c => isNumeral_of_mem_int,
    List.takeWhile_append_of_pos fun c => isNumeral_of_mem_int, hrest, hrest', List.append_nil,
    List.append_nil] at hdigits
  refine ⟨toList_int_inj hdigits, ?_⟩
  rwa [hdigits, List.append_cancel_left_eq] at h

/-! ## Lists -/

/-- Whether the text of a good thing says what was put and what follows it. -/
def Told {α : Type} (put : α → List Char → List Char) (good : α → Prop) (x : α) : Prop :=
  ∀ {y rest rest'}, good y → Ends rest → Ends rest' → put x rest = put y rest' → x = y ∧ rest = rest'

section Lists
variable {α : Type} (put : α → List Char → List Char) (close : Char)

/-- Things behind a comma each, and a closing bracket. -/
def more (rest : List Char) : List α → List Char
  | [] => close :: rest
  | x :: xs => ',' :: put x (more rest xs)

/-- Things with commas between them, and a closing bracket. -/
def listed (rest : List Char) : List α → List Char
  | [] => close :: rest
  | x :: xs => put x (more put close rest xs)

variable {put close} {good : α → Prop} {xs ys : List α} {rest rest' : List Char}
  (hclose : isNumeral close = false) (hcomma : close ≠ ',')

include hclose in
theorem ends_more (xs : List α) : Ends (more put close rest xs) := by
  cases xs with
  | nil => exact List.takeWhile_cons_of_neg (by simp [hclose])
  | cons => rfl

include hclose hcomma

theorem more_inj (hx : ∀ x ∈ xs, Told put good x) (hy : ∀ y ∈ ys, good y)
    (h : more put close rest xs = more put close rest' ys) : xs = ys ∧ rest = rest' := by
  induction xs generalizing ys with
  | nil =>
    cases ys with
    | nil => exact ⟨rfl, (List.cons.inj h).2⟩
    | cons => exact absurd (List.cons.inj h).1 hcomma
  | cons x xs ih =>
    cases ys with
    | nil => exact absurd (List.cons.inj h).1.symm hcomma
    | cons y ys =>
      obtain ⟨rfl, hmore⟩ := hx x List.mem_cons_self (hy y List.mem_cons_self)
        (ends_more hclose xs) (ends_more hclose ys) (List.cons.inj h).2
      obtain ⟨rfl, hrest⟩ := ih (fun z hz => hx z (List.mem_cons_of_mem _ hz))
        (fun z hz => hy z (List.mem_cons_of_mem _ hz)) hmore
      exact ⟨rfl, hrest⟩

theorem listed_inj (hopen : ∀ x, good x → ∀ text, (put x text).head? ≠ some close)
    (hgood : ∀ x ∈ xs, good x) (hx : ∀ x ∈ xs, Told put good x) (hy : ∀ y ∈ ys, good y)
    (h : listed put close rest xs = listed put close rest' ys) : xs = ys ∧ rest = rest' := by
  match xs, ys with
  | [], [] => exact ⟨rfl, (List.cons.inj h).2⟩
  | [], y :: ys => exact absurd (congrArg List.head? h).symm (hopen y (hy y List.mem_cons_self) _)
  | x :: xs, [] => exact absurd (congrArg List.head? h) (hopen x (hgood x List.mem_cons_self) _)
  | x :: xs, y :: ys =>
    -- behind a comma the lists would say the same
    exact more_inj hclose hcomma hx hy (congrArg (List.cons ',') h)

end Lists

/-! ## Values -/

/-- Whether all numbers in a value are integers. -/
inductive Exact : Json → Prop where
  | null : Exact .null
  | bool (value : Bool) : Exact (.bool value)
  | int (value : Int) : Exact (.int value)
  | string (value : String) : Exact (.string value)
  | array {items : List Json} (h : ∀ item ∈ items, Exact item) : Exact (.array items)
  | object {members : List (String × Json)} (h : ∀ member ∈ members, Exact member.2) : Exact (.object members)

attribute [simp] Exact.null Exact.bool Exact.int Exact.string

@[simp] theorem exact_array {items : List Json} : (array items).Exact ↔ ∀ item ∈ items, item.Exact :=
  ⟨fun | .array h => h, .array⟩

@[simp] theorem exact_object {members : List (String × Json)} :
    (object members).Exact ↔ ∀ member ∈ members, member.2.Exact :=
  ⟨fun | .object h => h, .object⟩

/-- What kind of value a text begins with, if it begins with one. -/
def kindAt : List Char → Option String
  | [] => none
  | c :: _ =>
    if isNumeral c then some "a number"
    else match c with
      | 'n' => some "null"
      | 't' | 'f' => some "a bool"
      | '"' => some "a string"
      | '[' => some "a list"
      | '\x7b' => some "a map"
      | _ => none

theorem kindAt_int (value : Int) (rest : List Char) :
    kindAt ((toString value).toList ++ rest) = some "a number" := by
  have hne : (toString value).toList ≠ [] := by
    rw [toList_int]
    split <;> simp [Nat.toDigits_ne_nil]
  obtain ⟨c, digits, heq⟩ := List.exists_cons_of_ne_nil hne
  rw [heq]
  exact if_pos (isNumeral_of_mem_int (heq ▸ List.mem_cons_self))

theorem Exact.kindAt_write {value : Json} (h : value.Exact) (rest : List Char) :
    kindAt (write value rest) = some value.kindName := by
  cases h with
  | bool value => cases value <;> rfl
  | int value => exact kindAt_int value rest
  | _ => rfl

theorem Exact.kindName_eq {value other : Json} {rest rest' : List Char} (hv : value.Exact)
    (ho : other.Exact) (h : write value rest = write other rest') : value.kindName = other.kindName :=
  Option.some_inj.1 ((hv.kindAt_write rest).symm.trans (h ▸ ho.kindAt_write rest'))

/-- A member of an object, followed by more text. -/
def writeMember (member : String × Json) (rest : List Char) : List Char :=
  writeString member.1 (':' :: write member.2 rest)

theorem writeItems_false (items : List Json) (rest : List Char) :
    writeItems false items rest = more write ']' rest items := by
  induction items with
  | nil => rfl
  | cons item items ih => rw [writeItems, ih]; rfl

theorem writeItems_true (items : List Json) (rest : List Char) :
    writeItems true items rest = listed write ']' rest items := by
  cases items with
  | nil => rfl
  | cons item items => rw [writeItems, writeItems_false]; rfl

theorem writeMembers_false (members : List (String × Json)) (rest : List Char) :
    writeMembers false members rest = more writeMember '\x7d' rest members := by
  induction members with
  | nil => rfl
  | cons member members ih => rw [writeMembers, ih]; rfl

theorem writeMembers_true (members : List (String × Json)) (rest : List Char) :
    writeMembers true members rest = listed writeMember '\x7d' rest members := by
  cases members with
  | nil => rfl
  | cons member members => rw [writeMembers, writeMembers_false]; rfl

theorem Exact.head?_write_ne {value : Json} (h : value.Exact) (rest : List Char) :
    (write value rest).head? ≠ some ']' := by
  have hkind := h.kindAt_write rest
  intro hhead
  obtain ⟨text, heq⟩ := List.head?_eq_some_iff.1 hhead
  rw [heq] at hkind
  exact absurd hkind (by simp [kindAt, isNumeral, RawJson.isDigit])

theorem Told.member {member : String × Json} (h : Told write Exact member.2) :
    Told writeMember (fun member => member.2.Exact) member := by
  intro other rest rest' ho hrest hrest' heq
  obtain ⟨hname, hvalue⟩ := writeString_inj heq
  obtain ⟨hsame, hmore⟩ := h ho hrest hrest' (List.cons.inj hvalue).2
  exact ⟨Prod.ext hname hsame, hmore⟩

/-- **A value can be told from what follows it.** -/
theorem Exact.told {value : Json} (hv : value.Exact) : Told write Exact value := by
  induction hv with
  | null =>
    intro other rest rest' ho _ _ heq
    have hkind := Exact.null.kindName_eq ho heq
    cases ho with
    | null => exact ⟨rfl, by simpa [write] using heq⟩
    | _ => simp [kindName] at hkind
  | bool value =>
    intro other rest rest' ho _ _ heq
    have hkind := (Exact.bool value).kindName_eq ho heq
    cases ho with
    | bool other => cases value <;> cases other <;> simp_all [write]
    | _ => simp [kindName] at hkind
  | int value =>
    intro other rest rest' ho hrest hrest' heq
    have hkind := (Exact.int value).kindName_eq ho heq
    cases ho with
    | int other =>
      obtain ⟨rfl, hmore⟩ := int_inj hrest hrest' heq
      exact ⟨rfl, hmore⟩
    | _ => simp [kindName] at hkind
  | string value =>
    intro other rest rest' ho _ _ heq
    have hkind := (Exact.string value).kindName_eq ho heq
    cases ho with
    | string other =>
      obtain ⟨rfl, hmore⟩ := writeString_inj heq
      exact ⟨rfl, hmore⟩
    | _ => simp [kindName] at hkind
  | @array items h ih =>
    intro other rest rest' ho _ _ heq
    have hkind := (Exact.array h).kindName_eq ho heq
    cases ho with
    | @array others ho =>
      simp only [write, List.cons.injEq, true_and, writeItems_true] at heq
      obtain ⟨rfl, hmore⟩ := listed_inj (by decide) (by decide) (fun _ hx => hx.head?_write_ne) h ih ho heq
      exact ⟨rfl, hmore⟩
    | _ => simp [kindName] at hkind
  | @object members h ih =>
    intro other rest rest' ho _ _ heq
    have hkind := (Exact.object h).kindName_eq ho heq
    cases ho with
    | @object others ho =>
      simp only [write, List.cons.injEq, true_and, writeMembers_true] at heq
      obtain ⟨rfl, hmore⟩ := listed_inj (by decide) (by decide) (fun _ _ _ => by simp [writeMember, writeString])
        h (fun member hm => Told.member (ih member hm)) ho heq
      exact ⟨rfl, hmore⟩
    | _ => simp [kindName] at hkind

/-- Whoever is written alike is the same. -/
theorem compact_inj {value other : Json} (hv : value.Exact) (ho : other.Exact)
    (h : value.compact = other.compact) : value = other :=
  have hend : Ends [] := rfl
  (hv.told ho hend hend (String.ofList_inj.1 h)).1

end Json
end VariantGraph
