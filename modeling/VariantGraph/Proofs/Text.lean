import VariantGraph.Text
/-!
# Cutting texts, and putting them together again

A beginning is found where a text begins so, and a separator where there is one (`after?_eq_some_iff`,
`cutChars?_eq_none_iff`). The pieces of a text determine it, and those of two texts with a separator between them are
the pieces of both (`pieces_append_cons`). So one text has the first pieces of another exactly if the other one is the
same, or goes on behind it with a separator (`pieces_isPrefix_iff`). Splitting and joining undo each other
(`join_split`, `split_join`).
-/
namespace VariantGraph.Text

variable {sep : Char} {text start rest : List Char}

theorem after?_eq_some_iff : after? start text = some rest ↔ text = start ++ rest := by
  induction start generalizing text with
  | nil => simp [after?]
  | cons c start ih =>
    cases text with
    | nil => simp [after?]
    | cons d text => by_cases h : c = d <;> simp [after?, h, ih, eq_comm]

theorem cutChars?_eq_none_iff : cutChars? sep text = none ↔ sep ∉ text := by
  induction text with
  | nil => simp [cutChars?]
  | cons c text ih =>
    by_cases h : c = sep
    · simp [cutChars?, h]
    · simp [cutChars?, h, Ne.symm h, ih]

/-! ## Pieces -/

/-- What holds no separator is one piece. -/
theorem pieces_of_not_mem (h : sep ∉ text) : pieces sep text = [text] := by
  induction text with
  | nil => rfl
  | cons c text ih =>
    rw [List.mem_cons, not_or] at h
    rw [pieces, if_neg (Ne.symm h.1), ih h.2]

theorem pieces_append_cons : pieces sep (text ++ sep :: rest) = pieces sep text ++ pieces sep rest := by
  induction text with
  | nil => simp [pieces]
  | cons c text ih =>
    by_cases h : c = sep
    · simp [pieces, h, ih]
    · obtain ⟨first, others, hpieces⟩ := List.exists_cons_of_ne_nil (pieces_ne_nil sep text)
      simp [pieces, h, ih, hpieces]

theorem pieces_injective {other : List Char} (h : pieces sep text = pieces sep other) : text = other := by
  rw [← intercalate_pieces sep text, h, intercalate_pieces]

theorem intercalate_append_cons {first others : List (List Char)} {piece : List Char} (h : first ≠ []) :
    [sep].intercalate (first ++ piece :: others) =
      [sep].intercalate first ++ sep :: [sep].intercalate (piece :: others) := by
  induction first with
  | nil => exact absurd rfl h
  | cons next first ih =>
    cases first with
    | nil => simp
    | cons second first =>
      have hrest := ih (List.cons_ne_nil _ _)
      simp only [List.cons_append] at hrest
      simp [hrest]

/-- What was put together from pieces without separators falls into them again. -/
theorem pieces_intercalate {parts : List (List Char)} (hne : parts ≠ []) (h : ∀ part ∈ parts, sep ∉ part) :
    pieces sep ([sep].intercalate parts) = parts := by
  induction parts with
  | nil => exact absurd rfl hne
  | cons part parts ih =>
    have hpart : pieces sep part = [part] := pieces_of_not_mem (h part List.mem_cons_self)
    cases parts with
    | nil => rw [List.intercalate_singleton, hpart]
    | cons second parts =>
      have hrest := ih (List.cons_ne_nil _ _) fun other hother => h other (List.mem_cons_of_mem _ hother)
      rw [List.intercalate_cons_cons, List.append_assoc, List.singleton_append, pieces_append_cons, hpart, hrest]
      rfl

/-- One text has the first pieces of another one if that is the same, or goes on with a separator. -/
theorem pieces_isPrefix_iff :
    pieces sep start <+: pieces sep text ↔ text = start ∨ ∃ rest, text = start ++ sep :: rest := by
  constructor
  · rintro ⟨more, hmore⟩
    have htext := intercalate_pieces sep text
    rw [← hmore] at htext
    cases more with
    | nil => exact .inl (by rw [← htext, List.append_nil, intercalate_pieces])
    | cons piece more =>
      rw [intercalate_append_cons (pieces_ne_nil sep start), intercalate_pieces] at htext
      exact .inr ⟨_, htext.symm⟩
  · rintro (rfl | ⟨rest, rfl⟩)
    · exact List.prefix_rfl
    · exact ⟨_, pieces_append_cons.symm⟩

/-! ## Strings -/

theorem stripLead?_eq_some_iff {lead text rest : String} : stripLead? lead text = some rest ↔ text = lead ++ rest := by
  rw [stripLead?, Option.map_eq_some_iff]
  simp only [after?_eq_some_iff]
  constructor
  · rintro ⟨chars, htext, rfl⟩
    exact String.toList_inj.1 (by rw [htext, String.toList_append, String.toList_ofList])
  · rintro rfl
    exact ⟨rest.toList, String.toList_append, String.ofList_toList⟩

theorem cut?_eq_some_iff {text before after : String} : cut? sep text = some (before, after) ↔
    text.toList = before.toList ++ sep :: after.toList ∧ sep ∉ before.toList := by
  simp only [cut?, Option.map_eq_some_iff, Prod.exists, cutChars?_eq_some_iff, Prod.mk.injEq]
  constructor
  · rintro ⟨first, last, hcut, rfl, rfl⟩
    simpa only [String.toList_ofList] using hcut
  · intro hcut
    exact ⟨before.toList, after.toList, hcut, String.ofList_toList, String.ofList_toList⟩

theorem split_ne_nil (sep : Char) (text : String) : split sep text ≠ [] := by simp [split, pieces_ne_nil]

theorem not_mem_of_mem_split {piece text : String} (h : piece ∈ split sep text) : sep ∉ piece.toList := by
  obtain ⟨chars, hchars, rfl⟩ := List.mem_map.1 h
  simpa using not_mem_of_mem_pieces hchars

theorem join_split (sep : Char) (text : String) : join (String.singleton sep) (split sep text) = text := by
  refine String.toList_inj.1 ?_
  rw [join, split, String.toList_intercalate, List.map_map]
  simp [Function.comp_def, intercalate_pieces]

theorem split_join {parts : List String} (hne : parts ≠ []) (h : ∀ part ∈ parts, sep ∉ part.toList) :
    split sep (join (String.singleton sep) parts) = parts := by
  have hne' : parts.map String.toList ≠ [] := by simpa using hne
  have h' : ∀ part ∈ parts.map String.toList, sep ∉ part := by simpa using h
  rw [split, join, String.toList_intercalate, String.toList_singleton, pieces_intercalate hne' h', List.map_map]
  simp [Function.comp_def]

theorem split_append (sep : Char) (text rest : String) :
    split sep (text ++ String.singleton sep ++ rest) = split sep text ++ split sep rest := by
  simp [split, pieces_append_cons]

theorem split_isPrefix_iff {start text : String} : split sep start <+: split sep text ↔
    text = start ∨ ∃ rest, text = start ++ String.singleton sep ++ rest := by
  constructor
  · intro h
    rw [split, split, List.prefix_map_iff_of_injective fun _ _ => String.ofList_injective, pieces_isPrefix_iff,
      String.toList_inj] at h
    refine h.imp_right fun ⟨rest, hrest⟩ => ⟨String.ofList rest, String.toList_inj.1 ?_⟩
    simp [hrest]
  · rintro (rfl | ⟨rest, rfl⟩)
    · exact List.prefix_rfl
    · exact ⟨split sep rest, (split_append sep start rest).symm⟩

/-- Cuts a text at its last separator. -/
def cutLast? (sep : Char) (text : String) : Option (String × String) :=
  (cutChars? sep text.toList.reverse).map fun (after, before) =>
    (String.ofList before.reverse, String.ofList after.reverse)

/-- Cutting at the last separator takes off the last piece. -/
theorem split_of_cutLast?_eq_some {text before after : String} (h : cutLast? sep text = some (before, after)) :
    split sep text = split sep before ++ [after] := by
  obtain ⟨⟨last, first⟩, hcut, hparts⟩ := Option.map_eq_some_iff.1 h
  obtain ⟨rfl, rfl⟩ := Prod.mk.inj hparts
  obtain ⟨htext, hlast⟩ := cutChars?_eq_some_iff.1 hcut
  have hsep : sep ∉ last.reverse := by simpa using hlast
  have htext : text.toList = first.reverse ++ sep :: last.reverse := by simpa [List.reverse_eq_iff] using htext
  simp [split, htext, pieces_append_cons, pieces_of_not_mem hsep]

theorem split_of_cutLast?_eq_none {text : String} (h : cutLast? sep text = none) : split sep text = [text] := by
  have hsep : sep ∉ text.toList := by simpa using cutChars?_eq_none_iff.1 (Option.map_eq_none_iff.1 h)
  rw [split, pieces_of_not_mem hsep, List.map_singleton, String.ofList_toList]

end VariantGraph.Text
