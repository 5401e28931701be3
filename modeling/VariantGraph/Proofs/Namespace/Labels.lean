import Mathlib.Data.List.Forall2
import VariantGraph.Proofs.Namespace.Visibility
/-!
# What printed labels say

A label is read in three ways (`ofLabel?_eq_some_iff`): as a word behind `//visibility:`, as a package up to the first
colon with a target behind it, or as a target of the package it is written in. The label of a rule is written in one of
the first two ways, so it says the same in every package. It can be read again if the path of its package has no colon
and is not `visibility`; otherwise it is refused, and never taken for another rule (`ofLabel?_label`). A path that was
read from a label is of that kind, but the path of the package in which a label is written may be any text
(`legible_iff_of_parse`).
-/
namespace VariantGraph.VisibilityRule

/-- A path that can stand in a label: it ends at the first colon, and is not the word that introduces the others. -/
structure Nameable (path : String) : Prop where
  colon : ':' ∉ path.toList
  word : path ≠ "visibility"

instance (path : String) : Decidable (Nameable path) :=
  decidable_of_iff (':' ∉ path.toList ∧ path ≠ "visibility") ⟨fun h => ⟨h.1, h.2⟩, fun h => ⟨h.colon, h.word⟩⟩

/-- A rule whose label can be read again. -/
def Writable : VisibilityRule → Prop
  | package path | subtree path => Nameable path
  | _ => True

/-- A label about the package it is written in. -/
def IsRelative (text : String) : Prop := ∃ target, text = ":" ++ target

variable {home reader text path target word : String} {labels : List String} {rule other : VisibilityRule}
  {rules others : List VisibilityRule}

/-! ## One label -/

theorem colon_of_ofTarget? (h : ofTarget? path target = some rule) : ':' ∉ target.toList := by
  unfold ofTarget? at h
  split at h
  · decide
  · decide
  · cases h

theorem colon_of_ofWord? (h : ofWord? word = some rule) : ':' ∉ word.toList := by
  unfold ofWord? at h
  split at h
  · decide
  · decide
  · decide
  · decide
  · cases h

/-- How a label is read. -/
inductive Reads (home : String) : String → VisibilityRule → Prop
  | word {word : String} {rule : VisibilityRule} (h : ofWord? word = some rule) :
      Reads home ("//visibility:" ++ word) rule
  | absolute {path target : String} {rule : VisibilityRule} (hpath : Nameable path)
      (h : ofTarget? path target = some rule) : Reads home ("//" ++ path ++ ":" ++ target) rule
  | relative {target : String} {rule : VisibilityRule} (h : ofTarget? home target = some rule) :
      Reads home (":" ++ target) rule

/-- What stands behind the slashes is cut at its first colon, so only one path introduces the words. -/
theorem stripLead?_word (hpath : ':' ∉ path.toList) :
    Text.stripLead? "//visibility:" ("//" ++ path ++ ":" ++ target) = some word ↔
      path = "visibility" ∧ word = target := by
  rw [Text.stripLead?_eq_some_iff]
  constructor
  · intro h
    have hrest : path.toList ++ ':' :: target.toList = "visibility".toList ++ ':' :: word.toList := by
      simpa using congrArg String.toList h
    have hcut : Text.cutChars? ':' (path.toList ++ ':' :: target.toList) = some (path.toList, target.toList) :=
      Text.cutChars?_eq_some_iff.2 ⟨rfl, hpath⟩
    have hcut' : Text.cutChars? ':' (path.toList ++ ':' :: target.toList) = some ("visibility".toList, word.toList) :=
      Text.cutChars?_eq_some_iff.2 ⟨hrest, by decide⟩
    obtain ⟨hpath, htarget⟩ := Prod.mk.inj (Option.some.inj (hcut.symm.trans hcut'))
    exact ⟨String.toList_inj.1 hpath, String.toList_inj.1 htarget.symm⟩
  · rintro ⟨rfl, rfl⟩
    exact String.toList_inj.1 (by simp)

theorem ofLabel?_eq_some_iff : ofLabel? home text = some rule ↔ Reads home text rule := by
  unfold ofLabel?
  constructor
  · intro h
    split at h
    · next word hstrip =>
      rw [Text.stripLead?_eq_some_iff.1 hstrip]
      exact .word h
    · next hnone =>
      split at h
      · next rest hstrip =>
        obtain ⟨⟨path, target⟩, hcut, h⟩ := Option.bind_eq_some_iff.1 h
        obtain ⟨hrest, hcolon⟩ := Text.cut?_eq_some_iff.1 hcut
        obtain rfl : text = "//" ++ path ++ ":" ++ target := by
          rw [Text.stripLead?_eq_some_iff.1 hstrip]
          exact String.toList_inj.1 (by simp [hrest])
        refine .absolute ⟨hcolon, fun hword => ?_⟩ h
        rw [(stripLead?_word hcolon).2 ⟨hword, rfl⟩] at hnone
        cases hnone
      · obtain ⟨target, hstrip, h⟩ := Option.bind_eq_some_iff.1 h
        rw [Text.stripLead?_eq_some_iff.1 hstrip]
        exact .relative h
  · rintro (h | ⟨hpath, h⟩ | h)
    · next word =>
      rw [Text.stripLead?_eq_some_iff.2 rfl]
      exact h
    · next path target =>
      have hword : Text.stripLead? "//visibility:" ("//" ++ path ++ ":" ++ target) = none :=
        Option.eq_none_iff_forall_ne_some.2 fun word hword => hpath.word ((stripLead?_word hpath.colon).1 hword).1
      have hstrip : Text.stripLead? "//" ("//" ++ path ++ ":" ++ target) = some (path ++ ":" ++ target) :=
        Text.stripLead?_eq_some_iff.2 (by simp only [String.append_assoc])
      have hcut : Text.cut? ':' (path ++ ":" ++ target) = some (path, target) :=
        Text.cut?_eq_some_iff.2 ⟨by simp, hpath.colon⟩
      simp only [hword, hstrip, hcut, Option.bind_some]
      exact h
    · next target =>
      have hword : Text.stripLead? "//visibility:" (":" ++ target) = none := by simp [Text.stripLead?, Text.after?]
      have hslashes : Text.stripLead? "//" (":" ++ target) = none := by simp [Text.stripLead?, Text.after?]
      have hcolon : Text.stripLead? ":" (":" ++ target) = some target := Text.stripLead?_eq_some_iff.2 rfl
      simp only [hword, hslashes, hcolon, Option.bind_some]
      exact h

/-- Words and targets have no colon, so a label that is read has two parts only. -/
theorem reads_absolute_iff : Reads home ("//" ++ path ++ ":" ++ target) rule ↔
    (path = "visibility" ∧ ofWord? target = some rule) ∨ (Nameable path ∧ ofTarget? path target = some rule) := by
  constructor
  · generalize htext : "//" ++ path ++ ":" ++ target = text
    rintro (h | ⟨hpath, h⟩ | h)
    · next word =>
      have hparts : "visibility".toList ++ ':' :: word.toList = path.toList ++ ':' :: target.toList := by
        simpa using (congrArg String.toList htext).symm
      obtain ⟨hpath, -, hword⟩ :=
        (List.append_cons_inj_of_notMem (by decide) (colon_of_ofWord? h)).1 hparts
      exact .inl ⟨String.toList_inj.1 hpath.symm, String.toList_inj.1 hword ▸ h⟩
    · next path' target' =>
      have hparts : path'.toList ++ ':' :: target'.toList = path.toList ++ ':' :: target.toList := by
        simpa using (congrArg String.toList htext).symm
      obtain ⟨hsame, -, htarget⟩ :=
        (List.append_cons_inj_of_notMem hpath.colon (colon_of_ofTarget? h)).1 hparts
      rw [← String.toList_inj.1 hsame, ← String.toList_inj.1 htarget]
      exact .inr ⟨hpath, h⟩
    · simpa using congrArg String.toList htext
  · rintro (⟨rfl, h⟩ | ⟨hpath, h⟩)
    · exact .word h
    · exact .absolute hpath h

/-- What stands before the colon in the label of a rule. -/
def labelPath : VisibilityRule → String
  | package path | subtree path => path
  | _ => "visibility"

/-- What stands behind it. -/
def labelTarget : VisibilityRule → String
  | everyone => "public"
  | nobody => "private"
  | override => "override"
  | legacyEveryone => "legacy_public"
  | package _ => "__pkg__"
  | subtree _ => "__subpackages__"

theorem label_eq (rule : VisibilityRule) : rule.label = "//" ++ rule.labelPath ++ ":" ++ rule.labelTarget := by
  cases rule with
  | package path | subtree path => exact String.toList_inj.1 (by simp [label, labelPath, labelTarget])
  | _ => rfl

/-- What is read again is the rule that was printed, and nothing else. -/
theorem ofLabel?_label : ofLabel? reader rule.label = some other ↔ other = rule ∧ rule.Writable := by
  have hword : ¬ Nameable "visibility" := fun h => h.word rfl
  rw [ofLabel?_eq_some_iff, label_eq, reads_absolute_iff]
  cases rule <;> simp [labelPath, labelTarget, hword, ofWord?, ofTarget?, Writable, eq_comm, and_comm]

/-- A rule that was read from a label can be written unless the label leaves out a path that cannot. -/
theorem Reads.writable_iff (h : Reads home text rule) : rule.Writable ↔ Nameable home ∨ ¬ IsRelative text := by
  have hslash : ∀ rest : String, ¬ IsRelative ("//" ++ rest) := by
    rintro rest ⟨target, h⟩
    simpa using congrArg String.toList h
  have htarget : ∀ {path target : String}, ofTarget? path target = some rule → (rule.Writable ↔ Nameable path) := by
    intro path target h
    unfold ofTarget? at h
    split at h <;> cases h <;> rfl
  cases h with
  | @word word _ h =>
    have hwritable : rule.Writable := by
      unfold ofWord? at h
      split at h <;> cases h <;> trivial
    exact iff_of_true hwritable (.inr (hslash ("visibility:" ++ word)))
  | @absolute path target _ hpath h =>
    rw [String.append_assoc, String.append_assoc]
    exact iff_of_true ((htarget h).2 hpath) (.inr (hslash _))
  | @relative target _ h =>
    have hrelative : IsRelative (":" ++ target) := ⟨target, rfl⟩
    rw [htarget h]
    simp [hrelative]

/-! ## Lists of labels -/

theorem ofLabels_eq_ok_iff :
    ofLabels home labels = .ok rules ↔ List.Forall₂ (fun text rule => ofLabel? home text = some rule) labels rules := by
  induction labels generalizing rules with
  | nil => simp [ofLabels, eq_comm]
  | cons text labels ih =>
    unfold ofLabels
    cases rules with
    | nil => cases ofLabel? home text <;> cases ofLabels home labels <;> simp [Except.map]
    | cons rule rules =>
      rw [List.forall₂_cons, ← ih]
      cases ofLabel? home text <;> cases ofLabels home labels <;> simp [Except.map]

/-- The labels of an accepted list are read as the same list or refused, in every package. -/
theorem parse_map_label_iff (hlist : listError? rules = none) :
    parse reader (rules.map label) = .ok others ↔ others = rules ∧ ∀ rule ∈ rules, rule.Writable := by
  have hlabels : ofLabels reader (rules.map label) = .ok others ↔ others = rules ∧ ∀ rule ∈ rules, rule.Writable := by
    have hsame : (fun rule other => ofLabel? reader (label rule) = some other) =
        fun rule other => rule.Writable ∧ rule = other := by
      funext rule other
      rw [ofLabel?_label, and_comm, eq_comm (a := other)]
    rw [ofLabels_eq_ok_iff, List.forall₂_map_left_iff, hsame, List.forall₂_and_left, List.forall₂_eq_eq_eq,
      and_comm, eq_comm]
  rw [parse_eq_ok_iff, hlabels]
  exact ⟨fun h => h.1, fun h => ⟨h, h.1 ▸ hlist⟩⟩

/-- Whether the printed rules say in every package what they are. -/
def Legible (rules : List VisibilityRule) : Prop := ∀ reader, parse reader (rules.map label) = .ok rules

theorem legible_iff (hlist : listError? rules = none) : Legible rules ↔ ∀ rule ∈ rules, rule.Writable := by
  simp [Legible, parse_map_label_iff hlist]

/-- **Printed labels say what was read**, unless a label leaves out a path that cannot stand in one; they are refused
then, and never say anything else. -/
theorem legible_iff_of_parse (h : parse home labels = .ok rules) :
    (Legible rules ↔ Nameable home ∨ ∀ text ∈ labels, ¬ IsRelative text) ∧
      ∀ reader others, parse reader (rules.map label) = .ok others → others = rules := by
  obtain ⟨hlabels, hlist⟩ := parse_eq_ok_iff.1 h
  refine ⟨(legible_iff hlist).trans ?_, fun reader others h => ((parse_map_label_iff hlist).1 h).1⟩
  rw [ofLabels_eq_ok_iff] at hlabels
  clear h hlist
  induction hlabels with
  | nil => simp
  | @cons text rule labels rules hfirst _ ih =>
    rw [List.forall_mem_cons, List.forall_mem_cons, (ofLabel?_eq_some_iff.1 hfirst).writable_iff, ih, or_and_left]

end VariantGraph.VisibilityRule
