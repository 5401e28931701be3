import VariantGraph.Proofs.Property.Merge
import VariantGraph.Property.Select
/-!
# What selecting branches does to each field

Selecting puts the lists of the chosen branches behind those of the tree and leaves all other
conditional fields alone, since branches hold no maps (`getList_select`, `getMap?_select`).
-/
namespace VariantGraph.Properties

variable {props branches : Properties} {field : String} {keys : List String}

/-- The branch stored under a key, if it is one. -/
def branchAt? (branches : Properties) (key : String) : Option Properties :=
  (Table.find? branches key).bind Value.map?

/-- The branches that some keys choose: those that they name, else the one for everything else. -/
def chosen (branches : Properties) (keys : List String) : List Properties :=
  let named := keys.filterMap (branchAt? branches)
  if named = [] then (branchAt? branches conditionsDefault).toList else named

theorem branch?_eq_ok {key : String} {found : Option Properties}
    (h : branch? branches field key = .ok found) : branchAt? branches key = found := by
  unfold branch? at h
  unfold branchAt?
  split at h
  · next hf => injection h with h; rw [hf, ← h]; rfl
  · next branch hf => injection h with h; rw [hf, ← h]; rfl
  · cases h

theorem branches?_eq_ok {found : List Properties} (h : branches? branches field keys = .ok found) :
    keys.filterMap (branchAt? branches) = found := by
  induction keys generalizing found with
  | nil => injection h
  | cons key keys ih =>
    unfold branches? at h
    cases hb : branch? branches field key with
    | error error => rw [hb] at h; cases h
    | ok first =>
      cases hr : branches? branches field keys with
      | error error => rw [hb, hr] at h; cases h
      | ok rest =>
        rw [hb, hr] at h
        injection h with h
        rw [List.filterMap_cons, branch?_eq_ok hb, ih hr, ← h]
        cases first <;> rfl

theorem choose_eq_ok {found : List Properties} {named : Bool}
    (h : choose branches field keys = .ok (found, named)) : chosen branches keys = found := by
  unfold choose at h
  cases hb : branches? branches field keys with
  | error error => rw [hb] at h; cases h
  | ok first =>
    rw [hb] at h
    simp only [bind, Except.bind, pure, Except.pure] at h
    rw [chosen, branches?_eq_ok hb]
    cases first with
    | cons branch rest =>
      simp only [List.isEmpty_cons, Bool.false_eq_true, if_false, Except.ok.injEq, Prod.mk.injEq] at h
      rw [if_neg (List.cons_ne_nil _ _)]; exact h.1
    | nil =>
      simp only [List.isEmpty_nil, if_true] at h
      rw [if_pos rfl]
      cases hd : branch? branches field conditionsDefault with
      | error error => rw [hd] at h; cases h
      | ok fallback =>
        rw [hd] at h
        simp only [Except.ok.injEq, Prod.mk.injEq] at h
        rw [branch?_eq_ok hd]; exact h.1

/-- Chosen branches are flat if all branches are. -/
theorem neatBy_of_mem_chosen (hb : NeatBy (fun _ => 1) branches) {branch : Properties}
    (h : branch ∈ chosen branches keys) : NeatBy (fun _ => 0) branch := by
  have hat : ∀ {key}, branchAt? branches key = some branch → NeatBy (fun _ => 0) branch := by
    intro key hk
    obtain ⟨value, hf, hm⟩ := Option.bind_eq_some_iff.1 hk
    cases value with
    | map fields => injection hm with hm; subst hm; exact neatBy_map.1 (hb.find? hf)
    | _ => cases hm
  simp only [chosen] at h
  split at h
  · exact hat (Option.mem_toList.1 h)
  · obtain ⟨key, -, hk⟩ := List.mem_filterMap.1 h
    exact hat hk

theorem find?_without (hfield : pathComponents field = [field]) {name : String} (hne : name ≠ field) :
    Table.find? (props.without field) name = Table.find? props name := by
  unfold without remove?
  rw [hfield, removeAt?]
  cases hf : Table.find? props field with
  | none => rfl
  | some value =>
    simp only [Option.map_some]
    rw [Table.find?_erase, if_neg hne.symm]

section Select
variable (hb : ∀ branches, props.getMap? field = some branches → NeatBy (fun _ => 1) branches)
  (h : (props.select field keys).error? = none)
include hb h

/-- A selection that ran to its end appended the chosen branches, or changed nothing. -/
theorem select_cases :
    ((props.select field keys).state = props ∧ chosen ((props.getMap? field).getD []) keys = []) ∨
    ((appendAll (props.without field) (chosen ((props.getMap? field).getD []) keys)).error? = none ∧
      (props.select field keys).state =
        (appendAll (props.without field) (chosen ((props.getMap? field).getD []) keys)).state ∧
      ∀ branch ∈ chosen ((props.getMap? field).getD []) keys, NeatBy (fun _ => 0) branch) := by
  unfold select at h ⊢
  cases hg : props.get? field with
  | none =>
    have hm : props.getMap? field = none := by rw [getMap?, hg]; rfl
    refine Or.inl ⟨rfl, ?_⟩
    rw [hm]
    have hnamed : keys.filterMap (branchAt? []) = [] := by
      rw [List.filterMap_eq_nil_iff]; exact fun _ _ => rfl
    simp only [chosen, Option.getD_none, hnamed, if_true]; rfl
  | some value =>
    cases value with
    | map branches =>
      have hm : props.getMap? field = some branches := by rw [getMap?, hg]; rfl
      simp only [hg] at h ⊢
      rw [hm, Option.getD_some]
      cases hc : choose branches field keys with
      | error error => rw [hc] at h; cases h
      | ok result =>
        obtain ⟨found, named⟩ := result
        have hchosen := choose_eq_ok hc
        simp only [hc] at h ⊢
        rw [hchosen]
        cases found with
        | nil => exact Or.inl ⟨rfl, rfl⟩
        | cons branch rest =>
          refine Or.inr ⟨(Attempt.error?_andThen.1 h).1, ?_, ?_⟩
          · exact Attempt.state_andThen _ (Attempt.error?_andThen.1 h).1
          · exact fun b hmem => neatBy_of_mem_chosen (hb branches hm) (hchosen ▸ hmem)
    | _ => simp [hg, Attempt.stopped, Attempt.error?] at h

variable (hfield : pathComponents field = [field])
include hfield

theorem getList_select {name : String} (hname : pathComponents name = [name]) (hne : name ≠ field) :
    getList (props.select field keys).state name = getList props name ++
      (chosen ((props.getMap? field).getD []) keys).flatMap (getList · name) := by
  rcases select_cases hb h with ⟨hs, hc⟩ | ⟨hok, hs, hneat⟩
  · rw [hs, hc]; simp
  · rw [hs, getList_appendAll hname (fun b hmem => (hneat b hmem).ordered) hok]
    simp only [getList, get?_of_single hname, find?_without hfield hne]

theorem getMap?_select {name : String} (hname : pathComponents name = [name]) (hne : name ≠ field) :
    getMap? (props.select field keys).state name = getMap? props name := by
  rcases select_cases hb h with ⟨hs, -⟩ | ⟨hok, hs, hneat⟩
  · rw [hs]
  · rw [hs, getMap?_appendAll hname hneat hok]
    simp only [getMap?, get?_of_single hname, find?_without hfield hne]

end Select

end VariantGraph.Properties
