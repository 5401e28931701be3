import VariantGraph.Proofs.Property.Populate
import VariantGraph.Stage.ConfigVariables
/-!
# Settling configuration variables keeps properties neat

What a variable contributes is no deeper than the entries of the variable, so that conditional fields
still hold branches and branches still hold no maps (`visit_spec`).
-/
namespace VariantGraph

namespace Properties

variable {n : Nat} {props : Properties}

/-- What a path leads to is no deeper than the fields of the tree. -/
theorem NeatBy.follow? (h : NeatBy (fun _ => n) props) {names : List String} {value : Value}
    (hf : props.follow? names = some value) : value.Neat n := by
  induction names generalizing props n with
  | nil => cases hf
  | cons name rest ih =>
    cases rest with
    | nil => exact h.find? hf
    | cons next rest =>
      simp only [Properties.follow?] at hf
      split at hf
      · next inner hi =>
        cases n with
        | zero => exact (h.find? hi).elim
        | succ n => exact (ih (neatBy_map.1 (h.find? hi)) hf).mono
      · cases hf

theorem NeatBy.getMap? (h : NeatBy (fun _ => n + 1) props) {path : String} {inner : Properties}
    (hm : props.getMap? path = some inner) : NeatBy (fun _ => n) inner := by
  obtain ⟨value, hv, hmap⟩ := Option.bind_eq_some_iff.1 hm
  cases value with
  | map fields =>
    injection hmap with hmap
    subst hmap
    exact neatBy_map.1 (h.follow? hv)
  | _ => cases hmap

theorem NeatBy.without {depth : String → Nat} (h : NeatBy depth props) {name : String}
    (hname : pathComponents name = [name]) : NeatBy depth (props.without name) := by
  unfold Properties.without remove?
  rw [hname, removeAt?]
  cases Table.find? props name with
  | none => exact h
  | some value => exact h.erase name

/-- Shallow fields are as deep as any name allows. -/
theorem NeatBy.fieldDepth (h : NeatBy (fun _ => 1) props) : NeatBy fieldDepth props := by
  refine h.mono fun entry _ hv => ?_
  unfold VariantGraph.fieldDepth
  split
  · exact hv.mono.mono
  · exact hv.mono

/-- A conditional field of a neat tree holds branches without maps. -/
theorem NeatBy.branches (h : NeatBy VariantGraph.fieldDepth props) {field : String}
    (hfield : pathComponents field = [field]) (hne : field ≠ "soong_config_variables")
    {branches : Properties} (hm : props.getMap? field = some branches) : NeatBy (fun _ => 1) branches := by
  rw [Properties.getMap?, get?_of_single hfield] at hm
  obtain ⟨value, hv, hmap⟩ := Option.bind_eq_some_iff.1 hm
  have hneat := h.find? hv
  rw [VariantGraph.fieldDepth, if_neg hne] at hneat
  cases value with
  | map fields => injection hmap with hmap; subst hmap; exact neatBy_map.1 hneat
  | _ => cases hmap

end Properties

namespace ConfigVariables

theorem single_field : pathComponents field = [field] := by decide +kernel

theorem single_conditionsDefault : pathComponents conditionsDefault = [conditionsDefault] := by decide +kernel

theorem fillFields_eq_map (value : String) (fields : Properties) :
    fillFields value fields = fields.map fun entry => (entry.1, fill value entry.2) := by
  induction fields with
  | nil => rfl
  | cons entry rest ih => rw [fillFields, ih]; rfl

theorem neat_fill {n : Nat} (text : String) {value : Value} (h : value.Neat n) :
    (fill text value).Neat n := by
  induction n generalizing value with
  | zero =>
    cases value with
    | map fields => exact h.elim
    | _ => simp only [fill, Value.Neat]
  | succ n ih =>
    cases value with
    | map fields =>
      rw [fill, fillFields_eq_map]
      refine ⟨List.pairwise_map.2 h.1, fun entry he => ?_⟩
      obtain ⟨old, hold, rfl⟩ := List.mem_map.1 he
      exact ih (h.2 old hold)
    | _ => simp only [fill, Value.Neat]

theorem neatBy_fillFields {n : Nat} (text : String) {fields : Properties}
    (h : fields.NeatBy fun _ => n) : Properties.NeatBy (fun _ => n) (fillFields text fields) := by
  have hm := neat_fill text (Properties.neatBy_map.2 h)
  rw [fill] at hm
  exact Properties.neatBy_map.1 hm

/-- What a variable contributes is no deeper than its entries. -/
theorem neatBy_contribution {name : String} {kind : Variable} {value : Option String}
    {entries chosen : Properties} (he : entries.NeatBy fun _ => 1)
    (h : contribution name kind value entries = .ok (some chosen)) : chosen.NeatBy fun _ => 1 := by
  have hsettings : (settings entries).NeatBy fun _ => 1 := he.without single_conditionsDefault
  have hmap : ∀ {path}, entries.getMap? path = some chosen → chosen.NeatBy fun _ => 1 := fun hp =>
    (he.getMap? hp).mono fun _ _ hv => hv.mono
  unfold contribution at h
  split at h
  · injection h with h
    split at h
    · injection h with h; exact h ▸ hsettings
    · exact hmap h
  · next allowed value =>
    split at h
    · injection h with h
      cases hg : entries.getMap? value with
      | some branch => rw [hg] at h; injection h with h; exact hmap (h ▸ hg)
      | none => rw [hg] at h; exact hmap h
    · cases h
  · injection h with h
    injection h with h
    exact h ▸ neatBy_fillFields _ hsettings
  · injection h with h
    exact hmap h

/-- What holds while the variables of a variant are settled one after another; neat properties stay
neat. -/
structure Settling (variant : Variant) (visit : Visit) : Prop where
  visited : visit.variant = variant
  requests : visit.effects.requests = []
  split : visit.effects.split = none
  neat : variant.properties.NeatBy fieldDepth → visit.properties.NeatBy fieldDepth

theorem Settling.settle {variant : Variant} {visit : Visit} (h : Settling variant visit) (name : String)
    {entry : Value} (he : variant.properties.NeatBy fieldDepth → entry.Neat 2) :
    Settling variant (settle visit name entry) := by
  unfold ConfigVariables.settle
  cases hc : choose visit.env.config name entry with
  | error fault => exact ⟨h.visited, h.requests, h.split, h.neat⟩
  | ok result =>
    cases result with
    | none => exact h
    | some chosen =>
      have hchosen : variant.properties.NeatBy fieldDepth → chosen.NeatBy fun _ => 1 := by
        intro hn
        unfold choose at hc
        cases entry with
        | map entries =>
          simp only at hc
          split at hc
          · cases hc
          · exact neatBy_contribution (Properties.neatBy_map.1 (he hn)) hc
        | _ => cases hc
      have hneat := fun hn => (h.neat hn).appendAt "" (hchosen hn).fieldDepth
      show Settling variant (visit.change (visit.properties.append chosen))
      unfold Visit.change Visit.report
      split
      · exact ⟨h.visited, h.requests, h.split, hneat⟩
      · exact ⟨h.visited, h.requests, h.split, hneat⟩

/-- A visit of the stage asks for neat properties at most. -/
theorem settling_act {variant : Variant} {visit : Visit} (h : Settling variant visit) :
    Settling variant (act visit) := by
  unfold act
  split
  · exact h
  · split
    · exact h
    · next contributions hm =>
      have hcontributions : ∀ entry ∈ contributions,
          variant.properties.NeatBy fieldDepth → entry.2.Neat 2 := by
        intro entry he hn
        rw [Properties.getMap?, Properties.get?_of_single single_field] at hm
        obtain ⟨value, hv, hmap⟩ := Option.bind_eq_some_iff.1 hm
        have hneat := (h.neat hn).find? hv
        cases value with
        | map fields => injection hmap with hmap; subst hmap; exact hneat.2 entry he
        | _ => cases hmap
      have hstart : Settling variant (visit.setProperties (visit.properties.without field)) :=
        ⟨h.visited, h.requests, h.split, fun hn => (h.neat hn).without single_field⟩
      clear hm
      revert hstart
      generalize visit.setProperties (visit.properties.without field) = start
      induction contributions generalizing start with
      | nil => exact fun hs => hs
      | cons entry rest ih =>
        intro hs
        exact ih (fun e he => hcontributions e (List.mem_cons_of_mem _ he)) _
          (hs.settle entry.1 (hcontributions entry List.mem_cons_self))

/-- The stage asks for properties only, and for neat ones in place of neat ones. -/
theorem visit_spec (env : Environment) (graph : Graph) (id : VariantId) :
    (Stage.configVariables.visit env graph id).requests = [] ∧
      (Stage.configVariables.visit env graph id).split = none ∧
      ((graph.variant id).properties.NeatBy fieldDepth →
        ((Stage.configVariables.visit env graph id).properties.getD
          (graph.variant id).properties).NeatBy fieldDepth) := by
  have hstart : Settling (graph.variant id) ⟨"soong_config", env, graph, id, .none⟩ :=
    ⟨rfl, rfl, rfl, fun hn => hn⟩
  have hs := settling_act hstart
  have hneat := hs.neat
  rw [Visit.properties, hs.visited] at hneat
  exact ⟨hs.requests, hs.split, hneat⟩

end ConfigVariables
end VariantGraph
