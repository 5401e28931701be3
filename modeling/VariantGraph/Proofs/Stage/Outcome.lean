import VariantGraph.Proofs.Stage.Run
/-!
# What a variant can become

On a visit a variant keeps its module, its dependencies and its variations but for one more axis, and
gets the dependencies that were asked for.
-/
namespace VariantGraph

variable {registry : Registry} {package : String} {variant w : Variant}

/-! ## Dependencies that were asked for -/

theorem mem_keys_link (variant : Variant) (tag : Tag) (target : ModuleId) (property : String)
    (k : ModuleId × Tag) : k ∈ (variant.link tag target property).dependencies.map Dependency.key ↔
      k ∈ variant.dependencies.map Dependency.key ∨ k = (target, tag) := by
  have hmark : ∀ ds : List Dependency, (ds.map fun d =>
      if Graph.Dependency.isOn d tag target then { d with checked := true } else d).map Dependency.key =
        ds.map Dependency.key := by
    intro ds
    rw [List.map_map]
    apply List.map_congr_left
    intro d _
    simp only [Function.comp_apply]
    split <;> rfl
  simp only [Variant.link, hmark]
  split
  · next hany =>
    refine ⟨Or.inl, ?_⟩
    rintro (h | rfl)
    · exact h
    · obtain ⟨d, hd, hon⟩ := List.any_eq_true.1 hany
      simp only [Graph.Dependency.isOn, Bool.and_eq_true, decide_eq_true_eq] at hon
      exact List.mem_map.2 ⟨d, hd, Prod.ext hon.1 hon.2⟩
  · rw [List.map_append, List.mem_append]
    exact or_congr_right List.mem_singleton

theorem checked_link {tag : Tag} {target : ModuleId} {property : String} {d : Dependency}
    (h : d ∈ (variant.link tag target property).dependencies) :
    d.checked = true ∨ d ∈ variant.dependencies := by
  obtain ⟨d', hd', rfl⟩ := List.mem_map.1 h
  split
  · exact Or.inl rfl
  · next hoff =>
    refine Or.inr ?_
    split at hd'
    · exact hd'
    · rcases List.mem_append.1 hd' with hd' | hd'
      · exact hd'
      · obtain rfl := List.mem_singleton.1 hd'
        exact absurd (by simp [Graph.Dependency.isOn]) hoff

theorem mem_keys_linkAll (requests : List Request) (k : ModuleId × Tag) :
    k ∈ (variant.linkAll registry package requests).dependencies.map Dependency.key ↔
      k ∈ variant.dependencies.map Dependency.key ∨
        ∃ request ∈ requests, registry.resolve package request.reference = .ok k.1 ∧ request.tag = k.2 := by
  induction requests generalizing variant with
  | nil => simp [Variant.linkAll]
  | cons request requests ih =>
    rw [Variant.linkAll, List.foldl_cons, ← Variant.linkAll, ih]
    simp only [List.mem_cons, exists_eq_or_imp]
    cases hr : registry.resolve package request.reference with
    | error cause => simp
    | ok target =>
      simp only [mem_keys_link, Except.ok.injEq]
      have hk : k = (target, request.tag) ↔ target = k.1 ∧ request.tag = k.2 := by
        rw [Prod.ext_iff]; exact and_congr eq_comm eq_comm
      rw [hk, or_assoc]

theorem checked_linkAll {requests : List Request} {d : Dependency}
    (h : d ∈ (variant.linkAll registry package requests).dependencies) :
    d.checked = true ∨ d ∈ variant.dependencies := by
  induction requests generalizing variant with
  | nil => exact Or.inr h
  | cons request requests ih =>
    rw [Variant.linkAll, List.foldl_cons, ← Variant.linkAll] at h
    rcases ih h with hc | hd
    · exact Or.inl hc
    · split at hd
      · exact checked_link hd
      · exact Or.inr hd

theorem linkAll_same (registry : Registry) (package : String) (variant : Variant) (requests : List Request) :
    (variant.linkAll registry package requests).module = variant.module ∧
      (variant.linkAll registry package requests).variations = variant.variations ∧
      (variant.linkAll registry package requests).properties = variant.properties := by
  induction requests generalizing variant with
  | nil => exact ⟨rfl, rfl, rfl⟩
  | cons request requests ih =>
    rw [Variant.linkAll, List.foldl_cons, ← Variant.linkAll]
    cases registry.resolve package request.reference with
    | error cause => exact ih variant
    | ok target => exact ih (variant.link request.tag target request.property)

/-! ## Outcomes -/

/-- An outcome has the dependencies of the linked variant. -/
theorem dependencies_of_mem_outcome {effects : Effects} (h : w ∈ effects.outcome registry package variant) :
    w.dependencies = (effects.linked registry package variant).dependencies := by
  unfold Effects.outcome at h
  split at h
  · split at h
    · rw [List.mem_singleton.1 h]
    · obtain ⟨⟨value, properties⟩, -, rfl⟩ := List.mem_map.1 h; rfl
  · rw [List.mem_singleton.1 h]

theorem module_of_mem_outcome {effects : Effects} (h : w ∈ effects.outcome registry package variant) :
    w.module = variant.module := by
  have hlinked : (effects.linked registry package variant).module = variant.module :=
    (linkAll_same ..).1
  unfold Effects.outcome at h
  split at h
  · split at h
    · rw [List.mem_singleton.1 h]; exact hlinked
    · obtain ⟨⟨value, properties⟩, -, rfl⟩ := List.mem_map.1 h; exact hlinked
  · rw [List.mem_singleton.1 h]; exact hlinked

/-- An outcome has one more value at most, on the axis of the split. -/
theorem variations_of_mem_outcome {effects : Effects} (h : w ∈ effects.outcome registry package variant) :
    w.variations = variant.variations ∨ ∃ split value, effects.split = some split ∧
      w.variations = variant.variations.assign split.axis value := by
  have hlinked : (effects.linked registry package variant).variations = variant.variations :=
    (linkAll_same ..).2.1
  unfold Effects.outcome at h
  split at h
  · next split hsplit =>
    split at h
    · rw [List.mem_singleton.1 h]; exact Or.inl hlinked
    · obtain ⟨⟨value, properties⟩, -, rfl⟩ := List.mem_map.1 h
      exact Or.inr ⟨split, value, hsplit, congrArg (Variations.assign · split.axis value) hlinked⟩
  · rw [List.mem_singleton.1 h]; exact Or.inl hlinked

/-- The dependencies of an outcome are the old ones and those that were asked for. -/
theorem mem_keys_outcome {effects : Effects} (h : w ∈ effects.outcome registry package variant)
    (k : ModuleId × Tag) : k ∈ w.dependencies.map Dependency.key ↔
      k ∈ variant.dependencies.map Dependency.key ∨ ∃ request ∈ effects.requests,
        registry.resolve package request.reference = .ok k.1 ∧ request.tag = k.2 := by
  rw [dependencies_of_mem_outcome h]
  exact mem_keys_linkAll effects.requests k

theorem checked_outcome {effects : Effects} (h : w ∈ effects.outcome registry package variant)
    {d : Dependency} (hd : d ∈ w.dependencies) : d.checked = true ∨ d ∈ variant.dependencies := by
  rw [dependencies_of_mem_outcome h] at hd
  rcases checked_linkAll hd with hc | hd
  · exact Or.inl hc
  · exact Or.inr hd

/-! ## Outcomes of visits that ask for little -/

/-- A split without further effects leaves one new variant for each value, in order. -/
theorem outcome_of_split {effects : Effects} {axis : String} {values : List (String × Properties)}
    (hp : effects.properties = none) (hr : effects.requests = [])
    (hs : effects.split = some ⟨axis, values⟩) (hne : values ≠ []) :
    effects.outcome registry package variant =
      values.map fun entry => variant.child axis entry.1 entry.2 := by
  have hlinked : effects.linked registry package variant = variant := by
    rw [Effects.linked, hr, hp]; rfl
  simp only [Effects.outcome, hs, if_neg hne, hlinked]

theorem mem_outcome_of_split {effects : Effects} {axis : String} {values : List (String × Properties)}
    (hp : effects.properties = none) (hr : effects.requests = [])
    (hs : effects.split = some ⟨axis, values⟩) (hne : values ≠ []) :
    w ∈ effects.outcome registry package variant ↔
      ∃ entry ∈ values, w = variant.child axis entry.1 entry.2 := by
  rw [outcome_of_split hp hr hs hne]
  simp only [List.mem_map, eq_comm]

theorem outcome_of_unsplit {effects : Effects} (hs : effects.split = none) :
    effects.outcome registry package variant = [effects.linked registry package variant] := by
  simp only [Effects.outcome, hs]

theorem mem_outcome_of_unsplit {effects : Effects} (hs : effects.split = none) :
    w ∈ effects.outcome registry package variant ↔ w = effects.linked registry package variant := by
  rw [outcome_of_unsplit hs, List.mem_singleton]

/-! ## What a stage turns a variant into -/

open VariantGraph.Graph

variable {env : Environment} {stage : Stage} {start : Graph} {u : VariantId}

theorem Turns.module (h : Turns env stage start u w) : w.module = (start.variant u).module := by
  obtain ⟨effects, -, hmem⟩ := h
  have hm : w.module = (start.variant u).bare.module := module_of_mem_outcome hmem
  exact hm

theorem Turns.live (h : Turns env stage start u w) : start.isLive u = true := by
  obtain ⟨effects, hv, -⟩ := h
  exact hv.live

/-- A stage that does not split a variant leaves its variations. -/
theorem Turns.variations (h : Turns env stage start u w)
    (hs : ∀ graph, (stage.visit env graph u).split = none) : w.variations = (start.variant u).variations := by
  obtain ⟨effects, hv, hmem⟩ := h
  obtain ⟨graph, -, -, rfl⟩ := hv.seen
  rw [(mem_outcome_of_unsplit (hs graph)).1 hmem]
  exact (linkAll_same ..).2.1

/-- A live variant after a stage, and the one before it of which it came. -/
theorem Transition.origin {after : Graph} (h : Transition env stage start after) {v : VariantId}
    (hv : after.isLive v = true) : ∃ u, start.isLive u = true ∧ Turns env stage start u (after.variant v).bare ∧
      (start.variant u).module = (after.variant v).module ∧
      (start.moduleOf u).header = (after.moduleOf v).header := by
  obtain ⟨u, hu⟩ := h.sound v hv
  have hm : (after.variant v).module = (start.variant u).module := hu.module
  refine ⟨u, hu.live, hu, hm.symm, ?_⟩
  unfold moduleOf
  rw [← hm]; exact (h.headers.header _).symm

end VariantGraph
