import VariantGraph.Proofs.Graph.Consistent
/-!
# Splitting keeps a graph consistent

The first half of a split (`grow`) keeps all lists right, and the targets on every module but the one
that is split. The second half (`refresh`) finds the targets on that module anew for its dependents.
Since the list of dependents is exact, also where a module depends on itself, no target is left out
(`Linked.consistent_refresh`).
-/
namespace VariantGraph.Graph

variable {graph : Graph}

/-! ## Splitting: the new variants stand in the place of the old one -/

theorem mem_replaceBy {old v : Nat} {created l : List Nat} :
    v ∈ replaceBy old created l ↔ (v ∈ l ∧ v ≠ old) ∨ (old ∈ l ∧ v ∈ created) := by
  simp only [replaceBy, List.mem_flatMap]
  constructor
  · rintro ⟨x, hx, hv⟩
    by_cases he : x = old
    · subst he; rw [if_pos rfl] at hv; exact Or.inr ⟨hx, hv⟩
    · rw [if_neg he, List.mem_singleton] at hv
      subst hv; exact Or.inl ⟨hx, he⟩
  · rintro (⟨hv, he⟩ | ⟨ho, hv⟩)
    · exact ⟨v, hv, by rw [if_neg he]; simp⟩
    · exact ⟨old, ho, by rwa [if_pos rfl]⟩

theorem nodup_replaceBy {old : Nat} {created : List Nat} (hc : created.Nodup) :
    ∀ {l : List Nat}, l.Nodup → (∀ v ∈ l, v ∉ created) → (replaceBy old created l).Nodup
  | [], _, _ => List.nodup_nil
  | x :: l, hl, hd => by
    obtain ⟨hx, hl⟩ := List.nodup_cons.1 hl
    have ih : (replaceBy old created l).Nodup :=
      nodup_replaceBy hc hl fun v hv => hd v (List.mem_cons_of_mem x hv)
    have hstep : replaceBy old created (x :: l) =
        (if x = old then created else [x]) ++ replaceBy old created l := rfl
    rw [hstep, List.nodup_append]
    refine ⟨by split <;> simp [hc], ih, ?_⟩
    rintro a ha b hb rfl
    rw [mem_replaceBy] at hb
    split at ha
    · next he =>
      subst he
      rcases hb with ⟨hb, -⟩ | ⟨hb, -⟩
      · exact hd a (List.mem_cons_of_mem x hb) ha
      · exact hx hb
    · obtain rfl := List.mem_singleton.1 ha
      rcases hb with ⟨hb, -⟩ | ⟨-, hb⟩
      · exact hx hb
      · exact hd a List.mem_cons_self hb

section Split
variable {old : Nat} (axis : String) {values : List (String × Properties)}

theorem keys_derive (parent : Variant) (value : String) (properties : Properties) :
    (graph.derive parent axis value properties).dependencies.map Dependency.key =
      parent.dependencies.map Dependency.key := by
  rw [derive, List.map_map]; rfl

theorem mem_derive {parent : Variant} {value : String} {properties : Properties} {d : Dependency}
    (hd : d ∈ (graph.derive parent axis value properties).dependencies) :
    ∃ d' ∈ parent.dependencies, d = graph.retarget (parent.variations.assign axis value) d' := by
  obtain ⟨d', hd', rfl⟩ := List.mem_map.1 hd
  exact ⟨d', hd', rfl⟩

/-- What is live after the first half of a split, with its entry. -/
theorem isLive_grow {v : Nat} :
    (graph.grow old axis values).isLive v = true ↔
      (graph.isLive v = true ∧ v ≠ old) ∨ v ∈ graph.createdBy values := by
  constructor
  · intro h
    rcases lt_or_created_of_grow h with ⟨-, hne, hl⟩ | ⟨k, hk, rfl⟩
    · exact Or.inl ⟨hl, hne⟩
    · exact Or.inr (mem_createdBy.2 ⟨by omega, by omega⟩)
  · rintro (⟨hl, hne⟩ | hv)
    · rw [isLive_eq, variant_grow_of_lt (lt_of_isLive hl), if_neg hne, ← isLive_eq]; exact hl
    · obtain ⟨h1, h2⟩ := mem_createdBy.1 hv
      obtain ⟨k, rfl⟩ := Nat.exists_eq_add_of_le h1
      rw [isLive_eq, variant_grow_created (by omega)]; rfl

theorem variant_grow_of_isLive {v : Nat} (hl : graph.isLive v = true) (hne : v ≠ old) :
    (graph.grow old axis values).variant v = graph.variant v := by
  rw [variant_grow_of_lt (lt_of_isLive hl), if_neg hne]

theorem exists_derive (old : Nat) {v : Nat} (hv : v ∈ graph.createdBy values) :
    ∃ value properties, (value, properties) ∈ values ∧
      (graph.grow old axis values).variant v = graph.derive (graph.variant old) axis value properties := by
  obtain ⟨h1, h2⟩ := mem_createdBy.1 hv
  obtain ⟨k, rfl⟩ := Nat.exists_eq_add_of_le h1
  have hk : k < values.length := by omega
  exact ⟨_, _, List.getElem_mem hk, variant_grow_created hk⟩

theorem mem_dependents_grow {m : Nat} (hm : m < graph.modules.length) (v : Nat) :
    v ∈ ((graph.grow old axis values).module m).dependents ↔
      if (graph.variant old).dependencies.any (·.module = m) then
        (v ∈ (graph.module m).dependents ∧ v ≠ old) ∨ v ∈ graph.createdBy values
      else v ∈ (graph.module m).dependents := by
  rw [module_grow hm]
  simp only [moduleAfterSplit]
  split <;> simp

theorem variants_grow {m : Nat} (hm : m < graph.modules.length) :
    ((graph.grow old axis values).module m).variants =
      if m = (graph.variant old).module then replaceBy old (graph.createdBy values) (graph.module m).variants
      else (graph.module m).variants := by
  rw [module_grow hm]; rfl

/-! ### What the first half of a split keeps -/

/-- The dependents stay exact: the new variants take the place of the old one on all it depends on. -/
theorem Linked.dependents_grow (h : Linked graph) {m : Nat} (hm : m < graph.modules.length) (v : Nat) :
    v ∈ ((graph.grow old axis values).module m).dependents ↔ (graph.grow old axis values).isLive v = true ∧
      ∃ d ∈ ((graph.grow old axis values).variant v).dependencies, d.module = m := by
  rw [mem_dependents_grow axis hm, isLive_grow axis, h.dependents m hm]
  split
  · next hany =>
    obtain ⟨d₀, hd₀, he₀⟩ := List.any_eq_true.1 hany
    constructor
    · rintro (⟨⟨hl, hd⟩, hn⟩ | hc)
      · exact ⟨Or.inl ⟨hl, hn⟩, by rwa [variant_grow_of_isLive axis hl hn]⟩
      · obtain ⟨value, properties, -, he⟩ := exists_derive axis old hc
        refine ⟨Or.inr hc, graph.retarget ((graph.variant old).variations.assign axis value) d₀, ?_,
          of_decide_eq_true he₀⟩
        rw [he]
        exact List.mem_map_of_mem hd₀
    · rintro ⟨⟨hl, hn⟩ | hc, hd⟩
      · rw [variant_grow_of_isLive axis hl hn] at hd; exact Or.inl ⟨⟨hl, hd⟩, hn⟩
      · exact Or.inr hc
  · next hany =>
    have hnone : ∀ d ∈ (graph.variant old).dependencies, d.module ≠ m := fun d hd he =>
      hany (List.any_eq_true.2 ⟨d, hd, by simpa using he⟩)
    constructor
    · rintro ⟨hl, d, hd, he⟩
      have hn : v ≠ old := by rintro rfl; exact hnone d hd he
      exact ⟨Or.inl ⟨hl, hn⟩, d, by rwa [variant_grow_of_isLive axis hl hn], he⟩
    · rintro ⟨⟨hl, hn⟩ | hc, d, hd, he⟩
      · rw [variant_grow_of_isLive axis hl hn] at hd; exact ⟨hl, d, hd, he⟩
      · obtain ⟨value, properties, -, hv⟩ := exists_derive axis old hc
        rw [hv] at hd
        obtain ⟨d', hd', rfl⟩ := mem_derive axis hd
        exact absurd he (hnone d' hd')

/-- What is live keeps its module, or has that of the variant it was made of. -/
theorem module_grow_of_isLive {v : Nat} (hv : (graph.grow old axis values).isLive v = true) :
    (graph.isLive v = true ∧ v ≠ old ∧
      ((graph.grow old axis values).variant v).module = (graph.variant v).module) ∨
    (v ∈ graph.createdBy values ∧
      ((graph.grow old axis values).variant v).module = (graph.variant old).module) := by
  rcases (isLive_grow axis).1 hv with ⟨hl, hn⟩ | hc
  · exact Or.inl ⟨hl, hn, by rw [variant_grow_of_isLive axis hl hn]⟩
  · obtain ⟨value, properties, -, he⟩ := exists_derive axis old hc
    exact Or.inr ⟨hc, by rw [he]; rfl⟩

theorem Linked.listed_grow (h : Linked graph) (ho : graph.isLive old = true) {v : Nat}
    (hv : (graph.grow old axis values).isLive v = true) :
    v ∈ ((graph.grow old axis values).moduleOf v).variants := by
  unfold moduleOf
  rcases module_grow_of_isLive axis hv with ⟨hl, hn, hm⟩ | ⟨hc, hm⟩
  · rw [hm, variants_grow axis (h.owner v hl)]
    split
    · exact mem_replaceBy.2 (Or.inl ⟨h.listed v hl, hn⟩)
    · exact h.listed v hl
  · rw [hm, variants_grow axis (h.owner old ho), if_pos rfl]
    exact mem_replaceBy.2 (Or.inr ⟨h.listed old ho, hc⟩)

theorem Linked.current_grow (h : Linked graph) {m : Nat} (hm : m < graph.modules.length) {v : Nat}
    (hv : v ∈ ((graph.grow old axis values).module m).variants) :
    (graph.grow old axis values).isLive v = true ∧ ((graph.grow old axis values).variant v).module = m := by
  rw [variants_grow axis hm] at hv
  rw [isLive_grow axis]
  split at hv
  · next hpm =>
    rcases mem_replaceBy.1 hv with ⟨hv, hn⟩ | ⟨-, hc⟩
    · obtain ⟨hl, he⟩ := h.current m hm v hv
      exact ⟨Or.inl ⟨hl, hn⟩, by rwa [variant_grow_of_isLive axis hl hn]⟩
    · obtain ⟨value, properties, -, he⟩ := exists_derive axis old hc
      exact ⟨Or.inr hc, by rw [he, hpm]; rfl⟩
  · next hpm =>
    obtain ⟨hl, he⟩ := h.current m hm v hv
    have hn : v ≠ old := by rintro rfl; exact hpm he.symm
    exact ⟨Or.inl ⟨hl, hn⟩, by rwa [variant_grow_of_isLive axis hl hn]⟩

theorem Linked.inhabited_grow (h : Linked graph) (hne : values ≠ []) {m : Nat}
    (hm : m < graph.modules.length) : ((graph.grow old axis values).module m).variants ≠ [] := by
  rw [variants_grow axis hm]
  split
  · obtain ⟨x, hx⟩ := List.exists_mem_of_ne_nil _ (h.inhabited m hm)
    apply List.ne_nil_of_mem (a := if x = old then graph.variants.length else x)
    have hpos := List.length_pos_iff.2 hne
    split
    · next he =>
      exact mem_replaceBy.2 (Or.inr ⟨he ▸ hx, mem_createdBy.2 ⟨Nat.le_refl _, by omega⟩⟩)
    · next he => exact mem_replaceBy.2 (Or.inl ⟨hx, he⟩)
  · exact h.inhabited m hm

theorem Linked.once_grow (h : Linked graph) {m : Nat} (hm : m < graph.modules.length) :
    ((graph.grow old axis values).module m).variants.Nodup := by
  rw [variants_grow axis hm]
  split
  · refine nodup_replaceBy (nodup_createdBy ..) (h.once m hm) fun v hv hc => ?_
    -- a new variant has a number that none had before
    have hlt := lt_of_isLive (h.current m hm v hv).1
    have hge := (mem_createdBy.1 hc).1
    omega
  · exact h.once m hm

theorem Linked.grow (h : Linked graph) (ho : graph.isLive old = true) (hne : values ≠ []) :
    Linked (graph.grow old axis values) where
  owner v hv := by
    rw [length_modules_grow]
    rcases module_grow_of_isLive axis hv with ⟨hl, -, hm⟩ | ⟨-, hm⟩
    · rw [hm]; exact h.owner v hl
    · rw [hm]; exact h.owner old ho
  bound v hv d hd := by
    rw [length_modules_grow]
    rcases (isLive_grow axis).1 hv with ⟨hl, hn⟩ | hc
    · rw [variant_grow_of_isLive axis hl hn] at hd; exact h.bound v hl d hd
    · obtain ⟨value, properties, -, he⟩ := exists_derive axis old hc
      rw [he] at hd
      obtain ⟨d', hd', rfl⟩ := mem_derive axis hd
      exact h.bound old ho d' hd'
  dependents m hm := h.dependents_grow axis (by rwa [length_modules_grow] at hm)
  listed v hv := h.listed_grow axis ho hv
  current m hm v hv := h.current_grow axis (by rwa [length_modules_grow] at hm) hv
  once m hm := h.once_grow axis (by rwa [length_modules_grow] at hm)
  inhabited m hm := h.inhabited_grow axis hne (by rwa [length_modules_grow] at hm)
  distinct v hv := by
    rcases (isLive_grow axis).1 hv with ⟨hl, hn⟩ | hc
    · rw [variant_grow_of_isLive axis hl hn]; exact h.distinct v hl
    · obtain ⟨value, properties, -, he⟩ := exists_derive axis old hc
      rw [he, keys_derive]; exact h.distinct old ho

/-- Away from the module that is split, the first half of a split changes no match. -/
theorem matching_grow (h : Linked graph) (variations : Variations) (tag : Tag) {m : Nat}
    (hm : m < graph.modules.length) (hne : m ≠ (graph.variant old).module) :
    (graph.grow old axis values).matching variations tag m = graph.matching variations tag m := by
  refine matching_congr _ _ (by rw [variants_grow axis hm, if_neg hne]) fun t ht => ?_
  rw [variant_grow_of_lt (lt_of_isLive (h.current m hm t ht).1)]
  split <;> rfl

theorem Consistent.targetsOn_grow (h : Consistent graph) (ho : graph.isLive old = true) :
    TargetsOn (graph.grow old axis values) (· ≠ (graph.variant old).module) := by
  intro v hv d hd hne
  rcases (isLive_grow axis).1 hv with ⟨hl, hn⟩ | hc
  · rw [variant_grow_of_isLive axis hl hn] at hd ⊢
    rw [matching_grow axis h.toLinked _ _ (h.bound v hl d hd) hne]
    exact h.targets v hl d hd trivial
  · obtain ⟨value, properties, -, he⟩ := exists_derive axis old hc
    rw [he] at hd ⊢
    obtain ⟨d', hd', rfl⟩ := mem_derive axis hd
    exact (matching_grow axis h.toLinked _ _ (h.bound old ho d' hd') hne).symm

end Split

/-! ## Splitting: the targets on the module are found anew -/

theorem mem_refreshed {m : Nat} {variant : Variant} {d : Dependency}
    (hd : d ∈ (graph.refreshed m variant).dependencies) :
    (d ∈ variant.dependencies ∧ d.module ≠ m) ∨
      d.module = m ∧ d.targets = graph.matching variant.variations d.tag d.module := by
  obtain ⟨d', hd', he⟩ := List.mem_map.1 hd
  by_cases hm : d'.module = m
  · rw [if_pos hm] at he; subst he; exact Or.inr ⟨hm, rfl⟩
  · rw [if_neg hm] at he; subst he; exact Or.inl ⟨hd', hm⟩

section RefreshFor
variable (graph : Graph) (m : Nat) (sources : List Nat)

theorem sameKeys_refreshed (variant : Variant) : SameKeys (graph.refreshed m variant) variant := by
  refine ⟨rfl, rfl, ?_⟩
  rw [refreshed, List.map_map]
  apply List.map_congr_left
  intro d _
  simp only [Function.comp_apply]
  split <;> rfl

theorem sameKeys_refreshFor (v : Nat) : SameKeys ((graph.refreshFor m sources).variant v) (graph.variant v) := by
  rw [variant_refreshFor]
  split
  · exact sameKeys_refreshed ..
  · exact ⟨rfl, rfl, rfl⟩

theorem sameKeys_refresh (v : Nat) : SameKeys ((graph.refresh m).variant v) (graph.variant v) :=
  sameKeys_refreshFor ..

theorem variations_refreshFor (v : Nat) :
    ((graph.refreshFor m sources).variant v).variations = (graph.variant v).variations := by
  rw [variant_refreshFor]; split <;> rfl

theorem matching_refreshFor (variations : Variations) (tag : Tag) (target : Nat) :
    (graph.refreshFor m sources).matching variations tag target = graph.matching variations tag target :=
  matching_congr _ _ rfl fun t _ => variations_refreshFor graph m sources t

end RefreshFor

/-- Finding the targets on one module anew makes a graph consistent whose other targets are right:
the dependents of the module are all that can hold a target on it. -/
theorem Linked.consistent_refresh (h : Linked graph) {m : Nat} (hm : m < graph.modules.length)
    (ht : TargetsOn graph (· ≠ m)) : Consistent (graph.refresh m) := by
  have hk := sameKeys_refresh graph m
  refine ⟨h.congr rfl hk, ?_⟩
  intro v hl d hd _
  rw [isLive_eq, (hk v).live, ← isLive_eq] at hl
  rw [refresh_eq_refreshFor, matching_refreshFor, variations_refreshFor]
  obtain ⟨d', hd', he, -⟩ := (hk v).mem hd
  rw [variant_refresh] at hd
  split at hd
  · rcases mem_refreshed hd with ⟨hd, hne⟩ | ⟨-, htargets⟩
    · exact ht v hl d hd hne
    · exact htargets
  · next hskip =>
    refine ht v hl d hd fun hdm => hskip ⟨hl, ?_⟩
    exact (h.dependents m hm v).2 ⟨hl, d', hd', he.trans hdm⟩

theorem Consistent.split (h : Consistent graph) {old : Nat} (axis : String)
    (values : List (String × Properties)) (ho : graph.isLive old = true) :
    Consistent (graph.split old axis values) := by
  by_cases hne : values = []
  · subst hne; rw [split_nil]; exact h
  · rw [split_eq_refresh hne]
    refine (h.toLinked.grow axis ho hne).consistent_refresh ?_ (h.targetsOn_grow axis ho)
    rw [length_modules_grow]; exact h.owner old ho

end VariantGraph.Graph
