import VariantGraph.Proofs.Graph.Reachable
import VariantGraph.Proofs.Graph.Renaming
import VariantGraph.Proofs.Namespace.Renaming
import VariantGraph.Proofs.Stage.Yield
import VariantGraph.Proofs.Table
/-!
# The order in which visits are carried out

What is asked for on the visits of a wave is carried out one variant after another. Two visits carried
out in either order make the same variants under other numbers (`Yields.swap`), and visits carried out on
graphs that differ in their numbers keep the difference what it was (`Renamed.applyAll`). So the order
only decides on numbers (`Build.Ready.perm_applyAll`, `apply_confluent`), and on what retired variants
last pointed at, which is not kept up to date (`apply_stale`).
-/
namespace VariantGraph
open VariantGraph.Graph

/-! ## Requests with other numbers -/

section Requests
variable {σ φ : Equiv.Perm Nat} {env env' : Environment} {a b : Graph}

/-- Requests get the same answers with other numbers. -/
theorem Graph.Renamed.answers (hr : Registry.Renamed σ env.registry env'.registry) (h : Renamed σ φ a b)
    {v : VariantId} (hv : v < a.variants.length) (request : Request) :
    b.answers env' (φ v) request = (a.answers env v request).map σ := by
  have hname := Module.name_congr (h.moduleOf_header hv)
  have hpackage := Module.package_congr (h.moduleOf_header hv)
  unfold Graph.answers Request.answer
  dsimp only
  rw [hr.resolve, hname, hpackage]
  cases env.registry.resolve (a.moduleOf v).package request.reference with
  | error cause => rfl
  | ok target =>
    have hhead := h.header target
    simp only [Except.map, h.can, hr.denied, Module.name_congr hhead, Module.package_congr hhead,
      Module.visibility_congr hhead]
    split
    · rfl
    · cases env.registry.deniedBy? (a.moduleOf v).package (a.module target).visibility
          (a.module target).package <;> rfl

variable (σ φ) {answer answer' : Request → Except BuildError ModuleId}
  (ha : ∀ request, answer' request = (answer request).map σ)
include ha

theorem Variant.linkGranted_rename (variant : Variant) (requests : List Request) :
    (variant.rename σ φ).linkGranted answer' requests = (variant.linkGranted answer requests).rename σ φ := by
  induction requests generalizing variant with
  | nil => rfl
  | cons request requests ih =>
    rw [Variant.linkGranted_cons, Variant.linkGranted_cons, ha]
    cases answer request with
    | error cause => exact ih variant
    | ok target =>
      simp only [Except.map, Variant.link_rename]
      exact ih _

theorem Effects.whole_rename (variant : Variant) (effects : Effects) :
    effects.whole answer' (variant.rename σ φ) = (effects.whole answer variant).rename σ φ :=
  Variant.linkGranted_rename σ φ ha { variant with properties := effects.properties.getD variant.properties } _

theorem Effects.remains_rename (variant : Variant) (effects : Effects) :
    effects.remains answer' (variant.rename σ φ) = (effects.remains answer variant).rename σ φ := by
  rw [Effects.remains, Effects.whole_rename σ φ ha]
  rfl

theorem Effects.faults_congr (effects : Effects) : effects.faults answer' = effects.faults answer := by
  unfold Effects.faults Request.refusals
  congr 2
  funext request
  rw [ha]
  cases answer request <;> rfl

end Requests

/-! ## Numbers that stand in the place of a visited one -/

theorem map_replaceBy (φ : Equiv.Perm Nat) (old : VariantId) (created l : List VariantId) :
    (replaceBy old created l).map φ = replaceBy (φ old) (created.map φ) (l.map φ) := by
  simp only [replaceBy, List.map_flatMap, List.flatMap_map, φ.injective.eq_iff]
  refine List.flatMap_congr fun v _ => ?_
  split <;> rfl

/-- Two variants are replaced in either order alike. -/
theorem replaceBy_replaceBy {i j : VariantId} {created : List VariantId} (created' l : List VariantId)
    (hj : j ∉ created) : replaceBy j created' (replaceBy i created l) =
      l.flatMap fun v => if v = i then created else if v = j then created' else [v] := by
  rw [replaceBy, replaceBy, List.flatMap_assoc]
  refine List.flatMap_congr fun v _ => ?_
  split
  · exact replaceBy_eq_self hj
  · simp

theorem map_range' (φ : Nat → Nat) {start start' length : Nat} (h : ∀ k < length, φ (start + k) = start' + k) :
    (List.range' start length).map φ = List.range' start' length := by
  refine List.ext_getElem (by simp) fun k hk _ => ?_
  have hk : k < length := by simpa using hk
  simpa using h k hk

theorem Effects.map_numbers (effects : Effects) (φ : Nat → Nat) {free free' id id' : Nat} (hid : φ id = id')
    (hfree : ∀ k < effects.values.length, φ (free + k) = free' + k) :
    (effects.numbers free id).map φ = effects.numbers free' id' := by
  unfold numbers
  split
  · rw [List.map_singleton, hid]
  · exact map_range' φ hfree

/-! ## Visits on graphs that differ in their numbers -/

section Renamed
variable {σ φ : Equiv.Perm Nat} {env env' : Environment} {id : VariantId} {effects : Effects}
  {a b a' b' : Build} (hr : Registry.Renamed σ env.registry env'.registry)
include hr

/-- One visit, carried out on two graphs that differ in their numbers. -/
theorem Yields.renamed (h : Renamed σ φ a.graph b.graph) (hid : id < a.graph.variants.length)
    (ha : Yields env id effects a a') (hb : Yields env' (φ id) effects b b') :
    Renamed σ φ a'.graph b'.graph := by
  have hanswers := h.answers hr hid
  have hvisited := h.bare id hid
  have hfree : ∀ v, a.graph.variants.length ≤ v → φ v = v := h.freeVariants
  refine ⟨?_, ?_, fun m hm => ?_, fun v hv => ?_, fun m => ?_, fun m => ?_, fun v hv => ?_⟩
  · rw [hb.headers.length, h.modules, ha.headers.length]
  · rw [hb.length, h.variants, ha.length]
  · exact h.freeModules m (by rw [← ha.headers.length]; exact hm)
  · rw [ha.length] at hv
    exact hfree v (Nat.le_trans (Nat.le_add_right _ _) hv)
  · rw [hb.headers.header, h.header, ha.headers.header]
  · rw [hb.rows, ha.rows, h.rows, map_replaceBy, h.variants]
    rw [effects.map_numbers φ rfl fun k _ => hfree _ (Nat.le_add_right _ k)]
  · rcases Nat.lt_or_ge v a.graph.variants.length with hlt | hge
    · by_cases he : v = id
      · subst he
        rw [hb.visited, ha.visited, hvisited, Effects.remains_rename σ φ hanswers]
      · have hlt' : φ v < b.graph.variants.length := by rw [h.variants]; exact h.variant_lt_iff.2 hlt
        rw [hb.others _ hlt' fun heq => he (φ.injective heq), ha.others v hlt he, h.bare v hlt]
    · obtain ⟨k, rfl⟩ := Nat.exists_eq_add_of_le hge
      rw [ha.length] at hv
      have hk : k < effects.values.length := Nat.lt_of_add_lt_add_left hv
      have hcreated := hb.created k hk
      rw [h.variants] at hcreated
      rw [hfree _ hge, hcreated, ha.created k hk, hvisited, Effects.whole_rename σ φ hanswers,
        Variant.child_rename]

/-- A visit to a variant that has another number. -/
def renumber (φ : Equiv.Perm Nat) (visit : VariantId × Effects) : VariantId × Effects := (φ visit.1, visit.2)

/-- Visits carried out on two graphs that differ in their numbers. -/
theorem Graph.Renamed.applyAll {visits : List (VariantId × Effects)} (h : Renamed σ φ a.graph b.graph)
    (hready : Build.Ready env visits a) (hb : Consistent b.graph)
    (hbelow : env'.registry.Below b.graph.modules.length) :
    Build.Ready env' (visits.map (renumber φ)) b ∧
      Renamed σ φ (a.applyAll env visits).graph (b.applyAll env' (visits.map (renumber φ))).graph ∧
      ∃ found, (a.applyAll env visits).errors = a.errors ++ found ∧
        (b.applyAll env' (visits.map (renumber φ))).errors = b.errors ++ found := by
  have hready' : Build.Ready env' (visits.map (renumber φ)) b := by
    refine ⟨hbelow, hb, ?_, fun other hother => ?_⟩
    · have hids : (visits.map (renumber φ)).map Prod.fst = (visits.map Prod.fst).map φ := by
        rw [List.map_map, List.map_map]
        rfl
      rw [hids]
      exact hready.nodup.map φ.injective
    · obtain ⟨visit, hmem, rfl⟩ := List.mem_map.1 hother
      exact (h.isLive visit.1).trans (hready.live visit hmem)
  refine ⟨hready', ?_⟩
  clear hb hbelow
  induction visits generalizing a b with
  | nil => exact ⟨h, [], by simp [Build.applyAll]⟩
  | cons visit visits ih =>
    have hid := lt_of_isLive (hready.live visit List.mem_cons_self)
    have ha := hready.first
    have hb : Yields env' (φ visit.1) visit.2 b (b.apply env' (φ visit.1) visit.2) := hready'.first
    obtain ⟨hrenamed, found, hfound, hfound'⟩ := ih (ha.renamed hr h hid hb) hready.rest hready'.rest
    refine ⟨hrenamed, visit.2.faults (a.graph.answers env visit.1) ++ found, ?_, ?_⟩
    · show (Build.applyAll env visits (a.apply env visit.1 visit.2)).errors = _
      rw [hfound, ha.errors, List.append_assoc]
    · show (Build.applyAll env' _ (b.apply env' (φ visit.1) visit.2)).errors = _
      rw [hfound', hb.errors, Effects.faults_congr σ (h.answers hr hid), List.append_assoc]

end Renamed

/-! ## Two visits in either order -/

/-- The permutation that exchanges two blocks of numbers, of which the second follows on the first. -/
def exchange (start first second : Nat) : Equiv.Perm Nat where
  toFun v :=
    if v < start then v else if v < start + first then v + second
    else if v < start + first + second then v - first else v
  invFun v :=
    if v < start then v else if v < start + second then v + first
    else if v < start + second + first then v - second else v
  left_inv v := by dsimp only; split_ifs <;> omega
  right_inv v := by dsimp only; split_ifs <;> omega

section Exchange
variable {start first second : Nat}

theorem exchange_of_lt {v : Nat} (h : v < start) : exchange start first second v = v := if_pos h

theorem exchange_of_le {v : Nat} (h : start + first + second ≤ v) : exchange start first second v = v := by
  simp only [exchange, Equiv.coe_fn_mk]
  split_ifs <;> omega

theorem exchange_first {k : Nat} (h : k < first) : exchange start first second (start + k) = start + second + k := by
  simp only [exchange, Equiv.coe_fn_mk]
  split_ifs <;> omega

theorem exchange_second {k : Nat} (h : k < second) : exchange start first second (start + first + k) = start + k := by
  simp only [exchange, Equiv.coe_fn_mk]
  split_ifs <;> omega

end Exchange

/-- The numbers of variants do not show in a variant without targets. -/
theorem Variant.rename_bare (φ : Equiv.Perm Nat) (variant : Variant) :
    variant.bare.rename (Equiv.refl _) φ = variant.bare := by
  have hd : Dependency.rename (Equiv.refl _) φ ∘ Dependency.bare = Dependency.bare := rfl
  simp [Variant.rename, Variant.bare, hd]

section Swap
variable {env : Environment} {i j : VariantId} {first second : Effects} {s s₁ s₁₂ s₂ s₂₁ : Build}

/-- A visit asks for the same after another one, and of a variant that is as it was. -/
theorem Yields.undisturbed (h : Yields env j second s s₂) (hi : i < s.graph.variants.length) (hne : i ≠ j) :
    (s₂.graph.variant i).bare = (s.graph.variant i).bare ∧ s₂.graph.answers env i = s.graph.answers env i :=
  ⟨h.others i hi hne, Graph.answers_congr env h.headers (h.others i hi hne)⟩

/-- A number that was taken before is not one of the new ones. -/
theorem Effects.not_mem_numbers {effects : Effects} {free v other : VariantId} (hv : v < free) (hne : v ≠ other) :
    v ∉ effects.numbers free other := by
  intro hmem
  rcases Effects.mem_numbers.1 hmem with ⟨-, he⟩ | ⟨hge, -⟩
  · exact hne he
  · exact absurd hge (Nat.not_le.2 hv)

section
variable (hi : i < s.graph.variants.length) (hj : j < s.graph.variants.length) (hne : i ≠ j)
  (h₁ : Yields env i first s s₁) (h₁₂ : Yields env j second s₁ s₁₂) (h₂ : Yields env j second s s₂)
  (h₂₁ : Yields env i first s₂ s₂₁)
include hi hj hne h₁ h₁₂ h₂ h₂₁

/-- What comes of both visits stands in the same places, under the numbers of the other order. -/
theorem Yields.swap_rows {m : ModuleId} (hm : ∀ v ∈ (s.graph.module m).variants, v < s.graph.variants.length) :
    (s₂₁.graph.module m).variants = (s₁₂.graph.module m).variants.map
      (exchange s.graph.variants.length first.values.length second.values.length) := by
  rw [h₂₁.rows, h₂.rows, h₁₂.rows, h₁.rows, replaceBy_replaceBy _ _ (Effects.not_mem_numbers hi hne),
    replaceBy_replaceBy _ _ (Effects.not_mem_numbers hj (Ne.symm hne)), List.map_flatMap, h₁.length, h₂.length]
  refine List.flatMap_congr fun v hv => ?_
  by_cases hvi : v = i
  · rw [if_pos hvi, if_neg (fun hvj => hne (hvi.symm.trans hvj)), if_pos hvi]
    exact (first.map_numbers _ (exchange_of_lt hi) fun k hk => exchange_first hk).symm
  · by_cases hvj : v = j
    · rw [if_pos hvj, if_neg hvi, if_pos hvj]
      exact (second.map_numbers _ (exchange_of_lt hj) fun k hk => exchange_second hk).symm
    · simp only [if_neg hvi, if_neg hvj, List.map_singleton, exchange_of_lt (hm v hv)]

/-- A variant that was there before both visits is the same in both orders. -/
theorem Yields.swap_old {v : VariantId} (hv : v < s.graph.variants.length) :
    (s₂₁.graph.variant v).bare = (s₁₂.graph.variant v).bare := by
  obtain ⟨hjbare, hjanswers⟩ := h₁.undisturbed hj (Ne.symm hne)
  obtain ⟨hibare, hianswers⟩ := h₂.undisturbed hi hne
  have hv₁ : v < s₁.graph.variants.length := by
    rw [h₁.length]; exact Nat.lt_of_lt_of_le hv (Nat.le_add_right _ _)
  have hv₂ : v < s₂.graph.variants.length := by
    rw [h₂.length]; exact Nat.lt_of_lt_of_le hv (Nat.le_add_right _ _)
  by_cases hvi : v = i
  · subst hvi
    rw [h₂₁.visited, hianswers, hibare, h₁₂.others v hv₁ hne, h₁.visited]
  · rw [h₂₁.others v hv₂ hvi]
    by_cases hvj : v = j
    · subst hvj
      rw [h₂.visited, h₁₂.visited, hjanswers, hjbare]
    · rw [h₂.others v hv hvj, h₁₂.others v hv₁ hvj, h₁.others v hv hvi]

/-- What the first visit makes has the numbers behind those of the second one in the other order. -/
theorem Yields.swap_first {k : Nat} (hk : k < first.values.length) :
    (s₂₁.graph.variant (s.graph.variants.length + second.values.length + k)).bare =
      (s₁₂.graph.variant (s.graph.variants.length + k)).bare := by
  obtain ⟨hibare, hianswers⟩ := h₂.undisturbed hi hne
  have hlt : s.graph.variants.length + k < s₁.graph.variants.length := by
    rw [h₁.length]; exact Nat.add_lt_add_left hk _
  have hother : s.graph.variants.length + k ≠ j := Nat.ne_of_gt (Nat.lt_of_lt_of_le hj (Nat.le_add_right _ _))
  have hcreated := h₂₁.created k hk
  rw [h₂.length, hianswers, hibare] at hcreated
  rw [hcreated, h₁₂.others _ hlt hother, h₁.created k hk]

end

/-- **Two visits can be carried out in either order**: the variants that the first one makes then have the
numbers behind those of the second one. -/
theorem Yields.swap (hc : Consistent s.graph) (hi : s.graph.isLive i = true) (hj : s.graph.isLive j = true)
    (hne : i ≠ j) (h₁ : Yields env i first s s₁) (h₁₂ : Yields env j second s₁ s₁₂)
    (h₂ : Yields env j second s s₂) (h₂₁ : Yields env i first s₂ s₂₁) :
    Renamed (Equiv.refl _) (exchange s.graph.variants.length first.values.length second.values.length)
      s₁₂.graph s₂₁.graph := by
  have hilt := lt_of_isLive hi
  have hjlt := lt_of_isLive hj
  have hlen : s₁₂.graph.variants.length =
      s.graph.variants.length + first.values.length + second.values.length := by rw [h₁₂.length, h₁.length]
  refine ⟨?_, ?_, fun m _ => rfl, fun v hv => ?_, fun m => ?_, fun m => ?_, fun v hv => ?_⟩
  · rw [h₂₁.headers.length, h₂.headers.length, h₁₂.headers.length, h₁.headers.length]
  · rw [h₂₁.length, h₂.length, hlen, Nat.add_right_comm]
  · exact exchange_of_le (by rw [← hlen]; exact hv)
  · rw [Equiv.refl_apply, h₂₁.headers.header, h₂.headers.header, h₁₂.headers.header, h₁.headers.header]
  · refine Yields.swap_rows hilt hjlt hne h₁ h₁₂ h₂ h₂₁ fun v hv => ?_
    rcases Nat.lt_or_ge m s.graph.modules.length with hm | hm
    · exact lt_of_isLive (hc.current m hm v hv).1
    · rw [Equiv.refl_apply, module_of_le hm] at hv
      cases hv
  · rw [Variant.rename_bare]
    -- the variant was there before, or comes of the first visit, or of the second one
    rcases Nat.lt_or_ge v s.graph.variants.length with hvlt | hge
    · rw [exchange_of_lt hvlt]
      exact Yields.swap_old hilt hjlt hne h₁ h₁₂ h₂ h₂₁ hvlt
    · obtain ⟨k, rfl⟩ := Nat.exists_eq_add_of_le hge
      rcases Nat.lt_or_ge k first.values.length with hk | hk
      · rw [exchange_first hk]
        exact Yields.swap_first hilt hjlt hne h₁ h₁₂ h₂ h₂₁ hk
      · obtain ⟨k, rfl⟩ := Nat.exists_eq_add_of_le hk
        have hk : k < second.values.length := by omega
        rw [← Nat.add_assoc, exchange_second hk]
        exact (Yields.swap_first hjlt hilt (Ne.symm hne) h₂ h₂₁ h₁ h₁₂ hk).symm

end Swap

/-! ## Visits in any order -/

/-- **The order of visits only decides on numbers**, and on the order of errors. Numbers that were taken
before stay. -/
theorem Build.Ready.perm_applyAll {env : Environment} {visits visits' : List (VariantId × Effects)} {build : Build}
    (h : Build.Ready env visits build) (hp : visits.Perm visits') : ∃ φ : Equiv.Perm VariantId,
      (∀ v < build.graph.variants.length, φ v = v) ∧
      Renamed (Equiv.refl _) φ (build.applyAll env visits).graph (build.applyAll env visits').graph ∧
      (build.applyAll env visits).errors.Perm (build.applyAll env visits').errors := by
  induction hp generalizing build with
  | nil => exact ⟨Equiv.refl _, fun _ _ => rfl, .refl _, .refl _⟩
  | cons visit hp ih =>
    obtain ⟨φ, hfix, hrenamed, herrors⟩ := ih h.rest
    refine ⟨φ, fun v hv => hfix v ?_, hrenamed, herrors⟩
    rw [h.first.length]
    exact Nat.lt_of_lt_of_le hv (Nat.le_add_right _ _)
  | swap second first visits =>
    have hother := h.perm (.swap second first visits)
    have hfirst := h.live first List.mem_cons_self
    have hsecond := h.live second (List.mem_cons_of_mem _ List.mem_cons_self)
    have hne : first.1 ≠ second.1 := fun he =>
      (List.nodup_cons.1 h.nodup).1 (List.mem_cons.2 (Or.inl he))
    -- the two first visits are exchanged, and all others are carried out as they come
    have hswap := Yields.swap h.consistent hfirst hsecond hne h.first h.rest.first hother.first hother.rest.first
    have hids : visits.map (renumber (exchange build.graph.variants.length first.2.values.length
        second.2.values.length)) = visits := by
      refine (List.map_congr_left fun visit hmem => ?_).trans (List.map_id _)
      have hlt := lt_of_isLive (h.live visit (List.mem_cons_of_mem _ (List.mem_cons_of_mem _ hmem)))
      rw [renumber, exchange_of_lt hlt]
      rfl
    obtain ⟨-, hrenamed, found, hfound, hfound'⟩ := hswap.applyAll (.refl _) h.rest.rest
      hother.rest.rest.consistent hother.rest.rest.below
    rw [hids] at hrenamed hfound'
    refine ⟨_, fun v hv => exchange_of_lt hv, hrenamed, ?_⟩
    obtain ⟨-, hsame⟩ := h.first.undisturbed (lt_of_isLive hsecond) (Ne.symm hne)
    obtain ⟨-, hsame'⟩ := hother.first.undisturbed (lt_of_isLive hfirst) hne
    show (Build.applyAll env visits _).errors.Perm (Build.applyAll env visits _).errors
    rw [hfound, hfound', h.rest.first.errors, h.first.errors, hother.rest.first.errors, hother.first.errors,
      hsame, hsame', List.append_assoc build.errors (first.2.faults _),
      List.append_assoc build.errors (second.2.faults _)]
    exact (List.perm_append_comm.append_left build.errors).append_right found
  | trans hp _ ih ih' =>
    obtain ⟨φ, hfix, hrenamed, herrors⟩ := ih h
    obtain ⟨φ', hfix', hrenamed', herrors'⟩ := ih' (h.perm hp)
    refine ⟨φ.trans φ', fun v hv => ?_, hrenamed.trans hrenamed', herrors.trans herrors'⟩
    rw [Equiv.trans_apply, hfix v hv, hfix' v hv]

/-! ## Graphs that are equal but for the numbers of variants -/

namespace Graph

/-- The second graph is the first one with other numbers of variants. The dependents of a module come in
no order. -/
structure Isomorphic (φ : Equiv.Perm VariantId) (a b : Graph) : Prop where
  modules : b.modules.length = a.modules.length
  variants : b.variants.length = a.variants.length
  within : ∀ v, φ v < b.variants.length ↔ v < a.variants.length
  header : ∀ m, (b.module m).header = (a.module m).header
  rows : ∀ m, (b.module m).variants = (a.module m).variants.map φ
  dependents : ∀ m v, φ v ∈ (b.module m).dependents ↔ v ∈ (a.module m).dependents
  variant : ∀ v < a.variants.length, b.variant (φ v) = (a.variant v).rename (Equiv.refl _) φ

/-- A graph but for what its retired variants last pointed at. -/
def current (graph : Graph) : Graph :=
  { graph with variants := graph.variants.map fun variant => if variant.live then variant else variant.bare }

theorem variant_current (graph : Graph) (v : VariantId) : graph.current.variant v =
    if graph.isLive v = true then graph.variant v else (graph.variant v).bare := by
  simp only [variant, current, isLive_eq, List.getD_eq_getElem?_getD, List.getElem?_map]
  cases graph.variants[v]? <;> rfl

theorem Renamed.isomorphic {φ : Equiv.Perm VariantId} {a b : Graph} (h : Renamed (Equiv.refl _) φ a b)
    (ha : Consistent a) (hb : Consistent b) : Isomorphic φ a.current b.current where
  modules := h.modules
  variants := by simpa [current] using h.variants
  within v := by
    have hlt := h.variant_lt_iff (v := v)
    rw [← h.variants] at hlt
    simpa [current, h.variants] using hlt
  header := h.header
  rows := h.rows
  dependents m v := by
    rcases Nat.lt_or_ge m a.modules.length with hm | hm
    · exact h.mem_dependents ha hb hm v
    · show φ v ∈ (b.module m).dependents ↔ v ∈ (a.module m).dependents
      have hnone : ∀ x, x ∉ (default : Module).dependents := fun x => List.not_mem_nil
      rw [module_of_le hm, module_of_le (by rw [h.modules]; exact hm)]
      exact iff_of_false (hnone _) (hnone _)
  variant v hv := by
    have hlt : v < a.variants.length := by simpa [current] using hv
    rw [variant_current, variant_current, h.isLive]
    split
    · next hlive => exact h.variant ha hb hlive
    · exact h.bare v hlt

theorem Renamed.ofGraph_eq {φ : Equiv.Perm VariantId} {a b : Graph} (h : Renamed (Equiv.refl _) φ a b)
    (ha : Consistent a) (hb : Consistent b) (registry : Registry) (external : ExternalBuild) :
    ResolvedGraph.ofGraph b registry external = ResolvedGraph.ofGraph a registry external := by
  have hmodules : b.moduleIds = a.moduleIds := by rw [moduleIds, moduleIds, h.modules]
  have hbuilt : (fun m => !(b.module m).can .defaults) = fun m => !(a.module m).can .defaults :=
    funext fun m => congrArg (!·) (h.can m .defaults)
  have hvariants : (ResolvedGraph.ofGraph b registry external).variants =
      (ResolvedGraph.ofGraph a registry external).variants := by
    rw [variants_ofGraph, variants_ofGraph, hmodules, hbuilt]
    refine List.flatMap_congr fun m hm => ?_
    exact h.entries ha hb (fun _ _ => rfl) external (List.mem_range.1 (List.mem_filter.1 hm).1)
  exact congrArg ResolvedGraph.mk hvariants

end Graph

/-- **Visits can be carried out in any order.** Whatever operations led to a graph and whatever is asked
for on visits to different live variants of it: two orders of the visits give graphs that are equal but
for the numbers of variants, and for what retired variants last pointed at; the resolved graph is the
same, and the same errors are found. -/
theorem apply_confluent (env : Environment) {graph : Graph} (hreach : graph.Reachable)
    (hb : env.registry.Below graph.modules.length) {visits visits' : List (VariantId × Effects)}
    (hnodup : (visits.map Prod.fst).Nodup) (hlive : ∀ visit ∈ visits, graph.isLive visit.1 = true)
    (hp : visits.Perm visits') (errors : List BuildError) (external : ExternalBuild) :
    let after := Build.applyAll env visits ⟨graph, errors⟩
    let after' := Build.applyAll env visits' ⟨graph, errors⟩
    (∃ φ, Isomorphic φ after.graph.current after'.graph.current) ∧
    ResolvedGraph.ofGraph after.graph env.registry external =
      ResolvedGraph.ofGraph after'.graph env.registry external ∧
    after.errors.Perm after'.errors := by
  have hready : Build.Ready env visits ⟨graph, errors⟩ := ⟨hb, hreach.consistent, hnodup, hlive⟩
  obtain ⟨φ, -, hrenamed, herrors⟩ := hready.perm_applyAll hp
  have hc := hready.applyAll.1
  have hc' := (hready.perm hp).applyAll.1
  exact ⟨⟨φ, hrenamed.isomorphic hc hc'⟩, (hrenamed.ofGraph_eq hc hc' env.registry external).symm, herrors⟩

/-! ### Two visits, in both orders -/

/-- Two modules that do not depend on each other yet. -/
def twoModules : Graph :=
  (Graph.empty.addModule ⟨"user", "cc_library", "p", globalNamespace, [], none, none, [], []⟩ []).addModule
    ⟨"used", "cc_library", "p", globalNamespace, [], none, none, [], []⟩ []

/-- A build that knows the names of `twoModules`. -/
def twoNames : Environment :=
  ⟨.defaultOn ⟨.linux, .x86_64⟩ 1, [],
    ⟨.preferImports, [(globalNamespace, ⟨[], [("used", 1), ("user", 0)]⟩)], []⟩⟩

/-- Both modules are split, and the first one asks for a dependency on the second. -/
def twoVisits : List (VariantId × Effects) :=
  let split : SplitRequest := ⟨Axis.arch, [("arm", []), ("x86", [])]⟩
  [(0, ⟨none, [⟨.ofRole .dep, "used", "deps"⟩], some split, []⟩), (1, ⟨none, [], some split, []⟩)]

theorem reachable_twoModules : twoModules.Reachable :=
  (Relation.ReflTransGen.refl.tail (.addModule _ _)).tail (.addModule _ _)

theorem below_twoNames : twoNames.registry.Below twoModules.modules.length := by
  refine Registry.Holds.below fun scope name id h => ?_
  have hentries : ∀ entry ∈ [("used", 1), ("user", 0)], entry.2 < 2 := by decide
  unfold Registry.lookup? twoNames at h
  simp only [Table.find?] at h
  split at h
  · exact hentries _ (Table.mem_of_find? h)
  · cases h

theorem live_twoVisits : ∀ visit ∈ twoVisits, twoModules.isLive visit.1 = true := by decide

theorem apply_confluent_twoVisits :
    (twoVisits.map Prod.fst).Nodup ∧
    (∃ φ, Isomorphic φ (Build.applyAll twoNames twoVisits ⟨twoModules, []⟩).graph.current
      (Build.applyAll twoNames twoVisits.reverse ⟨twoModules, []⟩).graph.current) ∧
    ((Build.applyAll twoNames twoVisits ⟨twoModules, []⟩).graph.variant 2).targets = [4] ∧
    ((Build.applyAll twoNames twoVisits.reverse ⟨twoModules, []⟩).graph.variant 4).targets = [2] := by
  have hnodup : (twoVisits.map Prod.fst).Nodup := by decide
  obtain ⟨hequal, -, -⟩ := apply_confluent twoNames reachable_twoModules below_twoNames hnodup live_twoVisits
    (List.reverse_perm twoVisits).symm [] ⟨false, [], [], []⟩
  exact ⟨hnodup, hequal, by decide +kernel, by decide +kernel⟩

/-- The first variant is retired while it points at the second one, or when that one is split already, and
what it points at is not looked after any more. -/
theorem apply_stale :
    twoModules.Reachable ∧ twoNames.registry.Below twoModules.modules.length ∧
    (twoVisits.map Prod.fst).Nodup ∧ (∀ visit ∈ twoVisits, twoModules.isLive visit.1 = true) ∧
    ¬ ∃ φ, Isomorphic φ (Build.applyAll twoNames twoVisits ⟨twoModules, []⟩).graph
      (Build.applyAll twoNames twoVisits.reverse ⟨twoModules, []⟩).graph := by
  refine ⟨reachable_twoModules, below_twoNames, by decide, live_twoVisits, ?_⟩
  rintro ⟨φ, h⟩
  have hfirst : (0 < (Build.applyAll twoNames twoVisits ⟨twoModules, []⟩).graph.variants.length) ∧
      (fun variant : Variant => (variant.live, variant.module, variant.targets.length))
        ((Build.applyAll twoNames twoVisits ⟨twoModules, []⟩).graph.variant 0) = (false, 0, 1) := by decide +kernel
  -- only one variant could stand for the first one in the other order, and it has two targets
  have hothers : ∀ v < (Build.applyAll twoNames twoVisits.reverse ⟨twoModules, []⟩).graph.variants.length,
      (fun variant : Variant => (variant.live, variant.module, variant.targets.length))
        ((Build.applyAll twoNames twoVisits.reverse ⟨twoModules, []⟩).graph.variant v) ≠ (false, 0, 1) := by
    decide +kernel
  refine hothers (φ 0) ((h.within 0).2 hfirst.1) ?_
  rw [h.variant 0 hfirst.1]
  simpa using hfirst.2

end VariantGraph
