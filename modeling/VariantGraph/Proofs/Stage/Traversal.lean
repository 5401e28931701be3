import VariantGraph.Proofs.Graph.Reachable
import VariantGraph.Proofs.Stage.Yield
/-!
# Waves hold while variants are split

The waves of a stage are fixed when it begins, and the graph changes from wave to wave. Main statement
(`Stage.traversal`): every variant is visited once, as long as it is live, and when it is visited, all its
targets (in a bottom-up stage; in a top-down stage all that have it as a target) were visited in earlier
waves or were made by visits of earlier waves. What carries the argument is that a variant that still
waits is as it was when the stage began, but for its targets (`Underway`): two variants that wait are
connected only if they were connected at first, and then the waves keep them apart.
-/
namespace VariantGraph
open VariantGraph.Graph

namespace Build

variable {env : Environment} {visits : List (VariantId × Effects)} {build : Build}

/-- A variant that no visit is to stays as it is, but for its targets. -/
theorem Ready.kept (h : Ready env visits build) {v : VariantId} (hl : build.graph.isLive v = true)
    (hv : v ∉ visits.map Prod.fst) : (build.applyAll env visits).graph.isLive v = true ∧
      ((build.applyAll env visits).graph.variant v).bare = (build.graph.variant v).bare := by
  induction visits generalizing build with
  | nil => exact ⟨hl, rfl⟩
  | cons visit visits ih =>
    obtain ⟨hne, hrest⟩ := not_or.1 (fun hmem => hv (List.mem_cons.2 hmem))
    have hlive := (h.first.isLive_iff (h.live visit List.mem_cons_self)).2 (Or.inl ⟨hl, hne⟩)
    obtain ⟨hl', hb⟩ := ih h.rest hlive hrest
    exact ⟨hl', hb.trans (h.first.others v (lt_of_isLive hl) hne)⟩

/-- What is live after some visits was live before, or one of the visits made it. -/
theorem Ready.origin (h : Ready env visits build) {v : VariantId}
    (hv : (build.applyAll env visits).graph.isLive v = true) : build.graph.isLive v = true ∨
      ∃ before visit after, visits = before ++ visit :: after ∧
        (build.applyAll env before).graph.variants.length ≤ v ∧
        v < ((build.applyAll env before).apply env visit.1 visit.2).graph.variants.length := by
  induction visits generalizing build with
  | nil => exact Or.inl hv
  | cons visit visits ih =>
    rcases ih h.rest hv with hlive | ⟨before, other, after, rfl, hge, hlt⟩
    · rcases Nat.lt_or_ge v build.graph.variants.length with hold | hnew
      · refine Or.inl ?_
        rcases (h.first.isLive_iff (h.live visit List.mem_cons_self)).1 hlive with ⟨hl, -⟩ | hmem
        · exact hl
        · rcases Effects.mem_numbers.1 hmem with ⟨-, rfl⟩ | ⟨hge, -⟩
          · exact h.live visit List.mem_cons_self
          · exact absurd hge (Nat.not_le.2 hold)
      · exact Or.inr ⟨[], visit, visits, rfl, hnew, lt_of_isLive hlive⟩
    · exact Or.inr ⟨visit :: before, other, after, rfl, hge, hlt⟩

/-- A variant is made in a wave by the visit to another one: its number is one of those that carrying out
the visit takes. -/
def Makes (env : Environment) (stage : Stage) (build : Build) (wave : List VariantId)
    (parent child : VariantId) : Prop :=
  ∃ before after, wave = before ++ parent :: after ∧
    let prior := build.applyAll env (before.map fun id => (id, stage.visit env build.graph id))
    prior.graph.variants.length ≤ child ∧
      child < (prior.apply env parent (stage.visit env build.graph parent)).graph.variants.length

end Build

section
variable (env : Environment) (stage : Stage) (start : Graph) (order : List (List VariantId))

/-- A stage under way: the build when some waves of an order have been visited. -/
def Stage.reached (k : Nat) : Build := (order.take k).foldl (Build.runWave env stage) ⟨start, []⟩

/-- A variant is made by a visit in one of the first waves. -/
def Stage.Made (k : Nat) (child : VariantId) : Prop :=
  ∃ j < k, ∃ wave, order[j]? = some wave ∧
    ∃ parent ∈ wave, (stage.reached env start order j).Makes env stage wave parent child

/-- What the waves of an order keep: variants that wait are as they were, and all others were visited or
made. -/
structure Underway (k : Nat) : Prop where
  consistent : Consistent (stage.reached env start order k).graph
  headers : SameHeaders (stage.reached env start order k).graph start
  grown : start.variants.length ≤ (stage.reached env start order k).graph.variants.length
  waits : ∀ v ∈ (order.drop k).flatten, (stage.reached env start order k).graph.isLive v = true ∧
    ((stage.reached env start order k).graph.variant v).bare = (start.variant v).bare
  known : ∀ v, (stage.reached env start order k).graph.isLive v = true →
    v ∈ order.flatten ∨ stage.Made env start order k v

end

variable {env : Environment} {stage : Stage} {start : Graph} {order : List (List VariantId)} {k : Nat}

theorem Stage.reached_succ {wave : List VariantId} (hk : order[k]? = some wave) :
    stage.reached env start order (k + 1) = (stage.reached env start order k).runWave env stage wave := by
  rw [reached, reached, List.take_add_one, hk, List.foldl_append]
  rfl

theorem Stage.Made.succ {v : VariantId} (h : stage.Made env start order k v) :
    stage.Made env start order (k + 1) v := by
  obtain ⟨j, hj, hmade⟩ := h
  exact ⟨j, Nat.lt_succ_of_lt hj, hmade⟩

section
variable (hb : env.registry.Below start.modules.length) (hnodup : order.flatten.Nodup)
include hb hnodup

theorem Underway.ready (h : Underway env stage start order k) {wave : List VariantId} (hk : order[k]? = some wave) :
    Build.Ready env (wave.map fun id => (id, stage.visit env (stage.reached env start order k).graph id))
      (stage.reached env start order k) := by
  have hids : (wave.map fun id => (id, stage.visit env (stage.reached env start order k).graph id)).map Prod.fst =
      wave := by
    rw [List.map_map]
    exact List.map_id _
  refine ⟨by rw [h.headers.length]; exact hb, h.consistent, ?_, fun visit hmem => ?_⟩
  · rw [hids]
    exact (List.nodup_flatten.1 hnodup).1 wave (List.mem_of_getElem? hk)
  · obtain ⟨id, hid, rfl⟩ := List.mem_map.1 hmem
    exact (h.waits id (Digraph.mem_flatten_drop.2 ⟨k, Nat.le_refl k, wave, hk, hid⟩)).1

/-- One wave more. -/
theorem Underway.succ (h : Underway env stage start order k) {wave : List VariantId} (hk : order[k]? = some wave) :
    Underway env stage start order (k + 1) := by
  have hready := h.ready hb hnodup hk
  obtain ⟨hc, hh, hgrown⟩ := hready.applyAll
  have hnext : stage.reached env start order (k + 1) = (stage.reached env start order k).runWave env stage wave :=
    Stage.reached_succ hk
  rw [Build.runWave_eq] at hnext
  refine ⟨?_, ?_, ?_, fun v hv => ?_, fun v hv => ?_⟩
  · rw [hnext]; exact hc
  · rw [hnext]; exact hh.trans h.headers
  · rw [hnext]; exact Nat.le_trans h.grown hgrown
  · -- what waits on is not in the wave
    obtain ⟨j, hj, level, hlevel, hmem⟩ := Digraph.mem_flatten_drop.1 hv
    obtain ⟨hl, hbare⟩ := h.waits v (Digraph.mem_flatten_drop.2 ⟨j, Nat.le_of_lt hj, level, hlevel, hmem⟩)
    have hnot : v ∉ (wave.map fun id => (id, stage.visit env (stage.reached env start order k).graph id)).map
        Prod.fst := by
      rw [List.map_map]
      intro hvisited
      obtain ⟨w, hw, rfl⟩ := List.mem_map.1 hvisited
      exact Digraph.level_unique hnodup hk hlevel hw hmem hj
    rw [hnext]
    obtain ⟨hl', hbare'⟩ := hready.kept hl hnot
    exact ⟨hl', hbare'.trans hbare⟩
  · rw [hnext] at hv
    rcases hready.origin hv with hold | ⟨before, visit, after, heq, hge, hlt⟩
    · exact (h.known v hold).imp_right Stage.Made.succ
    · obtain ⟨front, back, rfl, rfl, hback⟩ := List.map_eq_append_iff.1 heq
      obtain ⟨parent, later, rfl, rfl, rfl⟩ := List.map_eq_cons_iff.1 hback
      exact Or.inr ⟨k, Nat.lt_succ_self k, _, hk, parent, List.mem_append_right _ List.mem_cons_self,
        front, later, rfl, hge, hlt⟩

theorem underway (hc : Consistent start) (horder : order.flatten.Perm start.liveIds) :
    ∀ k ≤ order.length, Underway env stage start order k
  | 0, _ => by
    have hmem : ∀ v, v ∈ order.flatten ↔ start.isLive v = true := fun v => by rw [horder.mem_iff]; exact mem_liveIds
    exact ⟨hc, .refl _, Nat.le_refl _, fun v hv => ⟨(hmem v).1 hv, rfl⟩, fun v hv => Or.inl ((hmem v).2 hv)⟩
  | k + 1, hk => (underway hc horder k (Nat.le_of_succ_le hk)).succ hb hnodup (List.getElem?_eq_getElem hk)

end

/-- Whatever a stage finds wrong, it leaves a consistent graph of the same modules. -/
theorem Stage.consistent_run (env : Environment) (stage : Stage) {graph : Graph}
    (hb : env.registry.Below graph.modules.length) (hc : Consistent graph) :
    Consistent (stage.run env graph).graph ∧ SameHeaders (stage.run env graph).graph graph := by
  unfold Stage.run
  cases hw : graph.waves with
  | error path => exact ⟨hc, .refl graph⟩
  | ok waves =>
    have horder := perm_arrange stage.direction hw
    have h : Underway env stage graph (stage.direction.arrange waves) (stage.direction.arrange waves).length :=
      underway hb (horder.nodup_iff.2 (nodup_liveIds graph)) hc horder _ (Nat.le_refl _)
    have hall : stage.reached env graph (stage.direction.arrange waves) (stage.direction.arrange waves).length =
        (stage.direction.arrange waves).foldl (Build.runWave env stage) ⟨graph, []⟩ := by
      rw [Stage.reached, List.take_length]
    obtain ⟨hconsistent, hheaders, -, -, -⟩ := h
    rw [hall] at hconsistent hheaders
    exact ⟨hconsistent, hheaders⟩

/-- A target of a variant, when neither has been visited, was a target of it from the start. -/
theorem Underway.leads (h : Underway env stage start order k) (hc : Consistent start)
    (horder : order.flatten.Perm start.liveIds) {v t : VariantId} (hv : v ∈ (order.drop k).flatten)
    (ht : t ∈ (order.drop k).flatten)
    (hmem : t ∈ ((stage.reached env start order k).graph.variant v).targets) : start.dependencyGraph.Leads v t := by
  have hstart : ∀ u ∈ (order.drop k).flatten, start.isLive u = true := fun u hu => by
    rw [← mem_liveIds, ← horder.mem_iff]
    obtain ⟨j, -, level, hlevel, hu⟩ := Digraph.mem_flatten_drop.1 hu
    exact List.mem_flatten.2 ⟨level, List.mem_of_getElem? hlevel, hu⟩
  obtain ⟨hvl, hvb⟩ := h.waits v hv
  obtain ⟨htl, htb⟩ := h.waits t ht
  obtain ⟨d, hd, hdt⟩ := List.mem_flatMap.1 hmem
  rw [h.consistent.targets v hvl d hd trivial] at hdt
  obtain ⟨hrow, hallows⟩ := List.mem_filter.1 hdt
  -- the dependency was there from the start, perhaps with other targets
  have hbare : d.bare ∈ (start.variant v).bare.dependencies := by rw [← hvb]; exact List.mem_map_of_mem hd
  obtain ⟨d', hd', heq⟩ := List.mem_map.1 hbare
  have hmodule : d'.module = d.module := show d'.bare.module = d.bare.module by rw [heq]
  have htag : d'.tag = d.tag := show d'.bare.tag = d.bare.tag by rw [heq]
  have hvv := congrArg Variant.variations hvb
  have htv := congrArg Variant.variations htb
  have htm := congrArg Variant.module htb
  simp only [Variant.bare_variations, Variant.bare_module] at hvv htv htm
  have howner := (h.consistent.current _ (h.consistent.bound v hvl d hd) t hrow).2
  refine leads_dependencyGraph.2 ⟨List.mem_flatMap.2 ⟨d', hd', ?_⟩, hstart t ht⟩
  rw [hc.targets v (hstart v hv) d' hd' trivial]
  refine List.mem_filter.2 ⟨?_, ?_⟩
  · have hlisted := hc.listed t (hstart t ht)
    unfold moduleOf at hlisted
    rwa [← htm, howner, ← hmodule] at hlisted
  · rw [htag, ← hvv, ← htv]
    exact hallows

section
variable (env : Environment) (stage : Stage) (start : Graph) (order : List (List VariantId))

/-- A variant was visited in one of the first waves, or made by a visit in one of them. -/
def Stage.Handled (k : Nat) (v : VariantId) : Prop :=
  v ∈ (order.take k).flatten ∨ stage.Made env start order k v

end

/-- What is live while a stage is under way waits or is handled. -/
theorem Underway.cases (h : Underway env stage start order k) {v : VariantId}
    (hv : (stage.reached env start order k).graph.isLive v = true) :
    v ∈ (order.drop k).flatten ∨ stage.Handled env start order k v := by
  rcases h.known v hv with hmem | hmade
  · rw [← List.take_append_drop k order, List.flatten_append, List.mem_append] at hmem
    exact hmem.symm.imp_right Or.inl
  · exact Or.inr (Or.inr hmade)

/-- The order of the waves: bottom-up what leads comes later, top-down it comes first. -/
theorem Direction.arrange_leads {direction : Direction} {graph : Graph} {waves : List (List VariantId)}
    (h : graph.waves = .ok waves) {i j : Nat} {v t : VariantId} {wave wave' : List VariantId}
    (hi : (direction.arrange waves)[i]? = some wave) (hv : v ∈ wave)
    (hj : (direction.arrange waves)[j]? = some wave') (ht : t ∈ wave') (hl : graph.dependencyGraph.Leads v t) :
    (direction = .bottomUp → j < i) ∧ (direction = .topDown → i < j) := by
  refine ⟨?_, ?_⟩ <;> rintro rfl
  · exact lt_of_waves h hi hv hj ht hl
  · have hi' := (List.getElem?_eq_some_iff.1 hi).1
    have hj' := (List.getElem?_eq_some_iff.1 hj).1
    simp only [arrange, List.length_reverse] at hi hj hi' hj'
    rw [List.getElem?_reverse hi'] at hi
    rw [List.getElem?_reverse hj'] at hj
    have := lt_of_waves h hi hv hj ht hl
    omega

/-- **The waves of a stage keep their promise while variants are split.** In a graph that operations led to
and that has no cycles, whatever the stage asks for: each variant that is live when the stage begins is
visited once, and is live then; what is made while the stage runs is not visited. In a bottom-up stage, when
a variant is visited each of its targets was visited in an earlier wave or made by a visit in one; in a
top-down stage the same is true of each variant that has it as a target. -/
theorem Stage.traversal (env : Environment) (stage : Stage) {graph : Graph} (hreach : graph.Reachable)
    (hacyclic : ∀ v, ¬ Relation.TransGen graph.DependsOn v v) (hb : env.registry.Below graph.modules.length) :
    ∃ waves, graph.waves = .ok waves ∧
      let order := stage.direction.arrange waves
      (stage.run env graph).graph = (stage.reached env graph order order.length).graph ∧
      (∀ v, order.flatten.count v = if graph.isLive v = true then 1 else 0) ∧
      (∀ v, stage.Made env graph order order.length v → v ∉ order.flatten) ∧
      ∀ k wave, order[k]? = some wave → ∀ v ∈ wave,
        (stage.reached env graph order k).graph.isLive v = true ∧
        (stage.direction = .bottomUp → ∀ t ∈ ((stage.reached env graph order k).graph.variant v).targets,
          stage.Handled env graph order k t) ∧
        (stage.direction = .topDown → ∀ w, (stage.reached env graph order k).graph.isLive w = true →
          v ∈ ((stage.reached env graph order k).graph.variant w).targets → stage.Handled env graph order k w) := by
  obtain ⟨waves, hwaves⟩ := exists_waves hacyclic
  refine ⟨waves, hwaves, ?_⟩
  intro order
  have hc := hreach.consistent
  have horder : order.flatten.Perm graph.liveIds := perm_arrange stage.direction hwaves
  have hmem : ∀ v, v ∈ order.flatten ↔ graph.isLive v = true := fun v => by rw [horder.mem_iff]; exact mem_liveIds
  have hnodup : order.flatten.Nodup := horder.nodup_iff.2 (nodup_liveIds graph)
  have hunder : ∀ k ≤ order.length, Underway env stage graph order k := underway hb hnodup hc horder
  refine ⟨?_, fun v => ?_, ?_, fun k wave hk v hv => ?_⟩
  · rw [Stage.reached, List.take_length, Stage.run, hwaves]
  · rw [hnodup.count]
    simp only [hmem]
  · rintro v ⟨j, hj, wave, hwave, parent, -, before, after, rfl, hge, -⟩ hold
    -- what is made has a number that was free when the stage began
    have hready := (hunder j (Nat.le_of_lt hj)).ready hb hnodup hwave
    rw [List.map_append] at hready
    have hgrown := hready.of_append.applyAll.2.2
    have hfree := Nat.le_trans (hunder j (Nat.le_of_lt hj)).grown (Nat.le_trans hgrown hge)
    exact absurd (lt_of_isLive ((hmem v).1 hold)) (Nat.not_lt.2 hfree)
  · have hklt := (List.getElem?_eq_some_iff.1 hk).1
    have hu := hunder k (Nat.le_of_lt hklt)
    have hwait : v ∈ (order.drop k).flatten := Digraph.mem_flatten_drop.2 ⟨k, Nat.le_refl k, wave, hk, hv⟩
    refine ⟨(hu.waits v hwait).1, fun hdir t ht => ?_, fun hdir w hw ht => ?_⟩
    · obtain ⟨d, hd, hdt⟩ := List.mem_flatMap.1 ht
      have htl := (hu.consistent.mem_targets (hu.waits v hwait).1 hd hdt).2.1
      refine (hu.cases htl).resolve_left fun htw => ?_
      obtain ⟨j, hkj, wave', hj, htw'⟩ := Digraph.mem_flatten_drop.1 htw
      have := (Direction.arrange_leads hwaves hk hv hj htw' (hu.leads hc horder hwait htw ht)).1 hdir
      omega
    · refine (hu.cases hw).resolve_left fun hww => ?_
      obtain ⟨j, hkj, wave', hj, hww'⟩ := Digraph.mem_flatten_drop.1 hww
      have := (Direction.arrange_leads hwaves hj hww' hk hv (hu.leads hc horder hww hwait ht)).2 hdir
      omega

/-- A module that depends on another one. -/
def userOfUsed : Graph :=
  ((Graph.empty.addModule ⟨"user", "cc_library", "p", globalNamespace, [], none, none, [], []⟩ []).addModule
    ⟨"used", "cc_library", "p", globalNamespace, [], none, none, [], []⟩ []).addDependency 0 (.ofRole .dep) 1 "deps"

/-- A stage that splits all variants alike. -/
def splitAll : Stage := ⟨"split", .bottomUp, fun _ _ _ => ⟨none, [], some ⟨Axis.arch, [("arm", []), ("x86", [])]⟩, []⟩⟩

/-- An environment without names. -/
def nameless : Environment := ⟨.defaultOn ⟨.linux, .x86_64⟩ 1, [], .empty .preferImports⟩

theorem Stage.traversal_userOfUsed :
    userOfUsed.Reachable ∧ (∀ v, ¬ Relation.TransGen userOfUsed.DependsOn v v) ∧
    nameless.registry.Below userOfUsed.modules.length ∧
    userOfUsed.waves = .ok [[1], [0]] ∧
    ((splitAll.reached nameless userOfUsed [[1], [0]] 1).graph.variant 0).targets = [2, 3] ∧
    ∀ t ∈ [2, 3], splitAll.Handled nameless userOfUsed [[1], [0]] 1 t := by
  have hreach : userOfUsed.Reachable :=
    ((Relation.ReflTransGen.refl.tail (.addModule _ _)).tail (.addModule _ _)).tail
      (.addDependency _ _ (by decide) (by decide))
  have hacyclic : ∀ v, ¬ Relation.TransGen userOfUsed.DependsOn v v := acyclic_of_findCycle? (by decide +kernel)
  have hb : nameless.registry.Below userOfUsed.modules.length := fun package text id h =>
    Nat.lt_of_lt_of_le ((Registry.holds_empty _).below package text id h) (Nat.zero_le _)
  have hlevels : userOfUsed.dependencyGraph.levels? = some [[1], [0]] := by decide +kernel
  have hwaves : userOfUsed.waves = .ok [[1], [0]] := by rw [Graph.waves, hlevels]
  have htargets : ((splitAll.reached nameless userOfUsed [[1], [0]] 1).graph.variant 0).targets = [2, 3] := by
    decide +kernel
  obtain ⟨waves, h, -, -, -, hall⟩ := Stage.traversal nameless splitAll hreach hacyclic hb
  obtain rfl : [[1], [0]] = waves := Except.ok.inj (hwaves.symm.trans h)
  obtain ⟨-, hbottom, -⟩ := hall 1 [0] rfl 0 List.mem_cons_self
  rw [show splitAll.direction.arrange [[1], [0]] = [[1], [0]] from rfl, htargets] at hbottom
  exact ⟨hreach, hacyclic, hb, hwaves, htargets, hbottom rfl⟩

end VariantGraph
