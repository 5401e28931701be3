import VariantGraph.Proofs.Graph.Waves
import VariantGraph.Proofs.Stage.Apply
/-!
# What a whole stage does

A stage visits every variant that was live when it began exactly once, and sees it as it was then:
before its own visit nothing but its targets can change. So a stage without errors relates the graphs
before and after it variant by variant (`Stage.transition_sweep`). `Progress` is the invariant that
the visits keep: some variants still wait, all others are outcomes.
-/
namespace VariantGraph
open VariantGraph.Graph

/-- A stage without the search for missing targets that follows it. -/
def Stage.sweep (env : Environment) (stage : Stage) (graph : Graph) : Build :=
  match graph.waves with
  | .error path => ⟨graph, [graph.cycleError path]⟩
  | .ok waves => (stage.direction.arrange waves).foldl (Build.runWave env stage) ⟨graph, []⟩

theorem Stage.run_graph (env : Environment) (stage : Stage) (graph : Graph) :
    (stage.run env graph).graph = (stage.sweep env graph).graph := by
  unfold Stage.run Stage.sweep
  cases graph.waves <;> rfl

theorem Graph.missingErrors_eq_nil {graph : Graph} : graph.missingErrors = [] ↔ graph.missing = [] := by
  simp [missingErrors]

theorem Stage.run_errors (env : Environment) (stage : Stage) (graph : Graph) :
    (stage.run env graph).errors = [] ↔
      (stage.sweep env graph).errors = [] ∧ (stage.sweep env graph).graph.missing = [] := by
  unfold Stage.run Stage.sweep
  cases graph.waves with
  | error path => simp
  | ok waves => rw [List.append_eq_nil_iff, missingErrors_eq_nil]

section
variable (env : Environment) (stage : Stage) (start : Graph)

/-- Effects that a stage asks for on a visit which sees the variant as it was when the stage began. -/
def Seen (u : VariantId) (effects : Effects) : Prop :=
  ∃ graph, SameHeaders graph start ∧ (graph.variant u).bare = (start.variant u).bare ∧
    effects = stage.visit env graph u

/-- Effects of a visit that went well. -/
structure Visited (u : VariantId) (effects : Effects) : Prop where
  live : start.isLive u = true
  seen : Seen env stage start u effects
  clean : effects.errors = []
  admitted : ∀ request ∈ effects.requests, ∃ target,
    Admits env start (start.moduleOf u).package request target

/-- What becomes of a variant by some effects. -/
def becomes (u : VariantId) (effects : Effects) : List Variant :=
  effects.outcome env.registry (start.moduleOf u).package (start.variant u).bare

/-- A stage turns one variant into another one, both without targets. -/
def Turns (u : VariantId) (w : Variant) : Prop :=
  ∃ effects, Visited env stage start u effects ∧ w ∈ becomes env start u effects

/-- The state of a stage under way: the waiting variants are as they were when it began, all others
come of visits, and every visit has left what it should. -/
structure Progress (waiting : List VariantId) (current : Graph) : Prop where
  consistent : Consistent current
  headers : SameHeaders current start
  nodup : waiting.Nodup
  waits : ∀ v ∈ waiting, start.isLive v = true ∧ current.isLive v = true ∧
    (current.variant v).bare = (start.variant v).bare
  sound : ∀ v, current.isLive v = true → v ∈ waiting ∨
    ∃ u, Turns env stage start u (current.variant v).bare
  complete : ∀ u, start.isLive u = true → u ∈ waiting ∨ ∃ effects, Visited env stage start u effects ∧
    ∀ w ∈ becomes env start u effects,
      ∃ v, v ∉ waiting ∧ current.isLive v = true ∧ (current.variant v).bare = w

/-- What a stage did to a graph. -/
structure Transition (after : Graph) : Prop where
  consistent : Consistent after
  headers : SameHeaders after start
  sound : ∀ v, after.isLive v = true → ∃ u, Turns env stage start u (after.variant v).bare
  complete : ∀ u, start.isLive u = true → ∃ effects, Visited env stage start u effects ∧
    ∀ w ∈ becomes env start u effects, ∃ v, after.isLive v = true ∧ (after.variant v).bare = w

end

variable {env : Environment} {stage : Stage} {start : Graph}

theorem moduleOf_header {current : Graph} (hh : SameHeaders current start) {v : VariantId}
    (hb : (current.variant v).bare = (start.variant v).bare) :
    (current.moduleOf v).header = (start.moduleOf v).header := by
  have hm : (current.variant v).bare.module = (start.variant v).bare.module := by rw [hb]
  unfold moduleOf
  rw [Variant.bare_module, Variant.bare_module] at hm
  rw [hm]; exact hh.header _

theorem moduleOf_package {current : Graph} (hh : SameHeaders current start) {v : VariantId}
    (hb : (current.variant v).bare = (start.variant v).bare) :
    (current.moduleOf v).package = (start.moduleOf v).package :=
  Module.package_congr (moduleOf_header hh hb)

theorem moduleOf_can {current : Graph} (hh : SameHeaders current start) {v : VariantId}
    (hb : (current.variant v).bare = (start.variant v).bare) (capability : Capability) :
    (current.moduleOf v).can capability = (start.moduleOf v).can capability :=
  Module.can_congr (moduleOf_header hh hb) capability

theorem moduleOf_moduleType {current : Graph} (hh : SameHeaders current start) {v : VariantId}
    (hb : (current.variant v).bare = (start.variant v).bare) :
    (current.moduleOf v).moduleType = (start.moduleOf v).moduleType :=
  Module.moduleType_congr (moduleOf_header hh hb)

/-! ## One visit -/

theorem Progress.apply {id : VariantId} {rest : List VariantId} {build : Build} {effects : Effects}
    (hb : env.registry.Below start.modules.length)
    (h : Progress env stage start (id :: rest) build.graph) (hs : Seen env stage start id effects)
    (he : (build.apply env id effects).errors = []) :
    build.errors = [] ∧ Progress env stage start rest (build.apply env id effects).graph := by
  obtain ⟨hstart, hlive, hbare⟩ := h.waits id List.mem_cons_self
  obtain ⟨herr, hclean, ha⟩ := Build.applied effects (by rw [h.headers.length]; exact hb) h.consistent
    hlive he
  obtain ⟨hid, hrest⟩ := List.nodup_cons.1 h.nodup
  have hpackage := moduleOf_package h.headers hbare
  have hout : effects.outcome env.registry (build.graph.moduleOf id).package (build.graph.variant id).bare =
      becomes env start id effects := by rw [hpackage, hbare]; rfl
  have hvisited : Visited env stage start id effects := by
    refine ⟨hstart, hs, hclean, fun r hr => ?_⟩
    obtain ⟨t, ht⟩ := ha.admitted r hr
    rw [hpackage] at ht
    exact ⟨t, ht.congr h.headers⟩
  have hsound := ha.sound
  have hcomplete := ha.complete
  rw [hout] at hsound hcomplete
  refine ⟨herr, ha.consistent, ha.headers.trans h.headers, hrest, ?_, ?_, ?_⟩
  · intro v hv
    obtain ⟨h1, h2, h3⟩ := h.waits v (List.mem_cons_of_mem _ hv)
    obtain ⟨h4, h5⟩ := ha.kept v h2 fun he => hid (he ▸ hv)
    exact ⟨h1, h4, h5.trans h3⟩
  · intro v hv
    rcases hsound v hv with ⟨hl, hne⟩ | hmem
    · rcases h.sound v hl with hw | ⟨u, hu⟩
      · exact Or.inl ((List.mem_cons.1 hw).resolve_left hne)
      · exact Or.inr ⟨u, by rw [(ha.kept v hl hne).2]; exact hu⟩
    · exact Or.inr ⟨id, effects, hvisited, hmem⟩
  · intro u hu
    by_cases hui : u = id
    · subst hui
      refine Or.inr ⟨effects, hvisited, fun w hw => ?_⟩
      obtain ⟨v, hv, hl, hb⟩ := hcomplete w hw
      refine ⟨v, fun hmem => ?_, hl, hb⟩
      rcases hv with rfl | hdead
      · exact hid hmem
      · rw [(h.waits v (List.mem_cons_of_mem _ hmem)).2.1] at hdead; cases hdead
    · rcases h.complete u hu with hw | ⟨effects', hv', hall⟩
      · exact Or.inl ((List.mem_cons.1 hw).resolve_left hui)
      · refine Or.inr ⟨effects', hv', fun w hw => ?_⟩
        obtain ⟨v, hv, hl, hb⟩ := hall w hw
        have hne : v ≠ id := fun he => hv (he ▸ List.mem_cons_self)
        obtain ⟨hl', hb'⟩ := ha.kept v hl hne
        exact ⟨v, fun hmem => hv (List.mem_cons_of_mem _ hmem), hl', hb'.trans hb⟩

/-! ## One wave, and all waves -/

section Waves
variable (env : Environment) (stage : Stage) (start : Graph)

/-- What every visit of a stage keeps, besides progress. -/
def Keeps (p : List VariantId → Graph → Prop) : Prop :=
  ∀ (id : VariantId) (rest : List VariantId) (build : Build) (effects : Effects),
    Progress env stage start (id :: rest) build.graph → Seen env stage start id effects →
    (build.apply env id effects).errors = [] → p (id :: rest) build.graph →
    p rest (build.apply env id effects).graph

end Waves

section Waves
variable {p : List VariantId → Graph → Prop} (hb : env.registry.Below start.modules.length)
  (hkeeps : Keeps env stage start p)
include hb hkeeps

/-- The visits of a wave, one after another; what each asks for was found out before the first. -/
theorem Progress.applyAll {visits : List (VariantId × Effects)} {rest : List VariantId} {build : Build}
    (h : Progress env stage start (visits.map (·.1) ++ rest) build.graph)
    (hp : p (visits.map (·.1) ++ rest) build.graph)
    (hs : ∀ visit ∈ visits, Seen env stage start visit.1 visit.2)
    (he : (visits.foldl (fun build (id, effects) => Build.apply env build id effects) build).errors = []) :
    Progress env stage start rest
      (visits.foldl (fun build (id, effects) => Build.apply env build id effects) build).graph ∧
    p rest (visits.foldl (fun build (id, effects) => Build.apply env build id effects) build).graph := by
  induction visits generalizing build with
  | nil => exact ⟨h, hp⟩
  | cons visit visits ih =>
    rw [List.foldl_cons] at he ⊢
    have herr := Build.errors_of_foldl (fun _ _ h => Build.errors_of_apply h) visits he
    have hseen := hs _ List.mem_cons_self
    exact ih (h.apply hb hseen herr).2 (hkeeps _ _ _ _ h hseen herr hp)
      (fun v hv => hs v (List.mem_cons_of_mem _ hv)) he

omit hb hkeeps in
theorem errors_of_runWave {build : Build} {wave : List VariantId}
    (h : (build.runWave env stage wave).errors = []) : build.errors = [] :=
  Build.errors_of_foldl (fun _ _ h => Build.errors_of_apply h) _ h

theorem Progress.runWave {wave rest : List VariantId} {build : Build}
    (h : Progress env stage start (wave ++ rest) build.graph) (hp : p (wave ++ rest) build.graph)
    (he : (build.runWave env stage wave).errors = []) :
    Progress env stage start rest (build.runWave env stage wave).graph ∧
      p rest (build.runWave env stage wave).graph := by
  have hids : (wave.map fun id => (id, stage.visit env build.graph id)).map (·.1) = wave := by
    rw [List.map_map]
    exact List.map_id _
  refine Progress.applyAll hb hkeeps (by rw [hids]; exact h) (by rw [hids]; exact hp) ?_ he
  intro visit hv
  obtain ⟨id, hid, rfl⟩ := List.mem_map.1 hv
  exact ⟨build.graph, h.headers, (h.waits id (List.mem_append_left _ hid)).2.2, rfl⟩

theorem Progress.runWaves {waves : List (List VariantId)} {build : Build}
    (h : Progress env stage start waves.flatten build.graph) (hp : p waves.flatten build.graph)
    (he : (waves.foldl (Build.runWave env stage) build).errors = []) :
    Progress env stage start [] (waves.foldl (Build.runWave env stage) build).graph ∧
      p [] (waves.foldl (Build.runWave env stage) build).graph := by
  induction waves generalizing build with
  | nil => exact ⟨h, hp⟩
  | cons wave waves ih =>
    rw [List.foldl_cons] at he ⊢
    rw [List.flatten_cons] at h hp
    have herr := Build.errors_of_foldl (fun _ _ h => errors_of_runWave h) waves he
    obtain ⟨hnext, hpnext⟩ := Progress.runWave hb hkeeps h hp herr
    exact ih hnext hpnext he

end Waves

/-! ## The whole stage -/

theorem flatten_arrange (direction : Direction) (waves : List (List VariantId)) :
    (direction.arrange waves).flatten.Perm waves.flatten := by
  cases direction with
  | bottomUp => exact .refl _
  | topDown => exact (List.reverse_perm waves).flatten

/-- The visits of a stage, in their order, are to all live variants. -/
theorem perm_arrange (direction : Direction) {graph : Graph} {waves : List (List VariantId)}
    (h : graph.waves = .ok waves) : (direction.arrange waves).flatten.Perm graph.liveIds :=
  (flatten_arrange direction waves).trans (perm_of_waves h)

theorem Progress.begin (hc : Consistent start) {waiting : List VariantId}
    (hw : waiting.Perm start.liveIds) : Progress env stage start waiting start := by
  have hmem : ∀ v, v ∈ waiting ↔ start.isLive v = true := fun v => by rw [hw.mem_iff]; exact mem_liveIds
  refine ⟨hc, .refl _, hw.nodup_iff.2 (nodup_liveIds start), ?_, ?_, ?_⟩
  · exact fun v hv => ⟨(hmem v).1 hv, (hmem v).1 hv, rfl⟩
  · exact fun v hv => Or.inl ((hmem v).2 hv)
  · exact fun u hu => Or.inl ((hmem u).2 hu)

/-- What holds while all live variants wait and is kept by every visit holds after a stage without
errors. -/
theorem Stage.sweep_induction {p : List VariantId → Graph → Prop} (hb : env.registry.Below start.modules.length)
    (hc : Consistent start) (hkeeps : Keeps env stage start p)
    (hp : ∀ waiting, waiting.Perm start.liveIds → p waiting start) (h : (stage.sweep env start).errors = []) :
    Progress env stage start [] (stage.sweep env start).graph ∧ p [] (stage.sweep env start).graph := by
  unfold Stage.sweep at h ⊢
  cases hw : start.waves with
  | error path => rw [hw] at h; cases h
  | ok waves =>
    rw [hw] at h
    have hperm := perm_arrange stage.direction hw
    exact Progress.runWaves hb hkeeps (by exact Progress.begin hc hperm) (by exact hp _ hperm) h

/-- **A stage visits every variant once, as it was when the stage began.** -/
theorem Stage.transition_sweep (hb : env.registry.Below start.modules.length) (hc : Consistent start)
    (h : (stage.sweep env start).errors = []) :
    Transition env stage start (stage.sweep env start).graph := by
  obtain ⟨hp, -⟩ := Stage.sweep_induction (p := fun _ _ => True) hb hc (fun _ _ _ _ _ _ _ _ => trivial)
    (fun _ _ => trivial) h
  refine ⟨hp.consistent, hp.headers, ?_, ?_⟩
  · exact fun v hv => (hp.sound v hv).resolve_left List.not_mem_nil
  · intro u hu
    obtain ⟨effects, hv, hall⟩ := (hp.complete u hu).resolve_left List.not_mem_nil
    refine ⟨effects, hv, fun w hw => ?_⟩
    obtain ⟨v, -, hl, hbare⟩ := hall w hw
    exact ⟨v, hl, hbare⟩

/-! ## Stages one after another -/

section
variable {after : Graph} (ht : Transition env stage start after)
  (hb : env.registry.Below start.modules.length)
include ht hb

theorem Transition.below : env.registry.Below after.modules.length := by
  rw [ht.headers.length]; exact hb

theorem Transition.sweep {next : Stage} (h : (next.sweep env after).errors = []) :
    Transition env next after (next.sweep env after).graph :=
  Stage.transition_sweep (ht.below hb) ht.consistent h

end

theorem Stage.runAll_nil {graph : Graph} (h : (Stage.runAll env [] graph).errors = []) :
    graph.findCycle? = none ∧ (Stage.runAll env [] graph).graph = graph := by
  unfold Stage.runAll at h ⊢
  cases hc : graph.findCycle? with
  | some path => simp [hc] at h
  | none => exact ⟨rfl, rfl⟩

theorem Stage.runAll_cons {rest : List Stage} {graph : Graph}
    (h : (Stage.runAll env (stage :: rest) graph).errors = []) :
    (stage.run env graph).errors = [] ∧
      Stage.runAll env (stage :: rest) graph = Stage.runAll env rest (stage.run env graph).graph := by
  rw [Stage.runAll] at h ⊢
  split at h
  · next he => exact ⟨he, if_pos he⟩
  · next he => exact absurd h he

/-- What runs only after a build without errors. -/
theorem Build.errors_ite {build next : Build} :
    (if build.errors = [] then next else build).errors = [] ↔ build.errors = [] ∧ next.errors = [] := by
  split
  · next he => simp [he]
  · next he => simp [he]

theorem Stage.runAll_cons_iff {rest : List Stage} : (Stage.runAll env (stage :: rest) start).errors = [] ↔
    (stage.sweep env start).errors = [] ∧ (stage.sweep env start).graph.missing = [] ∧
      (Stage.runAll env rest (stage.sweep env start).graph).errors = [] := by
  rw [Stage.runAll]
  exact Build.errors_ite.trans (by rw [stage.run_errors, stage.run_graph, and_assoc])

/-- The graph that some stages leave when nothing is searched for. -/
def Stage.after (env : Environment) (stages : List Stage) (graph : Graph) : Graph :=
  stages.foldl (fun graph stage => (stage.sweep env graph).graph) graph

theorem Stage.runAll_graph {stages : List Stage} {graph : Graph}
    (h : (Stage.runAll env stages graph).errors = []) :
    (Stage.runAll env stages graph).graph = Stage.after env stages graph := by
  induction stages generalizing graph with
  | nil => exact (Stage.runAll_nil h).2
  | cons stage stages ih =>
    have heq := (Stage.runAll_cons h).2
    rw [heq, stage.run_graph]
    exact ih (Stage.runAll_cons_iff.1 h).2.2

/-- What every stage without errors keeps holds in the end, and there is no cycle then. -/
theorem Stage.runAll_induction {p : Graph → Prop} {stages : List Stage} {graph : Graph}
    (hstep : ∀ stage : Stage, ∀ graph, p graph → (stage.run env graph).errors = [] →
      p (stage.run env graph).graph)
    (hp : p graph) (h : (Stage.runAll env stages graph).errors = []) :
    p (Stage.runAll env stages graph).graph ∧
      (Stage.runAll env stages graph).graph.findCycle? = none := by
  induction stages generalizing graph with
  | nil =>
    obtain ⟨hc, hg⟩ := Stage.runAll_nil h
    rw [hg]; exact ⟨hp, hc⟩
  | cons stage stages ih =>
    obtain ⟨he, heq⟩ := Stage.runAll_cons h
    rw [heq] at h ⊢
    exact ih (hstep stage graph hp he) h

end VariantGraph
