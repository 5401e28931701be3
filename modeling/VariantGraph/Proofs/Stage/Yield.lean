import VariantGraph.Proofs.Stage.Order
/-!
# One visit carried out, with or without errors

Whether a request is granted does not depend on what other visits have done: packages, capabilities and
rules of modules never change (`Request.answer`, `answer_congr`). So a visit has a closed form even if
some of its requests are refused (`Build.yields_apply`): the visited variant gets what it asked for, each
value of a split makes one new variant under the next free number, and nothing else changes but targets.
-/
namespace VariantGraph
open VariantGraph.Graph

/-! ## Requests that are granted -/

/-- What is found out about a request of a module: the module it leads to, or why it is refused. -/
def Request.answer (env : Environment) (graph : Graph) (user : Module) (request : Request) :
    Except BuildError ModuleId :=
  let origin : Origin := ⟨user.name, user.package⟩
  match env.registry.resolve user.package request.reference with
  | .error cause => .error (.unresolved origin request.property cause)
  | .ok id =>
    let target := graph.module id
    if target.can .defaults then .error (.dependsOnDefaults origin request.property target.name)
    else match env.registry.deniedBy? user.package target.visibility target.package with
      | some rules => .error (.notVisible origin request.property target.name target.package rules)
      | none => .ok id

/-- Only the headers of modules matter to a request. -/
theorem Request.answer_congr (env : Environment) {a b : Graph} (h : SameHeaders a b) {user user' : Module}
    (hu : user.header = user'.header) : Request.answer env a user = Request.answer env b user' := by
  funext request
  simp only [answer, Module.name_congr hu, Module.package_congr hu, h.can, h.visibility, h.package,
    Module.name_congr (h.header _)]

theorem Request.lt_of_answer {env : Environment} {graph : Graph} {user : Module} {request : Request}
    (hb : env.registry.Below graph.modules.length) {target : ModuleId}
    (h : request.answer env graph user = .ok target) : target < graph.modules.length := by
  unfold answer at h
  dsimp only at h
  split at h
  · cases h
  · next id hr =>
    split at h
    · cases h
    · split at h
      · cases h
      · injection h with h
        exact h ▸ hb _ _ _ hr

/-- A request carried out: its answer decides between an error and a dependency. -/
theorem Build.request_eq (env : Environment) (id : VariantId) (build : Build) (request : Request) :
    build.request env id request = match request.answer env build.graph (build.graph.moduleOf id) with
      | .error error => build.fail error
      | .ok target => { build with
          graph := build.graph.addCheckedDependency id request.tag target request.property } := by
  unfold Build.request Request.answer
  dsimp only
  cases hr : env.registry.resolve (build.graph.moduleOf id).package request.reference with
  | error cause => simp only
  | ok target =>
    simp only
    split
    · simp only
    · cases env.registry.deniedBy? (build.graph.moduleOf id).package (build.graph.module target).visibility
          (build.graph.module target).package <;> simp only

section Granted
variable (answer : Request → Except BuildError ModuleId)

/-- A variant with the dependencies of the requests that are granted. -/
def Variant.linkGranted (variant : Variant) (requests : List Request) : Variant :=
  requests.foldl (fun variant request =>
    match answer request with
    | .ok target => variant.link request.tag target request.property
    | .error _ => variant) variant

/-- Why requests are refused, those that are. -/
def Request.refusals (requests : List Request) : List BuildError :=
  requests.flatMap fun request =>
    match answer request with
    | .ok _ => []
    | .error error => [error]

namespace Effects

/-- A visited variant with all that was asked for but the split. -/
def whole (variant : Variant) (effects : Effects) : Variant :=
  { variant with properties := effects.properties.getD variant.properties }.linkGranted answer
    effects.requests

/-- The axis of the split that was asked for. -/
def axis (effects : Effects) : String := (effects.split.map (·.axis)).getD ""

/-- The values of the split that was asked for; none means that there is no split. -/
def values (effects : Effects) : List (String × Properties) := (effects.split.map (·.variations)).getD []

/-- What is left under the number of the visited variant. -/
def remains (variant : Variant) (effects : Effects) : Variant :=
  { effects.whole answer variant with live := variant.live && effects.values.isEmpty }

/-- All that is found wrong. -/
def faults (effects : Effects) : List BuildError := effects.errors ++ Request.refusals answer effects.requests

/-- The numbers that stand in the place of the visited one, when some number is the next free one. -/
def numbers (effects : Effects) (free : Nat) (id : VariantId) : List VariantId :=
  if effects.values = [] then [id] else List.range' free effects.values.length

end Effects

theorem Variant.linkGranted_cons (variant : Variant) (request : Request) (requests : List Request) :
    variant.linkGranted answer (request :: requests) =
      (match answer request with
        | .ok target => variant.link request.tag target request.property
        | .error _ => variant).linkGranted answer requests := rfl

theorem linkGranted_same (variant : Variant) (requests : List Request) :
    (variant.linkGranted answer requests).module = variant.module ∧
      (variant.linkGranted answer requests).variations = variant.variations ∧
      (variant.linkGranted answer requests).live = variant.live := by
  induction requests generalizing variant with
  | nil => exact ⟨rfl, rfl, rfl⟩
  | cons request requests ih =>
    rw [Variant.linkGranted_cons]
    cases answer request with
    | error cause => exact ih variant
    | ok target => exact ih (variant.link request.tag target request.property)

/-- Visits keep the module of a variant, and its variations but for a split. -/
@[simp] theorem Effects.module_whole (variant : Variant) (effects : Effects) :
    (effects.whole answer variant).module = variant.module := (linkGranted_same answer _ _).1

@[simp] theorem Effects.variations_whole (variant : Variant) (effects : Effects) :
    (effects.whole answer variant).variations = variant.variations := (linkGranted_same answer _ _).2.1

@[simp] theorem Effects.live_whole (variant : Variant) (effects : Effects) :
    (effects.whole answer variant).live = variant.live := (linkGranted_same answer _ _).2.2

/-- Without a split all is left. -/
theorem Effects.remains_unsplit (variant : Variant) (effects : Effects) :
    { effects with split := .none }.remains answer variant = effects.whole answer variant := by
  show ({ effects.whole answer variant with live := variant.live && true } : Variant) = _
  rw [Bool.and_true, ← Effects.live_whole answer variant effects]

end Granted

theorem Effects.mem_numbers {effects : Effects} {free : Nat} {id v : VariantId} :
    v ∈ effects.numbers free id ↔
      (effects.values = [] ∧ v = id) ∨ (free ≤ v ∧ v < free + effects.values.length) := by
  unfold numbers
  split
  · next h => simp [h]
  · next h => simp [h, List.mem_range'_1]

/-! ## Operations on a graph -/

namespace Graph

variable (graph : Graph)

@[simp] theorem length_variants_addCheckedDependency (source : VariantId) (tag : Tag) (target : ModuleId)
    (property : String) :
    (graph.addCheckedDependency source tag target property).variants.length = graph.variants.length := by
  rw [addCheckedDependency, markChecked, length_variants_modifyVariant, addDependency]
  split
  · rfl
  · exact length_variants_modifyVariant ..

@[simp] theorem length_variants_split (old : VariantId) (axis : String)
    (values : List (String × Properties)) :
    (graph.split old axis values).variants.length = graph.variants.length + values.length := by
  by_cases hne : values = []
  · subst hne; rw [split_nil]; rfl
  · rw [split_eq_refresh hne, length_variants_refresh, length_variants_grow]

/-- A split leaves all other variants as they are, and retires the old one. -/
theorem bare_split_of_lt {old : VariantId} (axis : String) (values : List (String × Properties)) {v : VariantId}
    (hv : v < graph.variants.length) : ((graph.split old axis values).variant v).bare =
      if v = old then { (graph.variant v).bare with live := (graph.variant v).live && values.isEmpty }
      else (graph.variant v).bare := by
  by_cases hne : values = []
  · subst hne
    rw [split_nil]
    split <;> simp [Variant.bare]
  · rw [split_eq_refresh hne, bare_refresh, variant_grow_of_lt hv]
    have hfull : values.isEmpty = false := by simpa using hne
    split <;> simp [Variant.bare, hfull]

theorem bare_split_created {old : VariantId} (axis : String) {values : List (String × Properties)} {k : Nat}
    (hk : k < values.length) : ((graph.split old axis values).variant (graph.variants.length + k)).bare =
      (graph.variant old).bare.child axis values[k].1 values[k].2 := by
  have hne : values ≠ [] := List.ne_nil_of_length_pos (Nat.zero_lt_of_lt hk)
  rw [split_eq_refresh hne, bare_refresh, variant_grow_created hk, bare_derive]

/-- What a split asked for leads to stands where the old variant stood. -/
theorem rows_split {graph : Graph} (hc : Consistent graph) (effects : Effects) (id : VariantId) (m : ModuleId) :
    ((graph.split id effects.axis effects.values).module m).variants =
      replaceBy id (effects.numbers graph.variants.length id) (graph.module m).variants := by
  by_cases hv : effects.values = []
  · rw [Effects.numbers, if_pos hv, replaceBy_same, hv, split_nil]
  · rw [Effects.numbers, if_neg hv]
    rcases Nat.lt_or_ge m graph.modules.length with hm | hm
    · rw [variants_split hv hm]
      split
      · rfl
      · next hne => exact (replaceBy_eq_self fun hmem => hne (hc.current m hm id hmem).2.symm).symm
    · rw [module_of_le hm, module_of_le (by rw [length_modules_split]; exact hm)]
      rfl

end Graph

/-! ## A visit carried out -/

/-- What is found out about the requests of a variant. -/
def Graph.answers (env : Environment) (graph : Graph) (id : VariantId) : Request → Except BuildError ModuleId :=
  Request.answer env graph (graph.moduleOf id)

theorem Graph.answers_congr (env : Environment) {a b : Graph} (h : SameHeaders a b) {v : VariantId}
    (hb : (a.variant v).bare = (b.variant v).bare) : a.answers env v = b.answers env v :=
  Request.answer_congr env h (moduleOf_header h hb)

/-- What effects make of a build when they are carried out for a variant. -/
structure Yields (env : Environment) (id : VariantId) (effects : Effects) (before after : Build) : Prop where
  consistent : Consistent after.graph
  headers : SameHeaders after.graph before.graph
  errors : after.errors = before.errors ++ effects.faults (before.graph.answers env id)
  length : after.graph.variants.length = before.graph.variants.length + effects.values.length
  /-- What comes of the visit stands where the visited variant stood. -/
  rows : ∀ m, (after.graph.module m).variants =
    replaceBy id (effects.numbers before.graph.variants.length id) (before.graph.module m).variants
  visited : (after.graph.variant id).bare =
    effects.remains (before.graph.answers env id) (before.graph.variant id).bare
  others : ∀ v < before.graph.variants.length, v ≠ id →
    (after.graph.variant v).bare = (before.graph.variant v).bare
  created : ∀ (k : Nat) (hk : k < effects.values.length),
    (after.graph.variant (before.graph.variants.length + k)).bare =
      (effects.whole (before.graph.answers env id) (before.graph.variant id).bare).child effects.axis
        effects.values[k].1 effects.values[k].2

namespace Build

variable {env : Environment} {id : VariantId}

/-- What requests make of a build: the variant gets the dependencies that are granted. -/
structure Grants (env : Environment) (id : VariantId) (requests : List Request) (before after : Build) : Prop where
  consistent : Consistent after.graph
  headers : SameHeaders after.graph before.graph
  errors : after.errors = before.errors ++ Request.refusals (before.graph.answers env id) requests
  length : after.graph.variants.length = before.graph.variants.length
  rows : ∀ m, (after.graph.module m).variants = (before.graph.module m).variants
  self : (after.graph.variant id).bare =
    (before.graph.variant id).bare.linkGranted (before.graph.answers env id) requests
  others : ∀ v, v ≠ id → (after.graph.variant v).bare = (before.graph.variant v).bare

theorem Grants.module {requests : List Request} {before after : Build} (h : Grants env id requests before after) :
    (after.graph.variant id).module = (before.graph.variant id).module := by
  rw [← Variant.bare_module, h.self, (linkGranted_same ..).1, Variant.bare_module]

theorem Grants.isLive {requests : List Request} {before after : Build} (h : Grants env id requests before after) :
    after.graph.isLive id = before.graph.isLive id := by
  rw [isLive_eq, isLive_eq, ← Variant.bare_live, h.self, (linkGranted_same ..).2.2, Variant.bare_live]

theorem grants_request {build : Build} (request : Request) (hb : env.registry.Below build.graph.modules.length)
    (hc : Consistent build.graph) (hl : build.graph.isLive id = true) :
    Grants env id [request] build (build.request env id request) := by
  have heq := build.request_eq env id request
  cases ha : request.answer env build.graph (build.graph.moduleOf id) with
  | error error =>
    rw [ha] at heq
    rw [heq]
    refine ⟨hc, .refl _, ?_, rfl, fun _ => rfl, ?_, fun _ _ => rfl⟩
    · simp [fail, Graph.answers, Request.refusals, ha]
    · simp [fail, Variant.linkGranted, Graph.answers, ha]
  | ok target =>
    rw [ha] at heq
    rw [heq]
    have hbare := bare_addCheckedDependency hl request.tag target request.property
    refine ⟨hc.addCheckedDependency _ _ hl (Request.lt_of_answer hb ha), sameHeaders_addCheckedDependency ..,
      ?_, length_variants_addCheckedDependency .., fun m => variants_addCheckedDependency .., ?_, ?_⟩
    · simp [Graph.answers, Request.refusals, ha]
    · simp [Variant.linkGranted, Graph.answers, ha, hbare]
    · intro v hv
      rw [hbare, if_neg hv]

theorem grants_requests {build : Build} (requests : List Request)
    (hb : env.registry.Below build.graph.modules.length) (hc : Consistent build.graph)
    (hl : build.graph.isLive id = true) :
    Grants env id requests build (requests.foldl (request env id) build) := by
  induction requests generalizing build with
  | nil => exact ⟨hc, .refl _, by simp [Request.refusals], rfl, fun _ => rfl, rfl, fun _ _ => rfl⟩
  | cons first requests ih =>
    rw [List.foldl_cons]
    have hfirst := grants_request first hb hc hl
    have hlive : (build.request env id first).graph.isLive id = true := hfirst.isLive.trans hl
    -- the answers do not change from one request to the next
    have hanswers : (build.request env id first).graph.answers env id = build.graph.answers env id := by
      refine Request.answer_congr env hfirst.headers ?_
      unfold moduleOf
      rw [hfirst.module]; exact hfirst.headers.header _
    have hrest := ih (by rw [hfirst.headers.length]; exact hb) hfirst.consistent hlive
    refine ⟨hrest.consistent, hrest.headers.trans hfirst.headers, ?_, hrest.length.trans hfirst.length,
      fun m => (hrest.rows m).trans (hfirst.rows m), ?_, fun v hv => (hrest.others v hv).trans (hfirst.others v hv)⟩
    · rw [hrest.errors, hanswers, hfirst.errors, List.append_assoc]
      simp [Request.refusals]
    · rw [hrest.self, hanswers, hfirst.self]
      rfl

theorem answers_changeOn (env : Environment) (effects : Effects) {graph : Graph} (hl : graph.isLive id = true) :
    (changeOn effects graph id).answers env id = graph.answers env id := by
  have hmodule : ((changeOn effects graph id).variant id).module = (graph.variant id).module := by
    rw [← Variant.bare_module, bare_changeOn effects hl, if_pos rfl]
    rfl
  refine Request.answer_congr env (sameHeaders_changeOn effects graph id) ?_
  unfold moduleOf
  rw [hmodule]
  exact (sameHeaders_changeOn effects graph id).header _

/-- What a visit makes of a build before it comes to the split. -/
theorem yields_applyUnsplit {build : Build} (effects : Effects) (hb : env.registry.Below build.graph.modules.length)
    (hc : Consistent build.graph) (hl : build.graph.isLive id = true) :
    Yields env id { effects with split := none } build (build.applyUnsplit env id effects) := by
  -- properties first: they change nothing that a request depends on
  have hh := sameHeaders_changeOn effects build.graph id
  have hbare := bare_changeOn effects hl
  have hanswers := answers_changeOn env effects hl
  have hg : Grants env id effects.requests ⟨changeOn effects build.graph id, build.errors ++ effects.errors⟩
      (build.applyUnsplit env id effects) :=
    grants_requests effects.requests (by rw [hh.length]; exact hb) (consistent_changeOn effects hc)
      ((isLive_changeOn ..).trans hl)
  have hself := hg.self
  rw [hanswers, hbare, if_pos rfl] at hself
  refine ⟨hg.consistent, hg.headers.trans hh, ?_, hg.length.trans (length_variants_changeOn ..), fun m => ?_, ?_,
    fun v _ hne => ?_, fun k hk => absurd hk (Nat.not_lt_zero k)⟩
  · rw [hg.errors, hanswers, List.append_assoc]
    rfl
  · show _ = replaceBy id [id] _
    rw [replaceBy_same, hg.rows]
    exact congrArg (·.variants) (module_congr (modules_changeOn effects build.graph id) m)
  · rw [hself, Effects.remains_unsplit]
    rfl
  · rw [hg.others v hne, hbare, if_neg hne]

/-- A visit carried out, with the split apart; a split without values is none. -/
theorem apply_eq_split (env : Environment) (build : Build) (id : VariantId) (effects : Effects) :
    build.apply env id effects = { build.applyUnsplit env id effects with
      graph := (build.applyUnsplit env id effects).graph.split id effects.axis effects.values } := by
  rw [apply_eq]
  unfold Effects.axis Effects.values
  cases effects.split with
  | none => simp [split_nil]
  | some split => rfl

/-- **What a visit makes of a build**, whatever it asks for and whatever of that is refused. -/
theorem yields_apply {build : Build} (effects : Effects) (hb : env.registry.Below build.graph.modules.length)
    (hc : Consistent build.graph) (hl : build.graph.isLive id = true) :
    Yields env id effects build (build.apply env id effects) := by
  have hu := yields_applyUnsplit effects hb hc hl
  have hsize : (build.applyUnsplit env id effects).graph.variants.length = build.graph.variants.length := hu.length
  have hwhole : ((build.applyUnsplit env id effects).graph.variant id).bare =
      effects.whole (build.graph.answers env id) (build.graph.variant id).bare := by
    rw [hu.visited, Effects.remains_unsplit]
  have hlive : (build.applyUnsplit env id effects).graph.isLive id = true := by
    rw [isLive_eq, ← Variant.bare_live, hwhole, Effects.live_whole, Variant.bare_live, ← isLive_eq]
    exact hl
  rw [apply_eq_split]
  refine ⟨hu.consistent.split _ _ hlive, (sameHeaders_split ..).trans hu.headers, hu.errors, ?_, fun m => ?_, ?_,
    fun v hv hne => ?_, fun k hk => ?_⟩
  · rw [length_variants_split, hsize]
  · rw [rows_split hu.consistent, hsize, hu.rows]
    exact congrArg _ (replaceBy_same id _)
  · rw [bare_split_of_lt _ _ _ (lt_of_isLive hlive), if_pos rfl, hwhole, ← Variant.bare_live, hwhole,
      Effects.live_whole]
    rfl
  · rw [bare_split_of_lt _ _ _ (by rw [hsize]; exact hv), if_neg hne, hu.others v hv hne]
  · rw [← hsize, bare_split_created _ _ hk, hwhole]

end Build

/-! ## What is live after a visit -/

namespace Yields

variable {env : Environment} {id : VariantId} {effects : Effects} {before after : Build}
  (h : Yields env id effects before after)
include h

theorem isLive_of_ne {v : VariantId} (hv : v < before.graph.variants.length) (hne : v ≠ id) :
    after.graph.isLive v = before.graph.isLive v := by
  rw [isLive_eq, isLive_eq, ← Variant.bare_live, h.others v hv hne, Variant.bare_live]

theorem isLive_self (hl : before.graph.isLive id = true) : after.graph.isLive id = effects.values.isEmpty := by
  rw [isLive_eq, ← Variant.bare_live, h.visited]
  show ((before.graph.variant id).bare.live && effects.values.isEmpty) = _
  rw [Variant.bare_live, ← isLive_eq, hl, Bool.true_and]

/-- What is live after a visit was live before and not visited, or has come of the visit. -/
theorem isLive_iff (hl : before.graph.isLive id = true) {v : VariantId} : after.graph.isLive v = true ↔
    (before.graph.isLive v = true ∧ v ≠ id) ∨ v ∈ effects.numbers before.graph.variants.length id := by
  rw [Effects.mem_numbers]
  rcases Nat.lt_or_ge v before.graph.variants.length with hv | hv
  · by_cases he : v = id
    · subst he
      rw [h.isLive_self hl]
      simp [Nat.not_le.2 hv]
    · rw [h.isLive_of_ne hv he]
      simp [he, Nat.not_le.2 hv]
  · have hid := lt_of_isLive hl
    have hne : v ≠ id := Nat.ne_of_gt (Nat.lt_of_lt_of_le hid hv)
    have hold : ¬ before.graph.isLive v = true := fun hlive => by
      have := lt_of_isLive hlive
      omega
    constructor
    · intro hlive
      have hlt := lt_of_isLive hlive
      rw [h.length] at hlt
      exact Or.inr (Or.inr ⟨hv, hlt⟩)
    · rintro (hv' | hv' | ⟨-, hlt⟩)
      · exact absurd hv'.1 hold
      · exact absurd hv'.2 hne
      · obtain ⟨k, rfl⟩ := Nat.exists_eq_add_of_le hv
        rw [isLive_eq, ← Variant.bare_live, h.created k (Nat.lt_of_add_lt_add_left hlt)]
        rfl

end Yields

/-! ## Visits carried out one after another -/

namespace Build

/-- Carries out what was asked for on some visits, one after another. -/
def applyAll (env : Environment) (visits : List (VariantId × Effects)) (build : Build) : Build :=
  visits.foldl (fun build (id, effects) => apply env build id effects) build

theorem runWave_eq (env : Environment) (stage : Stage) (build : Build) (wave : List VariantId) :
    build.runWave env stage wave =
      build.applyAll env (wave.map fun id => (id, stage.visit env build.graph id)) := rfl

/-- Visits to variants that are live and not visited twice. -/
structure Ready (env : Environment) (visits : List (VariantId × Effects)) (build : Build) : Prop where
  below : env.registry.Below build.graph.modules.length
  consistent : Consistent build.graph
  nodup : (visits.map Prod.fst).Nodup
  live : ∀ visit ∈ visits, build.graph.isLive visit.1 = true

variable {env : Environment} {visit : VariantId × Effects} {visits visits' : List (VariantId × Effects)}
  {build : Build}

theorem Ready.first (h : Ready env (visit :: visits) build) :
    Yields env visit.1 visit.2 build (build.apply env visit.1 visit.2) :=
  yields_apply visit.2 h.below h.consistent (h.live visit List.mem_cons_self)

/-- A visit leaves the others what they were. -/
theorem Ready.rest (h : Ready env (visit :: visits) build) :
    Ready env visits (build.apply env visit.1 visit.2) := by
  have hy := h.first
  obtain ⟨hnot, hnodup⟩ := List.nodup_cons.1 h.nodup
  refine ⟨by rw [hy.headers.length]; exact h.below, hy.consistent, hnodup, fun other hmem => ?_⟩
  refine (hy.isLive_iff (h.live visit List.mem_cons_self)).2 (Or.inl ⟨h.live other (List.mem_cons_of_mem _ hmem), ?_⟩)
  exact fun he => hnot (List.mem_map.2 ⟨other, hmem, he⟩)

theorem Ready.perm (h : Ready env visits build) (hp : visits.Perm visits') : Ready env visits' build where
  below := h.below
  consistent := h.consistent
  nodup := (hp.map _).nodup_iff.1 h.nodup
  live visit hmem := h.live visit (hp.mem_iff.2 hmem)

theorem Ready.of_append (h : Ready env (visits ++ visits') build) : Ready env visits build where
  below := h.below
  consistent := h.consistent
  nodup := (List.nodup_append.1 (List.map_append (f := Prod.fst) ▸ h.nodup)).1
  live visit hmem := h.live visit (List.mem_append_left _ hmem)

/-- What all visits leave as it is. -/
theorem Ready.applyAll (h : Ready env visits build) :
    Consistent (build.applyAll env visits).graph ∧ SameHeaders (build.applyAll env visits).graph build.graph ∧
      build.graph.variants.length ≤ (build.applyAll env visits).graph.variants.length := by
  induction visits generalizing build with
  | nil => exact ⟨h.consistent, .refl _, Nat.le_refl _⟩
  | cons visit visits ih =>
    obtain ⟨hc, hh, hlen⟩ := ih h.rest
    refine ⟨hc, hh.trans h.first.headers, Nat.le_trans ?_ hlen⟩
    rw [h.first.length]
    exact Nat.le_add_right _ _

end Build

end VariantGraph
