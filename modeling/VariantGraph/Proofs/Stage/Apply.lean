import VariantGraph.Pipeline
import VariantGraph.Proofs.Namespace.Registry
import VariantGraph.Proofs.Stage.Faces
/-!
# Carrying out what a visit asked for

When nothing goes wrong, a visit turns one live variant into the variants of `Effects.outcome` and
leaves all others as they were (`Build.applied`). Every request was then let through: its reference
leads to a module that is no defaults and that the package may see.
-/
namespace VariantGraph

/-- A request of a package leads to a module that it may depend on. -/
structure Admits (env : Environment) (graph : Graph) (package : String) (request : Request)
    (target : ModuleId) : Prop where
  resolved : env.registry.resolve package request.reference = .ok target
  plain : (graph.module target).can .defaults = false
  visible : env.registry.deniedBy? package (graph.module target).visibility
    (graph.module target).package = none

/-- A variant with the dependencies of all requests whose references lead anywhere. -/
def Variant.linkAll (registry : Registry) (package : String) (variant : Variant)
    (requests : List Request) : Variant :=
  requests.foldl (fun variant request =>
    match registry.resolve package request.reference with
    | .ok target => variant.link request.tag target request.property
    | .error _ => variant) variant

/-- What a visit makes of a variant before the split: new properties, then dependencies. -/
def Effects.linked (registry : Registry) (package : String) (variant : Variant) (effects : Effects) :
    Variant :=
  { variant with properties := effects.properties.getD variant.properties }.linkAll registry package
    effects.requests

/-- What becomes of a variant on a visit, all without targets: one variant for each value of the split,
or the variant itself. -/
def Effects.outcome (registry : Registry) (package : String) (variant : Variant) (effects : Effects) :
    List Variant :=
  let linked := effects.linked registry package variant
  match effects.split with
  | some split =>
    if split.variations = [] then [linked]
    else split.variations.map fun (value, properties) => linked.child split.axis value properties
  | .none => [linked]

namespace Graph

/-- The same modules but for their lists. -/
structure SameHeaders (a b : Graph) : Prop where
  length : a.modules.length = b.modules.length
  header : ∀ m, (a.module m).header = (b.module m).header

variable {graph : Graph}

theorem SameHeaders.refl (graph : Graph) : SameHeaders graph graph := ⟨rfl, fun _ => rfl⟩

theorem SameHeaders.trans {a b c : Graph} (h : SameHeaders a b) (h' : SameHeaders b c) :
    SameHeaders a c := ⟨h.length.trans h'.length, fun m => (h.header m).trans (h'.header m)⟩

theorem SameHeaders.can {a b : Graph} (h : SameHeaders a b) (m : ModuleId) (capability : Capability) :
    (a.module m).can capability = (b.module m).can capability :=
  Module.can_congr (h.header m) capability

theorem SameHeaders.package {a b : Graph} (h : SameHeaders a b) (m : ModuleId) :
    (a.module m).package = (b.module m).package := Module.package_congr (h.header m)

theorem SameHeaders.visibility {a b : Graph} (h : SameHeaders a b) (m : ModuleId) :
    (a.module m).visibility = (b.module m).visibility := Module.visibility_congr (h.header m)

theorem sameHeaders_setProperties (graph : Graph) (id : VariantId) (properties : Properties) :
    SameHeaders (graph.setProperties id properties) graph := ⟨rfl, fun _ => rfl⟩

theorem sameHeaders_addCheckedDependency (graph : Graph) (source : VariantId) (tag : Tag)
    (target : ModuleId) (property : String) :
    SameHeaders (graph.addCheckedDependency source tag target property) graph :=
  ⟨length_modules_addCheckedDependency .., header_addCheckedDependency graph source tag target property⟩

theorem sameHeaders_split (graph : Graph) (old : VariantId) (axis : String)
    (values : List (String × Properties)) : SameHeaders (graph.split old axis values) graph := by
  refine ⟨length_modules_split .., fun m => ?_⟩
  rcases Nat.lt_or_ge m graph.modules.length with hm | hm
  · exact header_split graph old axis values hm
  · rw [module_of_le hm, module_of_le (by rw [length_modules_split]; exact hm)]

end Graph

open VariantGraph.Graph

theorem Admits.congr {env : Environment} {a b : Graph} (h : SameHeaders a b) {package : String}
    {request : Request} {target : ModuleId} (ha : Admits env a package request target) :
    Admits env b package request target := by
  refine ⟨ha.resolved, ?_, ?_⟩
  · rw [← h.can]; exact ha.plain
  · rw [← h.visibility, ← h.package]; exact ha.visible

namespace Build

variable {env : Environment} {build : Build} {id : Nat}

/-! ## Requests -/

/-- Errors are never taken back. -/
theorem errors_of_foldl {α : Type} {step : Build → α → Build}
    (hstep : ∀ build a, (step build a).errors = [] → build.errors = []) (l : List α) {build : Build}
    (h : (l.foldl step build).errors = []) : build.errors = [] := by
  induction l generalizing build with
  | nil => exact h
  | cons a l ih => exact hstep build a (ih h)

theorem request_of_errors (request : Request) (h : (build.request env id request).errors = []) :
    build.errors = [] ∧ ∃ target,
      Admits env build.graph (build.graph.moduleOf id).package request target ∧
      (build.request env id request).graph =
        build.graph.addCheckedDependency id request.tag target request.property := by
  unfold Build.request at h ⊢
  cases hr : env.registry.resolve (build.graph.moduleOf id).package request.reference with
  | error cause => simp [hr, fail] at h
  | ok target =>
    simp only [hr] at h ⊢
    cases hp : (build.graph.module target).can .defaults with
    | true => simp [hp, fail] at h
    | false =>
      simp only [hp, Bool.false_eq_true, if_false] at h ⊢
      cases hv : env.registry.deniedBy? (build.graph.moduleOf id).package
          (build.graph.module target).visibility (build.graph.module target).package with
      | some rules => simp [hv, fail] at h
      | none =>
        simp only [hv] at h
        exact ⟨h, target, ⟨hr, hp, hv⟩, rfl⟩

/-- What requests did to a graph when all of them were let through: the variant became another one, and
the others stayed. -/
structure Requested (env : Environment) (id : VariantId) (requests : List Request) (became : Variant)
    (before after : Graph) : Prop where
  consistent : Consistent after
  headers : SameHeaders after before
  admitted : ∀ request ∈ requests, ∃ target,
    Admits env before (before.moduleOf id).package request target
  live : ∀ v, after.isLive v = before.isLive v
  others : ∀ v, v ≠ id → (after.variant v).bare = (before.variant v).bare
  self : (after.variant id).bare = became

theorem requested (requests : List Request) (hb : env.registry.Below build.graph.modules.length)
    (hc : Consistent build.graph) (hl : build.graph.isLive id = true)
    (h : (requests.foldl (request env id) build).errors = []) :
    build.errors = [] ∧ Requested env id requests
      ((build.graph.variant id).bare.linkAll env.registry (build.graph.moduleOf id).package requests)
      build.graph (requests.foldl (request env id) build).graph := by
  induction requests generalizing build with
  | nil =>
    refine ⟨h, hc, .refl _, ?_, fun _ => rfl, fun _ _ => rfl, rfl⟩
    intro r hr; cases hr
  | cons r requests ih =>
    rw [List.foldl_cons] at h ⊢
    -- the graph after the first request is again one to which the hypotheses apply
    have hstep : (build.request env id r).errors = [] →
        Consistent (build.request env id r).graph ∧ SameHeaders (build.request env id r).graph build.graph ∧
        (build.request env id r).graph.isLive id = true := by
      intro he
      obtain ⟨-, target, ha, hg⟩ := request_of_errors r he
      have ht := hb _ _ _ ha.resolved
      rw [hg]
      exact ⟨hc.addCheckedDependency _ _ hl ht, sameHeaders_addCheckedDependency .., by
        rw [isLive_addCheckedDependency]; exact hl⟩
    have he := errors_of_foldl (fun _ q hq => (request_of_errors q hq).1) requests h
    obtain ⟨hc', hh, hl'⟩ := hstep he
    obtain ⟨-, hrest⟩ := ih (by rw [hh.length]; exact hb) hc' hl' h
    obtain ⟨herrs, target, ha, hg⟩ := request_of_errors r he
    have hbare := bare_addCheckedDependency hl r.tag target r.property
    have hmod : ((build.request env id r).graph.variant id).module = (build.graph.variant id).module := by
      rw [hg]
      have := congrArg Variant.module (hbare id)
      rw [if_pos rfl] at this
      exact this
    have hpackage : ((build.request env id r).graph.moduleOf id).package =
        (build.graph.moduleOf id).package := by
      unfold moduleOf
      rw [hmod]; exact hh.package _
    refine ⟨herrs, hrest.consistent, hrest.headers.trans hh, ?_, ?_, ?_, ?_⟩
    · intro q hq
      rcases List.mem_cons.1 hq with rfl | hq
      · exact ⟨target, ha⟩
      · obtain ⟨t, hadm⟩ := hrest.admitted q hq
        rw [hpackage] at hadm
        exact ⟨t, hadm.congr hh⟩
    · intro v
      rw [hrest.live, hg, isLive_addCheckedDependency]
    · intro v hv
      rw [hrest.others v hv, hg, hbare, if_neg hv]
    · rw [hrest.self, hpackage, hg, hbare, if_pos rfl, Variant.linkAll, Variant.linkAll,
        List.foldl_cons, ha.resolved]

/-! ## All effects of a visit -/

/-- A graph in which a variant has the properties that were asked for. -/
def changeOn (effects : Effects) (graph : Graph) (id : VariantId) : Graph :=
  match effects.properties with
  | some properties => graph.setProperties id properties
  | none => graph

/-- A visit carried out but for the split. -/
def applyUnsplit (env : Environment) (build : Build) (id : VariantId) (effects : Effects) : Build :=
  effects.requests.foldl (request env id) ⟨changeOn effects build.graph id, build.errors ++ effects.errors⟩

theorem apply_eq (env : Environment) (build : Build) (id : VariantId) (effects : Effects) :
    build.apply env id effects = match effects.split with
      | some split => { applyUnsplit env build id effects with
          graph := (applyUnsplit env build id effects).graph.split id split.axis split.variations }
      | none => applyUnsplit env build id effects := rfl

theorem errors_applyUnsplit {effects : Effects} (h : (build.apply env id effects).errors = []) :
    (build.applyUnsplit env id effects).errors = [] := by
  rw [apply_eq] at h
  revert h
  cases effects.split <;> exact fun he => he

theorem errors_of_apply {effects : Effects} (h : (build.apply env id effects).errors = []) :
    build.errors = [] :=
  (List.append_eq_nil_iff.1 (errors_of_foldl (fun _ q hq => (request_of_errors q hq).1) effects.requests
    (errors_applyUnsplit h))).1

theorem bare_changeOn (effects : Effects) {graph : Graph} (hl : graph.isLive id = true) (v : Nat) :
    ((changeOn effects graph id).variant v).bare =
      if v = id then { (graph.variant id).bare with
        properties := effects.properties.getD (graph.variant id).bare.properties }
      else (graph.variant v).bare := by
  unfold changeOn
  cases hp : effects.properties with
  | some properties => exact bare_setProperties hl properties v
  | none =>
    by_cases he : v = id
    · subst he; rw [if_pos rfl]; rfl
    · rw [if_neg he]

theorem isLive_changeOn (effects : Effects) (graph : Graph) (id : VariantId) (v : Nat) :
    (changeOn effects graph id).isLive v = graph.isLive v := by
  unfold changeOn
  split
  · exact isLive_setProperties ..
  · rfl

theorem modules_changeOn (effects : Effects) (graph : Graph) (id : VariantId) :
    (changeOn effects graph id).modules = graph.modules := by
  unfold changeOn
  split <;> rfl

theorem length_variants_changeOn (effects : Effects) (graph : Graph) (id : VariantId) :
    (changeOn effects graph id).variants.length = graph.variants.length := by
  unfold changeOn
  split
  · exact length_variants_modifyVariant ..
  · rfl

theorem sameHeaders_changeOn (effects : Effects) (graph : Graph) (id : VariantId) :
    SameHeaders (changeOn effects graph id) graph := by
  unfold changeOn
  split
  · exact sameHeaders_setProperties ..
  · exact .refl _

theorem consistent_changeOn (effects : Effects) {graph : Graph} (hc : Consistent graph) :
    Consistent (changeOn effects graph id) := by
  unfold changeOn
  split
  · exact hc.setProperties ..
  · exact hc

theorem requested_applyUnsplit (effects : Effects) (hb : env.registry.Below build.graph.modules.length)
    (hc : Consistent build.graph) (hl : build.graph.isLive id = true)
    (h : (build.applyUnsplit env id effects).errors = []) :
    build.errors = [] ∧ effects.errors = [] ∧ Requested env id effects.requests
      (effects.linked env.registry (build.graph.moduleOf id).package (build.graph.variant id).bare)
      build.graph (build.applyUnsplit env id effects).graph := by
  have hh := sameHeaders_changeOn effects build.graph id
  have hlive := isLive_changeOn effects build.graph id
  have hbare := bare_changeOn effects hl
  have hself := hbare id
  rw [if_pos rfl] at hself
  have hpackage : ((changeOn effects build.graph id).moduleOf id).package =
      (build.graph.moduleOf id).package := by
    have hm : ((changeOn effects build.graph id).variant id).bare.module =
        (build.graph.variant id).bare.module := by rw [hself]
    simp only [Variant.bare_module] at hm
    unfold moduleOf
    rw [hm]; exact hh.package _
  have herrors : (effects.requests.foldl (request env id)
    ⟨changeOn effects build.graph id, build.errors ++ effects.errors⟩).errors = [] := h
  obtain ⟨herr, hr⟩ := requested effects.requests (by rw [hh.length]; exact hb)
    (by exact consistent_changeOn effects hc) (by exact (hlive id).trans hl) herrors
  obtain ⟨he1, he2⟩ := List.append_eq_nil_iff.1 herr
  refine ⟨he1, he2, hr.consistent, hr.headers.trans hh, ?_, ?_, ?_, ?_⟩
  · intro r hmem
    obtain ⟨t, ht⟩ := hr.admitted r hmem
    rw [hpackage] at ht
    exact ⟨t, ht.congr hh⟩
  · exact fun v => (hr.live v).trans (hlive v)
  · exact fun v hv => (hr.others v hv).trans (by rw [hbare, if_neg hv])
  · exact hr.self.trans (by rw [hpackage, hself]; rfl)

/-- What a visit did to a graph: the variant became what its effects say, and the others stayed. -/
structure Applied (env : Environment) (id : VariantId) (effects : Effects) (before after : Graph) :
    Prop where
  consistent : Consistent after
  headers : SameHeaders after before
  admitted : ∀ request ∈ effects.requests, ∃ target,
    Admits env before (before.moduleOf id).package request target
  kept : ∀ v, before.isLive v = true → v ≠ id →
    after.isLive v = true ∧ (after.variant v).bare = (before.variant v).bare
  /-- Nothing is live but what was and what came of the visit. -/
  sound : ∀ v, after.isLive v = true → (before.isLive v = true ∧ v ≠ id) ∨
    (after.variant v).bare ∈
      effects.outcome env.registry (before.moduleOf id).package (before.variant id).bare
  /-- Everything that should come of the visit did. -/
  complete : ∀ w ∈ effects.outcome env.registry (before.moduleOf id).package (before.variant id).bare,
    ∃ v, (v = id ∨ before.isLive v = false) ∧ after.isLive v = true ∧ (after.variant v).bare = w

theorem applied (effects : Effects) (hb : env.registry.Below build.graph.modules.length)
    (hc : Consistent build.graph) (hl : build.graph.isLive id = true)
    (h : (build.apply env id effects).errors = []) :
    build.errors = [] ∧ effects.errors = [] ∧
      Applied env id effects build.graph (build.apply env id effects).graph := by
  obtain ⟨he1, he2, hr⟩ := requested_applyUnsplit effects hb hc hl (errors_applyUnsplit h)
  rw [apply_eq]
  refine ⟨he1, he2, ?_⟩
  have hself := (hr.live id).trans hl
  -- without a split, or with one that has no values, the variant itself is all that comes of the visit
  have whole : effects.outcome env.registry (build.graph.moduleOf id).package (build.graph.variant id).bare =
        [effects.linked env.registry (build.graph.moduleOf id).package (build.graph.variant id).bare] →
      Applied env id effects build.graph (build.applyUnsplit env id effects).graph := by
    intro hout
    refine ⟨hr.consistent, hr.headers, hr.admitted, ?_, ?_, ?_⟩
    · exact fun v hv hne => ⟨(hr.live v).trans hv, hr.others v hne⟩
    · intro v hv
      rw [hout]
      by_cases he : v = id
      · subst he; exact Or.inr (List.mem_singleton.2 hr.self)
      · exact Or.inl ⟨(hr.live v).symm.trans hv, he⟩
    · intro w hw
      rw [hout] at hw
      exact ⟨id, Or.inl rfl, hself, hr.self.trans (List.mem_singleton.1 hw).symm⟩
  cases hs : effects.split with
  | none => exact whole (by simp only [Effects.outcome, hs])
  | some split =>
    by_cases hv : split.variations = []
    · simp only [hv, split_nil]
      exact whole (by simp only [Effects.outcome, hs, hv, if_true])
    · have hout : effects.outcome env.registry (build.graph.moduleOf id).package (build.graph.variant id).bare =
          split.variations.map fun (value, properties) =>
            ((build.applyUnsplit env id effects).graph.variant id).bare.child split.axis value properties := by
        rw [hr.self]
        simp only [Effects.outcome, hs, hv, if_false]
      refine ⟨hr.consistent.split _ _ hself, (sameHeaders_split ..).trans hr.headers, hr.admitted, ?_, ?_, ?_⟩
      · intro v hlv hne
        have hlv' := (hr.live v).trans hlv
        exact ⟨isLive_split_of_ne hv hlv' hne, (bare_split_of_ne hv hlv' hne).trans (hr.others v hne)⟩
      · intro v hlv
        rw [hout]
        rcases cases_of_isLive_split hv hlv with ⟨hl', hne⟩ | ⟨value, properties, hmem, hbare⟩
        · exact Or.inl ⟨(hr.live v).symm.trans hl', hne⟩
        · exact Or.inr (List.mem_map.2 ⟨(value, properties), hmem, hbare.symm⟩)
      · intro w hw
        rw [hout] at hw
        obtain ⟨⟨value, properties⟩, hmem, rfl⟩ := List.mem_map.1 hw
        obtain ⟨v, hnew, hlv, hbare⟩ := exists_child_split hv id split.axis hmem
        exact ⟨v, Or.inr ((hr.live v).symm.trans hnew), hlv, hbare⟩

end Build
end VariantGraph
