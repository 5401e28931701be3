import VariantGraph.Proofs.Stage.Outcome
import VariantGraph.Stage.Dependencies
/-!
# What the dependencies stage asks for

For a module that is no defaults the stage asks for one dependency per reference, at the top and in
branches; when nothing is wrong, no branch for everything else lists any.
-/
namespace VariantGraph

namespace Dependencies

theorem foldl_depend (visit : Visit) (requests : List Request) :
    requests.foldl Visit.depend visit =
      { visit with effects := { visit.effects with requests := visit.effects.requests ++ requests } } := by
  induction requests generalizing visit with
  | nil => simp
  | cons request requests ih => rw [List.foldl_cons, ih]; simp [Visit.depend]

/-- The error for dependencies in a branch for everything else. -/
def misplaced (visit : Visit) (list : BranchList) : BuildError :=
  .stageFault visit.stage visit.origin (some list.property) .misplacedDependencies

theorem foldl_blame (visit : Visit) (lists : List BranchList) :
    lists.foldl (fun visit list => visit.blame (some list.property) .misplacedDependencies) visit =
      { visit with effects := { visit.effects with
          errors := visit.effects.errors ++ lists.map (misplaced visit) } } := by
  induction lists generalizing visit with
  | nil => simp
  | cons list lists ih =>
    rw [List.foldl_cons, ih]
    simp [misplaced, Visit.blame, Visit.fail, Visit.origin, Visit.module, Visit.variant]

/-- All that is asked for a module of a type, by its properties. -/
def requestsOf (schema : Schema) (host : Target) (properties : Properties) : List Request :=
  topRequests schema host properties ++ (branchLists schema properties).flatMap (BranchList.requests host)

/-- A visit asks for dependencies only. -/
theorem effects_act (visit : Visit) (h : visit.effects = .none) : (act visit).effects.properties = none ∧
    (act visit).effects.split = none ∧
    (visit.can .defaults = true → (act visit).effects.requests = []) := by
  unfold act
  split
  · exact ⟨by rw [h]; rfl, by rw [h]; rfl, fun _ => by rw [h]; rfl⟩
  · next hd =>
    split
    · exact ⟨by rw [h]; rfl, by rw [h]; rfl, fun hc => absurd hc hd⟩
    · simp only [foldl_depend, foldl_blame]
      exact ⟨by rw [h]; rfl, by rw [h]; rfl, fun hc => absurd hc hd⟩

/-- Modules of known types that are no defaults ask for all they list, and what stands in branches for
everything else is no dependency. -/
theorem requests_act (visit : Visit) (h : visit.effects = .none) {type : ModuleType}
    (hdefaults : visit.can .defaults = false) (htype : visit.moduleType? = some type)
    (herr : (act visit).effects.errors = []) :
    (act visit).effects.requests = requestsOf type.schema visit.env.config.host visit.properties ∧
      ∀ list ∈ branchLists type.schema visit.properties, list.branch ≠ conditionsDefault := by
  unfold act at herr ⊢
  simp only [hdefaults, Bool.false_eq_true, if_false, htype, foldl_depend, foldl_blame,
    List.partition_eq_filter_filter] at herr ⊢
  have hnone : ∀ list ∈ branchLists type.schema visit.properties, list.branch ≠ conditionsDefault := by
    have hmis := List.map_eq_nil_iff.1 (List.append_eq_nil_iff.1 herr).2
    intro list hl he
    have := List.filter_eq_nil_iff.1 hmis list hl
    simp [he] at this
  refine ⟨?_, hnone⟩
  rw [h, Effects.none, List.nil_append, requestsOf]
  congr 2
  refine List.filter_eq_self.2 fun list hl => ?_
  simp [hnone list hl]

/-! ## All requests of a module -/

@[simp] theorem role_tagFor (role : Role) (host : Target) : (tagFor role host).role = role := by
  cases role <;> rfl

@[simp] theorem origin_tagFor (role : Role) (host : Target) : (tagFor role host).origin = [] := by
  cases role <;> rfl

@[simp] theorem far_tagFor (role : Role) (host : Target) : (tagFor role host).far = decide (role = .tool) := by
  cases role <;> rfl

@[simp] theorem required_tool (host : Target) : (tagFor .tool host).required =
    [(Axis.arch, host.arch.name), (Axis.os, host.os.name)] := rfl

@[simp] theorem required_sharedLib (host : Target) :
    (tagFor .sharedLib host).required = [(Axis.link, LinkMode.shared)] := rfl

@[simp] theorem required_staticLib (host : Target) :
    (tagFor .staticLib host).required = [(Axis.link, LinkMode.static)] := rfl

theorem appliesTo_tagFor (role : Role) (host : Target) (variations : Variations) :
    (tagFor role host).appliesTo variations = true := by
  rw [Tag.appliesTo, origin_tagFor]; rfl

theorem appliesTo_onlyFrom {role : Role} {host : Target} {axis value : String} {variations : Variations}
    {own : String} (hown : variations.value? axis = some own) :
    ((tagFor role host).onlyFrom axis value).appliesTo variations = true ↔ own = value := by
  simp [Tag.appliesTo, Tag.onlyFrom, origin_tagFor, Variations.compatible, Variations.assign,
    Table.insert, hown]

theorem mem_topRequests {schema : Schema} {host : Target} {properties : Properties} {request : Request} :
    request ∈ topRequests schema host properties ↔ ∃ field role, (field, role) ∈ schema.dependencyFields ∧
      ∃ reference ∈ properties.getList field, request = ⟨tagFor role host, reference, field⟩ := by
  simp only [topRequests, List.mem_flatMap, List.mem_map, Prod.exists, eq_comm]

/-- A list of dependencies stands in a branch, which is a map, and is not empty. -/
theorem mem_branchLists {schema : Schema} {properties : Properties} {list : BranchList} :
    list ∈ branchLists schema properties ↔ ∃ name condition, (name, condition) ∈ schema.conditionalFields ∧
      ∃ branch fields, (branch, Value.map fields) ∈ (properties.getMap? name).getD [] ∧
      ∃ field role, (field, role) ∈ schema.dependencyFields ∧ Properties.getList fields field ≠ [] ∧
        list = ⟨condition, branch, role, name ++ "." ++ branch ++ "." ++ field,
          Properties.getList fields field⟩ := by
  simp only [branchLists, List.mem_flatMap, Prod.exists]
  constructor
  · rintro ⟨name, condition, hc, branch, value, hb, hl⟩
    cases value with
    | map fields =>
      obtain ⟨⟨field, role⟩, hf, he⟩ := List.mem_filterMap.1 hl
      refine ⟨name, condition, hc, branch, fields, hb, field, role, hf, ?_⟩
      simp only at he
      split at he
      · cases he
      · next hne =>
        injection he with he
        exact ⟨hne, he.symm⟩
    | _ => cases hl
  · rintro ⟨name, condition, hc, branch, fields, hb, field, role, hf, hne, rfl⟩
    refine ⟨name, condition, hc, branch, _, hb, List.mem_filterMap.2 ⟨(field, role), hf, ?_⟩⟩
    simp only

theorem mem_branchRequests {host : Target} {list : BranchList} {request : Request} :
    request ∈ list.requests host ↔ ∃ reference ∈ list.references,
      request = ⟨(tagFor list.role host).onlyFrom list.condition.axis
        (branchValue list.condition host list.branch), reference, list.property⟩ := by
  simp only [BranchList.requests, List.mem_map, eq_comm]

/-- A tag that is asked for is that of its role, for variants with one more value at most. -/
theorem tag_of_mem_requestsOf {schema : Schema} {host : Target} {properties : Properties} {request : Request}
    (h : request ∈ requestsOf schema host properties) : ∃ field role, (field, role) ∈ schema.dependencyFields ∧
      (request.tag = tagFor role host ∨
        ∃ axis value, request.tag = (tagFor role host).onlyFrom axis value) := by
  rcases List.mem_append.1 h with htop | hbranch
  · obtain ⟨field, role, hf, reference, -, rfl⟩ := mem_topRequests.1 htop
    exact ⟨field, role, hf, Or.inl rfl⟩
  · obtain ⟨list, hlist, hrequest⟩ := List.mem_flatMap.1 hbranch
    obtain ⟨name, condition, -, branch, fields, -, field, role, hf, -, rfl⟩ := mem_branchLists.1 hlist
    obtain ⟨reference, -, rfl⟩ := mem_branchRequests.1 hrequest
    exact ⟨field, role, hf, Or.inr ⟨_, _, rfl⟩⟩

end Dependencies

/-! ## What the stage makes of a variant -/

open Dependencies

variable {env : Environment} {start : Graph} {u : VariantId} {w : Variant}

/-- A variant with the dependencies that its properties ask for. -/
structure Wired (registry : Registry) (package : String) (schema : Schema) (host : Target)
    (before after : Variant) : Prop where
  properties : after.properties = before.properties
  variations : after.variations = before.variations
  keys : ∀ k, k ∈ after.dependencies.map Dependency.key ↔
    ∃ request ∈ Dependencies.requestsOf schema host before.properties,
      registry.resolve package request.reference = .ok k.1 ∧ request.tag = k.2
  resolves : ∀ request ∈ Dependencies.requestsOf schema host before.properties,
    ∃ id, registry.resolve package request.reference = .ok id
  placed : ∀ list ∈ Dependencies.branchLists schema before.properties, list.branch ≠ conditionsDefault

/-- Defaults ask for nothing. -/
theorem Turns.unwired (h : Turns env .dependencies start u w)
    (hdefaults : (start.moduleOf u).can .defaults = true) (hfresh : (start.variant u).bare.dependencies = []) :
    w.dependencies = [] := by
  obtain ⟨effects, hv, hmem⟩ := h
  obtain ⟨graph, hh, hbare, rfl⟩ := hv.seen
  obtain ⟨-, hsplit, hrequests⟩ := Dependencies.effects_act ⟨"deps", env, graph, u, .none⟩ rfl
  have hnone := hrequests ((moduleOf_can hh hbare _).trans hdefaults)
  rw [(mem_outcome_of_unsplit hsplit).1 hmem, Effects.linked]
  show (Variant.linkAll _ _ _ (Dependencies.act ⟨"deps", env, graph, u, .none⟩).effects.requests).dependencies = []
  rw [hnone]
  exact hfresh

theorem Turns.wired {type : ModuleType} (h : Turns env .dependencies start u w)
    (hdefaults : (start.moduleOf u).can .defaults = false)
    (htype : env.types.find? (start.moduleOf u).moduleType = some type)
    (hfresh : (start.variant u).bare.dependencies = []) :
    Wired env.registry (start.moduleOf u).package type.schema env.config.host (start.variant u).bare w := by
  obtain ⟨effects, hv, hmem⟩ := h
  obtain ⟨graph, hh, hbare, rfl⟩ := hv.seen
  let visit : Visit := ⟨"deps", env, graph, u, .none⟩
  have hproperties : visit.properties = (start.variant u).bare.properties := by
    show (graph.variant u).properties = _
    rw [← Variant.bare_properties (graph.variant u), hbare]
  obtain ⟨hnone, hsplit, -⟩ := Dependencies.effects_act visit rfl
  obtain ⟨hrequests, hplaced⟩ := Dependencies.requests_act visit rfl
    ((moduleOf_can hh hbare _).trans hdefaults)
    ((congrArg env.types.find? (moduleOf_moduleType hh hbare)).trans htype) hv.clean
  rw [hproperties] at hrequests hplaced
  have hw : w = (Stage.dependencies.visit env graph u).linked env.registry (start.moduleOf u).package
      (start.variant u).bare := (mem_outcome_of_unsplit hsplit).1 hmem
  obtain ⟨-, hvariations, hprops⟩ := linkAll_same env.registry (start.moduleOf u).package
    { (start.variant u).bare with
      properties := (Stage.dependencies.visit env graph u).properties.getD (start.variant u).bare.properties }
    (Stage.dependencies.visit env graph u).requests
  refine ⟨?_, ?_, fun k => ?_, fun request hr => ?_, hplaced⟩
  · rw [hw]
    refine hprops.trans ?_
    show (act visit).effects.properties.getD _ = _
    rw [hnone]; rfl
  · rw [hw]; exact hvariations
  · rw [mem_keys_outcome hmem k, hfresh]
    show _ ∨ (∃ request ∈ (act visit).effects.requests, _) ↔ _
    rw [hrequests]
    exact ⟨fun h => h.resolve_left List.not_mem_nil, Or.inr⟩
  · rw [← hrequests] at hr
    obtain ⟨target, ha⟩ := hv.admitted request hr
    exact ⟨target, ha.resolved⟩

end VariantGraph
