import VariantGraph.Proofs.Stage.Agreement
import VariantGraph.Proofs.Stage.Chain
/-!
# Where a final variant comes from

Every final variant comes of one module: its properties were settled, its dependencies asked for, and
then it was split by system, architecture and link mode (`Chain.origin`). So its dependencies agree with
its lists of references (`Ancestry.resolve_iff`).
-/
namespace VariantGraph
open VariantGraph.Graph

variable {env : Environment} {start : Graph} {u : VariantId} {w : Variant}

/-- Settling configuration variables changes properties only, and keeps them neat. -/
theorem Turns.settled (h : Turns env .configVariables start u w) :
    ((start.variant u).properties.NeatBy fieldDepth → w.properties.NeatBy fieldDepth) ∧
      w.variations = (start.variant u).variations ∧
      w.dependencies = (start.variant u).bare.dependencies := by
  obtain ⟨effects, hv, hmem⟩ := h
  obtain ⟨graph, hh, hbare, rfl⟩ := hv.seen
  have hproperties : (graph.variant u).properties = (start.variant u).properties := by
    rw [← Variant.bare_properties (graph.variant u), hbare]; rfl
  obtain ⟨hrequests, hsplit, hneat'⟩ := ConfigVariables.visit_spec env graph u
  have hw := (mem_outcome_of_unsplit hsplit).1 hmem
  rw [Effects.linked, hrequests] at hw
  subst hw
  refine ⟨?_, rfl, rfl⟩
  rw [hproperties] at hneat'
  exact hneat'

theorem SplitBy.congr {config : Config} {a b : Module} (h : a.header = b.header) {condition : Condition}
    {before after : Variant} (hs : SplitBy config a condition before after) :
    SplitBy config b condition before after := by
  unfold SplitBy at hs ⊢
  rwa [Module.can_congr h] at hs

/-- What lies behind a final variant: the properties of its module once configuration variables were
settled, and the variant with all its dependencies, before any split. -/
structure Ancestry (env : Environment) (start : Graph) (module : Module) (final : Variant)
    (before linked : Variant) : Prop where
  neat : (∀ u, start.isLive u = true → (start.variant u).properties.NeatBy fieldDepth) →
    before.properties.NeatBy fieldDepth
  variations : before.variations = []
  /-- Defaults depend on nothing. -/
  unwired : module.can .defaults = true → linked.dependencies = []
  wired : ∀ type, module.can .defaults = false → env.types.find? module.moduleType = some type →
    Wired env.registry module.package type.schema env.config.host before linked
  split : SplitByAll env.config module [.target, .arch, .link] linked final

theorem Chain.origin {settled wired os arch link : Graph} (chain : Chain env start settled wired os arch link)
    (hstart : ∀ u, start.isLive u = true →
      (start.variant u).variations = [] ∧ (start.variant u).dependencies = [])
    (hnodup : env.config.device.archs.Nodup) (hos : env.config.host.os ≠ env.config.device.os)
    (harchs : env.config.device.archs ≠ []) {v : VariantId} (hv : link.isLive v = true) :
    ∃ before linked, Ancestry env start (link.moduleOf v) (link.variant v).bare before linked := by
  obtain ⟨u4, hl4, ht4, -, hh4⟩ := chain.toLink.origin hv
  obtain ⟨u3, hl3, ht3, -, hh3⟩ := chain.toArch.origin hl4
  obtain ⟨u2, hl2, ht2, -, hh2⟩ := chain.toOs.origin hl3
  obtain ⟨u1, hl1, ht1, -, hh1⟩ := chain.toWired.origin hl2
  obtain ⟨u0, hl0, ht0, -, hh0⟩ := chain.toSettled.origin hl1
  obtain ⟨hvar0, hdep0⟩ := hstart u0 hl0
  obtain ⟨hneat1, hvar1, hdep1⟩ := ht0.settled
  have hfresh : (settled.variant u1).bare.dependencies = [] := hdep1.trans (by rw [Variant.bare, hdep0]; rfl)
  have e3 := hh3.trans hh4
  have e2 := hh2.trans e3
  have e1 := hh1.trans e2
  refine ⟨(settled.variant u1).bare, (wired.variant u2).bare, fun hneat => hneat1 (hneat u0 hl0),
    hvar1.trans hvar0, ?_, ?_, (os.variant u3).bare, ?_, (arch.variant u4).bare, ?_, (link.variant v).bare, ?_, rfl⟩
  · intro hdefaults
    refine ht1.unwired ?_ hfresh
    rw [Module.can_congr e1]; exact hdefaults
  · intro type hdefaults htype
    rw [← Module.package_congr e1]
    refine ht1.wired ?_ ?_ hfresh
    · rw [Module.can_congr e1]; exact hdefaults
    · rw [Module.moduleType_congr e1]; exact htype
  · exact (Turns.splitBy hnodup hos harchs .target ht2).congr e2
  · exact (Turns.splitBy hnodup hos harchs .arch ht3).congr e3
  · exact (Turns.splitBy hnodup hos harchs .link ht4).congr hh4

/-- The references in a final list lead to modules, which are those of the dependencies in the role that
exist for the variant. -/
theorem Ancestry.resolve_iff {module : Module} {final before linked : Variant}
    (h : Ancestry env start module final before linked)
    (hstart : ∀ u, start.isLive u = true → (start.variant u).properties.NeatBy fieldDepth)
    (hos : env.config.host.os ≠ env.config.device.os)
    (hdefaults : module.can .defaults = false) {type : ModuleType}
    (htype : env.types.find? module.moduleType = some type) (hregular : type.Regular)
    (hcan : ∀ capability, module.can capability = true ↔ capability ∈ type.capabilities) {field : String}
    {role : Role} (hf : (field, role) ∈ type.schema.dependencyFields) :
    (∀ reference ∈ final.properties.getList field,
      ∃ id, env.registry.resolve module.package reference = .ok id) ∧
    ∀ id, (∃ reference ∈ final.properties.getList field,
        env.registry.resolve module.package reference = .ok id) ↔
      ∃ tag, (id, tag) ∈ final.dependencies.map Dependency.key ∧ tag.role = role ∧
        tag.appliesTo final.variations = true := by
  have hwired := h.wired type hdefaults htype
  have hpicked := Picked.nil env.config.host linked
  rw [hwired.properties] at hpicked
  obtain ⟨picks, hpicked, hconditions⟩ := hpicked.splitByAll (h.neat hstart) hos
    (fun condition _ => List.not_mem_nil) (by decide) h.split
  have hmem : ∀ condition, condition ∈ picks.map (·.condition) ↔ condition.capability ∈ type.capabilities := by
    intro condition
    rw [hconditions, ← hcan condition.capability]
    cases condition <;> simp
  exact VariantGraph.resolve_iff hregular hwired (h.neat hstart) hpicked hmem hf h.split.dependencies

end VariantGraph
