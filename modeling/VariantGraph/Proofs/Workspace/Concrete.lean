import VariantGraph.Proofs.Workspace.Expansion
/-!
# Dependencies that end at one variant

Main statement (`edges_concrete`): of the variants of a library or a tool, a dependency that exists for a
final variant leads to one. Its tag pins system and architecture, and the link mode as far as there is
one, and the final variants of a module are told apart by these (`Expanded.one_target`).
-/
namespace VariantGraph
open VariantGraph.Graph

/-- The variants of a module have the variations of its slots, in order, or none if it cannot be split. -/
def Graph.Expanded (config : Config) (graph : Graph) (m : ModuleId) : Prop :=
  ∃ properties, (graph.module m).variants.map (fun v => (graph.variant v).variations) =
    if (graph.module m).can .osVariants then
      (slotsOf config (graph.module m) properties).map Slot.variations
    else [[]]

/-- Variations with known values on all axes on which they have any. -/
structure Variations.Pinned (variations : Variations) (os arch mode : String) : Prop where
  os : ∀ value, variations.value? Axis.os = some value → value = os
  arch : ∀ value, variations.value? Axis.arch = some value → value = arch
  link : ∀ value, variations.value? Axis.link = some value → value = mode

/-- Slots that are pinned to the same values are the same. -/
theorem Slot.eq_of_pinned {module : Module} {slot slot' : Slot} {os arch mode : String}
    (hlink : slot.link ∈ linksOf module) (hlink' : slot'.link ∈ linksOf module)
    (h : slot.variations.Pinned os arch mode) (h' : slot'.variations.Pinned os arch mode) : slot = slot' := by
  have hos : slot.os = slot'.os := Os.name_injective
    ((h.os _ slot.value?_os).trans (h'.os _ slot'.value?_os).symm)
  have harch : slot.arch = slot'.arch := Arch.name_injective
    ((h.arch _ slot.value?_arch).trans (h'.arch _ slot'.value?_arch).symm)
  have hmode : slot.link = slot'.link := by
    have hsome : slot.link.isSome = slot'.link.isSome :=
      (isSome_of_mem_linksOf hlink).trans (isSome_of_mem_linksOf hlink').symm
    have hvalue : ∀ value, slot.link = some value → value = mode := slot.value?_link ▸ h.link
    have hvalue' : ∀ value, slot'.link = some value → value = mode := slot'.value?_link ▸ h'.link
    cases hs : slot.link <;> cases hs' : slot'.link <;> simp_all
  obtain ⟨_, _, _⟩ := slot
  obtain ⟨_, _, _⟩ := slot'
  exact Slot.mk.injEq .. ▸ ⟨hos, harch, hmode⟩

namespace Graph.Expanded

variable {config : Config} {graph : Graph} {m : ModuleId} (h : Expanded config graph m)
include h

/-- A variant is in a slot, or its module cannot be split. -/
theorem slot_of_mem {v : VariantId} (hv : v ∈ (graph.module m).variants) :
    ((graph.module m).can .osVariants = true ∧ ∃ slot : Slot, slot.link ∈ linksOf (graph.module m) ∧
      (graph.variant v).variations = slot.variations) ∨
    ((graph.module m).can .osVariants = false ∧ (graph.variant v).variations = []) := by
  obtain ⟨properties, heq⟩ := h
  have hmem := List.mem_map_of_mem (f := fun v => (graph.variant v).variations) hv
  rw [heq] at hmem
  cases hcan : (graph.module m).can .osVariants with
  | false =>
    rw [hcan, if_neg Bool.false_ne_true] at hmem
    exact Or.inr ⟨rfl, List.mem_singleton.1 hmem⟩
  | true =>
    rw [hcan, if_pos rfl] at hmem
    obtain ⟨slot, hslot, hvariations⟩ := List.mem_map.1 hmem
    exact Or.inl ⟨rfl, slot, (mem_slotsOf.1 hslot).2.2, hvariations.symm⟩

/-- Variants of a module without link modes have none. -/
theorem unlinked (hcan : (graph.module m).can .linkVariants = false) {v : VariantId}
    (hv : v ∈ (graph.module m).variants) : (graph.variant v).variations.value? Axis.link = none := by
  rcases h.slot_of_mem hv with ⟨-, slot, hlink, hslot⟩ | ⟨-, hwhole⟩
  · have hsome := isSome_of_mem_linksOf hlink
    rw [hcan] at hsome
    rw [hslot, Slot.value?_link]
    exact Option.isSome_eq_false_iff.1 hsome |> Option.isNone_iff_eq_none.1
  · rw [hwhole]
    rfl

variable (harchs : config.device.archs.Nodup) (hos : config.host.os ≠ config.device.os)
include harchs hos

/-- **The variants of a module are told apart by their variations.** -/
theorem nodup : ((graph.module m).variants.map fun v => (graph.variant v).variations).Nodup := by
  obtain ⟨properties, heq⟩ := h
  rw [heq]
  split
  · exact (nodup_slotsOf harchs hos).map Slot.variations_injective
  · exact List.nodup_singleton _

/-- Of the variants of a module at most one has known values on all its axes. -/
theorem one_target {p : VariantId → Bool} {os arch mode : String}
    (hp : ∀ t ∈ (graph.module m).variants, p t = true → (graph.variant t).variations.Pinned os arch mode)
    (hne : (graph.module m).variants.filter p ≠ []) : ∃ t ∈ (graph.module m).variants,
      (graph.module m).variants.filter p = [t] ∧ (graph.variant t).variations.Pinned os arch mode := by
  have hnodup := h.nodup harchs hos
  have hsame : ∀ t ∈ (graph.module m).variants.filter p, ∀ t' ∈ (graph.module m).variants.filter p,
      t = t' := by
    intro t ht t' ht'
    obtain ⟨hmem, hpt⟩ := List.mem_filter.1 ht
    obtain ⟨hmem', hpt'⟩ := List.mem_filter.1 ht'
    refine List.inj_on_of_nodup_map hnodup hmem hmem' ?_
    have hpin := hp t hmem hpt
    have hpin' := hp t' hmem' hpt'
    rcases h.slot_of_mem hmem with ⟨hcan, slot, hlink, hv⟩ | ⟨hcan, hv⟩
    · rcases h.slot_of_mem hmem' with ⟨-, slot', hlink', hv'⟩ | ⟨hcan', -⟩
      · rw [hv] at hpin
        rw [hv'] at hpin'
        rw [hv, hv', Slot.eq_of_pinned hlink hlink' hpin hpin']
      · rw [hcan] at hcan'; cases hcan'
    · rcases h.slot_of_mem hmem' with ⟨hcan', -⟩ | ⟨-, hv'⟩
      · rw [hcan] at hcan'; cases hcan'
      · rw [hv, hv']
  obtain ⟨t, rest, heq⟩ := List.exists_cons_of_ne_nil hne
  obtain ⟨hlisted, hpt⟩ := List.mem_filter.1 (heq ▸ List.mem_cons_self : t ∈ (graph.module m).variants.filter p)
  refine ⟨t, hlisted, ?_, hp t hlisted hpt⟩
  rw [heq] at hsame ⊢
  have hdistinct := (hnodup.of_map _).filter p
  rw [heq] at hdistinct
  cases rest with
  | nil => rfl
  | cons t' rest =>
    have hsame' := hsame t List.mem_cons_self t' (List.mem_cons_of_mem _ List.mem_cons_self)
    exact absurd hsame' fun he => (List.nodup_cons.1 hdistinct).1 (he ▸ List.mem_cons_self)

/-- A tag that requires a system and an architecture leads to one variant of a module without link
modes. -/
theorem one_tool {tag : Tag} {variations : Variations} {os arch : String}
    (hrequired : (Axis.os, os) ∈ tag.required ∧ (Axis.arch, arch) ∈ tag.required)
    (hsplit : (graph.module m).can .osVariants = true) (hunlinked : (graph.module m).can .linkVariants = false)
    (hne : graph.matching variations tag m ≠ []) : ∃ t, graph.matching variations tag m = [t] ∧
      (graph.variant t).variations.value? Axis.os = some os ∧
      (graph.variant t).variations.value? Axis.arch = some arch := by
  have hpin : ∀ t ∈ (graph.module m).variants, tag.allows variations (graph.variant t).variations = true →
      (graph.variant t).variations.Pinned os arch "" := fun t ht hallows =>
    ⟨fun _ => Tag.required_of_allows hallows hrequired.1, fun _ => Tag.required_of_allows hallows hrequired.2,
      fun value hv => by rw [h.unlinked hunlinked ht] at hv; cases hv⟩
  obtain ⟨t, hlisted, ht, hpinned⟩ := h.one_target harchs hos hpin hne
  refine ⟨t, ht, ?_⟩
  rcases h.slot_of_mem hlisted with ⟨-, slot, -, hslot⟩ | ⟨hwhole, -⟩
  · have hos' := hpinned.os slot.os.name (by rw [hslot, slot.value?_os])
    have harch' := hpinned.arch slot.arch.name (by rw [hslot, slot.value?_arch])
    rw [hslot, slot.value?_os, slot.value?_arch, hos', harch']
    exact ⟨rfl, rfl⟩
  · rw [hsplit] at hwhole; cases hwhole

/-- A near tag that requires a link mode only leads to one variant of a module. -/
theorem one_library {tag : Tag} {slot : Slot} {mode : String} (hnear : tag.far = false)
    (hrequired : tag.required = [(Axis.link, mode)]) (hne : graph.matching slot.variations tag m ≠ []) :
    ∃ t, graph.matching slot.variations tag m = [t] ∧
      (graph.variant t).variations.Pinned slot.os.name slot.arch.name mode := by
  have hpin : ∀ t ∈ (graph.module m).variants, tag.allows slot.variations (graph.variant t).variations = true →
      (graph.variant t).variations.Pinned slot.os.name slot.arch.name mode := fun t _ hallows =>
    ⟨fun _ => Tag.agrees_of_allows hallows hnear (by rw [hrequired]; rfl) slot.value?_os,
      fun _ => Tag.agrees_of_allows hallows hnear (by rw [hrequired]; rfl) slot.value?_arch,
      fun _ => Tag.required_of_allows hallows (by rw [hrequired]; exact List.mem_singleton_self _)⟩
  obtain ⟨t, -, ht, hpinned⟩ := h.one_target harchs hos hpin hne
  exact ⟨t, ht, hpinned⟩

end Graph.Expanded

/-! ## Built-in types -/

theorem depends_builtin {types : TypeTable} (htypes : types = Builtin.types) {name : String}
    {type : ModuleType} (h : types.find? name = some type) :
    (type.schema.dependencyFields ≠ [] →
      Capability.defaults ∈ type.capabilities ∨ Capability.osVariants ∈ type.capabilities) ∧
    (Capability.hostToolProvider ∈ type.capabilities →
      Capability.osVariants ∈ type.capabilities ∧ Capability.linkVariants ∉ type.capabilities) := by
  subst htypes
  have hall : ∀ entry ∈ Builtin.types,
      (entry.2.schema.dependencyFields ≠ [] →
        Capability.defaults ∈ entry.2.capabilities ∨ Capability.osVariants ∈ entry.2.capabilities) ∧
      (Capability.hostToolProvider ∈ entry.2.capabilities →
        Capability.osVariants ∈ entry.2.capabilities ∧
          Capability.linkVariants ∉ entry.2.capabilities) := by decide +kernel
  exact hall _ (Table.mem_of_find? h)

section
variable {workspace : Workspace} {records : List (String × ModuleRecord)}
  (hl : workspace.Loaded records) (htypes : workspace.types = Builtin.types)
  (hstages : workspace.stages = Stage.builtin) (hvalid : workspace.config.fault? = none)
  (harchs : workspace.config.device.archs.Nodup)
  (hos : workspace.config.host.os ≠ workspace.config.device.os) (hrun : workspace.run.2 = [])
include hl htypes hstages hvalid harchs hos hrun

theorem expanded_of_loaded {m : ModuleId} (hm : m < workspace.run.1.graph.modules.length) :
    workspace.run.1.graph.Expanded workspace.config m := by
  obtain ⟨v, -, hfaces⟩ := faces_of_loaded hl htypes hstages hvalid harchs hos hrun hm
  have hvariations := congrArg (List.map Prod.fst) hfaces
  simp only [row, List.map_map, Function.comp_def, Variant.face_bare] at hvariations
  refine ⟨(workspace.beforeSplits.variant v).properties, hvariations.trans ?_⟩
  split
  · rw [List.map_map]
    rfl
  · rfl

/-- A dependency of a final variant has the tag of its role but for its origin, and its variant is in
a slot. -/
theorem tag_of_loaded {v : VariantId} (hv : workspace.run.1.graph.isLive v = true) {d : Dependency}
    (hd : d ∈ (workspace.run.1.graph.variant v).dependencies) :
    (d.tag.far = decide (d.tag.role = .tool) ∧
      d.tag.required = (Dependencies.tagFor d.tag.role workspace.config.host).required) ∧
    ∃ slot : Slot, (workspace.run.1.graph.variant v).variations = slot.variations := by
  have hfinal := (settled_run hl hrun).1
  have howner := hfinal.consistent.owner v hv
  have hexpanded := expanded_of_loaded hl htypes hstages hvalid harchs hos hrun howner
  obtain ⟨type, htype, hcan⟩ := hl.known (headers_run hl hrun) howner
  obtain ⟨before, linked, hancestry⟩ := ancestry_of_loaded hl hstages hvalid harchs hos hrun hv
  have hkey : d.key ∈ linked.dependencies.map Dependency.key := by
    rw [← hancestry.split.dependencies, Variant.keys_bare]
    exact List.mem_map_of_mem hd
  have hplain : (workspace.run.1.graph.moduleOf v).can .defaults = false := by
    rw [Bool.eq_false_iff]
    intro hdefaults
    rw [hancestry.unwired hdefaults] at hkey
    cases hkey
  obtain ⟨request, hrequest, -, htag⟩ := ((hancestry.wired type hplain htype).keys _).1 hkey
  obtain ⟨field, role, hfield, hform⟩ := Dependencies.tag_of_mem_requestsOf hrequest
  have htag : request.tag = d.tag := htag
  have hhost : workspace.environment.config = workspace.config := rfl
  rw [htag, hhost] at hform
  unfold moduleOf at hplain
  refine ⟨?_, ?_⟩
  · rcases hform with heq | ⟨axis, value, heq⟩
    · simp [heq]
    · simp [heq, Tag.onlyFrom]
  · rcases hexpanded.slot_of_mem (hfinal.consistent.listed v hv) with ⟨-, slot, -, hslot⟩ | ⟨hwhole, -⟩
    · exact ⟨slot, hslot⟩
    · have hsplits := (depends_builtin htypes htype).1 (List.ne_nil_of_mem hfield)
      rcases hsplits with hdefaults | hsplits
      · rw [(hcan .defaults).2 hdefaults] at hplain; cases hplain
      · rw [(hcan .osVariants).2 hsplits] at hwhole; cases hwhole

/-- The statement about one dependency of a loaded workspace with the built-in types and stages. -/
theorem concrete_of_loaded {v : VariantId} (hv : workspace.run.1.graph.isLive v = true)
    (hbuilt : DependencyCheck.isDisabled (workspace.run.1.graph.variant v).properties = false)
    {d : Dependency} (hd : d ∈ (workspace.run.1.graph.variant v).dependencies)
    (happlies : d.tag.appliesTo (workspace.run.1.graph.variant v).variations = true)
    (hrole : d.tag.role = .sharedLib ∨ d.tag.role = .staticLib ∨ d.tag.role = .tool) :
    ∃ t, d.targets = [t] ∧
      (d.tag.role = .tool →
        (workspace.run.1.graph.variant t).variations.value? Axis.os = some workspace.config.host.os.name ∧
        (workspace.run.1.graph.variant t).variations.value? Axis.arch =
          some workspace.config.host.arch.name) ∧
      (d.tag.role ≠ .tool → ∀ axis ∈ [Axis.os, Axis.arch], ∀ value,
        (workspace.run.1.graph.variant t).variations.value? axis = some value →
        (workspace.run.1.graph.variant v).variations.value? axis = some value) ∧
      ∀ mode, (workspace.run.1.graph.variant t).variations.value? Axis.link = some mode →
        (d.tag.role = .sharedLib → mode = LinkMode.shared) ∧ (d.tag.role = .staticLib → mode = LinkMode.static) := by
  have hfinal := (settled_run hl hrun).1
  have hbound := hfinal.consistent.bound v hv d hd
  have hexpanded := expanded_of_loaded hl htypes hstages hvalid harchs hos hrun hbound
  have hne := targets_ne_nil_of_missing hfinal.missing hv hd happlies
  have htargets := hfinal.consistent.targets v hv d hd trivial
  obtain ⟨⟨hfar, hrequired⟩, slot, hslot⟩ :=
    tag_of_loaded hl htypes hstages hvalid harchs hos hrun hv hd
  rw [htargets] at hne ⊢
  by_cases htool : d.tag.role = .tool
  · -- a tool is a binary, which has no link modes
    have hprovides := (passed_run hstages hrun v hv hbuilt d hd).2 htool
    obtain ⟨type, htype, hcan⟩ := hl.known (headers_run hl hrun) hbound
    obtain ⟨hsplit, hunlinked⟩ := (depends_builtin htypes htype).2 ((hcan _).1 hprovides)
    have hmodes : (workspace.run.1.graph.module d.module).can .linkVariants = false := by
      rw [Bool.eq_false_iff]
      exact fun hmodes => hunlinked ((hcan _).1 hmodes)
    have hplatform : (Axis.os, workspace.config.host.os.name) ∈ d.tag.required ∧
        (Axis.arch, workspace.config.host.arch.name) ∈ d.tag.required := by
      rw [hrequired, htool]
      simp
    obtain ⟨t, ht, hos', harch'⟩ := hexpanded.one_tool harchs hos hplatform ((hcan _).2 hsplit) hmodes hne
    refine ⟨t, ht, fun _ => ⟨hos', harch'⟩, fun hlibrary => absurd htool hlibrary, fun mode _ => ?_⟩
    simp [htool]
  · have hnear : d.tag.far = false := by rw [hfar]; exact decide_eq_false htool
    rw [hslot] at hne ⊢
    have hmode : ∃ mode, d.tag.required = [(Axis.link, mode)] ∧
        (d.tag.role = .sharedLib → mode = LinkMode.shared) ∧ (d.tag.role = .staticLib → mode = LinkMode.static) := by
      rcases hrole with hshared | hstatic | hrole
      · exact ⟨LinkMode.shared, by rw [hrequired, hshared]; simp, by simp [hshared]⟩
      · exact ⟨LinkMode.static, by rw [hrequired, hstatic]; simp, by simp [hstatic]⟩
      · exact absurd hrole htool
    obtain ⟨mode, hmode, hrole⟩ := hmode
    obtain ⟨t, ht, hpinned⟩ := hexpanded.one_library harchs hos hnear hmode hne
    refine ⟨t, ht, fun hrole => absurd hrole htool, fun _ axis haxis value hvalue => ?_, fun own hown => ?_⟩
    · rcases List.mem_pair.1 haxis with rfl | rfl
      · rw [hpinned.os value hvalue, slot.value?_os]
      · rw [hpinned.arch value hvalue, slot.value?_arch]
    · rw [hpinned.link own hown]
      exact hrole

end

/-- **Library and tool edges end at one concrete variant.** When built-in stages were run without errors
on pairwise different device architectures and with a host that is not the device, every dependency on a
library or a tool that exists for a final variant which is built has exactly one target. A tool is one
for the system and the architecture of the host, whatever uses it. A library has the variant's own system
and architecture as far as it is split by them, and the link mode of the role as far as it is split by
link mode. -/
theorem edges_concrete (config : Config) (packages : List PackageRecord) (hvalid : config.fault? = none)
    (harchs : config.device.archs.Nodup) (hos : config.host.os ≠ config.device.os)
    (hrun : ((Workspace.empty config).addPackages packages).1.run.2 = []) :
    let final := ((Workspace.empty config).addPackages packages).1.run.1.graph
    ∀ v, final.isLive v = true → (final.variant v).properties.getBool? "enabled" ≠ some false →
    ∀ d ∈ (final.variant v).dependencies, d.tag.appliesTo (final.variant v).variations = true →
      (d.tag.role = .sharedLib ∨ d.tag.role = .staticLib ∨ d.tag.role = .tool) →
      ∃ t, d.targets = [t] ∧
        (d.tag.role = .tool → (final.variant t).variations.value? Axis.os = some config.host.os.name ∧
          (final.variant t).variations.value? Axis.arch = some config.host.arch.name) ∧
        (d.tag.role ≠ .tool → ∀ axis ∈ [Axis.os, Axis.arch], ∀ value,
          (final.variant t).variations.value? axis = some value →
          (final.variant v).variations.value? axis = some value) ∧
        ∀ mode, (final.variant t).variations.value? Axis.link = some mode →
          (d.tag.role = .sharedLib → mode = LinkMode.shared) ∧
          (d.tag.role = .staticLib → mode = LinkMode.static) := by
  intro final v hv hbuilt d hd happlies hrole
  obtain ⟨hconfig, htypes, hstages⟩ := Workspace.settings_addPackages config Builtin.types Stage.builtin packages
  have hl := Workspace.loaded_addPackages config Builtin.types Stage.builtin packages
  have hconcrete := concrete_of_loaded hl htypes hstages (by rw [hconfig]; exact hvalid)
    (by rw [hconfig]; exact harchs) (by rw [hconfig]; exact hos) hrun hv
    (by simp [DependencyCheck.isDisabled]; exact hbuilt) hd happlies hrole
  rw [hconfig] at hconcrete
  exact hconcrete

theorem edges_concrete_programWithBranch :
    let final := (Workspace.onLinux programWithBranch).run.1.graph
    (final.variant 11).dependencies ≠ [] ∧ ∀ d ∈ (final.variant 11).dependencies, ∃ t, d.targets = [t] := by
  have hfacts : (Workspace.onLinux programWithBranch).run.2 = [] ∧
      let final := (Workspace.onLinux programWithBranch).run.1.graph
      final.isLive 11 = true ∧ (final.variant 11).properties.getBool? "enabled" ≠ some false ∧
        (final.variant 11).dependencies ≠ [] ∧ ∀ d ∈ (final.variant 11).dependencies,
          d.tag.appliesTo (final.variant 11).variations = true ∧ d.tag.role = .sharedLib := by
    decide +kernel
  obtain ⟨hrun, hlive, hbuilt, hne, hall⟩ := hfacts
  refine ⟨hne, fun d hd => ?_⟩
  obtain ⟨happlies, hrole⟩ := hall d hd
  obtain ⟨t, ht, -⟩ := edges_concrete .onLinux _ (by decide) (by decide) (by decide) hrun 11 hlive hbuilt d hd happlies
    (Or.inl hrole)
  exact ⟨t, ht⟩

end VariantGraph
