import VariantGraph.Proofs.Property.Merge
import VariantGraph.Proofs.Stage.Splitting
/-!
# Slots: the places of the final variants of a module

A module that can be split gets one final variant for each system, architecture and link mode that its
properties and the configuration name. Such a `Slot` gives the variations of the variant and the branches
that it selects; no slot comes twice (`nodup_slotsOf`), and variations tell slots apart
(`Slot.variations_injective`).
-/
namespace VariantGraph

/-- A place among the final variants of a module: a system, an architecture of it, and a link mode if the
module has any. -/
structure Slot where
  os : Os
  arch : Arch
  link : Option String
  deriving DecidableEq, Repr

/-- The systems that a module is built for: that of the device unless it is not supported, then that of
the host if it is. -/
def systemsOf (config : Config) (properties : Properties) : List Os :=
  (if properties.getBool? "device_supported" = some false then [] else [config.device.os]) ++
    (if properties.getBool? "host_supported" = some true then [config.host.os] else [])

/-- The architectures of a system. -/
def archsOf (config : Config) (os : Os) : List Arch :=
  if os = config.host.os then [config.host.arch] else config.device.archs

/-- The link modes of a module, if it has any. -/
def linksOf (module : Module) : List (Option String) :=
  if module.can .linkVariants then [some LinkMode.static, some LinkMode.shared] else [none]

/-- The slots of a module with some properties, in order. -/
def slotsOf (config : Config) (module : Module) (properties : Properties) : List Slot :=
  (systemsOf config properties).flatMap fun os => (archsOf config os).flatMap fun arch =>
    (linksOf module).map fun link => ⟨os, arch, link⟩

theorem slotsOf_congr (config : Config) {a b : Module} (h : a.header = b.header) :
    slotsOf config a = slotsOf config b := by
  funext properties
  unfold slotsOf linksOf
  rw [Module.can_congr h]

namespace Slot

/-- The variations of the variant in a slot. -/
def variations (slot : Slot) : Variations :=
  (Axis.arch, slot.arch.name) :: (slot.link.map (Axis.link, ·)).toList ++ [(Axis.os, slot.os.name)]

/-- The conditional fields of which the variant in a slot selects branches, with their keys. -/
def selections (slot : Slot) (host : Target) : List (String × List String) :=
  [("target", if slot.os = host.os then [slot.os.name, hostBranch] else [slot.os.name]),
    ("arch", [slot.arch.name])] ++ (slot.link.map fun mode => ("link", [mode])).toList

theorem value?_os (slot : Slot) : slot.variations.value? Axis.os = some slot.os.name := by
  obtain ⟨os, arch, link⟩ := slot
  cases link <;> rfl

theorem value?_arch (slot : Slot) : slot.variations.value? Axis.arch = some slot.arch.name := by
  obtain ⟨os, arch, link⟩ := slot
  cases link <;> rfl

theorem value?_link (slot : Slot) : slot.variations.value? Axis.link = slot.link := by
  obtain ⟨os, arch, link⟩ := slot
  cases link <;> rfl

/-- Slots are told apart by their variations. -/
theorem variations_injective : Function.Injective Slot.variations := by
  rintro ⟨os, arch, link⟩ ⟨os', arch', link'⟩ h
  have hvalue := fun axis => congrArg (Variations.value? · axis) h
  have hos : os.name = os'.name := by simpa only [value?_os, Option.some.injEq] using hvalue Axis.os
  have harch : arch.name = arch'.name := by simpa only [value?_arch, Option.some.injEq] using hvalue Axis.arch
  have hlink : link = link' := by simpa only [value?_link] using hvalue Axis.link
  rw [Os.name_injective hos, Arch.name_injective harch, hlink]

end Slot

section Slots
variable {config : Config} {module : Module} {properties : Properties}

theorem mem_slotsOf {slot : Slot} : slot ∈ slotsOf config module properties ↔
    slot.os ∈ systemsOf config properties ∧ slot.arch ∈ archsOf config slot.os ∧
      slot.link ∈ linksOf module := by
  obtain ⟨os, arch, link⟩ := slot
  simp only [slotsOf, List.mem_flatMap, List.mem_map, Slot.mk.injEq]
  constructor
  · rintro ⟨_, hos, _, harch, _, hlink, rfl, rfl, rfl⟩
    exact ⟨hos, harch, hlink⟩
  · rintro ⟨hos, harch, hlink⟩
    exact ⟨os, hos, arch, harch, link, hlink, rfl, rfl, rfl⟩

theorem nodup_systemsOf (hos : config.host.os ≠ config.device.os) (properties : Properties) :
    (systemsOf config properties).Nodup := by
  unfold systemsOf
  split <;> split <;> simp [Ne.symm hos]

theorem nodup_archsOf (harchs : config.device.archs.Nodup) (os : Os) : (archsOf config os).Nodup := by
  unfold archsOf
  split
  · exact List.nodup_singleton _
  · exact harchs

theorem nodup_linksOf (module : Module) : (linksOf module).Nodup := by
  unfold linksOf
  split <;> decide

theorem isSome_of_mem_linksOf {link : Option String} (h : link ∈ linksOf module) :
    link.isSome = module.can .linkVariants := by
  unfold linksOf at h
  split at h
  · next hcan =>
    rw [hcan]
    rcases List.mem_pair.1 h with rfl | rfl <;> rfl
  · next hcannot =>
    rw [List.mem_singleton.1 h, Bool.eq_false_iff.2 hcannot]
    rfl

/-- No slot comes twice, unless an architecture is listed twice or the host is the device. -/
theorem nodup_slotsOf (harchs : config.device.archs.Nodup) (hos : config.host.os ≠ config.device.os) :
    (slotsOf config module properties).Nodup := by
  have hlinks : ∀ os arch, ((linksOf module).map fun link => Slot.mk os arch link).Nodup := fun os arch =>
    (nodup_linksOf module).map fun link link' h => by injection h
  have hplatforms : ∀ os, ((archsOf config os).flatMap fun arch =>
      (linksOf module).map fun link => Slot.mk os arch link).Nodup := by
    intro os
    refine List.nodup_flatMap.2 ⟨fun arch _ => hlinks os arch, (nodup_archsOf harchs os).imp ?_⟩
    intro arch arch' hne slot h h'
    obtain ⟨_, -, rfl⟩ := List.mem_map.1 h
    obtain ⟨_, -, he⟩ := List.mem_map.1 h'
    exact hne (congrArg Slot.arch he).symm
  refine List.nodup_flatMap.2 ⟨fun os _ => hplatforms os, (nodup_systemsOf hos properties).imp ?_⟩
  intro os os' hne slot h h'
  obtain ⟨_, -, h⟩ := List.mem_flatMap.1 h
  obtain ⟨_, -, h'⟩ := List.mem_flatMap.1 h'
  obtain ⟨_, -, rfl⟩ := List.mem_map.1 h
  obtain ⟨_, -, he⟩ := List.mem_map.1 h'
  exact hne (congrArg Slot.os he).symm

end Slots

/-- The properties with the branches of a field that some keys name, or why they cannot be had. -/
def Properties.selecting (properties : Properties) (field : String) (keys : List String) :
    Except PropertyError Properties := (properties.select field keys).outcome

/-- The properties of the variant in a slot, from those that its module had before any split. -/
def Slot.properties (slot : Slot) (host : Target) (properties : Properties) : Except PropertyError Properties :=
  (slot.selections host).foldlM (fun properties selection => properties.selecting selection.1 selection.2)
    properties

end VariantGraph
