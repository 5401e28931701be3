import VariantGraph.Stage.Basic
/-!
# The stages that split modules

Modules are split by operating system, then by architecture, then by how they are linked. Every new
variant selects the branches of the conditional field that belongs to the axis.

| here | there (crates/lib/src/mutator/builtin) |
| --- | --- |
| `systems`, `splitByOs` | `OsMutator::mutate` (os.rs:21-43) |
| `archs`, `splitByArch` | `ArchMutator::mutate` (arch.rs:22-36) |
| `splitByLink` | `LinkMutator::mutate` (link.rs:19-29) |
-/
namespace VariantGraph.Splitting

/-- The systems that a module is built for, each with the branches of `target` that it selects: the
device unless it is not supported, then the host if it is. -/
def systems (config : Config) (properties : Properties) : List (String × List String) :=
  let device := config.device.os.name
  let host := config.host.os.name
  (if (properties.getBool? "device_supported").getD true then [(device, [device])] else []) ++
    (if (properties.getBool? "host_supported").getD false then [(host, [host, hostBranch])] else [])

def splitByOs (visit : Visit) : Visit :=
  if visit.can .osVariants then
    match systems visit.env.config visit.properties with
    | [] => visit.blame none .unsupportedEverywhere
    | choices => visit.splitAndSelect Axis.os "target" choices
  else visit

/-- The architectures of a variant: that of the host for the host system, else those of the device. -/
def archs (config : Config) (variations : Variations) : List Arch :=
  if variations.value? Axis.os = some config.host.os.name then [config.host.arch]
  else config.device.archs

def splitByArch (visit : Visit) : Visit :=
  if visit.can .archVariants then
    visit.splitAndSelect Axis.arch "arch"
      ((archs visit.env.config visit.variant.variations).map fun arch => (arch.name, [arch.name]))
  else visit

def splitByLink (visit : Visit) : Visit :=
  if visit.can .linkVariants then
    visit.splitAndSelect Axis.link "link"
      [(LinkMode.static, [LinkMode.static]), (LinkMode.shared, [LinkMode.shared])]
  else visit

end VariantGraph.Splitting

namespace VariantGraph.Stage

/-- Splits into variants for the device and the host. -/
def os : Stage := .ofVisit "os" .bottomUp Splitting.splitByOs

/-- Splits by architecture. -/
def arch : Stage := .ofVisit "arch" .bottomUp Splitting.splitByArch

/-- Splits into static and shared variants. -/
def link : Stage := .ofVisit "link" .bottomUp Splitting.splitByLink

end VariantGraph.Stage
