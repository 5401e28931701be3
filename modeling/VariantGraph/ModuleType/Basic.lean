import VariantGraph.Property.Schema
/-!
# Module types and their capabilities

A module type is a schema together with the capabilities of its modules. Stages ask for capabilities,
not for types, so a type that is added takes part in the same stages as the built-in ones.

| here | there (crates/lib/src) |
| --- | --- |
| `Capability` | `Capability` (module_types/mod.rs:22-48) |
| `Schema.common` | `common_schema` (module_types/builtin.rs:8-24) |
| `ModuleType`, `ModuleType.ofFields` | `ModuleType`, `ModuleType::new` (module_types/mod.rs:58-72) |
| `TypeTable`, `TypeTable.register` | `ModuleTypeRegistry`, `register` (module_types/mod.rs:81-100) |
-/
namespace VariantGraph

/-- What the modules of a type can do or have done to them. -/
inductive Capability where
  /-- Only carries properties for others; is never built. -/
  | defaults
  | osVariants
  | archVariants
  | linkVariants
  /-- May be used as a tool. -/
  | hostToolProvider
  /-- May be handed over to the external build. -/
  | externalBuildable
  deriving DecidableEq, Repr

namespace Capability

/-- All capabilities, in the order in which they are listed. -/
def all : List Capability :=
  [defaults, osVariants, archVariants, linkVariants, hostToolProvider, externalBuildable]

def name : Capability → String
  | defaults => "defaults"
  | osVariants => "os_variants"
  | archVariants => "arch_variants"
  | linkVariants => "link_variants"
  | hostToolProvider => "host_tool_provider"
  | externalBuildable => "external_buildable"

def ofName? (text : String) : Option Capability := all.find? (·.name = text)

/-- Some capabilities in the order in which they are listed, each once. -/
def listed (some : List Capability) : List Capability := all.filter (· ∈ some)

theorem ofName?_name (capability : Capability) : ofName? capability.name = some capability := by
  cases capability <;> rfl

theorem mem_listed {capability : Capability} {some : List Capability} :
    capability ∈ listed some ↔ capability ∈ some := by
  cases capability <;> simp [listed, all]

end Capability

structure ModuleType where
  name : String
  schema : Schema
  capabilities : List Capability

/-- The fields of every module, whatever its type. -/
def Schema.common : Schema :=
  Schema.fixed [] "defaults" .stringList
    |>.fixed "visibility" .stringList
    |>.varying "enabled" .bool
    |>.fixed "host_supported" .bool
    |>.fixed "device_supported" .bool
    |>.fixed "external_build" (.struct (Schema.fixed [] "label" .string |>.fixed "available" .bool))
    |>.fixed "soong_config_variables" .configVariables

/-- A type with some fields of its own, which replace common fields of the same names. -/
def ModuleType.ofFields (name : String) (fields : Schema) (capabilities : List Capability) :
    ModuleType :=
  ⟨name, Schema.common.union fields, Capability.listed capabilities⟩

/-- Module types by name. -/
abbrev TypeTable := Table ModuleType

/-- Adds a type; one of the same name is replaced. -/
def TypeTable.register (types : TypeTable) (type : ModuleType) : TypeTable :=
  types.insert type.name type

end VariantGraph
