import VariantGraph.ModuleType.Basic
/-!
# The built-in module types

| here | there (crates/lib/src) |
| --- | --- |
| `compiledFields`, `libraryFields`, `binaryFields` | `cc_common`, `cc_library`, `cc_binary` (module_types/builtin.rs:26-49) |
| `generatorFields`, `fileGroupFields`, `defaultsOf` | `genrule`, `filegroup`, `defaults_of` (module_types/builtin.rs:51-74) |
| `types` and the types in it | `register_builtin_types` (module_types/builtin.rs:78-103) |
-/
namespace VariantGraph.Builtin

/-- The fields of everything that is compiled. -/
def compiledFields : Schema :=
  Schema.varying [] "srcs" .stringList
    |>.varying "exclude_srcs" .stringList
    |>.varying "cflags" .stringList
    |>.varying "ldflags" .stringList
    |>.varying "export_include_dirs" .stringList
    |>.varying "shared_libs" (.deps .sharedLib)
    |>.varying "static_libs" (.deps .staticLib)
    |>.varying "data" (.deps .data)
    |>.varying "stl" .string
    |>.fixed "arch" (.conditional .arch)
    |>.fixed "target" (.conditional .target)

def libraryFields : Schema := compiledFields.fixed "link" (.conditional .link)

def binaryFields : Schema :=
  compiledFields.varying "stem" .string |>.varying "static_executable" .bool

def generatorFields : Schema :=
  Schema.varying [] "cmd" .string
    |>.varying "srcs" .stringList
    |>.varying "exclude_srcs" .stringList
    |>.fixed "out" .stringList
    |>.varying "tools" (.deps .tool)
    |>.varying "tool_files" .stringList
    |>.fixed "depfile" .bool
    |>.varying "export_include_dirs" .stringList
    |>.fixed "arch" (.conditional .arch)
    |>.fixed "target" (.conditional .target)

def fileGroupFields : Schema :=
  Schema.fixed [] "srcs" .stringList |>.fixed "exclude_srcs" .stringList |>.fixed "path" .string

/-- The fields of a defaults module for users with some fields. -/
def defaultsOf (fields : Schema) : Schema := fields.fixed "defaults_visibility" .stringList

def library : ModuleType :=
  .ofFields "cc_library" libraryFields [.osVariants, .archVariants, .linkVariants, .externalBuildable]

def binary : ModuleType :=
  .ofFields "cc_binary" binaryFields
    [.osVariants, .archVariants, .hostToolProvider, .externalBuildable]

def compiledDefaults : ModuleType :=
  .ofFields "cc_defaults" (defaultsOf (libraryFields.union binaryFields)) [.defaults]

def generator : ModuleType :=
  .ofFields "genrule" generatorFields [.osVariants, .archVariants, .externalBuildable]

def generatorDefaults : ModuleType :=
  .ofFields "genrule_defaults" (defaultsOf generatorFields) [.defaults]

def fileGroup : ModuleType := .ofFields "filegroup" fileGroupFields [.externalBuildable]

/-- All built-in types. -/
def types : TypeTable :=
  [library, binary, compiledDefaults, generator, generatorDefaults, fileGroup].foldl
    TypeTable.register []

end VariantGraph.Builtin
