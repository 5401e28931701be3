import VariantGraph.Json.Decode
/-!
# Records of packages

What is declared is handed over as records: packages, each with its modules, each with its type, its
name and its raw properties. A record is an object, or an array of its fields in order; optional
fields may be left out, and at the end of an array only there. A field that a record knows may not be
repeated; other fields are skipped unread.

| here | there (crates/lib/src) |
| --- | --- |
| `ModuleRecord`, `PackageRecord` | the same, and `NamespaceDecl` (input.rs:26-50) |
| `ofText?`, `readPackages` | `PackageSet::from_json` (input.rs:54-61) |
| `moduleCount` | `module_count` (input.rs:71-73) |
-/
namespace VariantGraph

structure ModuleRecord where
  moduleType : String
  name : String
  properties : Table Json

structure PackageRecord where
  path : String
  defaultVisibility : Option (List String)
  /-- The namespaces that are imported, if the package declares a namespace. -/
  imports : Option (List String)
  modules : List ModuleRecord

namespace RawJson

/-! ## Parts of records

`room` is how deep arrays and objects may still nest. -/

/-- The known fields of an object, by name. -/
def knownFields (names : List String) :
    List (List StringUnit × RawJson) → Option (Table RawJson)
  | [] => some []
  | (key, value) :: rest =>
    match decodeString key, knownFields names rest with
    | some name, some fields =>
      if name ∉ names then some fields
      else if fields.has name then none
      else some (fields.insert name value)
    | _, _ => none

/-- The fields of a record: by name from an object, by position from an array. -/
def recordFields (room : Nat) (names : List String) : RawJson → Option (Table RawJson)
  | .object members => if room = 0 then none else knownFields names members
  | .array items =>
    if room = 0 || names.length < items.length then none
    else some (Table.ofEntries (names.zip items))
  | _ => none

def readText : RawJson → Option String
  | .string units => decodeString units
  | _ => none

/-- A list whose items are all read alike. -/
def readList (room : Nat) (read : Nat → RawJson → Option α) : RawJson → Option (List α)
  | .array items => if room = 0 then none else items.mapM (read (room - 1))
  | _ => none

def readTexts (room : Nat) (raw : RawJson) : Option (List String) := readList room (fun _ => readText) raw

/-- A field that has a default. -/
def optionalField (fields : Table RawJson) (name : String) (read : RawJson → Option α) (fallback : α) :
    Option α :=
  match fields.find? name with
  | some raw => read raw
  | none => some fallback

/-- Something that may also be `null`. -/
def readOptional (read : RawJson → Option α) : RawJson → Option (Option α)
  | .null => some none
  | raw => (read raw).map some

/-! ## Records -/

def readProperties (room : Nat) (raw : RawJson) : Option (Table Json) :=
  match raw with
  | .object _ => (decode room raw).bind Json.object?
  | _ => none

def readModule (room : Nat) (raw : RawJson) : Option ModuleRecord := do
  let fields ← recordFields room ["type", "name", "properties"] raw
  let moduleType ← (← fields.find? "type").readText
  let name ← (← fields.find? "name").readText
  let properties ← optionalField fields "properties" (readProperties (room - 1)) []
  return ⟨moduleType, name, properties⟩

/-- What a package imports into the namespace that it declares. -/
def readNamespace (room : Nat) (raw : RawJson) : Option (List String) := do
  let fields ← recordFields room ["imports"] raw
  optionalField fields "imports" (readTexts (room - 1)) []

def readPackage (room : Nat) (raw : RawJson) : Option PackageRecord := do
  let fields ← recordFields room ["path", "default_visibility", "namespace", "modules"] raw
  let path ← (← fields.find? "path").readText
  let rules ← optionalField fields "default_visibility" (readOptional (readTexts (room - 1))) none
  let imports ← optionalField fields "namespace" (readOptional (readNamespace (room - 1))) none
  let modules ← optionalField fields "modules" (readList (room - 1) readModule) []
  return ⟨path, rules, imports, modules⟩

/-- The packages of a build. -/
def readPackages (room : Nat) (raw : RawJson) : Option (List PackageRecord) := do
  let fields ← recordFields room ["packages"] raw
  readList (room - 1) readPackage (← fields.find? "packages")

end RawJson

namespace PackageRecord

/-- Reads the records of a build from a document. -/
def ofText? (text : String) : Option (List PackageRecord) :=
  (RawJson.ofText? text).bind (RawJson.readPackages RawJson.maxDepth)

/-- How many modules some packages declare. -/
def moduleCount (packages : List PackageRecord) : Nat := (packages.flatMap (·.modules)).length

end PackageRecord
end VariantGraph
