import VariantGraph.Proofs.Lookup.Names
import VariantGraph.Proofs.PackagePath
import VariantGraph.Proofs.Workspace.Correspondence
/-!
# The namespaces that packages declare

A package makes a namespace of its path if it declares one and its default visibility can be read, and the first such
package of a path says what the namespace imports (`imports?_declareAll`). The namespace of a package is the deepest
one at or above it (`Registry.deepest_enclosing`).
-/
namespace VariantGraph
open PackagePath

/-- Some package of a set declares a namespace for a path. -/
def Declares (packages : List PackageRecord) (path : String) : Prop :=
  ∃ record ∈ packages, record.path = path ∧ record.imports ≠ none

/-- Packages declare a namespace, but the default visibility of none of those that do can be read. -/
structure Lost (packages : List PackageRecord) (path : String) : Prop where
  proper : path ≠ globalNamespace
  declared : Declares packages path
  unread : ∀ record ∈ packages, record.path = path → record.imports ≠ none → ∀ rules, record.rules ≠ .ok rules

/-- A namespace encloses a package: it is the deepest one at or above it that packages of a set declare, or the global
one if they declare none there. -/
def Encloses (packages : List PackageRecord) (scope package : String) : Prop :=
  Deepest (fun path => path = globalNamespace ∨ Declares packages path) package scope

namespace Registry

variable {registry : Registry} {package : String}

/-- **The namespace of a package is the deepest one at or above it.** -/
theorem deepest_enclosing (registry : Registry) (package : String) :
    Deepest (fun path => path = globalNamespace ∨ registry.namespaces.has path = true) package
      (registry.enclosing package) := by
  unfold enclosing
  rw [List.find?_eq_findSome?_guard, findSome?_ancestors]
  generalize hdeclared : (fun path => decide (path ≠ globalNamespace) && registry.namespaces.has path) = declared
  have hiff : ∀ path, declared path = true ↔ path ≠ globalNamespace ∧ registry.namespaces.has path = true := by
    simp [← hdeclared]
  cases hsearch : searchUp (Option.guard declared) package with
  | some scope =>
    obtain ⟨path, ⟨-, habove, hlongest⟩, hpath⟩ := searchUp_eq_some_iff.1 hsearch
    obtain ⟨rfl, hscope⟩ := Option.guard_eq_some_iff.1 hpath
    refine ⟨.inr ((hiff path).1 hscope).2, habove, fun other hother hover => ?_⟩
    by_cases hglobal : other = globalNamespace
    · simp [hglobal, globalNamespace]
    · refine hlongest other ?_ hover
      simp [(hiff other).2 ⟨hglobal, hother.resolve_left hglobal⟩]
  | none =>
    refine ⟨.inl rfl, .inl rfl, fun other hother hover => ?_⟩
    have hnone := searchUp_eq_none_iff.1 hsearch other hover
    by_cases hglobal : other = globalNamespace
    · exact Nat.le_of_eq (congrArg String.length hglobal)
    · simp [(hiff other).2 ⟨hglobal, hother.resolve_left hglobal⟩] at hnone

/-- Only the global namespace is there from the start, and it imports nothing. -/
theorem imports?_empty (precedence : ImportPrecedence) (scope : String) :
    (empty precedence).imports? scope = if scope = globalNamespace then some [] else none := by
  by_cases h : scope = globalNamespace
  · simp [imports?, empty, Table.find?, h]
  · simp [imports?, empty, Table.find?, h, Ne.symm h]

/-- An import is reported if a namespace lists it and it is the global one or none. -/
theorem mem_importErrors (hr : registry.Ordered) {scope imported : String} :
    .unknownImport scope imported ∈ registry.importErrors ↔ ∃ imports, registry.imports? scope = some imports ∧
      imported ∈ imports ∧ ¬ (imported ≠ globalNamespace ∧ registry.namespaces.has imported = true) := by
  simp only [importErrors, List.mem_flatMap, List.mem_map, List.mem_filter, Prod.exists,
    RegistryError.unknownImport.injEq, imports?, Option.map_eq_some_iff, Bool.or_eq_true, decide_eq_true_eq,
    Bool.not_eq_true', ne_eq, not_and_or, not_not, Bool.not_eq_true]
  constructor
  · rintro ⟨scope', entry, hentry, imported', ⟨hmem, hunknown⟩, rfl, rfl⟩
    exact ⟨entry.imports, ⟨entry, Table.find?_of_mem hr.1 hentry, rfl⟩, hmem, hunknown⟩
  · rintro ⟨imports, ⟨entry, hentry, rfl⟩, hmem, hunknown⟩
    exact ⟨scope, entry, Table.mem_of_find? hentry, imported, ⟨hmem, hunknown⟩, rfl, rfl⟩

/-- Nothing else is reported about imports. -/
theorem eq_unknownImport_of_mem {error : RegistryError} (h : error ∈ registry.importErrors) :
    ∃ scope imported, error = .unknownImport scope imported := by
  simp only [importErrors, List.mem_flatMap, List.mem_map] at h
  obtain ⟨⟨scope, entry⟩, -, imported, -, rfl⟩ := h
  exact ⟨scope, imported, rfl⟩

end Registry

/-! ## Declaring -/

namespace PackageRecord

/-- What a package says that the namespace of a path imports: something only if the path is its own, it declares a
namespace that is not the global one, and its default visibility can be read. -/
def importsFor? (record : PackageRecord) (path : String) : Option (List String) :=
  if record.path = path ∧ path ≠ globalNamespace ∧ record.rules.isOk then record.imports else none

/-- The namespaces behind a package: one more if it declares one that is not there, and its default visibility can be
read. -/
def extend (record : PackageRecord) (namespaces : Table Namespace) : Table Namespace :=
  match record.imports with
  | some imports =>
    if record.rules.isOk && !(record.path = globalNamespace || namespaces.has record.path) then
      namespaces.insert record.path ⟨imports, []⟩
    else namespaces
  | none => namespaces

/-- A package adds its namespace if there is none of its path. -/
theorem imports_extend (record : PackageRecord) (namespaces : Table Namespace) (path : String) :
    ((record.extend namespaces).find? path).map (·.imports) =
      ((namespaces.find? path).map (·.imports)).or (record.importsFor? path) := by
  unfold extend importsFor?
  cases record.imports with
  | none => simp
  | some imports =>
    by_cases hpath : record.path = path
    · subst hpath
      cases hfind : namespaces.find? record.path with
      | some entry => simp [Table.has, hfind]
      | none =>
        by_cases hglobal : record.path = globalNamespace
        · rw [hglobal] at hfind
          simp [hfind, hglobal]
        · cases record.rules.isOk <;> simp [Table.has, hfind, hglobal, Table.find?_insert]
    · dsimp only
      split <;> simp [Table.find?_insert, hpath]

theorem importsFor?_ne_none_iff {record : PackageRecord} {path : String} : record.importsFor? path ≠ none ↔
    record.path = path ∧ path ≠ globalNamespace ∧ (∃ rules, record.rules = .ok rules) ∧ record.imports ≠ none := by
  unfold importsFor?
  cases record.rules <;> simp [Except.isOk, Except.toBool]

end PackageRecord

namespace Workspace

variable {registry : Registry}

/-- Declaring a package adds its namespace, whatever becomes of the package itself. -/
theorem namespaces_declare (registry : Registry) (record : PackageRecord) :
    (declare registry record).1.namespaces = record.extend registry.namespaces := by
  unfold declare PackageRecord.extend Registry.addNamespace Registry.addPackage
  rw [← PackageRecord.rules]
  cases record.rules with
  | error cause => cases record.imports <;> rfl
  | ok rules =>
    cases record.imports with
    | none => cases hpackage : registry.packages.has record.path <;> simp [hpackage]
    | some imports =>
      by_cases hglobal : record.path = globalNamespace
      · simp [hglobal]
      · cases registry.namespaces.has record.path <;> cases hpackage : registry.packages.has record.path <;>
          simp [hpackage, hglobal, Except.isOk, Except.toBool]

theorem imports?_declare (registry : Registry) (record : PackageRecord) (path : String) :
    (declare registry record).1.imports? path = (registry.imports? path).or (record.importsFor? path) := by
  rw [Registry.imports?, namespaces_declare]
  exact record.imports_extend registry.namespaces path

theorem namespaces_declareAll (records : List PackageRecord) : (declareAll registry records).1.namespaces =
    records.foldl (fun namespaces record => record.extend namespaces) registry.namespaces := by
  induction records generalizing registry with
  | nil => rfl
  | cons record records ih => rw [declareAll_cons, ih, namespaces_declare, List.foldl_cons]

/-- **The first package of a path that declares its namespace is the one that counts**, if its default visibility can be
read. -/
theorem imports?_declareAll (records : List PackageRecord) (path : String) :
    (declareAll registry records).1.imports? path =
      (registry.imports? path).or (records.findSome? (·.importsFor? path)) := by
  induction records generalizing registry with
  | nil => simp [declareAll]
  | cons record records ih =>
    rw [declareAll_cons, ih, imports?_declare, Option.or_assoc, List.findSome?_cons]
    cases record.importsFor? path <;> simp

/-- A namespace is there, after packages were declared in a fresh registry, if it is the global one or some package
makes it. -/
theorem has_declareAll_iff {precedence : ImportPrecedence} {packages : List PackageRecord} {path : String} :
    (declareAll (.empty precedence) packages).1.namespaces.has path = true ↔
      path = globalNamespace ∨ ∃ record ∈ packages, record.importsFor? path ≠ none := by
  rw [Registry.has_eq_isSome, imports?_declareAll, Option.isSome_or, Bool.or_eq_true, Registry.imports?_empty,
    List.findSome?_isSome_iff]
  simp [apply_ite, Option.isSome_iff_ne_none]

theorem ordered_declareAll (precedence : ImportPrecedence) (packages : List PackageRecord) :
    (declareAll (.empty precedence) packages).1.Ordered := by
  refine declareAll_induction ?_ ?_ (Registry.ordered_empty precedence) packages
  · intro registry registry' hr path imports h
    exact (Registry.addNamespace_eq_ok h hr).1
  · intro registry registry' hr path rules h
    obtain rfl := Registry.addPackage_eq_ok h
    exact hr

/-! ## Nothing lost -/

section
variable {precedence : ImportPrecedence} {packages : List PackageRecord} {path scope package : String}

/-- The namespaces are the global one and those that are declared and not lost. -/
theorem has_declareAll_iff_not_lost : (declareAll (.empty precedence) packages).1.namespaces.has path = true ↔
    path = globalNamespace ∨ Declares packages path ∧ ¬ Lost packages path := by
  rw [has_declareAll_iff]
  refine or_congr_right' fun hproper => ?_
  simp only [PackageRecord.importsFor?_ne_none_iff]
  constructor
  · rintro ⟨record, hrecord, hpath, -, ⟨rules, hrules⟩, hdeclares⟩
    exact ⟨⟨record, hrecord, hpath, hdeclares⟩, fun hlost => hlost.unread record hrecord hpath hdeclares rules hrules⟩
  · rintro ⟨hdeclared, hkept⟩
    by_contra hnone
    refine hkept ⟨hproper, hdeclared, fun record hrecord hpath hdeclares rules hrules => ?_⟩
    exact hnone ⟨record, hrecord, hpath, hproper, ⟨rules, hrules⟩, hdeclares⟩

/-- Modules go into the deepest namespaces that are declared and not lost. -/
theorem deepest_enclosing_declareAll (precedence : ImportPrecedence) (packages : List PackageRecord)
    (package : String) :
    Deepest (fun path => path = globalNamespace ∨ Declares packages path ∧ ¬ Lost packages path) package
      ((declareAll (.empty precedence) packages).1.enclosing package) :=
  (Registry.deepest_enclosing _ package).congr fun other => by
    rw [has_declareAll_iff_not_lost, or_iff_right_of_imp Or.inl]

/-- Nothing is lost by packages that declare nothing. -/
theorem not_lost_of_imports (hfree : ∀ record ∈ packages, (∀ rules, record.rules ≠ .ok rules) → record.imports = none)
    (path : String) : ¬ Lost packages path := by
  rintro ⟨-, ⟨record, hrecord, hpath, hdeclares⟩, hunread⟩
  exact hdeclares (hfree record hrecord (hunread record hrecord hpath hdeclares))

/-- If each default visibility can be read, nothing is lost. -/
theorem not_lost_of_rules (hrules : ∀ record ∈ packages, ∃ rules, record.rules = .ok rules) (path : String) :
    ¬ Lost packages path := by
  refine not_lost_of_imports (fun record hrecord hunread => ?_) path
  obtain ⟨rules, hread⟩ := hrules record hrecord
  exact absurd hread (hunread rules)

variable (hkept : ∀ path, ¬ Lost packages path)
include hkept

theorem has_declareAll_iff_declares : (declareAll (.empty precedence) packages).1.namespaces.has path = true ↔
    path = globalNamespace ∨ Declares packages path := by
  rw [has_declareAll_iff_not_lost, and_iff_left (hkept path)]

/-- **Where nothing is lost, modules go into the namespaces that enclose their packages** by what the packages
declare. -/
theorem encloses_iff_enclosing (precedence : ImportPrecedence) : Encloses packages scope package ↔
    (declareAll (.empty precedence) packages).1.enclosing package = scope := by
  have hdeepest : Encloses packages ((declareAll (.empty precedence) packages).1.enclosing package) package :=
    (deepest_enclosing_declareAll precedence packages package).congr fun other => by rw [and_iff_left (hkept other)]
  exact ⟨hdeepest.unique, fun h => h ▸ hdeepest⟩

end

end Workspace
end VariantGraph
