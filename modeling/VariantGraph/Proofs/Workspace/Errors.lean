import VariantGraph.Proofs.Workspace.Acceptance
/-!
# Where the errors of loading come from

Some errors are about which namespaces there are and what they hold (`BuildError.AboutNamespaces`). A package or a
record by itself brings about none of them: an unknown import is reported for a namespace that lists it
(`mem_unknownImport_iff`), and a name that is taken for two records that have it, in packages whose modules go into one
namespace (`exists_of_mem_duplicateName`).
-/
namespace VariantGraph

/-- An error about which namespaces there are and what they hold: an import of none, or a name that is taken. -/
inductive BuildError.AboutNamespaces : BuildError → Prop
  | unknownImport (package scope imported : String) :
      AboutNamespaces (.declaration package (.unknownImport scope imported))
  | duplicateName (name scope package previous : String) :
      AboutNamespaces (.duplicateName name scope package previous)

namespace Registry

variable {registry : Registry} {path : String} {cause : RegistryError}

theorem addNamespace_eq_error {imports : List String} (h : registry.addNamespace path imports = .error cause) :
    cause = .duplicateNamespace path := by
  unfold addNamespace at h
  split at h
  · exact (Except.error.inj h).symm
  · cases h

theorem addPackage_eq_error {rules : Option (List VisibilityRule)}
    (h : registry.addPackage path rules = .error cause) : cause = .duplicatePackage path := by
  unfold addPackage at h
  split at h
  · exact (Except.error.inj h).symm
  · cases h

theorem register_eq_error {package name : String} {id : ModuleId}
    (h : registry.register package name id = .error cause) :
    cause = .unknownNamespace (registry.enclosing package) ∨
      ∃ existing, cause = .duplicateModule name (registry.enclosing package) existing ∧
        registry.lookup? (registry.enclosing package) name = some existing := by
  cases cause with
  | duplicateModule name' scope existing =>
    obtain ⟨rfl, rfl, hlookup⟩ := register_eq_duplicate h
    exact .inr ⟨existing, rfl, hlookup⟩
  | _ =>
    unfold register at h
    dsimp only at h
    split at h
    · exact .inl (Except.error.inj h).symm
    · split at h <;> cases h

end Registry

namespace Workspace

variable {registry : Registry} {base workspace : Workspace} {packages : List PackageRecord}
  {records done : List (String × ModuleRecord)} {error : BuildError}

/-- Declaring a package finds fault with the package only. -/
theorem not_aboutNamespaces_of_declare {record : PackageRecord} (h : (declare registry record).2 = some error) :
    ¬ error.AboutNamespaces := by
  unfold declare at h
  split at h
  · cases h; rintro ⟨⟩
  · split at h
    · next cause hcause =>
      cases h
      cases hi : record.imports with
      | none => rw [hi] at hcause; cases hcause
      | some imports =>
        rw [hi] at hcause
        rw [Registry.addNamespace_eq_error hcause]
        rintro ⟨⟩
    · split at h
      · next cause hcause =>
        cases h
        rw [Registry.addPackage_eq_error hcause]
        rintro ⟨⟩
      · cases h

theorem not_aboutNamespaces_of_mem_declareAll {records : List PackageRecord}
    (h : error ∈ (declareAll registry records).2) : ¬ error.AboutNamespaces := by
  induction records generalizing registry with
  | nil => cases h
  | cons record records ih =>
    rw [declareAll_cons, List.mem_append, Option.mem_toList] at h
    exact h.elim not_aboutNamespaces_of_declare ih

theorem rulesOf_eq_error {origin : Origin} {properties : Properties} {property : String}
    (h : rulesOf origin properties property = .error error) :
    ∃ cause, error = .invalidVisibility origin property cause := by
  unfold rulesOf at h
  split at h
  · split at h
    · cases h
    · next cause _ => exact ⟨cause, (Except.error.inj h).symm⟩
  · cases h

/-- A record by itself is faulty for other reasons. -/
theorem not_aboutNamespaces_of_draft {types : TypeTable} {package : String} {record : ModuleRecord}
    (h : draft types package record = .error error) : ¬ error.AboutNamespaces := by
  unfold draft at h
  cases hknown : types.find? record.moduleType with
  | none => rw [hknown] at h; cases h; rintro ⟨⟩
  | some type =>
    rw [hknown] at h
    rcases bind_eq_error h with hpopulate | ⟨properties, -, h⟩
    · obtain ⟨cause, -, rfl⟩ := mapError_eq_error hpopulate
      rintro ⟨⟩
    · rcases bind_eq_error h with hvisibility | ⟨visibility, -, h⟩
      · obtain ⟨cause, rfl⟩ := rulesOf_eq_error hvisibility
        rintro ⟨⟩
      · rcases bind_eq_error h with hdefaults | ⟨defaultsVisibility, -, h⟩
        · obtain ⟨cause, rfl⟩ := rulesOf_eq_error hdefaults
          rintro ⟨⟩
        · cases h

/-- What is wrong with a module in view of the namespaces is that the one of its package holds its name. -/
theorem eq_duplicateName_of_addModule {package : String} {record : ModuleRecord}
    (h : workspace.addModule package record = .error error) (habout : error.AboutNamespaces) :
    ∃ existing, workspace.registry.lookup? (workspace.registry.enclosing package) record.name = some existing ∧
      error = .duplicateName record.name (workspace.registry.enclosing package) package
        (workspace.graph.module existing).package := by
  rw [addModule_eq] at h
  rcases bind_eq_error h with hdraft | ⟨⟨module, properties⟩, -, h⟩
  · exact absurd habout (not_aboutNamespaces_of_draft hdraft)
  · rcases bind_eq_error h with hregister | ⟨entered, -, h⟩
    · obtain ⟨cause, hcause, rfl⟩ := mapError_eq_error hregister
      rcases Registry.register_eq_error hcause with rfl | ⟨existing, rfl, hlookup⟩
      · cases habout
      · exact ⟨existing, hlookup, rfl⟩
    · cases h

/-- A module that could not be added was to be added when some of those before it had been. -/
theorem Entered.exists_of_mem_errors (h : Entered base done workspace)
    (herror : error ∈ (workspace.addModules records).2) :
    ∃ before record after kept reached, records = before ++ record :: after ∧ kept.Sublist before ∧
      Entered base (done ++ kept) reached ∧ reached.addModule record.1 record.2 = .error error := by
  induction records generalizing done workspace with
  | nil => cases herror
  | cons record records ih =>
    obtain ⟨package, record⟩ := record
    rw [addModules_cons] at herror
    cases hadd : workspace.addModule package record with
    | ok result =>
      obtain ⟨id, next⟩ := result
      rw [hadd] at herror
      obtain ⟨before, failed, after, kept, reached, rfl, hkept, hreached, hfailed⟩ := ih (h.addModule hadd).2.2 herror
      exact ⟨(package, record) :: before, failed, after, (package, record) :: kept, reached, rfl, hkept.cons_cons _,
        by rwa [List.append_cons], hfailed⟩
    | error cause =>
      -- what failed left the workspace as it was, so the later ones find the same records added
      rw [hadd] at herror
      rcases List.mem_cons.1 herror with rfl | herror
      · exact ⟨[], (package, record), records, [], workspace, rfl, List.nil_sublist _, by rwa [List.append_nil], hadd⟩
      · obtain ⟨before, failed, after, kept, reached, rfl, hkept, hreached, hfailed⟩ := ih h herror
        exact ⟨(package, record) :: before, failed, after, kept, reached, rfl, hkept.cons _, hreached, hfailed⟩

variable {config : Config} {types : TypeTable} {stages : List Stage} {name scope package previous imported : String}

theorem mem_map_importError_iff : error ∈ registry.importErrors.map importError ↔ ∃ scope imported,
    error = .declaration scope (.unknownImport scope imported) ∧
      .unknownImport scope imported ∈ registry.importErrors := by
  rw [List.mem_map]
  constructor
  · rintro ⟨cause, hcause, rfl⟩
    obtain ⟨scope, imported, rfl⟩ := Registry.eq_unknownImport_of_mem hcause
    exact ⟨scope, imported, rfl, hcause⟩
  · rintro ⟨scope, imported, rfl, hcause⟩
    exact ⟨_, hcause, rfl⟩

/-- Errors about namespaces come from the imports and from the modules. -/
theorem mem_addPackages_iff (habout : error.AboutNamespaces) :
    error ∈ ((fresh config types stages).addPackages packages).2 ↔
      error ∈ (declareAll (.empty config.precedence) packages).1.importErrors.map importError ∨
        error ∈ ((declared config types stages packages).addModules (modulesOf packages)).2 := by
  have hother : error ∉ (declareAll (.empty config.precedence) packages).2 :=
    fun h => not_aboutNamespaces_of_mem_declareAll h habout
  rw [errors_addPackages, List.mem_append, List.mem_append, or_iff_right hother]

/-- All imports are reported that lead nowhere, each for its own namespace, and no others. -/
theorem mem_unknownImport_iff :
    .declaration package (.unknownImport scope imported) ∈ ((fresh config types stages).addPackages packages).2 ↔
      package = scope ∧
        .unknownImport scope imported ∈ (declareAll (.empty config.precedence) packages).1.importErrors := by
  rw [mem_addPackages_iff (.unknownImport package scope imported), mem_map_importError_iff]
  constructor
  · rintro (⟨scope', imported', heq, hcause⟩ | hmodule)
    · cases heq
      exact ⟨rfl, hcause⟩
    · obtain ⟨-, record, -, -, reached, -, -, -, hfailed⟩ :=
        (entered_declared config types stages packages).exists_of_mem_errors hmodule
      obtain ⟨existing, -, heq⟩ := eq_duplicateName_of_addModule hfailed (.unknownImport package scope imported)
      cases heq
  · rintro ⟨rfl, himport⟩
    exact .inl ⟨_, _, rfl, himport⟩

/-- A name is reported twice for two records that have it, in packages whose modules go into one namespace. -/
theorem exists_of_mem_duplicateName
    (h : .duplicateName name scope package previous ∈ ((fresh config types stages).addPackages packages).2) :
    ∃ first second : ModuleRecord, [(previous, first), (package, second)].Sublist (modulesOf packages) ∧
      first.name = name ∧ second.name = name ∧
      (declareAll (.empty config.precedence) packages).1.enclosing previous = scope ∧
      (declareAll (.empty config.precedence) packages).1.enclosing package = scope := by
  rw [mem_addPackages_iff (.duplicateName name scope package previous), mem_map_importError_iff] at h
  rcases h with ⟨_, _, heq, -⟩ | hmodule
  · cases heq
  · obtain ⟨before, ⟨package', second⟩, after, kept, reached, hrecords, hkept, hreached, hfailed⟩ :=
      (entered_declared config types stages packages).exists_of_mem_errors hmodule
    obtain ⟨existing, hlookup, heq⟩ :=
      eq_duplicateName_of_addModule hfailed (.duplicateName name scope package previous)
    cases heq
    obtain ⟨first, hfirst, hslot⟩ := (hreached.lookup _ _ _).1 hlookup
    obtain ⟨hscope, hname⟩ := Prod.mk.inj hslot
    -- the module that holds the name was made of that record
    obtain ⟨module, properties, hdraft, hmade, -⟩ := hreached.made _ _ hfirst
    obtain ⟨-, -, -, -, hpackage, -⟩ := draft_eq_ok hdraft
    have hprevious : (reached.graph.module existing).package = first.1 := by rw [hmade, ← hpackage]
    rw [hreached.enclosing] at hscope ⊢
    rw [hprevious]
    refine ⟨first.2, second, ?_, hname, rfl, hscope, rfl⟩
    rw [hrecords]
    have hbefore : [first].Sublist before := (List.singleton_sublist.2 (List.mem_of_getElem? hfirst)).trans hkept
    exact hbefore.append (List.singleton_sublist.2 List.mem_cons_self)

end Workspace
end VariantGraph
