import VariantGraph.Proofs.Workspace.Errors
/-!
# Errors that follow from other errors

Loading goes on after an error, and what it could not declare is missing from then on. A package with a default
visibility that cannot be read makes no namespace, so imports of it are reported as well, and its modules are entered
further up, where their names may be taken (`cascade_lostLibrary`). That is the only way in which one error brings about
another: what is reported is justified by the namespaces that are left (`justified_addPackages`).
-/
namespace VariantGraph
open PackagePath

/-- Errors are justified by the namespaces with some property: what they call an unknown import is none of these, and
modules that they call by one name twice have it, and are in packages of which one of these namespaces is the deepest at
or above both. -/
structure Justified (p : String → Prop) (packages : List PackageRecord) (errors : List BuildError) : Prop where
  imports : ∀ package scope imported, .declaration package (.unknownImport scope imported) ∈ errors →
    imported = globalNamespace ∨ ¬ p imported
  names : ∀ name scope package previous, .duplicateName name scope package previous ∈ errors →
    ∃ first second : ModuleRecord, [(previous, first), (package, second)].Sublist (Workspace.modulesOf packages) ∧
      first.name = name ∧ second.name = name ∧
      Deepest (fun path => path = globalNamespace ∨ p path) previous scope ∧
      Deepest (fun path => path = globalNamespace ∨ p path) package scope

theorem Justified.congr {p q : String → Prop} {packages : List PackageRecord} {errors : List BuildError}
    (h : Justified p packages errors) (hpq : ∀ path, p path ↔ q path) : Justified q packages errors :=
  (funext fun path => propext (hpq path) : p = q) ▸ h

namespace Workspace

variable {workspace : Workspace} {packages : List PackageRecord} {records : List (String × ModuleRecord)}

/-! ## Errors that follow from none -/

/-- **What is reported is justified by the namespaces that are not lost.** -/
theorem justified_addPackages (config : Config) (types : TypeTable) (stages : List Stage)
    (packages : List PackageRecord) : Justified (fun path => Declares packages path ∧ ¬ Lost packages path) packages
      ((fresh config types stages).addPackages packages).2 where
  imports package scope imported h := by
    obtain ⟨-, himport⟩ := mem_unknownImport_iff.1 h
    obtain ⟨-, -, -, hunknown⟩ := (Registry.mem_importErrors (ordered_declareAll _ packages)).1 himport
    rw [has_declareAll_iff_not_lost] at hunknown
    by_contra hboth
    rw [not_or, not_not] at hboth
    exact hunknown ⟨hboth.1, .inr hboth.2⟩
  names name scope package previous h := by
    obtain ⟨first, second, hsublist, hfirst, hsecond, rfl, hpackage⟩ := exists_of_mem_duplicateName h
    have hdeepest := deepest_enclosing_declareAll config.precedence packages
    exact ⟨first, second, hsublist, hfirst, hsecond, hdeepest previous, hpackage ▸ hdeepest package⟩

/-- Nothing is lost among further packages whose default visibility can be read, and they lose nothing. -/
theorem kept_append {more : List PackageRecord} (hkept : ∀ path, ¬ Lost packages path)
    (hmore : ∀ record ∈ more, ∃ rules, record.rules = .ok rules) (path : String) : ¬ Lost (packages ++ more) path := by
  rintro ⟨hproper, ⟨record, hrecord, hpath, hdeclares⟩, hunread⟩
  rcases List.mem_append.1 hrecord with hrecord | hrecord
  · exact hkept path ⟨hproper, ⟨record, hrecord, hpath, hdeclares⟩, fun other hother =>
      hunread other (List.mem_append_left more hother)⟩
  · obtain ⟨rules, hrules⟩ := hmore record hrecord
    exact hunread record (List.mem_append_right packages hrecord) hpath hdeclares rules hrules

/-- There is always another path. -/
theorem exists_new_path (packages : List PackageRecord) :
    ∃ path, path ≠ globalNamespace ∧ ∀ record ∈ packages, record.path ≠ path := by
  have : Infinite String := .of_injective String.ofList fun _ _ => String.ofList_injective
  obtain ⟨path, hpath⟩ := Infinite.exists_notMem_finset (globalNamespace :: packages.map (·.path)).toFinset
  rw [List.mem_toFinset, List.mem_cons, not_or] at hpath
  exact ⟨path, hpath.1, fun record hrecord hsame => hpath.2 (List.mem_map.2 ⟨record, hrecord, hsame⟩)⟩

/-- A package that imports a namespace. -/
def importer (path imported : String) : PackageRecord := ⟨path, none, some [imported], []⟩

/-! ## Packages that lose no namespace -/

/-- A workspace with other packages in its registry, under the same namespaces. -/
def withPackages (workspace : Workspace) (table : Table Package) : Workspace :=
  { workspace with registry := { workspace.registry with packages := table } }

theorem register_withPackages (table : Table Package) (package name : String) (id : ModuleId) :
    (workspace.withPackages table).registry.register package name id =
      (workspace.registry.register package name id).map fun (scope, next) =>
        (scope, { next with packages := table }) := by
  have henclosing : (workspace.withPackages table).registry.enclosing package =
      workspace.registry.enclosing package := rfl
  have hnamespaces : (workspace.withPackages table).registry.namespaces = workspace.registry.namespaces := rfl
  unfold Registry.register
  dsimp only
  rw [henclosing, hnamespaces]
  cases workspace.registry.namespaces.find? (workspace.registry.enclosing package) with
  | none => rfl
  | some entry =>
    dsimp only
    cases entry.modules.find? name <;> rfl

/-- Adding a module does not look at the packages. -/
theorem addModule_withPackages (table : Table Package) (package : String) (record : ModuleRecord) :
    (workspace.withPackages table).addModule package record =
      (workspace.addModule package record).map fun (id, next) => (id, next.withPackages table) := by
  have hlength : (workspace.withPackages table).graph.modules.length = workspace.graph.modules.length := rfl
  have htypes : (workspace.withPackages table).types = workspace.types := rfl
  rw [addModule_eq, addModule_eq, register_withPackages, hlength, htypes]
  cases draft workspace.types package record with
  | error fault => rfl
  | ok drafted =>
    rw [ok_bind, ok_bind]
    dsimp only
    cases workspace.registry.register package record.name workspace.graph.modules.length <;> rfl

theorem addModules_withPackages (table : Table Package) : (workspace.withPackages table).addModules records =
    ((workspace.addModules records).1.withPackages table, (workspace.addModules records).2) := by
  induction records generalizing workspace with
  | nil => rfl
  | cons record records ih =>
    obtain ⟨package, record⟩ := record
    rw [addModules_cons, addModules_cons, addModule_withPackages]
    cases workspace.addModule package record with
    | error fault => simp [Except.map, ih]
    | ok added => exact ih

end Workspace

namespace PackageRecord

/-- A package without its default visibility, if that cannot be read. -/
def mended (record : PackageRecord) : PackageRecord :=
  if record.rules.isOk then record else { record with defaultVisibility := none }

theorem mended_header (record : PackageRecord) : record.mended.path = record.path ∧
    record.mended.imports = record.imports ∧ record.mended.modules = record.modules := by
  unfold mended
  split <;> exact ⟨rfl, rfl, rfl⟩

theorem extend_mended {record : PackageRecord} (h : (∀ rules, record.rules ≠ .ok rules) → record.imports = none) :
    record.mended.extend = record.extend := by
  unfold mended
  split
  · rfl
  · next hread =>
    have hnone : record.imports = none := h fun rules hrules => hread (by rw [hrules]; rfl)
    funext namespaces
    simp only [extend, hnone]

end PackageRecord

namespace Workspace

variable {registry : Registry} {packages : List PackageRecord} {error : BuildError} {config : Config}
  {types : TypeTable} {stages : List Stage}

theorem precedence_declareAll (registry : Registry) (records : List PackageRecord) :
    (declareAll registry records).1.precedence = registry.precedence := by
  refine declareAll_induction (p := fun other => other.precedence = registry.precedence) ?_ ?_ rfl records
  · intro other next hsame path imports h
    unfold Registry.addNamespace at h
    split at h
    · cases h
    · cases h; exact hsame
  · intro other next hsame path rules h
    obtain rfl := Registry.addPackage_eq_ok h
    exact hsame

section
variable (hfree : ∀ record ∈ packages, (∀ rules, record.rules ≠ .ok rules) → record.imports = none)
include hfree

/-- The namespaces are the same without default visibility that cannot be read, where no package with one declares
any. -/
theorem declared_map_mended (config : Config) (types : TypeTable) (stages : List Stage) :
    declared config types stages (packages.map (·.mended)) =
    (declared config types stages packages).withPackages
      (declared config types stages (packages.map (·.mended))).registry.packages := by
  have hnamespaces : (declareAll (.empty config.precedence) (packages.map (·.mended))).1.namespaces =
      (declareAll (.empty config.precedence) packages).1.namespaces := by
    rw [namespaces_declareAll, namespaces_declareAll, List.foldl_map]
    refine List.foldl_ext _ _ _ fun namespaces record hrecord => ?_
    rw [PackageRecord.extend_mended (hfree record hrecord)]
  have hprecedence : (declareAll (.empty config.precedence) (packages.map (·.mended))).1.precedence =
      (declareAll (.empty config.precedence) packages).1.precedence := by
    rw [precedence_declareAll, precedence_declareAll]
  unfold declared withPackages
  dsimp only
  rw [← hnamespaces, ← hprecedence]

/-- So the same is wrong in view of them. -/
theorem mem_addPackages_map_mended (habout : error.AboutNamespaces) :
    error ∈ ((fresh config types stages).addPackages (packages.map (·.mended))).2 ↔
      error ∈ ((fresh config types stages).addPackages packages).2 := by
  have hmodules : modulesOf (packages.map (·.mended)) = modulesOf packages := by
    simp only [modulesOf, List.flatMap_map, PackageRecord.mended_header]
  have himports : (declareAll (.empty config.precedence) (packages.map (·.mended))).1.importErrors =
      (declareAll (.empty config.precedence) packages).1.importErrors :=
    congrArg (fun workspace : Workspace => workspace.registry.importErrors)
      (declared_map_mended hfree config types stages)
  rw [mem_addPackages_iff habout, mem_addPackages_iff habout, hmodules, himports, declared_map_mended hfree,
    addModules_withPackages]

end

end Workspace

/-- What is lost is missing where it is imported. -/
theorem Lost.unknownImport {config : Config} {types : TypeTable} {stages : List Stage}
    {packages : List PackageRecord} {path imported : String} (hlost : Lost packages imported)
    (hpath : path ≠ globalNamespace) (hnew : ∀ record ∈ packages, record.path ≠ path) :
    .declaration path (.unknownImport path imported) ∈
      ((Workspace.fresh config types stages).addPackages (packages ++ [Workspace.importer path imported])).2 := by
  refine Workspace.mem_unknownImport_iff.2 ⟨rfl, (Registry.mem_importErrors (Workspace.ordered_declareAll _ _)).2
    ⟨[imported], ?_, List.mem_singleton_self imported, fun hknown => ?_⟩⟩
  · have hrules : (Workspace.importer path imported).rules = .ok none := rfl
    have hothers : packages.findSome? (·.importsFor? path) = none :=
      List.findSome?_eq_none_iff.2 fun record hrecord => by simp [PackageRecord.importsFor?, hnew record hrecord]
    have hown : (Workspace.importer path imported).importsFor? path = some [imported] := by
      rw [PackageRecord.importsFor?, hrules, if_pos ⟨rfl, hpath, rfl⟩]
      rfl
    simp [Workspace.imports?_declareAll, Registry.imports?_empty, hpath, List.findSome?_append, hothers, hown]
  · rcases Workspace.has_declareAll_iff.1 hknown.2 with hglobal | ⟨record, hrecord, hmakes⟩
    · exact hlost.proper hglobal
    · obtain ⟨hsame, -, ⟨rules, hrules⟩, hdeclares⟩ := PackageRecord.importsFor?_ne_none_iff.1 hmakes
      rcases List.mem_append.1 hrecord with hrecord | hrecord
      · exact hlost.unread record hrecord hsame hdeclares rules hrules
      · obtain ⟨other, hother, hdeclared, -⟩ := hlost.declared
        rw [List.mem_singleton.1 hrecord] at hsame
        exact hnew other hother (hdeclared.trans hsame.symm)

/-- **Errors follow from other errors exactly if a namespace is lost.** What is reported of imports and of names is
always justified by the namespaces that are declared and not lost. It is justified by all that are declared, whatever
other packages with readable default visibility are loaded too, exactly if none is lost. And default visibility that
cannot be read, on packages that declare no namespace, makes no difference to what is reported of imports and of
names. -/
theorem errors_justified (config : Config) (types : TypeTable) (stages : List Stage) (packages : List PackageRecord) :
    let report := fun packages => ((Workspace.fresh config types stages).addPackages packages).2
    Justified (fun path => Declares packages path ∧ ¬ Lost packages path) packages (report packages) ∧
    ((∀ path, ¬ Lost packages path) ↔
      ∀ more : List PackageRecord, (∀ record ∈ more, ∃ rules, record.rules = .ok rules) →
        Justified (Declares (packages ++ more)) (packages ++ more) (report (packages ++ more))) ∧
    ((∀ record ∈ packages, (∀ rules, record.rules ≠ .ok rules) → record.imports = none) →
      ∀ error, error.AboutNamespaces →
        (error ∈ report (packages.map (·.mended)) ↔ error ∈ report packages)) := by
  have hjustified := Workspace.justified_addPackages config types stages
  refine ⟨hjustified packages, ⟨fun hkept more hmore => ?_, fun h imported hlost => ?_⟩,
    fun hfree error => Workspace.mem_addPackages_map_mended hfree⟩
  · have hall := Workspace.kept_append hkept hmore
    exact (hjustified (packages ++ more)).congr fun path => and_iff_left (hall path)
  · -- one more package that imports the lost namespace is blamed for that
    obtain ⟨path, hpath, hnew⟩ := Workspace.exists_new_path packages
    have herrors := h [Workspace.importer path imported] fun record hrecord =>
      ⟨none, by rw [List.mem_singleton.1 hrecord]; rfl⟩
    rcases herrors.imports _ _ _ (hlost.unknownImport hpath hnew) with hglobal | hundeclared
    · exact hlost.proper hglobal
    · obtain ⟨record, hrecord, hdeclared⟩ := hlost.declared
      exact hundeclared ⟨record, List.mem_append_left _ hrecord, hdeclared⟩

/-- A package below an application sets a default visibility that cannot be read and repeats a name of it; the
application imports a namespace that there is not. -/
def faultyPart : List PackageRecord :=
  [⟨"app", none, some ["lib"], [⟨"filegroup", "x", []⟩]⟩,
    ⟨"app/part", some ["//visibility:nobody"], none, [⟨"filegroup", "x", []⟩]⟩]

/-- Each fault is reported, and none because of another one. -/
theorem errors_justified_faultyPart :
    let errors := ((Workspace.fresh .onLinux Builtin.types []).addPackages faultyPart).2
    errors = [.invalidDefaultVisibility "app/part" (.unknown "//visibility:nobody"),
      .declaration "app" (.unknownImport "app" "lib"), .duplicateName "x" "app" "app/part" "app"] ∧
    ¬ Declares faultyPart "lib" ∧ Encloses faultyPart "app" "app" ∧ Encloses faultyPart "app" "app/part" := by
  intro errors
  have herrors : errors = [.invalidDefaultVisibility "app/part" (.unknown "//visibility:nobody"),
      .declaration "app" (.unknownImport "app" "lib"), .duplicateName "x" "app" "app/part" "app"] := by decide +kernel
  have hkept : ∀ path, ¬ Lost faultyPart path := by
    refine Workspace.not_lost_of_imports fun record hrecord hunread => ?_
    rcases List.mem_pair.1 hrecord with rfl | rfl
    · exact absurd rfl (hunread none)
    · rfl
  obtain ⟨-, hindependent, -⟩ := errors_justified .onLinux Builtin.types [] faultyPart
  have hjustified : Justified (Declares faultyPart) faultyPart errors := by
    have hmore := hindependent.1 hkept [] (by simp)
    rwa [List.append_nil] at hmore
  obtain ⟨_, _, -, -, -, happ, hpart⟩ := hjustified.names "x" "app" "app/part" "app" (by rw [herrors]; simp)
  refine ⟨herrors, ?_, happ, hpart⟩
  exact (hjustified.imports "app" "app" "lib" (by rw [herrors]; simp)).resolve_left (by decide)

/-- A library sets a default visibility that cannot be read, so its namespace is lost. -/
def lostLibrary : List PackageRecord :=
  [⟨"lib", some ["//visibility:nobody"], some [], [⟨"filegroup", "x", []⟩]⟩,
    ⟨"app", none, some ["lib"], []⟩,
    ⟨"", none, none, [⟨"filegroup", "x", []⟩]⟩]

/-- **One error brings about two others.** The namespace is declared, and still its import is reported; and a module of
the library is entered in the global namespace, where its name is taken. Without the default visibility nothing is
wrong. -/
theorem cascade_lostLibrary :
    let report := fun packages =>
      ((Workspace.fresh .onLinux Builtin.types []).addPackages packages).2
    report lostLibrary = [.invalidDefaultVisibility "lib" (.unknown "//visibility:nobody"),
      .declaration "app" (.unknownImport "app" "lib"), .duplicateName "x" "" "" "lib"] ∧
    Declares lostLibrary "lib" ∧ (∀ scope, ¬ (Encloses lostLibrary scope "lib" ∧ Encloses lostLibrary scope "")) ∧
    ¬ Justified (Declares lostLibrary) lostLibrary (report lostLibrary) ∧ report (lostLibrary.map (·.mended)) = [] := by
  intro report
  have herrors : report lostLibrary = [.invalidDefaultVisibility "lib" (.unknown "//visibility:nobody"),
      .declaration "app" (.unknownImport "app" "lib"), .duplicateName "x" "" "" "lib"] := by decide +kernel
  have hdeclared : Declares lostLibrary "lib" := ⟨_, List.mem_cons_self, rfl, by simp⟩
  have hlib : Encloses lostLibrary "lib" "lib" := ⟨.inr hdeclared, .refl "lib", fun _ _ habove => habove.length_le⟩
  have hroot : Encloses lostLibrary "" "" := ⟨.inl rfl, .refl "", fun _ _ habove => habove.length_le⟩
  refine ⟨herrors, hdeclared, ?_, fun hjustified => ?_, by decide +kernel⟩
  · rintro scope ⟨hin, hout⟩
    exact absurd ((hlib.unique hin).trans (hout.unique hroot)) (by decide)
  · rcases hjustified.imports "app" "app" "lib" (by rw [herrors]; simp) with hglobal | hundeclared
    · exact absurd hglobal (by decide)
    · exact hundeclared hdeclared

end VariantGraph
