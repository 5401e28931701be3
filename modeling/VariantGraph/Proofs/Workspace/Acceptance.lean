import VariantGraph.Proofs.Workspace.Declared
import VariantGraph.Proofs.Workspace.Reordering
/-!
# Which packages can be loaded

Packages are loaded without errors exactly if they are well-formed, which is said here of the records alone
(`WellFormed`, `accepted_iff_wellFormed`). Each module is then in the deepest namespace at or above its package,
wherever in the list the package stands that declares it.
-/
namespace VariantGraph
open PackagePath

/-! ## Well-formed packages -/

/-- The labels that a module lists in a property, if it sets it, can be read as visibility rules. -/
def Properties.ListsRules (properties : Properties) (package property : String) : Prop :=
  properties.isSet property → ∃ rules, VisibilityRule.parse package (properties.getList property) = .ok rules

/-- A record of a module, as it stands in a package: its type is known, its properties are what the type takes, and its
visibility can be read. -/
def ModuleRecord.Fits (types : TypeTable) (package : String) (record : ModuleRecord) : Prop :=
  ∃ type properties, types.find? record.moduleType = some type ∧
    populate type.schema record.properties = .ok properties ∧
    properties.ListsRules package "visibility" ∧ properties.ListsRules package "defaults_visibility"

/-- Packages without a fault. -/
structure WellFormed (types : TypeTable) (packages : List PackageRecord) : Prop where
  paths : (packages.map (·.path)).Nodup
  root : ∀ record ∈ packages, record.path = globalNamespace → record.imports = none
  imports : ∀ record ∈ packages, ∀ imports, record.imports = some imports →
    ∀ imported ∈ imports, imported ≠ globalNamespace ∧ Declares packages imported
  rules : ∀ record ∈ packages, ∀ labels, record.defaultVisibility = some labels →
    ∃ rules, VisibilityRule.parse record.path labels = .ok rules
  modules : ∀ record ∈ packages, ∀ module ∈ record.modules, module.Fits types record.path
  names : (Workspace.modulesOf packages).Pairwise fun a b => a.2.name = b.2.name →
    ∀ scope, ¬ (Encloses packages scope a.1 ∧ Encloses packages scope b.1)

theorem PackageRecord.exists_rules_iff {record : PackageRecord} : (∃ rules, record.rules = .ok rules) ↔
    ∀ labels, record.defaultVisibility = some labels →
      ∃ rules, VisibilityRule.parse record.path labels = .ok rules := by
  unfold PackageRecord.rules
  cases record.defaultVisibility with
  | none => exact ⟨fun _ labels h => absurd h (by simp), fun _ => ⟨none, rfl⟩⟩
  | some labels =>
    rw [Option.mapM_some]
    constructor
    · rintro ⟨rules, h⟩ labels' hlabels
      obtain rfl := Option.some.inj hlabels
      cases hparse : VisibilityRule.parse record.path labels with
      | ok read => exact ⟨read, rfl⟩
      | error cause => rw [hparse] at h; cases h
    · intro h
      obtain ⟨rules, hparse⟩ := h labels rfl
      exact ⟨some rules, by rw [hparse]; rfl⟩

theorem WellFormed.readable {types : TypeTable} {packages : List PackageRecord} (h : WellFormed types packages) :
    ∀ record ∈ packages, ∃ rules, record.rules = .ok rules :=
  fun record hrecord => PackageRecord.exists_rules_iff.2 (h.rules record hrecord)

/-- Packages without a fault lose no namespace. -/
theorem WellFormed.kept {types : TypeTable} {packages : List PackageRecord} (h : WellFormed types packages) :
    ∀ path, ¬ Lost packages path := Workspace.not_lost_of_rules h.readable

namespace Workspace

variable {packages : List PackageRecord} {types : TypeTable} {registry : Registry} {precedence : ImportPrecedence}

/-! ## Modules by themselves -/

theorem exists_rulesOf_iff (origin : Origin) {properties : Properties} {property : String} :
    (∃ rules, rulesOf origin properties property = .ok rules) ↔ properties.ListsRules origin.package property := by
  unfold rulesOf Properties.ListsRules
  by_cases hset : properties.isSet property
  · cases VisibilityRule.parse origin.package (properties.getList property) <;> simp [hset]
  · simp [hset]

/-- A module can be made of a record that fits. -/
theorem exists_draft_iff {package : String} {record : ModuleRecord} :
    (∃ drafted, draft types package record = .ok drafted) ↔ record.Fits types package := by
  unfold ModuleRecord.Fits
  constructor
  · rintro ⟨drafted, h⟩
    unfold draft at h
    cases hknown : types.find? record.moduleType with
    | none => rw [hknown] at h; cases h
    | some type =>
      rw [hknown] at h
      obtain ⟨properties, hpopulated, h⟩ := bind_eq_ok h
      obtain ⟨visibility, hvisibility, h⟩ := bind_eq_ok h
      obtain ⟨defaultsVisibility, hdefaults, -⟩ := bind_eq_ok h
      exact ⟨type, properties, rfl, mapError_eq_ok hpopulated, (exists_rulesOf_iff _).1 ⟨visibility, hvisibility⟩,
        (exists_rulesOf_iff _).1 ⟨defaultsVisibility, hdefaults⟩⟩
  · rintro ⟨type, properties, hknown, hpopulated, hvisibility, hdefaults⟩
    obtain ⟨visibility, hvisibility⟩ := (exists_rulesOf_iff ⟨record.name, package⟩).2 hvisibility
    obtain ⟨defaultsVisibility, hdefaults⟩ := (exists_rulesOf_iff ⟨record.name, package⟩).2 hdefaults
    unfold draft
    simp only [hknown, hpopulated, Except.mapError, ok_bind, hvisibility, hdefaults]
    exact ⟨_, rfl⟩

/-! ## Packages together -/

/-- A package can be declared first if it makes no namespace of the root and its default visibility can be read. -/
theorem sound_and_fresh_empty_iff {record : PackageRecord} : record.Sound ∧ record.Fresh (.empty precedence) ↔
    (record.path = globalNamespace → record.imports = none) ∧ ∃ rules, record.rules = .ok rules := by
  have hpackage : (Registry.empty precedence).packages.has record.path = false := rfl
  have hscope : (Registry.empty precedence).namespaces.has record.path = false ↔ record.path ≠ globalNamespace := by
    by_cases h : record.path = globalNamespace
    · simp [Registry.empty, Table.has, Table.find?, h]
    · simp [Registry.empty, Table.has, Table.find?, h, Ne.symm h]
  unfold PackageRecord.Sound PackageRecord.Fresh
  rw [hscope, and_iff_right hpackage, and_assoc, and_self, and_comm, ne_eq, not_imp_not]

/-- Packages can be declared in a fresh registry if their paths differ, none makes a namespace of the root, and their
default visibility can be read. -/
theorem declareAll_eq_nil_iff : (declareAll (.empty precedence) packages).2 = [] ↔
    (packages.map (·.path)).Nodup ∧ (∀ record ∈ packages, record.path = globalNamespace → record.imports = none) ∧
      ∀ record ∈ packages, ∃ rules, record.rules = .ok rules := by
  have hiff : (declareAll (.empty precedence) packages).2 = [] ↔
      ∃ registry, declareAll (.empty precedence) packages = (registry, []) :=
    ⟨fun h => ⟨_, Prod.ext rfl h⟩, fun ⟨_, h⟩ => by rw [h]⟩
  simp only [hiff, declareAll_eq_iff, sound_and_fresh_empty_iff, exists_and_left, exists_eq', and_true]
  rw [forall₂_and, and_comm]

section
variable (hpaths : (packages.map (·.path)).Nodup)
  (hroot : ∀ record ∈ packages, record.path = globalNamespace → record.imports = none)
  (hrules : ∀ record ∈ packages, ∃ rules, record.rules = .ok rules)
include hpaths hroot hrules

/-- Where paths differ, what a namespace imports is said by the one package of its path. -/
theorem imports?_declareAll_iff {scope : String} {imports : List String} :
    (declareAll (.empty precedence) packages).1.imports? scope = some imports ↔
      (scope = globalNamespace ∧ imports = []) ∨
        ∃ record ∈ packages, record.path = scope ∧ record.imports = some imports := by
  have hsaid_iff : ∀ record ∈ packages, ∀ said, record.importsFor? scope = some said ↔
      record.path = scope ∧ record.imports = some said := by
    intro record hrecord said
    obtain ⟨rules, hread⟩ := hrules record hrecord
    simp only [PackageRecord.importsFor?, hread, Except.isOk, Except.toBool, and_true, Option.ite_none_right_eq_some,
      and_assoc]
    refine and_congr_right fun hpath => and_iff_right_of_imp fun hsaid hglobal => ?_
    rw [hroot record hrecord (hpath.trans hglobal)] at hsaid
    cases hsaid
  have hfind : packages.findSome? (·.importsFor? scope) = some imports ↔
      ∃ record ∈ packages, record.path = scope ∧ record.imports = some imports := by
    constructor
    · intro h
      obtain ⟨record, hrecord, hsaid⟩ := List.exists_of_findSome?_eq_some h
      exact ⟨record, hrecord, (hsaid_iff record hrecord imports).1 hsaid⟩
    · rintro ⟨record, hrecord, hsaid⟩
      cases hsearch : packages.findSome? (·.importsFor? scope) with
      | none =>
        have hnone := List.findSome?_eq_none_iff.1 hsearch record hrecord
        rw [(hsaid_iff record hrecord imports).2 hsaid] at hnone
        cases hnone
      | some found =>
        obtain ⟨other, hother, hfound⟩ := List.exists_of_findSome?_eq_some hsearch
        obtain ⟨hpath, hfound⟩ := (hsaid_iff other hother found).1 hfound
        obtain rfl := List.inj_on_of_nodup_map hpaths hother hrecord (hpath.trans hsaid.1.symm)
        exact hfound.symm.trans hsaid.2
  rw [imports?_declareAll, Option.or_eq_some_iff, hfind]
  refine or_congr ?_ (and_iff_right_of_imp ?_)
  · simp [Registry.imports?_empty, eq_comm]
  · rintro ⟨record, hrecord, rfl, hsaid⟩
    rw [Registry.imports?_empty, if_neg]
    intro hglobal
    rw [hroot record hrecord hglobal] at hsaid
    cases hsaid

/-- No import is reported if each is a namespace that some package declares. -/
theorem importErrors_eq_nil_iff : (declareAll (.empty precedence) packages).1.importErrors = [] ↔
    ∀ record ∈ packages, ∀ imports, record.imports = some imports →
      ∀ imported ∈ imports, imported ≠ globalNamespace ∧ Declares packages imported := by
  have hordered := ordered_declareAll precedence packages
  have hhas : ∀ imported, imported ≠ globalNamespace ∧
      (declareAll (.empty precedence) packages).1.namespaces.has imported = true ↔
        imported ≠ globalNamespace ∧ Declares packages imported := fun imported =>
    and_congr_right fun hproper => by rw [has_declareAll_iff_declares (not_lost_of_rules hrules), or_iff_right hproper]
  constructor
  · intro hnil record hrecord imports himports imported hmem
    by_contra hunknown
    have herror := (Registry.mem_importErrors hordered).2
      ⟨imports, (imports?_declareAll_iff hpaths hroot hrules).2 (.inr ⟨record, hrecord, rfl, himports⟩), hmem,
        fun hknown => hunknown ((hhas imported).1 hknown)⟩
    rw [hnil] at herror
    cases herror
  · intro hall
    refine List.eq_nil_iff_forall_not_mem.2 fun error herror => ?_
    obtain ⟨scope, imported, rfl⟩ := Registry.eq_unknownImport_of_mem herror
    obtain ⟨imports, himports, hmem, hunknown⟩ := (Registry.mem_importErrors hordered).1 herror
    rcases (imports?_declareAll_iff hpaths hroot hrules).1 himports with ⟨-, rfl⟩ | ⟨record, hrecord, -, himports⟩
    · cases hmem
    · exact hunknown ((hhas imported).2 (hall record hrecord imports himports imported hmem))

end

/-- The workspace in which packages are declared and no module is added yet. -/
def declared (config : Config) (types : TypeTable) (stages : List Stage) (packages : List PackageRecord) : Workspace :=
  ⟨config, types, stages, (declareAll (.empty config.precedence) packages).1, .empty⟩

variable {config : Config} {stages : List Stage} {workspace : Workspace}

theorem entered_declared (config : Config) (types : TypeTable) (stages : List Stage) (packages : List PackageRecord) :
    Entered (declared config types stages packages) [] (declared config types stages packages) :=
  entered_nil config types stages (holds_declareAll (Registry.holds_empty _) packages)

/-- A module can be added by itself if its record fits; the namespace of its package is always there. -/
theorem enterable_declared_iff {package : String} {record : ModuleRecord} :
    Enterable (declared config types stages packages) (package, record) ↔ record.Fits types package := by
  obtain ⟨entry, hentry⟩ := (rooted_declareAll (Registry.rooted_empty config.precedence) packages).enclosing package
  have hhas : (declared config types stages packages).registry.namespaces.has
      ((declared config types stages packages).registry.enclosing package) = true := by
    rw [Table.has, declared, hentry]
    rfl
  rw [Enterable, and_iff_left hhas]
  exact exists_draft_iff

theorem forall_mem_modulesOf_iff {p : String → ModuleRecord → Prop} :
    (∀ module ∈ modulesOf packages, p module.1 module.2) ↔
      ∀ record ∈ packages, ∀ module ∈ record.modules, p record.path module := by
  simp only [modulesOf, List.mem_flatMap, List.mem_map]
  constructor
  · exact fun h record hrecord module hmodule => h (record.path, module) ⟨record, hrecord, module, hmodule, rfl⟩
  · rintro h _ ⟨record, hrecord, module, hmodule, rfl⟩
    exact h record hrecord module hmodule

/-- Names are told apart if those of modules of one namespace differ. -/
theorem nodup_slots_iff (hkept : ∀ path, ¬ Lost packages path) :
    ((modulesOf packages).map (declareAll (.empty precedence) packages).1.slot).Nodup ↔
      (modulesOf packages).Pairwise fun a b => a.2.name = b.2.name →
        ∀ scope, ¬ (Encloses packages scope a.1 ∧ Encloses packages scope b.1) := by
  have hslot : ∀ a b, (declareAll (.empty precedence) packages).1.slot a ≠
      (declareAll (.empty precedence) packages).1.slot b ↔
        (a.2.name = b.2.name → ∀ scope, ¬ (Encloses packages scope a.1 ∧ Encloses packages scope b.1)) := by
    intro a b
    simp only [Registry.slot, ne_eq, Prod.mk.injEq, encloses_iff_enclosing hkept precedence, not_and]
    constructor
    · exact fun h hname scope ha hb => h (ha.trans hb.symm) hname
    · exact fun h hscope hname => h hname _ hscope rfl
  rw [List.Nodup, List.pairwise_map]
  simp only [hslot]

/-- Modules that are added one after another to the declared packages. -/
theorem addModules_declared_iff : ((declared config types stages packages).addModules (modulesOf packages)).2 = [] ↔
    (∀ record ∈ modulesOf packages, Enterable (declared config types stages packages) record) ∧
      ((modulesOf packages).map (declared config types stages packages).registry.slot).Nodup := by
  have hstart := entered_declared config types stages packages
  constructor
  · intro h
    obtain ⟨henterable, hnodup, -⟩ := hstart.addModules List.nodup_nil (Prod.ext rfl h)
    exact ⟨henterable, hnodup⟩
  · rintro ⟨henterable, hnodup⟩
    obtain ⟨workspace, h⟩ := hstart.exists_addModules henterable hnodup
    rw [h]

theorem entered_of_addPackages
    (h : (fresh config types stages).addPackages packages = (workspace, [])) :
    Entered (declared config types stages packages) (modulesOf packages) workspace := by
  obtain ⟨registry, hdeclare, -, hmodules⟩ := addPackages_eq_iff.1 h
  have hregistry : registry = (declareAll (.empty config.precedence) packages).1 := (congrArg Prod.fst hdeclare).symm
  subst hregistry
  exact ((entered_declared config types stages packages).addModules List.nodup_nil hmodules).2.2

/-- What loading reports: what is wrong with the packages, with their imports and with their modules. -/
theorem errors_addPackages (config : Config) (types : TypeTable) (stages : List Stage) (packages : List PackageRecord) :
    ((fresh config types stages).addPackages packages).2 =
      (declareAll (.empty config.precedence) packages).2 ++
        (declareAll (.empty config.precedence) packages).1.importErrors.map importError ++
        ((declared config types stages packages).addModules (modulesOf packages)).2 := rfl

/-- **Packages are loaded without errors exactly if they are well-formed.** -/
theorem addPackages_eq_nil_iff :
    ((fresh config types stages).addPackages packages).2 = [] ↔ WellFormed types packages := by
  rw [errors_addPackages, List.append_eq_nil_iff, List.append_eq_nil_iff, List.map_eq_nil_iff, declareAll_eq_nil_iff,
    addModules_declared_iff]
  constructor
  · rintro ⟨⟨⟨hpaths, hroot, hrules⟩, himports⟩, henterable, hnames⟩
    exact {
      paths := hpaths
      root := hroot
      imports := (importErrors_eq_nil_iff hpaths hroot hrules).1 himports
      rules := fun record hrecord => PackageRecord.exists_rules_iff.1 (hrules record hrecord)
      modules := forall_mem_modulesOf_iff.1 fun module hmodule => enterable_declared_iff.1 (henterable module hmodule)
      names := (nodup_slots_iff (not_lost_of_rules hrules)).1 hnames }
  · intro h
    have hrules := h.readable
    refine ⟨⟨⟨h.paths, h.root, hrules⟩, (importErrors_eq_nil_iff h.paths h.root hrules).2 h.imports⟩, ?_, ?_⟩
    · exact fun module hmodule => enterable_declared_iff.2 (forall_mem_modulesOf_iff.2 h.modules module hmodule)
    · exact (nodup_slots_iff h.kept).2 h.names

/-- The packages of a namespace are those that it encloses by what is declared. -/
theorem encloses_iff_of_addPackages (h : (fresh config types stages).addPackages packages = (workspace, []))
    {scope user : String} : Encloses packages scope user ↔ workspace.registry.enclosing user = scope := by
  rw [(entered_of_addPackages h).enclosing]
  exact encloses_iff_enclosing (addPackages_eq_nil_iff.1 (congrArg Prod.snd h)).kept _

/-- The module of each record, after packages were loaded without errors. -/
theorem module_of_addPackages (h : (fresh config types stages).addPackages packages = (workspace, []))
    {id : ModuleId} {package : String} {record : ModuleRecord}
    (hid : (modulesOf packages)[id]? = some (package, record)) :
    (workspace.graph.module id).name = record.name ∧ (workspace.graph.module id).package = package ∧
      ∀ scope, Encloses packages scope package ↔ scope = (workspace.graph.module id).scope := by
  have hentered := entered_of_addPackages h
  obtain ⟨module, properties, hdraft, hmodule, -⟩ := hentered.made id _ hid
  obtain ⟨-, -, -, -, hpackage, -, hname⟩ := draft_eq_ok hdraft
  rw [hmodule]
  refine ⟨hname, hpackage, fun scope => ?_⟩
  rw [encloses_iff_of_addPackages h, hentered.enclosing]
  exact eq_comm

end Workspace

/-- **Loading accepts exactly the well-formed packages.** Into a fresh workspace, packages are loaded without errors
exactly if their paths differ, none makes a namespace of the root, all imports are namespaces that some package
declares, all default visibility can be read, all modules fit, and no two modules of one name have one enclosing
namespace. Then there is one module for each record, in their order, and its namespace is the deepest one that is at or
above its package, by whole components, among those that any of the packages declares. -/
theorem accepted_iff_wellFormed (config : Config) (types : TypeTable) (stages : List Stage)
    (packages : List PackageRecord) :
    (((Workspace.fresh config types stages).addPackages packages).2 = [] ↔ WellFormed types packages) ∧
    ∀ workspace, (Workspace.fresh config types stages).addPackages packages = (workspace, []) →
      workspace.graph.modules.length = (Workspace.modulesOf packages).length ∧
      ∀ id package record, (Workspace.modulesOf packages)[id]? = some (package, record) →
        (workspace.graph.module id).name = record.name ∧ (workspace.graph.module id).package = package ∧
          ∀ scope, Encloses packages scope package ↔ scope = (workspace.graph.module id).scope := by
  refine ⟨Workspace.addPackages_eq_nil_iff, fun workspace h => ⟨?_, fun id package record hid => ?_⟩⟩
  · exact (Workspace.entered_of_addPackages h).modules
  · exact Workspace.module_of_addPackages h hid

/-- Namespaces that are declared behind the packages they enclose. One of them has a name that another package's path
begins with, though not by whole components. -/
def namespacesLast : List PackageRecord :=
  [⟨"a/b/c", none, none, [⟨"filegroup", "x", []⟩]⟩,
    ⟨"a/bc", none, none, [⟨"filegroup", "x", [("visibility", .array [.string "//a:__subpackages__"])]⟩]⟩,
    ⟨"a/b", some ["//visibility:private"], some ["a"], []⟩,
    ⟨"a", none, some [], []⟩]

/-- Another module of a name that the inner namespace has. -/
def withSecondName : List PackageRecord := namespacesLast ++ [⟨"a/b/d", none, none, [⟨"filegroup", "x", []⟩]⟩]

theorem accepted_namespacesLast :
    WellFormed Builtin.types namespacesLast ∧ Encloses namespacesLast "a/b" "a/b/c" ∧
      Encloses namespacesLast "a" "a/bc" ∧ ¬ WellFormed Builtin.types withSecondName := by
  obtain ⟨haccepted, hmodules⟩ :=
    accepted_iff_wellFormed .onLinux Builtin.types [] namespacesLast
  obtain ⟨hrefused, -⟩ := accepted_iff_wellFormed .onLinux Builtin.types [] withSecondName
  have hload : ((Workspace.fresh .onLinux Builtin.types []).addPackages
      namespacesLast).2 = [] := by decide +kernel
  obtain ⟨-, hmodule⟩ := hmodules _ (Prod.ext rfl hload)
  obtain ⟨-, -, hinner⟩ := hmodule 0 _ _ rfl
  obtain ⟨-, -, houter⟩ := hmodule 1 _ _ rfl
  refine ⟨haccepted.1 hload, (hinner "a/b").2 ?_, (houter "a").2 ?_, fun hwell => ?_⟩
  · decide +kernel
  · decide +kernel
  · exact absurd (hrefused.2 hwell) (by decide +kernel)

end VariantGraph
