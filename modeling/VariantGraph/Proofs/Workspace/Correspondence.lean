import VariantGraph.Proofs.Workspace.Entry
import Mathlib.Data.List.Nodup
/-!
# Names and modules in step

A module is numbered and its name is entered before the module itself is there, and later packages may
declare namespaces that change where names go. Still, the names that all namespaces hold are the names of
all modules, one for one (`Workspace.InStep`): it holds of a fresh workspace, and every call keeps it,
whether it fails or not (`in_step_after`). What a call does to a workspace is written here step by step, so
that a call that fails half-way could leave something behind (`addModuleInPlace`); it does not
(`run_addModuleInPlace`).
-/
namespace VariantGraph

/-! ## The names that namespaces hold -/

namespace Registry

variable {registry registry' : Registry}

/-- Every name stands once: in the table of namespaces, and in the table of each of them. -/
def Ordered (registry : Registry) : Prop :=
  Table.Ordered registry.namespaces ∧ ∀ entry ∈ registry.namespaces, Table.Ordered entry.2.modules

/-- All that is held under names: the namespace, the name and the number of the module. -/
def entries (registry : Registry) : List (String × String × ModuleId) :=
  registry.namespaces.flatMap fun (scope, entry) => entry.modules.map fun (name, id) => (scope, name, id)

theorem mem_entries (hr : registry.Ordered) {scope name : String} {id : ModuleId} :
    (scope, name, id) ∈ registry.entries ↔ registry.lookup? scope name = some id := by
  simp only [entries, List.mem_flatMap, List.mem_map, Prod.exists, Prod.mk.injEq, lookup?,
    Option.bind_eq_some_iff]
  constructor
  · rintro ⟨scope', entry, hentry, name', id', hmodule, rfl, rfl, rfl⟩
    exact ⟨entry, Table.find?_of_mem hr.1 hentry, Table.find?_of_mem (hr.2 _ hentry) hmodule⟩
  · rintro ⟨entry, hentry, hmodule⟩
    exact ⟨scope, entry, Table.mem_of_find? hentry, name, id, Table.mem_of_find? hmodule, rfl, rfl, rfl⟩

theorem nodup_entries (hr : registry.Ordered) : registry.entries.Nodup := by
  refine List.nodup_flatMap.2 ⟨fun entry hmem => ?_, hr.1.imp ?_⟩
  · refine List.Nodup.map (fun a b h => ?_) (Table.nodup_of_ordered (hr.2 entry hmem))
    exact Prod.ext (congrArg (·.2.1) h) (congrArg (·.2.2) h)
  · -- what two namespaces hold differs by the namespace
    intro a b hlt slot ha hb
    obtain ⟨_, -, rfl⟩ := List.mem_map.1 ha
    obtain ⟨_, -, heq⟩ := List.mem_map.1 hb
    rw [congrArg Prod.fst heq] at hlt
    exact String.lt_irrefl _ hlt

theorem ordered_empty (precedence : ImportPrecedence) : (empty precedence).Ordered :=
  ⟨List.pairwise_singleton _ _, fun _ hmem => List.mem_singleton.1 hmem ▸ List.Pairwise.nil⟩

theorem Ordered.insert (hr : registry.Ordered) (scope : String) {entry : Namespace}
    (he : Table.Ordered entry.modules) :
    Ordered { registry with namespaces := registry.namespaces.insert scope entry } := by
  refine ⟨Table.ordered_insert hr.1 scope entry, fun other hmem => ?_⟩
  rcases Table.mem_insert hmem with ⟨-, hnew⟩ | hold
  · rw [hnew]; exact he
  · exact hr.2 other hold

/-- A new namespace holds no names yet. -/
theorem addNamespace_eq_ok {path : String} {imports : List String}
    (h : registry.addNamespace path imports = .ok registry') (hr : registry.Ordered) :
    registry'.Ordered ∧ ∀ scope name, registry'.lookup? scope name = registry.lookup? scope name := by
  unfold addNamespace at h
  split at h
  · cases h
  · next hnew =>
    rw [Bool.or_eq_true, not_or] at hnew
    injection h with h
    subst h
    refine ⟨hr.insert path List.Pairwise.nil, fun scope name => ?_⟩
    unfold lookup?
    rw [Table.find?_insert]
    split
    · next heq =>
      have hnone : registry.namespaces.find? scope = none := by simpa [Table.has, heq] using hnew.2
      rw [hnone]
      rfl
    · rfl

theorem ordered_register {package name scope : String} {id : ModuleId}
    (h : registry.register package name id = .ok (scope, registry')) (hr : registry.Ordered) : registry'.Ordered := by
  unfold register at h
  cases hf : registry.namespaces.find? (registry.enclosing package) with
  | none => simp [hf] at h
  | some entry =>
    simp only [hf] at h
    split at h
    · cases h
    · injection h with h
      injection h with _ h
      subst h
      exact hr.insert _ (Table.ordered_insert (hr.2 _ (Table.mem_of_find? hf)) name id)

end Registry

/-! ## Calls, step by step -/

section Steps
open MonadExcept (ofExcept)
variable {ε σ α β : Type} (s : σ)

/-- What fails changes nothing. -/
theorem ofExcept_bind_apply (attempt : Except ε α) (next : α → ExceptT ε (StateM σ) β) :
    (ofExcept attempt >>= next) s = match attempt with
      | .ok a => next a s
      | .error e => (.error e, s) := by
  cases attempt <;> rfl

theorem get_bind_apply (next : σ → ExceptT ε (StateM σ) β) : (get >>= next) s = next s s := rfl

end Steps

/-- Enters a name into the namespace of a package, in place; the name of that namespace. -/
def Registry.registerInPlace (package name : String) (id : ModuleId) :
    ExceptT RegistryError (StateM Registry) String := do
  let registry ← get
  let scope := registry.enclosing package
  match registry.namespaces.find? scope with
  | none => throw (.unknownNamespace scope)
  | some entry =>
    match entry.modules.find? name with
    | some existing => throw (.duplicateModule name scope existing)
    | none =>
      set { registry with
        namespaces := registry.namespaces.insert scope { entry with modules := entry.modules.insert name id } }
      return scope

namespace Workspace
open MonadExcept (ofExcept)

/-- Adds a module to a package, in place: first its name to the registry, then the module to the graph. -/
def addModuleInPlace (package : String) (record : ModuleRecord) : ExceptT BuildError (StateM Workspace) ModuleId := do
  let workspace ← get
  let origin : Origin := ⟨record.name, package⟩
  match workspace.types.find? record.moduleType with
  | none => throw (.unknownType origin record.moduleType)
  | some type =>
    let properties ← ofExcept ((populate type.schema record.properties).mapError (.invalidProperty origin))
    let visibility ← ofExcept (rulesOf origin properties "visibility")
    let defaultsVisibility ← ofExcept (rulesOf origin properties "defaults_visibility")
    let id := workspace.graph.modules.length
    let (entered, registry) := Registry.registerInPlace package record.name id workspace.registry
    -- whatever became of the name, the registry is as entering it left it
    modify fun workspace => { workspace with registry }
    let scope ← ofExcept (entered.mapError (nameError workspace.graph package))
    let module : Module :=
      { name := record.name
        moduleType := record.moduleType
        package
        scope
        capabilities := type.capabilities
        visibility
        defaultsVisibility
        variants := []
        dependents := [] }
    let workspace ← get
    set { workspace with graph := workspace.graph.addModule module properties }
    return workspace.graph.modules.length

theorem run_registerInPlace (package name : String) (id : ModuleId) (registry : Registry) :
    Registry.registerInPlace package name id registry = match registry.register package name id with
      | .ok (scope, registry') => (.ok scope, registry')
      | .error cause => (.error cause, registry) := by
  unfold Registry.registerInPlace Registry.register
  rw [get_bind_apply]
  dsimp only
  cases registry.namespaces.find? (registry.enclosing package) with
  | none => rfl
  | some entry => cases h : entry.modules.find? name <;> simp only [h] <;> rfl

/-- **Adding a module in place comes to the same as adding it at once**: all of it happens, or nothing. -/
theorem run_addModuleInPlace (package : String) (record : ModuleRecord) (workspace : Workspace) :
    addModuleInPlace package record workspace = match workspace.addModule package record with
      | .ok (id, workspace') => (.ok id, workspace')
      | .error error => (.error error, workspace) := by
  unfold addModuleInPlace addModule
  rw [get_bind_apply]
  dsimp only
  cases workspace.types.find? record.moduleType with
  | none => rfl
  | some type =>
    dsimp only
    rw [ofExcept_bind_apply]
    cases (populate type.schema record.properties).mapError (BuildError.invalidProperty ⟨record.name, package⟩) with
    | error error => rfl
    | ok properties =>
      dsimp only
      rw [ofExcept_bind_apply, ok_bind]
      cases rulesOf ⟨record.name, package⟩ properties "visibility" with
      | error error => rfl
      | ok visibility =>
        dsimp only
        rw [ofExcept_bind_apply, ok_bind]
        cases rulesOf ⟨record.name, package⟩ properties "defaults_visibility" with
        | error error => rfl
        | ok defaultsVisibility =>
          dsimp only
          rw [run_registerInPlace, ok_bind]
          cases workspace.registry.register package record.name workspace.graph.modules.length with
          | error cause => rfl
          | ok entered => rfl

/-- A call that loads something into a workspace. -/
inductive Call where
  | addPackages (records : List PackageRecord)
  | addModule (package : String) (record : ModuleRecord)

/-- The workspace that a call leaves, whether it fails or not. -/
def Call.leaves : Call → Workspace → Workspace
  | addPackages records, workspace => (workspace.addPackages records).1
  | addModule package record, workspace => (addModuleInPlace package record workspace).2

/-- The workspace that calls leave, one after another. -/
def after (workspace : Workspace) (calls : List Call) : Workspace :=
  calls.foldl (fun workspace call => call.leaves workspace) workspace

/-! ## What every call keeps -/

/-- The names that the namespaces of a workspace hold are those of its modules, one for one. -/
structure InStep (workspace : Workspace) : Prop where
  ordered : workspace.registry.Ordered
  lookup : ∀ scope name id, workspace.registry.lookup? scope name = some id ↔
    id < workspace.graph.modules.length ∧ (workspace.graph.module id).scope = scope ∧
      (workspace.graph.module id).name = name

variable {workspace workspace' : Workspace}

theorem inStep_fresh (config : Config) (types : TypeTable) (stages : List Stage) :
    InStep (fresh config types stages) where
  ordered := Registry.ordered_empty config.precedence
  lookup scope name id := by
    refine ⟨fun h => ?_, fun h => absurd h.1 (Nat.not_lt_zero id)⟩
    exact absurd (Registry.holds_empty config.precedence scope name id h) (Nat.not_lt_zero id)

theorem InStep.addModule (h : InStep workspace) {package : String} {record : ModuleRecord} {id : ModuleId}
    (ha : workspace.addModule package record = .ok (id, workspace')) : InStep workspace' := by
  rw [addModule_eq] at ha
  obtain ⟨⟨module, properties⟩, hdraft, ha⟩ := bind_eq_ok ha
  obtain ⟨⟨scope, registry⟩, hregister, ha⟩ := bind_eq_ok ha
  have hregister := mapError_eq_ok hregister
  obtain ⟨-, -, -, -, -, -, hname⟩ := draft_eq_ok hdraft
  obtain ⟨rfl, -⟩ := Registry.register_same hregister
  obtain ⟨hfree, -, hlookup⟩ := Registry.register_eq_ok hregister
  injection ha with ha
  injection ha with _ ha
  subst ha
  refine ⟨Registry.ordered_register hregister h.ordered, fun scope' name' id' => ?_⟩
  show registry.lookup? scope' name' = some id' ↔ id' < (workspace.graph.addModule _ properties).modules.length ∧
    ((workspace.graph.addModule _ properties).module id').scope = scope' ∧
    ((workspace.graph.addModule _ properties).module id').name = name'
  rw [hlookup, Graph.length_modules_addModule, Graph.module_addModule]
  have hlt : id' ≠ workspace.graph.modules.length →
      (id' < workspace.graph.modules.length + 1 ↔ id' < workspace.graph.modules.length) := fun hne =>
    ⟨fun h => Nat.lt_of_le_of_ne (Nat.lt_succ_iff.1 h) hne, Nat.lt_succ_of_lt⟩
  by_cases hid : id' = workspace.graph.modules.length
  · -- the new number stands under the new name only
    subst hid
    rw [if_pos rfl]
    simp only [hname, Nat.lt_succ_self, true_and]
    split
    · next hslot => simp [hslot]
    · next hslot =>
      refine ⟨fun hold => absurd ((h.lookup _ _ _).1 hold).1 (Nat.lt_irrefl _), fun hslot' => absurd hslot' hslot⟩
  · rw [if_neg hid, hlt hid]
    split
    · next hslot =>
      -- the new name was free, so no other module has it
      refine ⟨fun hnew => absurd (Option.some.inj hnew).symm hid, fun hold => ?_⟩
      have hheld := (h.lookup (workspace.registry.enclosing package) record.name id').2
        ⟨hold.1, hold.2.1.trans hslot.1.symm, hold.2.2.trans hslot.2.symm⟩
      rw [hfree] at hheld
      cases hheld
    · exact h.lookup scope' name' id'

/-- Declaring packages keeps all that is held. -/
theorem InStep.declareAll (h : InStep workspace) (records : List PackageRecord) :
    InStep { workspace with registry := (declareAll workspace.registry records).1 } := by
  refine declareAll_induction (p := fun registry => InStep { workspace with registry }) ?_ ?_ h records
  · intro registry registry' hs path imports hnamespace
    obtain ⟨hordered, hlookup⟩ := Registry.addNamespace_eq_ok hnamespace hs.ordered
    exact ⟨hordered, fun scope name id => by rw [hlookup]; exact hs.lookup scope name id⟩
  · intro registry registry' hs path rules hpackage
    obtain rfl := Registry.addPackage_eq_ok hpackage
    exact ⟨hs.ordered, hs.lookup⟩

theorem InStep.leaves (h : InStep workspace) (call : Call) : InStep (call.leaves workspace) := by
  cases call with
  | addPackages records =>
    exact addModules_induction _ (fun _ _ _ _ _ _ hs ha => hs.addModule ha) (h.declareAll records)
  | addModule package record =>
    show InStep (addModuleInPlace package record workspace).2
    rw [run_addModuleInPlace]
    cases ha : workspace.addModule package record with
    | ok result => exact h.addModule ha
    | error error => exact h

theorem InStep.after (h : InStep workspace) (calls : List Call) : InStep (workspace.after calls) :=
  List.foldlRecOn calls _ h fun _ hs call _ => hs.leaves call

/-- **The names that namespaces hold are those of all modules, one for one**, after any calls on a fresh
workspace, in any order and with or without errors. So what a reference means, and what keeps a name from
being entered, is a module of the graph with that name, and with the namespace in question. A call that adds
no module leaves the names and the graph as they were. -/
theorem in_step_after (config : Config) (types : TypeTable) (stages : List Stage) (calls : List Call) :
    let workspace := (fresh config types stages).after calls
    let registry := workspace.registry
    let graph := workspace.graph
    registry.entries.Perm (graph.moduleIds.map fun id => ((graph.module id).scope, (graph.module id).name, id)) ∧
    (∀ id < graph.modules.length,
      registry.lookup? (graph.module id).scope (graph.module id).name = some id) ∧
    (∀ package text id, registry.resolve package text = .ok id → id < graph.modules.length ∧
      ∃ reference, Reference.parse? text = some reference ∧ (graph.module id).name = reference.name ∧
        ∀ scope ∈ reference.scope?, (graph.module id).scope = scope) ∧
    (∀ package name id named scope existing,
      registry.register package name id = .error (.duplicateModule named scope existing) →
        existing < graph.modules.length ∧ named = name ∧ (graph.module existing).name = name ∧
          (graph.module existing).scope = scope) ∧
    ∀ package record error left, addModuleInPlace package record workspace = (.error error, left) →
      left.registry = registry ∧ left.graph = graph := by
  intro workspace registry graph
  have h : InStep workspace := (inStep_fresh config types stages).after calls
  refine ⟨?_, fun id hid => (h.lookup _ _ id).2 ⟨hid, rfl, rfl⟩, ?_, ?_, ?_⟩
  · refine (List.perm_ext_iff_of_nodup (Registry.nodup_entries h.ordered) ?_).2 fun slot => ?_
    · exact List.nodup_range.map fun a b hab => congrArg (·.2.2) hab
    · obtain ⟨scope, name, id⟩ := slot
      rw [Registry.mem_entries h.ordered, h.lookup]
      simp only [List.mem_map, Graph.moduleIds, List.mem_range, Prod.mk.injEq]
      constructor
      · exact fun hid => ⟨id, hid.1, hid.2.1, hid.2.2, rfl⟩
      · rintro ⟨id', hlt, hscope, hname, rfl⟩
        exact ⟨hlt, hscope, hname⟩
  · intro package text id hresolve
    obtain ⟨reference, scope, hparse, hsaid, hlookup⟩ := Registry.lookup?_of_resolve hresolve
    obtain ⟨hlt, hscope, hname⟩ := (h.lookup _ _ _).1 hlookup
    exact ⟨hlt, reference, hparse, hname, fun said hmem => hscope.trans (hsaid said hmem).symm⟩
  · intro package name id named scope existing hregister
    obtain ⟨hnamed, -, hlookup⟩ := Registry.register_eq_duplicate hregister
    obtain ⟨hlt, hscope, hname⟩ := (h.lookup _ _ _).1 hlookup
    exact ⟨hlt, hnamed, hname, hscope⟩
  · intro package record error left hrun
    rw [run_addModuleInPlace] at hrun
    cases ha : workspace.addModule package record with
    | ok result => rw [ha] at hrun; cases hrun
    | error cause => rw [ha] at hrun; cases hrun; exact ⟨rfl, rfl⟩

/-- A package becomes a namespace after a module was added below it, so the same name is free there again; a
module of no known type is refused, and so are names that are taken. -/
def namespaceAfterModule : List Call :=
  [.addModule "a/b" ⟨"filegroup", "x", []⟩, .addModule "a/b" ⟨"group", "y", []⟩,
    .addPackages [⟨"a", none, some [], [⟨"filegroup", "x", []⟩, ⟨"filegroup", "x", []⟩]⟩],
    .addModule "a/b" ⟨"filegroup", "x", []⟩, .addModule "c" ⟨"filegroup", "x", []⟩]

theorem in_step_namespaceAfterModule :
    let workspace := (fresh .onLinux Builtin.types []).after namespaceAfterModule
    let registry := workspace.registry
    let graph := workspace.graph
    registry.entries = [("", "x", 0), ("a", "x", 1)] ∧ graph.modules.length = 2 ∧
    registry.resolve "a/b" "x" = .ok 1 ∧ (graph.module 1).name = "x" ∧
    registry.resolve "a/b" "//:x" = .ok 0 ∧ (graph.module 0).scope = "" ∧
    registry.register "a/b" "x" 2 = .error (.duplicateModule "x" "a" 1) ∧ (graph.module 1).scope = "a" ∧
    ∃ left, addModuleInPlace "a/b" ⟨"filegroup", "x", []⟩ workspace =
      (.error (.duplicateName "x" "a" "a/b" "a"), left) ∧ left.registry = registry ∧ left.graph = graph := by
  intro workspace registry graph
  have hrun : registry.entries = [("", "x", 0), ("a", "x", 1)] ∧ graph.modules.length = 2 ∧
      registry.resolve "a/b" "x" = .ok 1 ∧ registry.resolve "a/b" "//:x" = .ok 0 ∧
      Reference.parse? "x" = some (.plain "x") ∧ Reference.parse? "//:x" = some (.qualified "" "x") := by
    decide +kernel
  obtain ⟨hentries, hlength, hplain, hqualified, hparse, hparse'⟩ := hrun
  have hregister : registry.register "a/b" "x" 2 = .error (.duplicateModule "x" "a" 1) := rfl
  obtain ⟨left, hleft⟩ : ∃ left, addModuleInPlace "a/b" ⟨"filegroup", "x", []⟩ workspace =
      (.error (.duplicateName "x" "a" "a/b" "a"), left) := ⟨_, rfl⟩
  obtain ⟨-, -, hresolve, hduplicate, hfailed⟩ := in_step_after _ _ _ namespaceAfterModule
  obtain ⟨-, reference, hreference, hname, -⟩ := hresolve _ _ _ hplain
  obtain ⟨-, reference', hreference', -, hscope⟩ := hresolve _ _ _ hqualified
  obtain rfl := Option.some.inj (hparse.symm.trans hreference)
  obtain rfl := Option.some.inj (hparse'.symm.trans hreference')
  obtain ⟨-, -, -, hscope'⟩ := hduplicate _ _ _ _ _ _ hregister
  exact ⟨hentries, hlength, hplain, hname, hqualified, hscope "" rfl, hregister, hscope', left, hleft,
    hfailed _ _ _ _ hleft⟩

end Workspace
end VariantGraph
