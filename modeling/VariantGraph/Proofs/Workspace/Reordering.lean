import VariantGraph.Proofs.Defaults.Renaming
import VariantGraph.Proofs.Stage.Renaming
import VariantGraph.Proofs.Workspace.Entry
import VariantGraph.Proofs.Workspace.Success
import Mathlib.Data.List.Perm.Basic
/-!
# The order of the input does not matter

Packages that are handed over in another order, and modules in another order inside their packages, get
other numbers and nothing else (`addPackages_reordered`). Taking over defaults and the stages keep that
(`run_renamed`), and what is handed on holds no numbers. So either order resolves if the other one does, to
the same entries in another order (`resolvePackages_reordered`).
-/
namespace VariantGraph
open VariantGraph.Graph

/-! ## Packages in another order -/

/-- Two packages that differ in the order of their modules only. -/
structure PackageRecord.Shuffled (a b : PackageRecord) : Prop where
  header : b.header = a.header
  modules : a.modules.Perm b.modules

/-- Packages in another order, each with its modules in another order. -/
def Reordered (packages packages' : List PackageRecord) : Prop :=
  ∃ middle, packages.Perm middle ∧ List.Forall₂ PackageRecord.Shuffled middle packages'

section
variable {packages packages' : List PackageRecord} (h : Reordered packages packages')
include h

theorem Reordered.symm : Reordered packages' packages := by
  obtain ⟨middle, hperm, hshuffled⟩ := h
  obtain ⟨middle', hshuffled', hperm'⟩ := List.perm_comp_forall₂ hperm hshuffled
  exact ⟨middle', hperm'.symm, (hshuffled'.imp fun _ _ hs => ⟨hs.header.symm, hs.modules.symm⟩).flip⟩

theorem Reordered.headers : (packages.map PackageRecord.header).Perm (packages'.map PackageRecord.header) := by
  obtain ⟨middle, hperm, hshuffled⟩ := h
  refine (hperm.map _).trans (List.Perm.of_eq ?_)
  clear hperm
  induction hshuffled with
  | nil => rfl
  | cons hs _ ih => rw [List.map_cons, List.map_cons, hs.header, ih]

theorem Reordered.modulesOf : (Workspace.modulesOf packages).Perm (Workspace.modulesOf packages') := by
  obtain ⟨middle, hperm, hshuffled⟩ := h
  refine (hperm.flatMap_right _).trans ?_
  clear hperm
  induction hshuffled with
  | nil => exact .refl _
  | @cons a b _ _ hs _ ih =>
    have hpath : b.header.path = a.header.path := by rw [hs.header]
    rw [List.flatMap_cons, Workspace.modulesOf, List.flatMap_cons, show b.path = a.path from hpath]
    exact (hs.modules.map _).append ih

end

/-! ## Loading in another order -/

variable {σ : Equiv.Perm Nat} {config : Config} {types : TypeTable} {stages : List Stage}
  {packages packages' : List PackageRecord} {records records' : List (String × ModuleRecord)}
  {workspace workspace' : Workspace}

/-- Packages are loaded without errors if they can be declared, imports lead somewhere, and the modules can
be added. -/
theorem Workspace.addPackages_eq_iff : workspace.addPackages packages = (workspace', []) ↔
    ∃ registry, declareAll workspace.registry packages = (registry, []) ∧ registry.importErrors = [] ∧
      ({ workspace with registry } : Workspace).addModules (modulesOf packages) = (workspace', []) := by
  unfold addPackages modulesOf
  rcases declareAll workspace.registry packages with ⟨registry, faults⟩
  simp only [Prod.mk.injEq, List.append_eq_nil_iff, List.map_eq_nil_iff]
  constructor
  · rintro ⟨hworkspace, ⟨hfaults, himports⟩, hmodules⟩
    exact ⟨registry, ⟨rfl, hfaults⟩, himports, Prod.ext hworkspace hmodules⟩
  · rintro ⟨_, ⟨rfl, hfaults⟩, himports, hmodules⟩
    rw [hmodules]
    exact ⟨rfl, ⟨hfaults, himports⟩, rfl⟩

theorem Workspace.entered_nil (config : Config) (types : TypeTable) (stages : List Stage) {registry : Registry}
    (h : registry.Holds 0) :
    Entered ⟨config, types, stages, registry, .empty⟩ [] ⟨config, types, stages, registry, .empty⟩ where
  config := rfl
  types := rfl
  stages := rfl
  precedence := rfl
  packages := rfl
  imports := rfl
  lookup scope name id := by
    constructor
    · exact fun hfound => absurd (h scope name id hfound) (Nat.not_lt_zero _)
    · rintro ⟨record, hget, -⟩
      cases hget
  modules := rfl
  variants := rfl
  made id record hget := by cases hget

/-- **Packages can be loaded in any order**, and make the same modules under other numbers. -/
theorem Workspace.addPackages_reordered (h : Reordered packages packages')
    (hload : (fresh config types stages).addPackages packages = (workspace, [])) :
    ∃ workspace' σ, (fresh config types stages).addPackages packages' = (workspace', []) ∧
      Registry.Renamed σ workspace.registry workspace'.registry ∧
      Graph.Renamed σ σ workspace.graph workspace'.graph := by
  obtain ⟨registry, hdeclare, himports, hmodules⟩ := addPackages_eq_iff.1 hload
  have hdeclare' : declareAll (fresh config types stages).registry packages' = (registry, []) := by
    rw [← declareAll_map_header] at hdeclare ⊢
    exact declareAll_perm h.headers hdeclare
  have hempty : registry.Holds 0 := by
    have hholds := holds_declareAll (Registry.holds_empty config.precedence) packages
    rwa [show declareAll (Registry.empty config.precedence) packages = (registry, []) from hdeclare] at hholds
  have hstart := entered_nil config types stages hempty
  obtain ⟨henterable, hnodup, hentered⟩ := hstart.addModules List.nodup_nil hmodules
  -- whether records can be loaded is told without their order
  have hperm := h.modulesOf
  have henterable' := fun record hr => henterable record (hperm.mem_iff.2 hr)
  have hnodup' := (hperm.map _).nodup_iff.1 hnodup
  obtain ⟨workspace', hmodules'⟩ := hstart.exists_addModules henterable' hnodup'
  obtain ⟨-, -, hentered'⟩ := hstart.addModules List.nodup_nil hmodules'
  obtain ⟨σ, hregistry, hgraph⟩ := hentered.renamed hentered' hperm
  exact ⟨workspace', σ, addPackages_eq_iff.2 ⟨registry, hdeclare', himports, hmodules'⟩, hregistry, hgraph⟩

theorem Workspace.loaded_of_addPackages {errors : List BuildError}
    (hload : (fresh config types stages).addPackages packages = (workspace, errors)) :
    Loaded (modulesOf packages) workspace ∧ workspace.config = config ∧ workspace.types = types ∧
      workspace.stages = stages := by
  have hl := loaded_addPackages config types stages packages
  have hsettings := settings_addPackages config types stages packages
  rw [hload] at hl hsettings
  exact ⟨hl, hsettings⟩

/-! ## Running under other numbers -/

/-- No module is split before the first stage. -/
theorem Workspace.Loaded.single (h : workspace.Loaded records) : workspace.graph.Single where
  size := h.fresh.size
  variants id hid := by
    obtain ⟨_, _, _, _, -, hd⟩ := h.fresh.declared id hid
    exact hd.variants

/-- **A run goes well under other numbers too**, and hands on the same entries. -/
theorem run_renamed (hl : workspace.Loaded records) (hl' : workspace'.Loaded records')
    (hconfig : workspace'.config = workspace.config) (htypes : workspace'.types = workspace.types)
    (hstages : workspace'.stages = workspace.stages) (hblind : ∀ stage ∈ workspace.stages, stage.Blind)
    (hr : Registry.Renamed σ workspace.registry workspace'.registry)
    (hg : Graph.Renamed σ σ workspace.graph workspace'.graph) (hrun : workspace.run.2 = []) :
    workspace'.run.2 = [] ∧ workspace.run.1.resolved.variants.Perm workspace'.run.1.resolved.variants := by
  obtain ⟨hmerged, hall⟩ := run_eq_nil_iff.1 hrun
  obtain ⟨hmerged', hrenamed⟩ := Defaults.propagate_renamed hr hg hl.single hl.fresh.consistent.toLinked
    hl'.fresh.consistent.toLinked hmerged
  rw [← htypes] at hmerged'
  have htwins : Twins σ σ workspace.environment workspace'.environment workspace.merged workspace'.merged :=
    ⟨hconfig, htypes, hr, by unfold Workspace.merged; rw [htypes]; exact hrenamed, (settled_merged hl).consistent,
      (settled_merged hl').consistent, (settled_merged hl).below⟩
  obtain ⟨hall', φ, hfinal⟩ := htwins.runAll hblind hall
  have hrun' : workspace'.run.2 = [] := run_eq_nil_iff.2 ⟨hmerged', by rw [hstages]; exact hall'⟩
  refine ⟨hrun', ?_⟩
  rw [← hstages, ← (run_of_errors hrun').2, hstages, ← (run_of_errors hrun).2] at hfinal
  have hperm := hfinal.renamed.perm_resolved hfinal.first hfinal.second hr.rules workspace.config.external
  unfold Workspace.resolved
  rw [show workspace'.run.1.config = workspace.run.1.config from hconfig]
  exact hperm

/-! ## Resolving in another order -/

/-- What resolves in one order resolves in every other, to the same entries. -/
theorem exists_resolved_reordered (h : Reordered packages packages') {resolved : ResolvedGraph}
    (hresolved : Workspace.resolvePackages config packages = .ok resolved) :
    ∃ resolved', Workspace.resolvePackages config packages' = .ok resolved' ∧
      resolved.variants.Perm resolved'.variants := by
  obtain ⟨workspace, hload, hrun, rfl⟩ := resolvePackages_eq_ok_iff.1 hresolved
  obtain ⟨workspace', σ, hload', hr, hg⟩ := Workspace.addPackages_reordered h hload
  obtain ⟨hl, hconfig, htypes, hstages⟩ := Workspace.loaded_of_addPackages hload
  obtain ⟨hl', hconfig', htypes', hstages'⟩ := Workspace.loaded_of_addPackages hload'
  obtain ⟨hrun', hperm⟩ := run_renamed hl hl' (hconfig'.trans hconfig.symm) (htypes'.trans htypes.symm)
    (hstages'.trans hstages.symm) (by rw [hstages]; exact blind_builtin) hr hg hrun
  exact ⟨workspace'.run.1.resolved, resolvePackages_eq_ok_iff.2 ⟨workspace', hload', hrun', rfl⟩, hperm⟩

/-- **The order of the input does not matter.** Packages resolve exactly if they do in another order, with
the modules of each in another order too, and the resolved graphs have the same entries, equal in every
field, in another order. -/
theorem resolvePackages_reordered (config : Config) (h : Reordered packages packages') :
    ((∃ resolved, Workspace.resolvePackages config packages = .ok resolved) ↔
      ∃ resolved', Workspace.resolvePackages config packages' = .ok resolved') ∧
    ∀ resolved resolved', Workspace.resolvePackages config packages = .ok resolved →
      Workspace.resolvePackages config packages' = .ok resolved' → resolved.variants.Perm resolved'.variants := by
  refine ⟨⟨?_, ?_⟩, ?_⟩
  · rintro ⟨resolved, hresolved⟩
    obtain ⟨resolved', hresolved', -⟩ := exists_resolved_reordered h hresolved
    exact ⟨resolved', hresolved'⟩
  · rintro ⟨resolved', hresolved'⟩
    obtain ⟨resolved, hresolved, -⟩ := exists_resolved_reordered h.symm hresolved'
    exact ⟨resolved, hresolved⟩
  · intro resolved resolved' hresolved hresolved'
    obtain ⟨other, hother, hperm⟩ := exists_resolved_reordered h hresolved
    obtain rfl : other = resolved' := by
      rw [hresolved'] at hother
      exact (Except.ok.inj hother).symm
    exact hperm

/-- A library with the flags it is built with, and a program that uses it. -/
def libraryThenProgram : List PackageRecord :=
  [⟨"lib", none, none, [⟨"cc_defaults", "flags", [("cflags", .array [.string "-g"])]⟩,
      ⟨"cc_library", "codec", [("defaults", .array [.string "flags"])]⟩]⟩,
    ⟨"app", none, none, [⟨"cc_binary", "main", [("shared_libs", .array [.string "codec"])]⟩]⟩]

/-- The program first, and the library before its flags. -/
def programThenLibrary : List PackageRecord :=
  [⟨"app", none, none, [⟨"cc_binary", "main", [("shared_libs", .array [.string "codec"])]⟩]⟩,
    ⟨"lib", none, none, [⟨"cc_library", "codec", [("defaults", .array [.string "flags"])]⟩,
      ⟨"cc_defaults", "flags", [("cflags", .array [.string "-g"])]⟩]⟩]

theorem resolvePackages_reordered_program : ∃ resolved resolved',
    Workspace.resolvePackages .onLinux libraryThenProgram = .ok resolved ∧
      Workspace.resolvePackages .onLinux programThenLibrary = .ok resolved' ∧
      (resolved.variants.head?.map (·.name) = some "codec" ∧ resolved'.variants.head?.map (·.name) = some "main") ∧
      resolved.variants.Perm resolved'.variants := by
  obtain ⟨resolved, hresolved, hfirst⟩ : ∃ resolved,
      Workspace.resolvePackages .onLinux libraryThenProgram = .ok resolved ∧
        decide (resolved.variants.head?.map (·.name) = some "codec") = true := exists_resolved (by decide +kernel)
  obtain ⟨resolved', hresolved', hfirst'⟩ : ∃ resolved',
      Workspace.resolvePackages .onLinux programThenLibrary = .ok resolved' ∧
        decide (resolved'.variants.head?.map (·.name) = some "main") = true := exists_resolved (by decide +kernel)
  have hreordered : Reordered libraryThenProgram programThenLibrary :=
    ⟨_, List.Perm.swap _ _ _, .cons ⟨rfl, .refl _⟩ (.cons ⟨rfl, .swap _ _ _⟩ .nil)⟩
  exact ⟨resolved, resolved', hresolved, hresolved', ⟨of_decide_eq_true hfirst, of_decide_eq_true hfirst'⟩,
    (resolvePackages_reordered _ hreordered).2 resolved resolved' hresolved hresolved'⟩

end VariantGraph
