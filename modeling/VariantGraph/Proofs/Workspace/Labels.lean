import VariantGraph.Proofs.Graph.Entries
import VariantGraph.Proofs.Namespace.Labels
import VariantGraph.Proofs.Stage.Refusals
import VariantGraph.Proofs.Workspace.Entry
/-!
# Labels that a build shows

All rules in a loaded workspace were read from labels in one of its packages (`Workspace.RulesRead`), so those in force
for a module were too, and a run changes none of them. The labels in a resolved graph and those in errors are printed
from such rules. So they say which rules were checked, as far as printed labels say what was read
(`labels_denote_rules`).
-/
namespace VariantGraph
open VariantGraph.Graph

variable {packages : List PackageRecord} {rules : List VisibilityRule}

/-- Rules that were read from labels in one of some packages. -/
def ReadIn (packages : List PackageRecord) (rules : List VisibilityRule) : Prop :=
  ∃ record ∈ packages, ∃ labels, VisibilityRule.parse record.path labels = .ok rules

/-- Rules that were read in packages that can be named say everywhere what they are. -/
theorem ReadIn.legible (h : ReadIn packages rules)
    (hnameable : ∀ record ∈ packages, VisibilityRule.Nameable record.path) : VisibilityRule.Legible rules := by
  obtain ⟨record, hrecord, labels, hread⟩ := h
  exact (VisibilityRule.legible_iff_of_parse hread).1.2 (.inl (hnameable record hrecord))

/-- A module in one of some packages, whose rules were read there. -/
structure Module.ReadFrom (packages : List PackageRecord) (module : Module) : Prop where
  declared : ∃ record ∈ packages, record.path = module.package
  rules : ∀ rules, module.visibility = some rules ∨ module.defaultsVisibility = some rules →
    ∃ labels, VisibilityRule.parse module.package labels = .ok rules

namespace Workspace

/-- All rules of a workspace were read in some packages, and every module is in one of them. -/
structure RulesRead (packages : List PackageRecord) (workspace : Workspace) : Prop where
  sets : ∀ path rules, workspace.registry.Sets path rules → ReadIn packages rules
  modules : ∀ id < workspace.graph.modules.length, (workspace.graph.module id).ReadFrom packages

variable {registry : Registry} {workspace workspace' : Workspace}

/-! ## Loading -/

theorem packages_addNamespace {registry' : Registry} {path : String} {imports : List String}
    (h : registry.addNamespace path imports = .ok registry') : registry'.packages = registry.packages := by
  unfold Registry.addNamespace at h
  split at h
  · cases h
  · cases h
    rfl

/-- A package that is declared sets the rules that it lists, and changes no others. -/
theorem sets_declare {record : PackageRecord} {path : String} (h : (declare registry record).1.Sets path rules) :
    registry.Sets path rules ∨ ∃ labels, VisibilityRule.parse record.path labels = .ok rules := by
  unfold declare at h
  split at h
  · exact .inl h
  · next read hread =>
    split at h
    · exact .inl h
    · next named hnamed =>
      have hpackages : named.packages = registry.packages := by
        cases himports : record.imports with
        | none => rw [himports] at hnamed; cases hnamed; rfl
        | some imports => rw [himports] at hnamed; exact packages_addNamespace hnamed
      split at h
      · rw [Registry.Sets, hpackages] at h
        exact .inl h
      · next added hadded =>
        obtain rfl := Registry.addPackage_eq_ok hadded
        obtain ⟨package, hfind, hrules⟩ := h
        rw [Table.find?_insert, hpackages] at hfind
        split at hfind
        · obtain rfl := Option.some.inj hfind
          obtain rfl : read = some rules := hrules
          cases hlabels : record.defaultVisibility with
          | none => rw [hlabels] at hread; cases hread
          | some labels =>
            rw [hlabels] at hread
            obtain ⟨found, hfound, hread⟩ := bind_eq_ok hread
            cases hread
            exact .inr ⟨labels, hfound⟩
        · exact .inl ⟨package, hfind, hrules⟩

theorem sets_declareAll {records : List PackageRecord} {path : String}
    (h : (declareAll registry records).1.Sets path rules) : registry.Sets path rules ∨ ReadIn records rules := by
  induction records generalizing registry with
  | nil => exact .inl h
  | cons record records ih =>
    rw [declareAll_cons] at h
    rcases ih h with h | ⟨other, hother, hread⟩
    · exact (sets_declare h).imp id fun hread => ⟨record, List.mem_cons_self, hread⟩
    · exact .inr ⟨other, List.mem_cons_of_mem _ hother, hread⟩

theorem exists_of_rulesOf {origin : Origin} {properties : Properties} {property : String}
    (h : rulesOf origin properties property = .ok (some rules)) :
    ∃ labels, VisibilityRule.parse origin.package labels = .ok rules := by
  unfold rulesOf at h
  split at h
  · split at h
    · next hread => cases h; exact ⟨_, hread⟩
    · cases h
  · cases h

/-- The rules of a module were read in its package. -/
theorem exists_of_draft {types : TypeTable} {package : String} {record : ModuleRecord} {module : Module}
    {properties : Properties} (h : draft types package record = .ok (module, properties))
    (hrules : module.visibility = some rules ∨ module.defaultsVisibility = some rules) :
    ∃ labels, VisibilityRule.parse package labels = .ok rules := by
  unfold draft at h
  dsimp only at h
  split at h
  · cases h
  · obtain ⟨populated, -, h⟩ := bind_eq_ok h
    obtain ⟨visibility, hvisibility, h⟩ := bind_eq_ok h
    obtain ⟨defaultsVisibility, hdefaults, h⟩ := bind_eq_ok h
    injection h with h
    injection h with hmodule
    subst hmodule
    rcases hrules with rfl | rfl
    · exact exists_of_rulesOf hvisibility
    · exact exists_of_rulesOf hdefaults

theorem RulesRead.addModule (h : RulesRead packages workspace) {package : String} {record : ModuleRecord}
    {id : ModuleId} (hmem : (package, record) ∈ modulesOf packages)
    (ha : workspace.addModule package record = .ok (id, workspace')) : RulesRead packages workspace' := by
  obtain ⟨home, hhome, hrecord⟩ := List.mem_flatMap.1 hmem
  obtain ⟨_, -, heq⟩ := List.mem_map.1 hrecord
  obtain rfl : home.path = package := congrArg Prod.fst heq
  rw [addModule_eq] at ha
  obtain ⟨⟨module, properties⟩, hdraft, ha⟩ := bind_eq_ok ha
  obtain ⟨⟨scope, registry⟩, hregister, ha⟩ := bind_eq_ok ha
  obtain ⟨-, -, -, hpackages, -⟩ := Registry.register_same (mapError_eq_ok hregister)
  obtain ⟨-, -, -, -, hpackage, -⟩ := draft_eq_ok hdraft
  injection ha with ha
  injection ha with _ ha
  subst ha
  refine ⟨fun path rules hsets => ?_, fun id hid => ?_⟩
  · rw [Registry.Sets, hpackages] at hsets
    exact h.sets path rules hsets
  · rw [Graph.length_modules_addModule] at hid
    rw [Graph.module_addModule]
    split
    · exact ⟨⟨home, hhome, hpackage.symm⟩, fun rules hrules => hpackage ▸ exists_of_draft hdraft hrules⟩
    · next hne => exact h.modules id (Nat.lt_of_le_of_ne (Nat.le_of_lt_succ hid) hne)

theorem rulesRead_addPackages (config : Config) (types : TypeTable) (stages : List Stage)
    (packages : List PackageRecord) : RulesRead packages ((fresh config types stages).addPackages packages).1 := by
  refine addModules_induction _ (fun _ _ _ _ _ hmem h ha => h.addModule hmem ha) ⟨fun path rules h => ?_, ?_⟩
  · refine (sets_declareAll h).resolve_left ?_
    rintro ⟨package, hfind, -⟩
    cases hfind
  · intro id hid
    cases hid

/-- The rules in force for a module were read. -/
theorem RulesRead.of_inForce (h : RulesRead packages workspace) {id : ModuleId}
    (hid : id < workspace.graph.modules.length) {own : Option (List VisibilityRule)}
    (hown : own = (workspace.graph.module id).visibility ∨ own = (workspace.graph.module id).defaultsVisibility)
    (hforce : workspace.registry.InForce own (workspace.graph.module id).package rules) : ReadIn packages rules := by
  obtain ⟨⟨home, hhome, hpath⟩, hread⟩ := h.modules id hid
  cases hforce with
  | own hrules =>
    obtain ⟨labels, hlabels⟩ := hread rules (hown.imp (·.symm.trans hrules) (·.symm.trans hrules))
    exact ⟨home, hhome, labels, hpath ▸ hlabels⟩
  | inherited _ _ hrules => exact h.sets _ _ hrules
  | unset => exact ⟨home, hhome, ["//visibility:legacy_public"], rfl⟩

end Workspace

/-! ## Running -/

open VisibilityRule in
/-- **Printed labels denote the rules that were checked.** A list of labels that is accepted is read again from the
labels of its rules, in every package, exactly if its package can be named or no label leaves its package out; else they
are refused, and they are never read as other rules. The labels in a resolved graph are those of the rules in force for
the module, and the labels in the error of a module that may not be used those of the rules by which it was refused.
All of them were read in one of the packages, so they can be read again if all packages can be named. -/
theorem labels_denote_rules (config : Config) (types : TypeTable) (packages : List PackageRecord) :
    let workspace := ((Workspace.fresh config types Stage.builtin).addPackages packages).1
    (∀ home labels rules, parse home labels = .ok rules →
      (Legible rules ↔ Nameable home ∨ ∀ text ∈ labels, ¬ IsRelative text) ∧
      ∀ reader others, parse reader (rules.map label) = .ok others → others = rules) ∧
    (∀ entry ∈ workspace.run.1.resolved.variants, ∃ id < workspace.graph.modules.length, ∃ rules,
      (workspace.graph.module id).name = entry.name ∧ (workspace.graph.module id).package = entry.package ∧
      workspace.registry.InForce (workspace.graph.module id).visibility entry.package rules ∧
      entry.visibility = rules.map label ∧ ReadIn packages rules ∧
      ((∀ record ∈ packages, Nameable record.path) → Legible rules)) ∧
    ∀ origin property target package rules,
      .notVisible origin property target package rules ∈ workspace.run.2 →
      ∃ id < workspace.graph.modules.length, ∃ own,
        (workspace.graph.module id).name = target ∧ (workspace.graph.module id).package = package ∧
        (own = (workspace.graph.module id).visibility ∨ own = (workspace.graph.module id).defaultsVisibility) ∧
        workspace.registry.InForce own package rules ∧
        workspace.registry.deniedBy? origin.package own package = some rules ∧ ReadIn packages rules ∧
        ((∀ record ∈ packages, Nameable record.path) → Legible rules) := by
  intro workspace
  have hstages : workspace.stages = Stage.builtin :=
    (Workspace.settings_addPackages config types Stage.builtin packages).2.2
  have hread : workspace.RulesRead packages := Workspace.rulesRead_addPackages config types Stage.builtin packages
  have hrun : Build.Explains workspace.environment workspace.graph
      (Stage.runWithDefaults workspace.environment workspace.stages workspace.graph) := by
    rw [hstages]
    exact .runWithDefaults (Workspace.loaded_addPackages config types Stage.builtin packages).holds.below
  refine ⟨fun home labels rules h => legible_iff_of_parse h, fun entry hentry => ?_,
    fun origin property target package rules herror => ?_⟩
  · obtain ⟨id, hid, -, v, -, rfl⟩ := mem_variants_ofGraph.1 hentry
    -- the run has changed neither the module's package nor its rules
    have hheader := hrun.headers.header id
    have hforce : workspace.registry.InForce (workspace.graph.module id).visibility
        (workspace.graph.module id).package _ := Registry.inForce_iff.2 rfl
    have hin := hread.of_inForce (hrun.headers.length ▸ hid) (.inl rfl) hforce
    refine ⟨id, hrun.headers.length ▸ hid, _, (Module.name_congr hheader).symm, (Module.package_congr hheader).symm,
      (Module.package_congr hheader).symm ▸ hforce, ?_, hin, hin.legible⟩
    rw [← Module.visibility_congr hheader, ← Module.package_congr hheader]
    rfl
  · obtain ⟨id, hid, hname, rfl, own, hown, hdenied⟩ := hrun.errors _ herror _ _ _ _ _ rfl
    have hforce := Registry.inForce_iff.2 (Registry.eq_of_deniedBy? hdenied).symm
    have hin := hread.of_inForce hid hown hforce
    exact ⟨id, hid, own, hname, rfl, hown, hforce, hdenied, hin, hin.legible⟩

/-- A library for the packages below its own and for one more, and programs of that one and of another. -/
def libraryForFriends : List PackageRecord :=
  [⟨"a/b", some [":__subpackages__", "//c:__pkg__"], none, [⟨"cc_library", "lib", []⟩]⟩,
    ⟨"c", none, none, [⟨"cc_binary", "friend", [("shared_libs", .array [.string "lib"])]⟩]⟩,
    ⟨"d", none, none, [⟨"cc_binary", "stranger", [("shared_libs", .array [.string "lib"])]⟩]⟩]

theorem labels_libraryForFriends :
    let rules : List VisibilityRule := [.subtree "a/b", .package "c"]
    let workspace := Workspace.onLinux libraryForFriends
    VisibilityRule.parse "a/b" [":__subpackages__", "//c:__pkg__"] = .ok rules ∧ VisibilityRule.Legible rules ∧
    (∃ entry ∈ workspace.run.1.resolved.variants, entry.visibility = ["//a/b:__subpackages__", "//c:__pkg__"] ∧
      ∃ shown, entry.visibility = shown.map (·.label) ∧ VisibilityRule.Legible shown) ∧
    .notVisible ⟨"stranger", "d"⟩ "shared_libs" "lib" "a/b" rules ∈ workspace.run.2 ∧
    ∃ own, workspace.registry.InForce own "a/b" rules ∧ workspace.registry.deniedBy? "d" own "a/b" = some rules := by
  intro rules workspace
  have hparse : VisibilityRule.parse "a/b" [":__subpackages__", "//c:__pkg__"] = .ok rules := rfl
  have hnameable : ∀ record ∈ libraryForFriends, VisibilityRule.Nameable record.path := by decide +kernel
  have hentry : ∃ entry ∈ workspace.run.1.resolved.variants,
      entry.visibility = ["//a/b:__subpackages__", "//c:__pkg__"] := by decide +kernel
  have herror : .notVisible ⟨"stranger", "d"⟩ "shared_libs" "lib" "a/b" rules ∈ workspace.run.2 := by decide +kernel
  obtain ⟨hread, hresolved, herrors⟩ :=
    labels_denote_rules .onLinux Builtin.types libraryForFriends
  obtain ⟨entry, hmem, hlabels⟩ := hentry
  obtain ⟨_, _, shown, -, -, -, hshown, -, hlegible⟩ := hresolved entry hmem
  obtain ⟨_, _, own, -, -, -, hforce, hdenied, -, -⟩ := herrors _ _ _ _ _ herror
  exact ⟨hparse, (hread _ _ _ hparse).1.2 (.inl (by decide)),
    ⟨entry, hmem, hlabels, shown, hshown, hlegible hnameable⟩, herror, own, hforce, hdenied⟩

/-- A package whose path has a colon, or is the word before the special labels, prints labels that no package can read. -/
theorem label_of_unnameable_package :
    VisibilityRule.parse "visibility" [":__pkg__"] = .ok [.package "visibility"] ∧
    [VisibilityRule.package "visibility"].map (·.label) = ["//visibility:__pkg__"] ∧
    VisibilityRule.parse "p" ["//visibility:__pkg__"] = .error (.unknown "//visibility:__pkg__") ∧
    VisibilityRule.parse "a:b" [":__subpackages__"] = .ok [.subtree "a:b"] ∧
    [VisibilityRule.subtree "a:b"].map (·.label) = ["//a:b:__subpackages__"] ∧
    VisibilityRule.parse "a:b" ["//a:b:__subpackages__"] = .error (.unknown "//a:b:__subpackages__") :=
  ⟨rfl, rfl, rfl, rfl, rfl, rfl⟩

end VariantGraph
