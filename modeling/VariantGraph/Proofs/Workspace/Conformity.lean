import VariantGraph.Proofs.Defaults.Passing
import VariantGraph.Proofs.Workspace.Success
/-!
# Property trees after defaults were taken over

Every tree conforms to the schema of its module's type when it is loaded. Taking over keeps that at the
top. Below, it is kept exactly for modules to which nothing is passed that has no place in their own
schema (`conforms_iff_passed`); a branch that brings more is taken over as it is (`stem_taken_over`).
-/
namespace VariantGraph
open Defaults

/-- What a record declares conforms to the type of its module. -/
theorem Workspace.Loaded.follows {workspace : Workspace} {records : List (String × ModuleRecord)}
    (hl : workspace.Loaded records) {id : ModuleId} (hid : id < workspace.graph.modules.length) :
    ∃ type, workspace.types.find? (workspace.graph.module id).moduleType = some type ∧
      (ownProperties workspace.graph id).follows (.fields type.schema) = true := by
  obtain ⟨package, record, type, properties, -, hd⟩ := hl.fresh.declared id hid
  have hown : ownProperties workspace.graph id = properties := by
    rw [ownProperties, firstVariant, hd.variants, List.headD_cons, hd.variant]
  exact ⟨type, hd.moduleType ▸ hd.known, hown ▸ follows_populate hd.populated⟩

/-- **Defaults are checked at the top only.** When packages were loaded into a fresh workspace and their
defaults were taken over without errors, every module's tree has at the top only fields of the module's
own type, with values of their kinds. It conforms to the schema at every depth exactly if every value
does that another module has and that was passed to this one from module to module, by types that have a
field of its name. -/
theorem conforms_iff_passed (config : Config) (types : TypeTable) (stages : List Stage)
    (packages : List PackageRecord) :
    let workspace := ((Workspace.fresh config types stages).addPackages packages).1
    (propagate workspace.registry workspace.types workspace.graph).errors = [] →
    ∀ id < workspace.graph.modules.length,
      ∃ type, types.find? (workspace.graph.module id).moduleType = some type ∧
        (∀ entry ∈ ownProperties workspace.merged id, type.schema.fits entry.1 entry.2 = true) ∧
        ((ownProperties workspace.merged id).follows (.fields type.schema) = true ↔
          ∀ origin name value, origin ≠ id → Passes workspace.registry types workspace.graph name origin id →
            (name, value) ∈ ownProperties workspace.graph origin →
              (Layout.fields type.schema).admits name value = true) := by
  intro workspace herrors id hid
  have hl := Workspace.loaded_addPackages config types stages packages
  have htypes : workspace.types = types := (Workspace.settings_addPackages config types stages packages).2.1
  obtain ⟨type, hknown, hfollows⟩ := hl.follows hid
  have hall := Properties.follows_iff.1 hfollows
  obtain ⟨levels, hlevels⟩ := exists_levels_of_not_faulty (not_faulty_of_errors herrors)
  have he : Effective workspace.registry workspace.types workspace.graph _ := effective_settleAll hlevels
  have hcarries := fun (id : ModuleId) (hid : id < workspace.graph.modules.length) =>
    ownProperties_propagate hl.fresh.consistent.toLinked he herrors hid
  have hcollected := collected (fun id hid => ⟨_, (hl.follows hid).choose_spec.1⟩) he
    (fun id hid => ⟨_, hcarries id hid⟩) hlevels hid
  rw [← htypes]
  refine ⟨type, hknown, ?_, ?_⟩
  · exact fits_of_overlay hknown (fun entry hmem => fits_of_admits (hall entry hmem))
      ((he id hid).symm.trans (hcarries id hid))
  · rw [Workspace.merged, Properties.follows_iff, hcollected _ (hcarries id hid)
      (fun name value => (Layout.fields type.schema).admits name value = true) (mergeable_admits _)]
    refine forall_congr' fun origin => forall_congr' fun name => forall_congr' fun value => ?_
    constructor
    · exact fun h _ => h
    · intro h hpasses hmem
      by_cases heq : origin = id
      · subst heq
        exact hall _ hmem
      · exact h heq hpasses hmem

/-- A program that takes over from defaults which take over from others; only the first set a stem in a
branch, which programs have a field for. -/
def programFromDefaults : List PackageRecord :=
  [⟨"app", none, none, [
    ⟨"cc_defaults", "base", [("arch", .object [("arm64", .object [("stem", .string "main64")])])]⟩,
    ⟨"cc_defaults", "flags", [("cflags", .array [.string "-g"]), ("defaults", .array [.string "base"])]⟩,
    ⟨"cc_binary", "main", [("defaults", .array [.string "flags"])]⟩]⟩]

theorem conforms_programFromDefaults :
    let workspace := Workspace.onLinux programFromDefaults
    (propagate workspace.registry workspace.types workspace.graph).errors = [] ∧
    (∀ entry ∈ ownProperties workspace.merged 2, Builtin.binary.schema.fits entry.1 entry.2 = true) ∧
    ∀ origin name value, origin ≠ 2 → Passes workspace.registry Builtin.types workspace.graph name origin 2 →
      (name, value) ∈ ownProperties workspace.graph origin →
        (Layout.fields Builtin.binary.schema).admits name value = true := by
  intro workspace
  have hrun : (propagate workspace.registry workspace.types workspace.graph).errors = [] ∧
      2 < workspace.graph.modules.length ∧ (workspace.graph.module 2).moduleType = "cc_binary" ∧
      (ownProperties workspace.merged 2).follows (.fields Builtin.binary.schema) = true := by decide +kernel
  obtain ⟨herrors, hlt, hname, hfollows⟩ := hrun
  obtain ⟨type, hknown, hfits, hiff⟩ := conforms_iff_passed _ _ _ _ herrors 2 hlt
  obtain rfl : Builtin.binary = type :=
    Option.some.inj ((congrArg Builtin.types.find? hname).symm.trans hknown)
  exact ⟨herrors, hfits, hiff.1 hfollows⟩

/-- Defaults that set a stem in a branch, and a library that takes over from them; libraries have no field
for it. -/
def stemForLibrary : List PackageRecord :=
  [⟨"p", none, none, [
    ⟨"cc_defaults", "d",
      [("arch", .object [("arm64", .object [("cflags", .array [.string "-a"]), ("stem", .string "x")])])]⟩,
    ⟨"cc_library", "lib", [("defaults", .array [.string "d"])]⟩]⟩]

theorem stem_taken_over :
    let loaded := (Workspace.fresh .onLinux Builtin.types []).addPackages stemForLibrary
    loaded.2 = [] ∧ (propagate loaded.1.registry loaded.1.types loaded.1.graph).errors = [] ∧
    (Builtin.types.find? (loaded.1.graph.module 1).moduleType).map (fun type =>
      ((ownProperties loaded.1.graph 1).follows (.fields type.schema),
        (ownProperties loaded.1.merged 1).follows (.fields type.schema))) = some (true, false) := by
  decide +kernel

end VariantGraph
