import VariantGraph.Proofs.Table
import VariantGraph.Workspace
import Mathlib.Data.List.Nodup
/-!
# What declaring makes of packages

A package enters the registry with its rules and its namespace. Packages can be declared without errors if
each can be by itself and no two have one path (`declareAll_eq_iff`), and then they make the same registry
in any order (`declareAll_perm`).
-/
namespace VariantGraph

/-- Steps that add errors to those that were found before add the same errors, whatever was found. -/
theorem foldl_collect {σ α ε : Type} {step : σ × List ε → α → σ × List ε}
    (hstep : ∀ s errors a, step (s, errors) a = ((step (s, []) a).1, errors ++ (step (s, []) a).2)) (items : List α)
    (s : σ) (errors : List ε) : items.foldl step (s, errors) =
      ((items.foldl step (s, [])).1, errors ++ (items.foldl step (s, [])).2) := by
  induction items generalizing s errors with
  | nil => simp
  | cons a items ih =>
    rw [List.foldl_cons, List.foldl_cons, hstep s errors, ih, ih (step (s, []) a).1 (step (s, []) a).2,
      List.append_assoc]

/-! ## Declaring packages -/

namespace PackageRecord

/-- The visibility rules that the package sets. -/
def rules (record : PackageRecord) : Except VisibilityError (Option (List VisibilityRule)) :=
  record.defaultVisibility.mapM (VisibilityRule.parse record.path)

/-- A package without its modules. -/
def header (record : PackageRecord) : PackageRecord := { record with modules := [] }

/-- A package that can be declared by itself. -/
def Sound (record : PackageRecord) : Prop :=
  (∃ rules, record.rules = .ok rules) ∧ (record.imports ≠ none → record.path ≠ globalNamespace)

/-- A package that was not declared before, nor its namespace if it has one. -/
def Fresh (registry : Registry) (record : PackageRecord) : Prop :=
  registry.packages.has record.path = false ∧
    (record.imports ≠ none → registry.namespaces.has record.path = false)

/-- A registry with a package declared in it. -/
def enter (registry : Registry) (record : PackageRecord) : Registry :=
  { registry with
    namespaces := record.imports.elim registry.namespaces fun imports =>
      registry.namespaces.insert record.path ⟨imports, []⟩
    packages := registry.packages.insert record.path ⟨record.rules.toOption.join⟩ }

end PackageRecord

namespace Workspace
open PackageRecord

variable {registry : Registry}

/-- A package is declared without an error if it can be declared by itself and was not declared before. -/
theorem declare_eq_iff {record : PackageRecord} {registry' : Registry} :
    declare registry record = (registry', none) ↔
      record.Sound ∧ record.Fresh registry ∧ record.enter registry = registry' := by
  unfold declare Sound Fresh enter Registry.addNamespace Registry.addPackage
  rw [← PackageRecord.rules]
  cases record.rules with
  | error cause => simp
  | ok rules =>
    cases record.imports with
    | none => cases hp : registry.packages.has record.path <;> simp [hp, Except.toOption]
    | some imports =>
      by_cases hpath : record.path = globalNamespace
      · simp [hpath]
      · cases registry.namespaces.has record.path <;> cases hp : registry.packages.has record.path <;>
          simp [hp, hpath, Except.toOption]

theorem fresh_enter {record other : PackageRecord} :
    other.Fresh (record.enter registry) ↔ other.Fresh registry ∧ record.path ≠ other.path := by
  have hpackage : (record.enter registry).packages.has other.path = false ↔
      registry.packages.has other.path = false ∧ record.path ≠ other.path := by
    unfold enter Table.has
    rw [Table.find?_insert]
    by_cases he : record.path = other.path <;> simp [he]
  have hscope : record.path ≠ other.path →
      ((record.enter registry).namespaces.has other.path = false ↔ registry.namespaces.has other.path = false) := by
    intro hne
    unfold enter Table.has
    cases record.imports with
    | none => rfl
    | some imports => rw [Option.elim_some, Table.find?_insert, if_neg hne]
  unfold Fresh
  rw [hpackage]
  constructor
  · rintro ⟨⟨hp, hne⟩, hs⟩
    exact ⟨⟨hp, fun hi => (hscope hne).1 (hs hi)⟩, hne⟩
  · rintro ⟨⟨hp, hs⟩, hne⟩
    exact ⟨⟨hp, hne⟩, fun hi => (hscope hne).2 (hs hi)⟩

theorem declareAll_cons (record : PackageRecord) (records : List PackageRecord) :
    declareAll registry (record :: records) = ((declareAll (declare registry record).1 records).1,
      (declare registry record).2.toList ++ (declareAll (declare registry record).1 records).2) := by
  rw [declareAll, List.foldl_cons, foldl_collect fun _ _ _ => by simp]
  rfl

/-- **Packages are declared without errors** if each can be declared by itself, no two have one path, and
none was declared before. -/
theorem declareAll_eq_iff {records : List PackageRecord} {registry' : Registry} :
    declareAll registry records = (registry', []) ↔
      (∀ record ∈ records, record.Sound ∧ record.Fresh registry) ∧ (records.map (·.path)).Nodup ∧
        records.foldl enter registry = registry' := by
  induction records generalizing registry with
  | nil => simp [declareAll]
  | cons record records ih =>
    rw [declareAll_cons, Prod.mk.injEq, List.append_eq_nil_iff, Option.toList_eq_nil_iff, List.forall_mem_cons,
      List.map_cons, List.nodup_cons, List.foldl_cons]
    constructor
    · rintro ⟨hlast, hfirst, hrest⟩
      have hdeclare : declare registry record = ((declare registry record).1, none) := Prod.ext rfl hfirst
      obtain ⟨hsound, hfresh, henter⟩ := declare_eq_iff.1 hdeclare
      rw [← henter] at hlast hrest
      obtain ⟨hall, hnodup, hfold⟩ := ih.1 (Prod.ext hlast hrest)
      refine ⟨⟨⟨hsound, hfresh⟩, fun other ho => ⟨(hall other ho).1, (fresh_enter.1 (hall other ho).2).1⟩⟩,
        ⟨fun hmem => ?_, hnodup⟩, hfold⟩
      obtain ⟨other, ho, hpath⟩ := List.mem_map.1 hmem
      exact (fresh_enter.1 (hall other ho).2).2 hpath.symm
    · rintro ⟨⟨⟨hsound, hfresh⟩, hall⟩, ⟨hnot, hnodup⟩, hfold⟩
      have hdeclare := declare_eq_iff.2 ⟨hsound, hfresh, rfl⟩
      have hrest := ih.2 ⟨fun other ho => ⟨(hall other ho).1, fresh_enter.2 ⟨(hall other ho).2, fun hpath =>
        hnot (List.mem_map.2 ⟨other, ho, hpath.symm⟩)⟩⟩, hnodup, hfold⟩
      rw [hdeclare, hrest]
      exact ⟨rfl, rfl, rfl⟩

theorem enter_comm {record other : PackageRecord} (hne : record.path ≠ other.path) :
    (other.enter (record.enter registry)) = record.enter (other.enter registry) := by
  unfold enter
  cases record.imports <;> cases other.imports <;> simp [Table.insert_comm _ hne]

/-- **Packages can be declared in any order**, and make the same registry. -/
theorem declareAll_perm {records records' : List PackageRecord} {registry' : Registry} (hp : records.Perm records')
    (h : declareAll registry records = (registry', [])) : declareAll registry records' = (registry', []) := by
  obtain ⟨hall, hnodup, hfold⟩ := declareAll_eq_iff.1 h
  refine declareAll_eq_iff.2 ⟨fun record hr => hall record (hp.mem_iff.2 hr), (hp.map _).nodup_iff.1 hnodup, ?_⟩
  rw [← hfold]
  refine (hp.foldl_eq' (fun record hr other ho registry => ?_) registry).symm
  by_cases hpath : record.path = other.path
  · rw [List.inj_on_of_nodup_map hnodup hr ho hpath]
  · exact enter_comm hpath

/-- The modules of packages do not matter to their declaration. -/
theorem declareAll_map_header (records : List PackageRecord) :
    declareAll registry (records.map header) = declareAll registry records := by
  unfold declareAll
  rw [List.foldl_map]
  rfl

end Workspace

end VariantGraph
