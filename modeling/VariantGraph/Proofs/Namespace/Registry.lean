import VariantGraph.Workspace
/-!
# Numbers that a registry gives out

References lead to modules that were registered, so a bound on the registered numbers is a bound on
all numbers that references lead to (`Holds.below`), and declaring packages keeps it.
-/
namespace VariantGraph

/-- References only lead to modules with a number below a bound. -/
def Registry.Below (registry : Registry) (bound : Nat) : Prop :=
  ∀ package text id, registry.resolve package text = .ok id → id < bound

/-- All namespaces hold numbers below a bound only. -/
def Registry.Holds (registry : Registry) (bound : Nat) : Prop :=
  ∀ scope name id, registry.lookup? scope name = some id → id < bound

namespace Registry

variable {registry registry' : Registry} {bound : Nat}

/-- What a plain name means is held by some namespace under that name. -/
theorem lookup?_of_resolvePlain {package name : String} {id : ModuleId}
    (hr : registry.resolvePlain package name = .ok id) : ∃ scope, registry.lookup? scope name = some id := by
  unfold Registry.resolvePlain at hr
  cases hl : registry.lookup? (registry.enclosing package) name with
  | some home => simp only [hl, Except.ok.injEq] at hr; exact ⟨_, hr ▸ hl⟩
  | none =>
    simp only [hl] at hr
    generalize hg : (if registry.enclosing package = globalNamespace then none
      else registry.lookup? globalNamespace name) = inGlobal at hr
    split at hr
    · next scope found hm =>
      split at hr
      · cases hr
      · obtain rfl : found = id := by injection hr
        have hmem : (scope, found) ∈ registry.importedMatches
            (((registry.namespaces.find? (registry.enclosing package)).map (·.imports)).getD []) name := by
          rw [hm]; exact List.mem_singleton.2 rfl
        obtain ⟨scope', -, he⟩ := List.mem_filterMap.1 hmem
        obtain ⟨id', hid', he⟩ := Option.map_eq_some_iff.1 he
        obtain ⟨rfl, rfl⟩ : scope' = scope ∧ id' = found := by simpa using he
        exact ⟨_, hid'⟩
    · split at hr
      · next found =>
        obtain rfl : found = id := by injection hr
        split at hg
        · cases hg
        · exact ⟨_, hg⟩
      · cases hr
    · cases hr

/-- What a reference means is held under its name by some namespace, which is the one that it says. -/
theorem lookup?_of_resolve {package text : String} {id : ModuleId} (hr : registry.resolve package text = .ok id) :
    ∃ reference scope, Reference.parse? text = some reference ∧ (∀ said ∈ reference.scope?, said = scope) ∧
      registry.lookup? scope reference.name = some id := by
  unfold Registry.resolve at hr
  split at hr
  · cases hr
  · next name hp =>
    obtain ⟨scope, hscope⟩ := lookup?_of_resolvePlain hr
    exact ⟨.plain name, scope, hp, by simp [Reference.scope?], hscope⟩
  · next scope name hp =>
    refine ⟨.qualified scope name, scope, hp, by simp [Reference.scope?], ?_⟩
    cases hf : registry.namespaces.find? scope with
    | none => simp [hf] at hr
    | some entry =>
      simp only [hf] at hr
      cases hm : entry.modules.find? name with
      | none => simp [hm] at hr
      | some found =>
        obtain rfl : found = id := by simpa [hm] using hr
        simp [lookup?, hf, Reference.name, hm]

theorem Holds.below (h : registry.Holds bound) : registry.Below bound := by
  intro package text id hr
  obtain ⟨reference, scope, -, -, hl⟩ := lookup?_of_resolve hr
  exact h scope reference.name id hl

theorem holds_empty (precedence : ImportPrecedence) : (empty precedence).Holds 0 := by
  intro scope name id hl
  unfold lookup? empty at hl
  simp only [Table.find?] at hl
  split at hl <;> simp [Table.find?] at hl

/-! ## Declaring and registering -/

theorem Holds.addNamespace (h : registry.Holds bound) {path : String} {imports : List String}
    (ha : registry.addNamespace path imports = .ok registry') : registry'.Holds bound := by
  unfold Registry.addNamespace at ha
  split at ha
  · cases ha
  · injection ha with ha
    subst ha
    intro scope name id hl
    unfold lookup? at hl
    rw [Table.find?_insert] at hl
    split at hl
    · simp [Table.find?] at hl
    · exact h scope name id hl

/-- Adding a package changes nothing but the table of packages. -/
theorem addPackage_eq_ok {path : String} {rules : Option (List VisibilityRule)}
    (h : registry.addPackage path rules = .ok registry') :
    registry' = { registry with packages := registry.packages.insert path ⟨rules⟩ } := by
  unfold Registry.addPackage at h
  split at h
  · cases h
  · exact (Except.ok.inj h).symm

theorem Holds.addPackage (h : registry.Holds bound) {path : String}
    {rules : Option (List VisibilityRule)} (ha : registry.addPackage path rules = .ok registry') :
    registry'.Holds bound := by
  obtain rfl := addPackage_eq_ok ha
  exact h

/-- A name that was entered is found in the namespace of its package, in which it was free; all other
names, and the namespaces of packages, are as they were. -/
theorem register_eq_ok {package name scope : String} {id : ModuleId}
    (h : registry.register package name id = .ok (scope, registry')) :
    registry.lookup? (registry.enclosing package) name = none ∧
      (∀ other, registry'.enclosing other = registry.enclosing other) ∧
      ∀ scope' name', registry'.lookup? scope' name' =
        if registry.enclosing package = scope' ∧ name = name' then some id else registry.lookup? scope' name' := by
  unfold Registry.register at h
  cases hf : registry.namespaces.find? (registry.enclosing package) with
  | none => simp [hf] at h
  | some entry =>
    simp only [hf] at h
    cases hm : entry.modules.find? name with
    | some existing => simp [hm] at h
    | none =>
      simp only [hm, Except.ok.injEq, Prod.mk.injEq] at h
      obtain ⟨-, rfl⟩ := h
      refine ⟨by rw [lookup?, hf]; exact hm, fun other => ?_, fun scope' name' => ?_⟩
      · have hhas : ∀ path, Table.has (registry.namespaces.insert (registry.enclosing package)
            { entry with modules := entry.modules.insert name id }) path = registry.namespaces.has path := by
          intro path
          unfold Table.has
          rw [Table.find?_insert]
          split
          · next he => rw [← he, hf]; rfl
          · rfl
        generalize registry.namespaces.insert _ _ = namespaces at hhas ⊢
        simp only [enclosing, hhas]
      · unfold lookup?
        rw [Table.find?_insert]
        by_cases hscope : registry.enclosing package = scope'
        · subst hscope
          rw [if_pos rfl, Option.bind_some, Table.find?_insert, hf, Option.bind_some]
          by_cases hname : name = name' <;> simp [hname]
        · rw [if_neg hscope, if_neg fun hboth => hscope hboth.1]

/-- A name is refused because the namespace holds it already. -/
theorem register_eq_duplicate {package name name' scope : String} {id existing : ModuleId}
    (h : registry.register package name id = .error (.duplicateModule name' scope existing)) :
    name' = name ∧ scope = registry.enclosing package ∧ registry.lookup? scope name = some existing := by
  unfold register at h
  cases hf : registry.namespaces.find? (registry.enclosing package) with
  | none => simp [hf] at h
  | some entry =>
    simp only [hf] at h
    split at h
    · next found hm =>
      injection h with h
      injection h with hname hscope hid
      exact ⟨hname.symm, hscope.symm, by rw [← hscope, lookup?, hf, ← hid]; exact hm⟩
    · cases h

theorem Holds.register (h : registry.Holds bound) {package name scope : String}
    (hr : registry.register package name bound = .ok (scope, registry')) : registry'.Holds (bound + 1) := by
  obtain ⟨-, -, hlookup⟩ := register_eq_ok hr
  intro scope' name' id hl
  rw [hlookup] at hl
  split at hl
  · injection hl with hl
    exact hl ▸ Nat.lt_succ_self bound
  · exact Nat.lt_succ_of_lt (h scope' name' id hl)

end Registry

namespace Workspace

section Declare
variable {p : Registry → Prop}
  (hnamespace : ∀ {registry registry' : Registry}, p registry → ∀ {path : String} {imports : List String},
    registry.addNamespace path imports = .ok registry' → p registry')
  (hpackage : ∀ {registry registry' : Registry}, p registry →
    ∀ {path : String} {rules : Option (List VisibilityRule)},
    registry.addPackage path rules = .ok registry' → p registry')
include hnamespace hpackage

/-- What declaring namespaces and adding packages keeps is kept by declaring a package, which may fail after
its namespace was declared. -/
theorem declare_induction {registry : Registry} (h : p registry) (record : PackageRecord) :
    p (declare registry record).1 := by
  unfold declare
  split
  · exact h
  · have hn : ∀ {registry' : Registry}, record.imports.elim (.ok registry)
        (registry.addNamespace record.path) = .ok registry' → p registry' := by
      intro registry' he
      cases hi : record.imports with
      | none => rw [hi] at he; injection he with he; exact he ▸ h
      | some imports => rw [hi] at he; exact hnamespace h he
    split
    · exact h
    · next registry' he =>
      split
      · exact hn he
      · next registry'' ha => exact hpackage (hn he) ha

theorem declareAll_induction {registry : Registry} (h : p registry) (records : List PackageRecord) :
    p (declareAll registry records).1 := by
  unfold declareAll
  refine List.foldlRecOn (motive := fun state : Registry × List BuildError => p state.1) records _ h ?_
  exact fun state hs record _ => declare_induction hnamespace hpackage hs record

end Declare

theorem holds_declareAll {registry : Registry} {bound : Nat} (h : registry.Holds bound)
    (records : List PackageRecord) : (declareAll registry records).1.Holds bound :=
  declareAll_induction (p := (Registry.Holds · bound)) Registry.Holds.addNamespace Registry.Holds.addPackage h records

end Workspace
end VariantGraph
