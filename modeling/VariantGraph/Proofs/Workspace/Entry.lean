import VariantGraph.Proofs.Graph.Renaming
import VariantGraph.Proofs.Namespace.Renaming
import VariantGraph.Proofs.Workspace.Declaration
import VariantGraph.Proofs.Workspace.Load
import Mathlib.Logic.Equiv.Basic
/-!
# What loading makes of modules

Modules are numbered as they come: the module of each record is made of the record alone, apart from its
number (`Workspace.Entered`). Records can be loaded without errors exactly if each can be and no two claim
the same name in a namespace (`Entered.addModules`, `Entered.exists_addModules`), and in another order they
make the same modules under other numbers (`Entered.renamed`).
-/
namespace VariantGraph

/-! ## Registering names -/

theorem getElem?_append_singleton {α : Type} {l : List α} {last a : α} {i : Nat} :
    (l ++ [last])[i]? = some a ↔ l[i]? = some a ∨ (i = l.length ∧ last = a) := by
  grind

namespace Registry

variable {registry registry' : Registry} {package name scope : String} {id : ModuleId}

/-- Registering a name changes nothing but what its namespace holds. -/
theorem register_same (h : registry.register package name id = .ok (scope, registry')) :
    scope = registry.enclosing package ∧ registry.namespaces.has (registry.enclosing package) = true ∧
      registry'.precedence = registry.precedence ∧ registry'.packages = registry.packages ∧
      registry'.imports? = registry.imports? := by
  unfold register at h
  cases hf : registry.namespaces.find? (registry.enclosing package) with
  | none => simp [hf] at h
  | some entry =>
    simp only [hf] at h
    split at h
    · cases h
    · injection h with h
      injection h with hscope hregistry
      subst hregistry
      refine ⟨hscope.symm, by rw [Table.has, hf]; rfl, rfl, rfl, ?_⟩
      funext other
      unfold imports?
      rw [Table.find?_insert]
      split
      · next he => rw [← he, hf]; rfl
      · rfl

theorem exists_register (hhas : registry.namespaces.has (registry.enclosing package) = true)
    (hfree : registry.lookup? (registry.enclosing package) name = none) (id : ModuleId) :
    ∃ scope registry', registry.register package name id = .ok (scope, registry') := by
  obtain ⟨entry, hf⟩ := Option.isSome_iff_exists.1 hhas
  have hm : entry.modules.find? name = none := by simpa [lookup?, hf] using hfree
  unfold register
  simp only [hf, hm]
  exact ⟨_, _, rfl⟩

/-- The namespace and the name under which the module of a record is found. -/
def slot (registry : Registry) (record : String × ModuleRecord) : String × String :=
  (registry.enclosing record.1, record.2.name)

end Registry

/-! ## Adding modules -/

namespace Workspace

/-- A record whose module can be made, in a package whose namespace is there. -/
def Enterable (base : Workspace) (record : String × ModuleRecord) : Prop :=
  (∃ drafted, draft base.types record.1 record.2 = .ok drafted) ∧
    base.registry.namespaces.has (base.registry.enclosing record.1) = true

/-- A workspace into which some records were loaded without errors, in their order. -/
structure Entered (base : Workspace) (records : List (String × ModuleRecord)) (workspace : Workspace) :
    Prop where
  config : workspace.config = base.config
  types : workspace.types = base.types
  stages : workspace.stages = base.stages
  precedence : workspace.registry.precedence = base.registry.precedence
  packages : workspace.registry.packages = base.registry.packages
  imports : workspace.registry.imports? = base.registry.imports?
  lookup : ∀ scope name id, workspace.registry.lookup? scope name = some id ↔
    ∃ record, records[id]? = some record ∧ base.registry.slot record = (scope, name)
  modules : workspace.graph.modules.length = records.length
  variants : workspace.graph.variants.length = records.length
  made : ∀ id record, records[id]? = some record → ∃ module properties,
    draft base.types record.1 record.2 = .ok (module, properties) ∧
    workspace.graph.module id =
      { module with scope := base.registry.enclosing record.1, variants := [id], dependents := [] } ∧
    workspace.graph.variant id = ⟨id, [], properties, [], true⟩

variable {base workspace workspace' : Workspace} {records : List (String × ModuleRecord)}
  {package : String} {record : ModuleRecord}

theorem Entered.enclosing (h : Entered base records workspace) :
    workspace.registry.enclosing = base.registry.enclosing := Registry.enclosing_congr h.imports

/-- A name is free as long as no record claims it. -/
theorem Entered.lookup?_eq_none_iff (h : Entered base records workspace) {scope name : String} :
    workspace.registry.lookup? scope name = none ↔ (scope, name) ∉ records.map base.registry.slot := by
  rw [Option.eq_none_iff_forall_ne_some, List.mem_map]
  simp only [ne_eq, h.lookup]
  constructor
  · rintro hnone ⟨record, hmem, hslot⟩
    obtain ⟨id, hid⟩ := List.mem_iff_getElem?.1 hmem
    exact hnone id ⟨record, hid, hslot⟩
  · rintro hnone id ⟨record, hid, hslot⟩
    exact hnone ⟨record, List.mem_of_getElem? hid, hslot⟩

/-- A name that was free is found under the next number. -/
theorem Entered.lookup_snoc (h : Entered base records workspace) {registry : Registry} {record : String × ModuleRecord}
    (hlookup : ∀ scope name, registry.lookup? scope name =
      if base.registry.enclosing record.1 = scope ∧ record.2.name = name then some workspace.graph.modules.length
      else workspace.registry.lookup? scope name)
    (hfree : workspace.registry.lookup? (base.registry.enclosing record.1) record.2.name = none)
    (scope name : String) (id : ModuleId) : registry.lookup? scope name = some id ↔
      ∃ other, (records ++ [record])[id]? = some other ∧ base.registry.slot other = (scope, name) := by
  simp only [hlookup, h.modules, getElem?_append_singleton]
  constructor
  · intro hfound
    split at hfound
    · next hslot =>
      injection hfound with hfound
      exact ⟨_, Or.inr ⟨hfound.symm, rfl⟩, Prod.ext hslot.1 hslot.2⟩
    · obtain ⟨other, hother, hslot⟩ := (h.lookup scope name id).1 hfound
      exact ⟨other, Or.inl hother, hslot⟩
  · rintro ⟨other, hother | ⟨rfl, rfl⟩, hslot⟩
    · rw [if_neg, h.lookup]
      · exact ⟨other, hother, hslot⟩
      · rintro ⟨rfl, rfl⟩
        exact h.lookup?_eq_none_iff.1 hfree (List.mem_map.2 ⟨other, List.mem_of_getElem? hother, hslot⟩)
    · rw [if_pos (Prod.mk.inj hslot)]

/-- One record more. -/
theorem Entered.addModule (h : Entered base records workspace) {id : ModuleId}
    (ha : workspace.addModule package record = .ok (id, workspace')) :
    Enterable base (package, record) ∧ base.registry.slot (package, record) ∉ records.map base.registry.slot ∧
      Entered base (records ++ [(package, record)]) workspace' := by
  rw [addModule_eq] at ha
  obtain ⟨⟨module, properties⟩, hdraft, ha⟩ := bind_eq_ok ha
  obtain ⟨⟨scope, registry⟩, hregister, ha⟩ := bind_eq_ok ha
  have hregister := mapError_eq_ok hregister
  injection ha with ha
  injection ha with _ ha
  subst ha
  obtain ⟨rfl, hhas, hprecedence, hpackages, himports⟩ := Registry.register_same hregister
  obtain ⟨hfree, -, hlookup⟩ := Registry.register_eq_ok hregister
  rw [h.types] at hdraft
  rw [h.enclosing] at hhas hfree hlookup
  have hdeclared : base.registry.namespaces.has (base.registry.enclosing package) = true := by
    rw [Registry.has_eq_isSome, h.imports, ← Registry.has_eq_isSome] at hhas
    exact hhas
  refine ⟨⟨⟨_, hdraft⟩, hdeclared⟩, h.lookup?_eq_none_iff.1 hfree, h.config, h.types, h.stages,
    hprecedence.trans h.precedence, hpackages.trans h.packages, himports.trans h.imports, ?_, ?_, ?_, ?_⟩
  · exact h.lookup_snoc hlookup hfree
  · simp [h.modules]
  · simp [Graph.addModule, h.variants]
  · intro id other hother
    show ∃ module' properties', _ ∧ (workspace.graph.addModule _ properties).module id = _ ∧
      (workspace.graph.addModule _ properties).variant id = _
    rw [Graph.module_addModule, Graph.variant_addModule, h.modules, h.variants]
    rcases getElem?_append_singleton.1 hother with hold | ⟨rfl, rfl⟩
    · have hne := Nat.ne_of_lt (List.getElem?_eq_some_iff.1 hold).1
      rw [if_neg hne, if_neg hne]
      exact h.made id other hold
    · rw [if_pos rfl, if_pos rfl, h.enclosing]
      exact ⟨module, properties, hdraft, rfl, rfl⟩

/-- A record can be added if its module can be made and its name is free. -/
theorem Entered.exists_addModule (h : Entered base records workspace) (henter : Enterable base (package, record))
    (hfree : base.registry.slot (package, record) ∉ records.map base.registry.slot) :
    ∃ id workspace', workspace.addModule package record = .ok (id, workspace') := by
  obtain ⟨⟨⟨module, properties⟩, hdraft⟩, hhas⟩ := henter
  have hdeclared : workspace.registry.namespaces.has (workspace.registry.enclosing package) = true := by
    rw [h.enclosing, Registry.has_eq_isSome, h.imports, ← Registry.has_eq_isSome]
    exact hhas
  obtain ⟨scope, registry, hregister⟩ := Registry.exists_register hdeclared
    (by rw [h.enclosing]; exact h.lookup?_eq_none_iff.2 hfree) workspace.graph.modules.length
  rw [addModule_eq, h.types, hdraft, hregister]
  exact ⟨_, _, rfl⟩

theorem addModules_cons (workspace : Workspace) (package : String) (record : ModuleRecord)
    (records : List (String × ModuleRecord)) : workspace.addModules ((package, record) :: records) =
      match workspace.addModule package record with
      | .ok (_, next) => next.addModules records
      | .error error => ((workspace.addModules records).1, error :: (workspace.addModules records).2) := by
  rw [addModules, List.foldl_cons]
  dsimp only
  cases workspace.addModule package record with
  | ok result => rfl
  | error error =>
    rw [foldl_collect fun workspace errors record => by
      dsimp only; cases Workspace.addModule workspace record.1 record.2 <;> simp]
    rfl

/-- **Records that were loaded without errors** can each be loaded, and claim different names. -/
theorem Entered.addModules {done : List (String × ModuleRecord)} (h : Entered base done workspace)
    (hnodup : (done.map base.registry.slot).Nodup) (ha : workspace.addModules records = (workspace', [])) :
    (∀ record ∈ records, Enterable base record) ∧ ((done ++ records).map base.registry.slot).Nodup ∧
      Entered base (done ++ records) workspace' := by
  induction records generalizing done workspace with
  | nil =>
    injection ha with ha
    rw [List.append_nil, ← ha]
    exact ⟨fun _ hr => absurd hr List.not_mem_nil, hnodup, h⟩
  | cons record records ih =>
    obtain ⟨package, record⟩ := record
    rw [addModules_cons] at ha
    cases hadd : workspace.addModule package record with
    | error error => rw [hadd] at ha; cases ha
    | ok result =>
      obtain ⟨id, next⟩ := result
      rw [hadd] at ha
      obtain ⟨henter, hfree, hnext⟩ := h.addModule hadd
      have hmore : ((done ++ [(package, record)]).map base.registry.slot).Nodup := by
        rw [List.map_append, List.nodup_append]
        refine ⟨hnodup, List.nodup_singleton _, fun slot hslot other ho he => ?_⟩
        rw [List.map_singleton, List.mem_singleton] at ho
        exact hfree (ho ▸ he ▸ hslot)
      obtain ⟨hall, hrest, hlast⟩ := ih hnext hmore ha
      rw [List.append_cons]
      exact ⟨List.forall_mem_cons.2 ⟨henter, hall⟩, hrest, hlast⟩

/-- Records that can each be loaded and claim different names are loaded without errors. -/
theorem Entered.exists_addModules {done : List (String × ModuleRecord)} (h : Entered base done workspace)
    (hall : ∀ record ∈ records, Enterable base record)
    (hnodup : ((done ++ records).map base.registry.slot).Nodup) :
    ∃ workspace', workspace.addModules records = (workspace', []) := by
  induction records generalizing done workspace with
  | nil => exact ⟨workspace, rfl⟩
  | cons record records ih =>
    obtain ⟨package, record⟩ := record
    obtain ⟨henter, hall⟩ := List.forall_mem_cons.1 hall
    have hfree : base.registry.slot (package, record) ∉ done.map base.registry.slot := by
      rw [List.map_append, List.nodup_append] at hnodup
      exact fun hmem => hnodup.2.2 _ hmem _ List.mem_cons_self rfl
    obtain ⟨id, next, hadd⟩ := h.exists_addModule henter hfree
    rw [List.append_cons] at hnodup
    obtain ⟨workspace', hrest⟩ := ih (h.addModule hadd).2.2 hall hnodup
    exact ⟨workspace', by rw [addModules_cons, hadd]; exact hrest⟩

/-! ## The same records in another order -/

/-- A permutation of the places behind the first one. -/
def behindFirst (σ : Equiv.Perm Nat) : Equiv.Perm Nat where
  toFun
    | 0 => 0
    | i + 1 => σ i + 1
  invFun
    | 0 => 0
    | i + 1 => σ.symm i + 1
  left_inv i := by cases i <;> simp
  right_inv i := by cases i <;> simp

/-- Two orders of a list are told by a permutation of the places. -/
theorem exists_perm_getElem? {α : Type} {l l' : List α} (h : l.Perm l') : ∃ σ : Equiv.Perm Nat,
    (∀ i, l.length ≤ i → σ i = i) ∧ ∀ i, l'[σ i]? = l[i]? := by
  induction h with
  | nil => exact ⟨Equiv.refl _, fun _ _ => rfl, fun _ => rfl⟩
  | cons a _ ih =>
    obtain ⟨σ, hfree, hsame⟩ := ih
    refine ⟨behindFirst σ, fun i hi => ?_, fun i => ?_⟩
    · cases i with
      | zero => rfl
      | succ i => exact congrArg (· + 1) (hfree i (Nat.le_of_succ_le_succ hi))
    · cases i with
      | zero => rfl
      | succ i => exact hsame i
  | swap a b l =>
    refine ⟨Equiv.swap 0 1, fun i hi => ?_, fun i => ?_⟩
    · simp only [List.length_cons] at hi
      exact Equiv.swap_apply_of_ne_of_ne (by omega) (by omega)
    · rcases i with _ | _ | i
      · rfl
      · rfl
      · rw [Equiv.swap_apply_of_ne_of_ne (by omega) (by omega)]
        rfl
  | trans hp _ ih ih' =>
    obtain ⟨σ, hfree, hsame⟩ := ih
    obtain ⟨σ', hfree', hsame'⟩ := ih'
    refine ⟨σ.trans σ', fun i hi => ?_, fun i => (hsame' _).trans (hsame i)⟩
    rw [Equiv.trans_apply, hfree i hi, hfree' i (hp.length_eq ▸ hi)]

/-- A record makes the same module and variant under every number. -/
theorem Entered.counterpart {records' : List (String × ModuleRecord)} (h : Entered base records workspace)
    (h' : Entered base records' workspace') {id id' : ModuleId} {record : String × ModuleRecord}
    (hid : records[id]? = some record) (hid' : records'[id']? = some record) :
    ∃ (module : Module) (properties : Properties),
      workspace.graph.module id = { module with variants := [id] } ∧
      workspace'.graph.module id' = { module with variants := [id'] } ∧
      workspace.graph.variant id = ⟨id, [], properties, [], true⟩ ∧
      workspace'.graph.variant id' = ⟨id', [], properties, [], true⟩ := by
  obtain ⟨module, properties, hdraft, hmodule, hvariant⟩ := h.made id record hid
  obtain ⟨module', properties', hdraft', hmodule', hvariant'⟩ := h'.made id' record hid'
  obtain ⟨rfl, rfl⟩ : module = module' ∧ properties = properties' := by
    rw [hdraft] at hdraft'
    exact Prod.mk.inj (Except.ok.inj hdraft')
  exact ⟨{ module with scope := base.registry.enclosing record.1, dependents := [] }, properties, hmodule, hmodule',
    hvariant, hvariant'⟩

/-- Names are found under the numbers that their records have. -/
theorem Entered.lookup?_renamed {records' : List (String × ModuleRecord)} (h : Entered base records workspace)
    (h' : Entered base records' workspace') {σ : Equiv.Perm Nat} (hsame : ∀ i, records'[σ i]? = records[i]?)
    (scope name : String) :
    workspace'.registry.lookup? scope name = (workspace.registry.lookup? scope name).map σ := by
  refine Option.ext fun id' => ?_
  obtain ⟨id, rfl⟩ := σ.surjective id'
  rw [h'.lookup, hsame, ← h.lookup, Option.map_eq_some_iff]
  constructor
  · exact fun hid => ⟨id, hid, rfl⟩
  · rintro ⟨other, hother, he⟩
    exact σ.injective he ▸ hother

/-- **The same records make the same modules**, under other numbers if they come in another order. -/
theorem Entered.renamed {records' : List (String × ModuleRecord)} (h : Entered base records workspace)
    (h' : Entered base records' workspace') (hp : records.Perm records') : ∃ σ : Equiv.Perm Nat,
    Registry.Renamed σ workspace.registry workspace'.registry ∧
      Graph.Renamed σ σ workspace.graph workspace'.graph := by
  obtain ⟨σ, hfree, hsame⟩ := exists_perm_getElem? hp
  have hlength : records'.length = records.length := hp.length_eq.symm
  have hmade := fun (id : ModuleId) (hid : id < records.length) =>
    h.counterpart h' (List.getElem?_eq_getElem hid) ((hsame id).trans (List.getElem?_eq_getElem hid))
  -- beyond the records there is nothing on either side
  have hnone : ∀ m, records.length ≤ m →
      workspace.graph.module m = default ∧ workspace'.graph.module (σ m) = default := by
    intro m hm
    rw [hfree m hm]
    exact ⟨Graph.module_of_le (by rw [h.modules]; exact hm),
      Graph.module_of_le (by rw [h'.modules, hlength]; exact hm)⟩
  refine ⟨σ, Registry.renamed_of_lookup? (h.lookup?_renamed h' hsame) (h'.precedence.trans h.precedence.symm)
    (h'.imports.trans h.imports.symm) (h'.packages.trans h.packages.symm), ?_, ?_, ?_, ?_, fun m => ?_, fun m => ?_,
    fun v hv => ?_⟩
  · rw [h'.modules, h.modules, hlength]
  · rw [h'.variants, h.variants, hlength]
  · rw [h.modules]; exact hfree
  · rw [h.variants]; exact hfree
  · rcases Nat.lt_or_ge m records.length with hm | hm
    · obtain ⟨module, _, hmodule, hmodule', -, -⟩ := hmade m hm
      rw [hmodule, hmodule']
      rfl
    · rw [(hnone m hm).1, (hnone m hm).2]
  · rcases Nat.lt_or_ge m records.length with hm | hm
    · obtain ⟨module, _, hmodule, hmodule', -, -⟩ := hmade m hm
      rw [hmodule, hmodule']
      rfl
    · rw [(hnone m hm).1, (hnone m hm).2]
      rfl
  · rw [h.variants] at hv
    obtain ⟨_, properties, -, -, hvariant, hvariant'⟩ := hmade v hv
    rw [hvariant, hvariant']
    rfl

end Workspace
end VariantGraph
