import VariantGraph.Proofs.Defaults.Propagation
import VariantGraph.Proofs.Property.Conformity
import VariantGraph.Proofs.Workspace.Load
/-!
# What defaults bring in

A value goes from module to module under its name, as long as each module on the way takes over from the
one before and has a field of that name (`Passes`). Those values, and no other, are what a module ends up
with (`collected`). At the top they are of the kinds that the module's own type asks for. Below
nothing is looked at, so a tree still conforms to its schema at every depth exactly if all values that
were passed to it do (`conforms_iff_passed`).
-/
namespace VariantGraph.Defaults

variable {registry : Registry} {types : TypeTable} {graph : Graph}
  {effective : ModuleId → Except PropertyError Properties} {good : String → Value → Prop}

/-- What one module has under a name reaches another one, which is the same or takes it over. -/
inductive Passes (registry : Registry) (types : TypeTable) (graph : Graph) (name : String) :
    ModuleId → ModuleId → Prop where
  | own (id : ModuleId) : Passes registry types graph name id id
  | step {origin source user : ModuleId} {type : ModuleType} (h : Passes registry types graph name origin source)
      (htaken : TakesFrom registry graph user source)
      (hknown : types.find? (graph.module user).moduleType = some type)
      (hfield : type.schema.has name = true) (hname : name ∉ notInherited) :
      Passes registry types graph name origin user

/-! ## One module -/

/-- What a module of known type takes over from one other. -/
theorem forall_inherit {schema : Schema} {merged inherited : Properties}
    (hgood : ∀ name value, Mergeable good name value)
    (h : (inherit (some schema) merged inherited).error? = none) :
    (∀ entry ∈ (inherit (some schema) merged inherited).state, good entry.1 entry.2) ↔
      (∀ entry ∈ merged, good entry.1 entry.2) ∧
        ∀ entry ∈ inherited, entry.1 ∉ notInherited → schema.has entry.1 = true → good entry.1 entry.2 :=
  forall_appendMatching (fun entry _ => hgood entry.1 entry.2) h

/-- What a module of known type takes over from some others. -/
theorem forall_foldlM_inherit {schema : Schema} {targets : List ModuleId} {merged result : Properties}
    (hgood : ∀ name value, Mergeable good name value)
    (h : targets.foldlM (fun merged target => do
      let inherited ← effective target
      (inherit (some schema) merged inherited).outcome) merged = .ok result) :
    (∀ entry ∈ result, good entry.1 entry.2) ↔ (∀ entry ∈ merged, good entry.1 entry.2) ∧
      ∀ target ∈ targets, ∀ inherited, effective target = .ok inherited → ∀ entry ∈ inherited,
        entry.1 ∉ notInherited → schema.has entry.1 = true → good entry.1 entry.2 := by
  induction targets generalizing merged with
  | nil => injection h with h; simp [h]
  | cons target targets ih =>
    rw [List.foldlM_cons, bind_assoc] at h
    obtain ⟨inherited, hinherited, h⟩ := bind_eq_ok h
    obtain ⟨next, hnext, h⟩ := bind_eq_ok h
    obtain ⟨herror, rfl⟩ := Attempt.outcome_eq_ok.1 hnext
    rw [ih h, forall_inherit hgood herror, List.forall_mem_cons, hinherited, and_assoc]
    simp only [Except.ok.injEq, forall_eq']

/-- What a module of known type ends up with is its own, and what it takes over of what others end up
with. -/
theorem forall_overlay {id : ModuleId} {type : ModuleType} {properties : Properties}
    (hgood : ∀ name value, Mergeable good name value)
    (hknown : types.find? (graph.module id).moduleType = some type)
    (h : overlay registry types graph effective id = .ok properties) :
    (∀ entry ∈ properties, good entry.1 entry.2) ↔
      (∀ entry ∈ ownProperties graph id, good entry.1 entry.2) ∧
        ∀ source ∈ sources registry graph id, ∀ inherited, effective source = .ok inherited →
          ∀ entry ∈ inherited, entry.1 ∉ notInherited → type.schema.has entry.1 = true → good entry.1 entry.2 := by
  unfold overlay at h
  split at h
  · next hnone => injection h with h; simp [hnone, h]
  · next targets _ =>
    obtain ⟨merged, hmerged, happend⟩ := bind_eq_ok h
    obtain ⟨herror, rfl⟩ := Attempt.outcome_eq_ok.1 happend
    rw [hknown, Option.map_some] at hmerged
    rw [Properties.append, forall_appendAt (fun entry _ => hgood entry.1 entry.2) herror,
      forall_foldlM_inherit hgood hmerged, and_comm]
    simp

/-- All that a module of known type takes over is of the kinds that its type asks for, at the top. -/
theorem fits_of_foldlM_inherit {schema : Schema} {targets : List ModuleId} {merged result : Properties}
    (h : targets.foldlM (fun merged target => do
      let inherited ← effective target
      (inherit (some schema) merged inherited).outcome) merged = .ok result)
    (hmerged : ∀ entry ∈ merged, schema.fits entry.1 entry.2 = true) :
    ∀ entry ∈ result, schema.fits entry.1 entry.2 = true := by
  induction targets generalizing merged with
  | nil => injection h with h; exact h ▸ hmerged
  | cons target targets ih =>
    rw [List.foldlM_cons, bind_assoc] at h
    obtain ⟨inherited, -, h⟩ := bind_eq_ok h
    obtain ⟨next, hnext, h⟩ := bind_eq_ok h
    obtain ⟨herror, rfl⟩ := Attempt.outcome_eq_ok.1 hnext
    exact ih h ((forall_inherit (mergeable_fits schema) herror).2 ⟨hmerged, fits_of_appendMatching herror⟩)

theorem fits_of_overlay {id : ModuleId} {type : ModuleType} {properties : Properties}
    (hknown : types.find? (graph.module id).moduleType = some type)
    (hown : ∀ entry ∈ ownProperties graph id, type.schema.fits entry.1 entry.2 = true)
    (h : overlay registry types graph effective id = .ok properties) :
    ∀ entry ∈ properties, type.schema.fits entry.1 entry.2 = true := by
  unfold overlay at h
  split at h
  · injection h with h; exact h ▸ hown
  · obtain ⟨merged, hmerged, happend⟩ := bind_eq_ok h
    obtain ⟨herror, rfl⟩ := Attempt.outcome_eq_ok.1 happend
    rw [hknown, Option.map_some] at hmerged
    have hall := fits_of_foldlM_inherit hmerged fun _ he => absurd he List.not_mem_nil
    exact (forall_appendAt (fun entry _ => mergeable_fits type.schema entry.1 entry.2) herror).2 ⟨hall, hown⟩

/-! ## All modules -/

/-- What a module ends up with is what is passed to it: something that merging keeps holds of all of it
exactly if it holds of all that the modules have which pass it on. -/
def Collected (registry : Registry) (types : TypeTable) (graph : Graph)
    (effective : ModuleId → Except PropertyError Properties) (id : ModuleId) : Prop :=
  ∀ properties, effective id = .ok properties → ∀ good : String → Value → Prop,
    (∀ name value, Mergeable good name value) → ((∀ entry ∈ properties, good entry.1 entry.2) ↔
      ∀ origin name value, Passes registry types graph name origin id →
        (name, value) ∈ ownProperties graph origin → good name value)

section Modules
variable (hknown : ∀ id < graph.modules.length, ∃ type, types.find? (graph.module id).moduleType = some type)
  (he : Effective registry types graph effective)
  (hok : ∀ id < graph.modules.length, ∃ properties, effective id = .ok properties)
include hknown he hok

/-- It is, if it is for all modules that the module takes over from. -/
theorem Collected.step {id : ModuleId} (hid : id < graph.modules.length)
    (hsources : ∀ source ∈ sources registry graph id, Collected registry types graph effective source) :
    Collected registry types graph effective id := by
  intro properties h good hgood
  obtain ⟨type, htype⟩ := hknown id hid
  -- of a source only those fields count that are taken over
  have hsource : ∀ source ∈ sources registry graph id, ∀ inherited, effective source = .ok inherited →
      ((∀ entry ∈ inherited, entry.1 ∉ notInherited → type.schema.has entry.1 = true → good entry.1 entry.2) ↔
        ∀ origin name value, Passes registry types graph name origin source →
          (name, value) ∈ ownProperties graph origin → name ∉ notInherited → type.schema.has name = true →
            good name value) := fun source hs inherited hinherited =>
    hsources source hs inherited hinherited
      (fun name value => name ∉ notInherited → type.schema.has name = true → good name value)
      fun name value => Mergeable.under _ (Mergeable.under _ (hgood name value))
  rw [forall_overlay hgood htype ((he id hid).symm.trans h)]
  constructor
  · rintro ⟨hown, htaken⟩ origin name value hpasses hmem
    cases hpasses with
    | own => exact hown (name, value) hmem
    | step hpasses htakes hknown' hfield hname =>
      cases htype.symm.trans hknown'
      have hs := mem_sources.2 htakes.2
      obtain ⟨reference, -, hresolve⟩ := htakes.2
      obtain ⟨inherited, hinherited⟩ := hok _ (lt_of_resolve hresolve)
      exact (hsource _ hs inherited hinherited).1 (htaken _ hs inherited hinherited) origin name value hpasses
        hmem hname hfield
  · intro hpassed
    refine ⟨fun entry hmem => hpassed id entry.1 entry.2 (.own id) hmem, fun source hs inherited hinherited => ?_⟩
    refine (hsource source hs inherited hinherited).2 fun origin name value hpasses hmem hname hfield => ?_
    exact hpassed origin name value (.step hpasses ⟨hid, mem_sources.1 hs⟩ htype hfield hname) hmem

/-- **Every module ends up with what is passed to it.** -/
theorem collected {levels : List (List Nat)} (hlevels : (sourceGraph registry graph).levels? = some levels)
    {id : ModuleId} (hid : id < graph.modules.length) : Collected registry types graph effective id := by
  have hall := Digraph.InOrder.induction
    (p := fun _ id => id < graph.modules.length → Collected registry types graph effective id)
    (fun _ _ h => h) (fun _ id ih hid => ?_) (Digraph.inOrder_of_levels? hlevels)
    (n := 0) (fun _ hid => absurd hid List.not_mem_nil)
  · exact hall id (mem_of_levels? hlevels hid) hid
  · refine Collected.step hknown he hok hid fun source hs => ?_
    obtain ⟨reference, -, hresolve⟩ := mem_sources.1 hs
    refine ih source ?_ (lt_of_resolve hresolve)
    rw [leads_sourceGraph]
    exact ⟨hid, mem_sources.1 hs⟩

end Modules

end VariantGraph.Defaults
