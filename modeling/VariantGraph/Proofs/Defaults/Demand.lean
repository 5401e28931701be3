import VariantGraph.Proofs.Defaults.Storing
/-!
# Taking over on demand

The same without levels: each module that takes over from others is asked for in turn, what it needs is
asked for on the way, and what was merged is kept in a memo. Three things could go wrong. The recursion
could go on for ever; the memo is only filled where merging succeeds, so the rest is merged again and
again; and modules get their properties in the graph while others are still to be asked for, which reads
properties from that same graph. None does (`demandEach_eq`): the memo holds what modules end up with, and
whoever has been given anything is in the memo (`Remembered`), so its properties are not merged twice.
-/
namespace VariantGraph.Defaults

/-! ## Asking -/

/-- What modules were found to end up with, latest first. -/
abbrev Memo := List (ModuleId × Properties)

/-- A computation that fills a memo. It may fail, and then the memo stays as it is by that time; it gives
no answer at all if it goes too deep. -/
abbrev Demand := ExceptT PropertyError (StateT Memo Option)

/-- Merges the properties of a module behind those of some others, given how to ask for these, and puts
the result into the memo. -/
def mergeOver (types : TypeTable) (current : Graph) (ask : ModuleId → Demand Properties) (id : ModuleId)
    (targets : List ModuleId) : Demand Properties := do
  let schema? := (types.find? (current.module id).moduleType).map (·.schema)
  let merged ← targets.foldlM (fun merged target => do
    let inherited ← ask target
    liftExcept (inherit schema? merged inherited).outcome) []
  let properties ← liftExcept (merged.append (ownProperties current id)).outcome
  modify fun memo => (id, properties) :: memo
  return properties

/-- What one module ends up with, asked of a graph as it stands; fuel bounds how deep modules may take
over from each other. -/
def flatten (types : TypeTable) (taken : Digraph) (current : Graph) : Nat → ModuleId → Demand Properties
  | 0, _ => fun _ => none
  | fuel + 1, id => do
    match (← get).lookup id with
    | some properties => return properties
    | none =>
      match taken.next id with
      | [] => return ownProperties current id
      | targets => mergeOver types current (flatten types taken current fuel) id targets

/-- Asks for some modules one after another, and gives each what it ends up with at once. -/
def demandEach (types : TypeTable) (taken : Digraph) (fuel : Nat) : List ModuleId → Memo → Build → Option Build
  | [], _, build => some build
  | id :: rest, memo, build => do
    let (answer, memo) ← flatten types taken build.graph fuel id memo
    demandEach types taken fuel rest memo (store (fun _ => answer) build id)

/-- The modules that take over from others. -/
def users (registry : Registry) (graph : Graph) : List ModuleId :=
  graph.moduleIds.filter fun id => sources registry graph id ≠ []

/-- Takes over all defaults on demand, for the modules of a list in the order of the list. -/
def propagateOnDemand (registry : Registry) (types : TypeTable) (graph : Graph) (order : List ModuleId) :
    Option Build :=
  let taken := sourceGraph registry graph
  let faults := referenceErrors registry graph ++ cycleErrors graph taken
  if faults = [] then demandEach types taken graph.modules.length order [] ⟨graph, []⟩ else some ⟨graph, faults⟩

/-! ## Answers -/

section Answers
variable {α β : Type} {kept : Memo → Prop}

theorem Demand.bind_apply (demand : Demand α) (next : α → Demand β) (memo : Memo) :
    (demand >>= next) memo =
      match demand memo with
      | none => none
      | some (.ok answer, memo') => next answer memo'
      | some (.error error, memo') => some (.error error, memo') := by
  show (demand memo).bind _ = _
  cases h : demand memo with
  | none => rfl
  | some entry =>
    obtain ⟨answer | answer, memo'⟩ := entry <;> rfl

theorem Demand.bind_eq_ok {demand : Demand α} {next : α → Demand β} {memo memo' : Memo} {answer : β}
    (h : (demand >>= next) memo = some (.ok answer, memo')) :
    ∃ first between, demand memo = some (.ok first, between) ∧ next first between = some (.ok answer, memo') := by
  rw [Demand.bind_apply] at h
  cases hd : demand memo with
  | none => rw [hd] at h; cases h
  | some entry =>
    obtain ⟨error | first, between⟩ := entry
    · rw [hd] at h; injection h with h; cases h
    · rw [hd] at h; exact ⟨first, between, rfl, h⟩

/-- A computation has some answer from every memo of a kind, and leaves a memo of that kind. -/
def Demand.Answers (kept : Memo → Prop) (demand : Demand α) (answer : Except PropertyError α) : Prop :=
  ∀ memo, kept memo → ∃ memo', demand memo = some (answer, memo') ∧ kept memo'

theorem Demand.Answers.pure (answer : α) : Answers kept (Pure.pure answer) (.ok answer) :=
  fun memo h => ⟨memo, rfl, h⟩

theorem Demand.Answers.lift (answer : Except PropertyError α) : Answers kept (liftExcept answer) answer := by
  intro memo h
  cases answer <;> exact ⟨memo, rfl, h⟩

/-- Going on with an answer that is there already. -/
theorem Demand.Answers.lift_bind {answer : Except PropertyError α} {next : α → Demand α}
    (h : ∀ a, answer = .ok a → Answers kept (next a) (.ok a)) :
    Answers kept (liftExcept answer >>= next) answer := by
  cases answer with
  | error error => exact fun memo hmemo => ⟨memo, rfl, hmemo⟩
  | ok a => exact h a rfl

theorem Demand.Answers.bind {demand : Demand α} {answer : Except PropertyError α} {next : α → Demand β}
    {next' : α → Except PropertyError β} (h : Answers kept demand answer)
    (hnext : ∀ a, answer = .ok a → Answers kept (next a) (next' a)) :
    Answers kept (demand >>= next) (answer >>= next') := by
  intro memo hmemo
  obtain ⟨memo', hrun, hmemo'⟩ := h memo hmemo
  rw [Demand.bind_apply, hrun]
  cases answer with
  | error error => exact ⟨memo', rfl, hmemo'⟩
  | ok a => exact hnext a rfl memo' hmemo'

theorem Demand.Answers.foldlM {f : β → ModuleId → Demand β} {f' : β → ModuleId → Except PropertyError β}
    {ids : List ModuleId} (h : ∀ id ∈ ids, ∀ b, Answers kept (f b id) (f' b id)) (b : β) :
    Answers kept (ids.foldlM f b) (ids.foldlM f' b) := by
  induction ids generalizing b with
  | nil => exact .pure b
  | cons id ids ih =>
    rw [List.foldlM_cons, List.foldlM_cons]
    exact (h id List.mem_cons_self b).bind fun next _ => ih (fun id hid => h id (List.mem_cons_of_mem _ hid)) next

end Answers

/-! ## What the memo holds -/

/-- The memo holds what modules end up with, and whoever is not in it has its own properties yet. -/
structure Remembered (graph : Graph) (effective : ModuleId → Except PropertyError Properties) (current : Graph)
    (memo : Memo) : Prop where
  sound : ∀ id properties, memo.lookup id = some properties → effective id = .ok properties
  unchanged : ∀ id < graph.modules.length, memo.lookup id = none →
    ownProperties current id = ownProperties graph id

variable {registry : Registry} {types : TypeTable} {graph current : Graph}
  {effective : ModuleId → Except PropertyError Properties} {memo memo' : Memo}

theorem Remembered.push (h : Remembered graph effective current memo) {id : ModuleId} {properties : Properties}
    (hid : effective id = .ok properties) : Remembered graph effective current ((id, properties) :: memo) := by
  refine ⟨fun other found hfound => ?_, fun other hother hnone => ?_⟩
  · rw [List.lookup_cons] at hfound
    split at hfound
    · next he => injection hfound with hfound; rw [← hfound, eq_of_beq he, hid]
    · exact h.sound other found hfound
  · rw [List.lookup_cons] at hnone
    split at hnone
    · cases hnone
    · exact h.unchanged other hother hnone

/-- A module may be given what it ends up with once it is in the memo. -/
theorem Remembered.place (hlinked : graph.Linked) (h : Remembered graph effective current memo) {id : ModuleId}
    (hid : id < graph.modules.length) (hmodules : current.modules = graph.modules)
    (hmemo : ∀ properties, effective id = .ok properties → memo.lookup id = some properties) :
    Remembered graph effective (place graph effective current id) memo := by
  refine ⟨h.sound, fun other hother hnone => ?_⟩
  have hmodule : (Defaults.place graph effective current id).module other = graph.module other :=
    Graph.module_congr hmodules other
  rw [← h.unchanged other hother hnone, ownProperties, ownProperties, hmodule,
    show current.module other = graph.module other from hmodule, Defaults.place, Graph.variant_modifyVariant]
  split
  · next he =>
    -- only the module that is given something could differ, and it is in the memo
    obtain rfl := firstVariant_injective hlinked hother hid he.1
    unfold deliver
    split
    · next properties hok => rw [hmemo properties hok] at hnone; cases hnone
    · rfl
  · rfl

/-! ## Asking for one module -/

theorem flatten_apply (taken : Digraph) (fuel : Nat) (id : ModuleId) :
    flatten types taken current (fuel + 1) id memo =
      match memo.lookup id with
      | some properties => some (.ok properties, memo)
      | none =>
        match taken.next id with
        | [] => some (.ok (ownProperties current id), memo)
        | targets => mergeOver types current (flatten types taken current fuel) id targets memo := by
  rw [flatten, Demand.bind_apply]
  show (match memo.lookup id with
    | some properties => _
    | none => _ : Demand Properties) memo = _
  cases memo.lookup id with
  | some properties => rfl
  | none => cases taken.next id <;> rfl

/-- Whatever was merged is in the memo afterwards. -/
theorem lookup_of_flatten {taken : Digraph} {fuel : Nat} {id : ModuleId} {properties : Properties}
    (h : flatten types taken current fuel id memo = some (.ok properties, memo')) (hnext : taken.next id ≠ []) :
    memo'.lookup id = some properties := by
  cases fuel with
  | zero => cases h
  | succ fuel =>
    rw [flatten_apply] at h
    cases hl : memo.lookup id with
    | some found => rw [hl] at h; injection h with h; injection h with h h'; injection h with h; rw [← h', ← h, hl]
    | none =>
      rw [hl] at h
      cases hn : taken.next id with
      | nil => exact absurd hn hnext
      | cons first rest =>
        rw [hn] at h
        obtain ⟨merged, between, -, h⟩ := Demand.bind_eq_ok h
        obtain ⟨result, last, -, h⟩ := Demand.bind_eq_ok h
        injection h with h
        injection h with h h'
        injection h with h
        rw [← h', ← h, List.lookup_cons_self]

/-- Merging over some modules answers as they do, and keeps what the answer may be kept with. -/
theorem answers_mergeOver {kept : Memo → Prop} {ask : ModuleId → Demand Properties} {id : ModuleId}
    {targets : List ModuleId}
    (hask : ∀ target ∈ targets, Demand.Answers kept (ask target) (effective target))
    (hkept : ∀ memo properties, kept memo → overlayAll types current effective id targets = .ok properties →
      kept ((id, properties) :: memo)) :
    Demand.Answers kept (mergeOver types current ask id targets) (overlayAll types current effective id targets) := by
  refine Demand.Answers.bind (Demand.Answers.foldlM (fun target ht merged =>
    (hask target ht).bind fun inherited _ => .lift _) []) fun merged hmerged => ?_
  refine Demand.Answers.lift_bind fun properties hproperties memo hmemo => ?_
  refine ⟨(id, properties) :: memo, rfl, hkept memo properties hmemo ?_⟩
  show (_ >>= _) = _
  rw [hmerged]
  exact hproperties

section Effective
variable (heffective : Effective registry types graph effective) (hmodules : current.modules = graph.modules)
include heffective hmodules

/-- Asking for a module answers what it ends up with, if asking for those it takes over from does. -/
theorem answers_flatten_succ {fuel : Nat} {id : ModuleId} (hid : id < graph.modules.length)
    (hask : ∀ target ∈ sources registry graph id, Demand.Answers (Remembered graph effective current)
      (flatten types (sourceGraph registry graph) current fuel target) (effective target)) :
    Demand.Answers (Remembered graph effective current)
      (flatten types (sourceGraph registry graph) current (fuel + 1) id) (effective id) := by
  intro memo hmemo
  have hstep := heffective id hid
  unfold overlay at hstep
  rw [flatten_apply, next_sourceGraph hid]
  cases hl : memo.lookup id with
  | some properties => exact ⟨memo, by rw [hmemo.sound id properties hl], hmemo⟩
  | none =>
    have hown := hmemo.unchanged id hid hl
    have hmodule : current.module id = graph.module id := Graph.module_congr hmodules id
    cases hs : sources registry graph id with
    | nil => rw [hs] at hstep; exact ⟨memo, by rw [hstep, hown], hmemo⟩
    | cons first rest =>
      rw [hs] at hstep hask
      have hsame : overlayAll types current effective id (first :: rest) = effective id := by
        rw [hstep]; unfold overlayAll; rw [hmodule, hown]
      rw [← hsame]
      exact answers_mergeOver hask (fun memo properties hkept hok => hkept.push (hsame ▸ hok)) memo hmemo

/-- **Asking comes to an end.** No way that modules take over from each other is longer than there are
modules, and asking for one answers what it ends up with. -/
theorem answers_flatten {levels : List (List Nat)} (hlevels : (sourceGraph registry graph).levels? = some levels)
    {id : ModuleId} (hid : id < graph.modules.length) :
    Demand.Answers (Remembered graph effective current)
      (flatten types (sourceGraph registry graph) current graph.modules.length id) (effective id) := by
  -- each module of the order needs one unit of fuel more than those it takes over from
  have hall := Digraph.InOrder.induction
    (p := fun n id => id < graph.modules.length → ∀ fuel, n ≤ fuel →
      Demand.Answers (Remembered graph effective current)
        (flatten types (sourceGraph registry graph) current fuel id) (effective id))
    (fun n id h hid fuel hf => h hid fuel (Nat.le_of_succ_le hf)) (fun n id ih hid fuel hf => ?_)
    (Digraph.inOrder_of_levels? hlevels) (n := 0) (fun id hid => absurd hid List.not_mem_nil)
  · have hlength : levels.flatten.length = graph.modules.length :=
      (Digraph.perm_of_levels? hlevels).length_eq.trans List.length_range
    exact hall id (mem_of_levels? hlevels hid) hid _ (by omega)
  · obtain ⟨less, rfl⟩ : ∃ less, fuel = less + 1 := ⟨fuel - 1, by omega⟩
    refine answers_flatten_succ heffective hmodules hid fun target ht => ?_
    obtain ⟨reference, -, hresolve⟩ := mem_sources.1 ht
    refine ih target ?_ (lt_of_resolve hresolve) less (Nat.le_of_succ_le_succ hf)
    rw [Digraph.Leads, next_sourceGraph hid]
    exact ht

end Effective

/-! ## Asking for all modules -/

/-- **The memo makes no difference**, and neither do the properties that were stored on the way. -/
theorem demandEach_eq (hlinked : graph.Linked) (heffective : Effective registry types graph effective)
    {levels : List (List Nat)} (hlevels : (sourceGraph registry graph).levels? = some levels)
    {order : List ModuleId} (horder : ∀ id ∈ order, id ∈ users registry graph) {build : Build}
    (hmodules : build.graph.modules = graph.modules) (hmemo : Remembered graph effective build.graph memo) :
    demandEach types (sourceGraph registry graph) graph.modules.length order memo build =
      some (order.foldl (store effective) build) := by
  induction order generalizing memo build with
  | nil => rfl
  | cons id order ih =>
    obtain ⟨hmem, hsources⟩ := List.mem_filter.1 (horder id List.mem_cons_self)
    have hid : id < graph.modules.length := List.mem_range.1 hmem
    obtain ⟨memo', hrun, hmemo'⟩ := answers_flatten heffective hmodules hlevels hid memo hmemo
    have hstore : store (fun _ => effective id) build id = store effective build id := rfl
    rw [demandEach, hrun, List.foldl_cons]
    simp only [Option.bind_eq_bind, Option.bind_some, hstore]
    rw [store_eq build hmodules]
    refine ih (fun other ho => horder other (List.mem_cons_of_mem _ ho)) hmodules
      (hmemo'.place hlinked hid hmodules fun properties hok => ?_)
    rw [hok] at hrun
    refine lookup_of_flatten hrun ?_
    rw [next_sourceGraph hid]
    simpa using hsources

end VariantGraph.Defaults
