import VariantGraph.Proofs.Defaults
import VariantGraph.Proofs.Defaults.References
/-!
# What modules end up with

The effective properties of a module are its own behind those of the modules it takes over from, which
are effective properties themselves (`Effective`). If no module takes over from itself, this equation
has a solution (`effective_settleAll`) and no other (`Effective.unique`): both go up the levels of the
digraph of sources, where each module comes after those it takes over from.
-/
namespace VariantGraph.Defaults

variable {registry : Registry} {types : TypeTable} {graph : Graph}

/-- The properties of a module behind those of some others, given what these end up with: the fields of
these that the type of the module has are appended one module after another, apart from the lists of
defaults and of rules, which are not taken over. A module of unknown type takes over all other fields. -/
def overlayAll (types : TypeTable) (graph : Graph) (effective : ModuleId → Except PropertyError Properties)
    (id : ModuleId) (targets : List ModuleId) : Except PropertyError Properties := do
  let schema? := (types.find? (graph.module id).moduleType).map (·.schema)
  let merged ← targets.foldlM (fun merged target => do
    let inherited ← effective target
    (inherit schema? merged inherited).outcome) []
  (merged.append (ownProperties graph id)).outcome

/-- The properties of a module behind those of the modules in its list, in the order of the list. -/
def overlay (registry : Registry) (types : TypeTable) (graph : Graph)
    (effective : ModuleId → Except PropertyError Properties) (id : ModuleId) : Except PropertyError Properties :=
  match sources registry graph id with
  | [] => .ok (ownProperties graph id)
  | targets => overlayAll types graph effective id targets

/-- What every module ends up with, or why there is nothing, all by the properties that the modules of a
graph have now. -/
def Effective (registry : Registry) (types : TypeTable) (graph : Graph)
    (effective : ModuleId → Except PropertyError Properties) : Prop :=
  ∀ id < graph.modules.length, effective id = overlay registry types graph effective id

/-! ## One module after another -/

section Settle
variable {taken : Digraph} {schema? : Option Schema} {settled settled' : ModuleId → Except PropertyError Properties}

theorem inheritAll_cons (merged : Properties) (id : ModuleId) (ids : List ModuleId) :
    inheritAll schema? settled merged (id :: ids) = settled id >>= fun inherited =>
      (inherit schema? merged inherited).outcome >>= fun merged => inheritAll schema? settled merged ids := by
  rw [inheritAll]
  refine bind_congr fun inherited => ?_
  cases inherit schema? merged inherited with
  | mk state result => cases result <;> rfl

theorem inheritAll_eq_foldlM (merged : Properties) (ids : List ModuleId) :
    inheritAll schema? settled merged ids = ids.foldlM (fun merged id => do
      let inherited ← settled id
      (inherit schema? merged inherited).outcome) merged := by
  induction ids generalizing merged with
  | nil => rfl
  | cons id ids ih => simp only [inheritAll_cons, List.foldlM_cons, bind_assoc, ih]

theorem inheritAll_congr {merged : Properties} {ids : List ModuleId} (h : ∀ id ∈ ids, settled id = settled' id) :
    inheritAll schema? settled merged ids = inheritAll schema? settled' merged ids := by
  induction ids generalizing merged with
  | nil => rfl
  | cons id ids ih =>
    simp only [inheritAll_cons, h id List.mem_cons_self, ih fun id hid => h id (List.mem_cons_of_mem _ hid)]

/-- What a module ends up with only depends on the modules it takes over from. -/
theorem settle_congr {id : ModuleId} (h : ∀ source, taken.Leads id source → settled source = settled' source) :
    settle types graph taken settled id = settle types graph taken settled' id := by
  unfold Digraph.Leads at h
  unfold settle
  cases hnext : taken.next id with
  | nil => rfl
  | cons first rest => rw [hnext] at h; simp only [inheritAll_congr h]

theorem settle_eq_overlay {id : ModuleId} (h : id < graph.modules.length) :
    settle types graph (sourceGraph registry graph) settled id = overlay registry types graph settled id := by
  unfold settle overlay
  rw [next_sourceGraph h]
  cases sources registry graph id with
  | nil => rfl
  | cons first rest =>
    simp only [inheritAll_eq_foldlM, overlayAll]
    refine bind_congr fun merged => ?_
    cases merged.append (ownProperties graph id) with
    | mk state result => cases result <;> rfl

end Settle

/-! ## There is one way to end up -/

/-- Once a list is settled in order, all of it is settled by what it takes over from. -/
theorem settle_settleAll {taken : Digraph} {done order : List ModuleId} (horder : taken.InOrder done order)
    (hnodup : order.Nodup) (hfresh : ∀ id ∈ order, id ∉ done) {settled : Settled}
    (hdone : ∀ id ∈ done, settled.of graph id = settle types graph taken (settled.of graph) id ∧
      ∀ source, taken.Leads id source → source ∈ done) :
    let final : Settled := order.foldl
      (fun settled id => (id, settle types graph taken (settled.of graph) id) :: settled) settled
    ∀ id, id ∈ done ∨ id ∈ order → final.of graph id = settle types graph taken (final.of graph) id := by
  induction order generalizing done settled with
  | nil => exact fun id hid => (hdone id (hid.resolve_right List.not_mem_nil)).1
  | cons first rest ih =>
    obtain ⟨hleads, hrest⟩ := horder
    obtain ⟨hnot, hnodup⟩ := List.nodup_cons.1 hnodup
    have hfirst : first ∉ done := hfresh first List.mem_cons_self
    -- settling the first module changes nothing that was settled before
    have hsame : ∀ id ∈ done, Settled.of graph
        ((first, settle types graph taken (settled.of graph) first) :: settled) id = settled.of graph id := by
      intro id hid
      have hne : (id == first) = false := by simpa using fun he : id = first => hfirst (he ▸ hid)
      simp only [Settled.of, List.lookup_cons, hne]
    intro final id hid
    refine ih hrest hnodup (fun id hid => ?_) (fun id hid => ?_) id ?_
    · rintro (_ | ⟨_, hmem⟩)
      · exact hnot hid
      · exact hfresh id (List.mem_cons_of_mem _ hid) hmem
    · rcases List.mem_cons.1 hid with rfl | hid
      · refine ⟨?_, fun source hs => List.mem_cons_of_mem _ (hleads source hs)⟩
        rw [settle_congr fun source hs => hsame source (hleads source hs)]
        simp [Settled.of]
      · obtain ⟨heq, hinside⟩ := hdone id hid
        refine ⟨?_, fun source hs => List.mem_cons_of_mem _ (hinside source hs)⟩
        rw [hsame id hid, heq]
        exact settle_congr fun source hs => (hsame source (hinside source hs)).symm
    · rcases hid with hid | hid
      · exact Or.inl (List.mem_cons_of_mem _ hid)
      · exact (List.mem_cons.1 hid).imp_left fun he => List.mem_cons.2 (Or.inl he)

theorem mem_of_levels? {levels : List (List Nat)} (h : (sourceGraph registry graph).levels? = some levels)
    {id : ModuleId} (hid : id < graph.modules.length) : id ∈ levels.flatten :=
  (Digraph.perm_of_levels? h).mem_iff.2 (List.mem_range.2 hid)

theorem effective_settleAll {levels : List (List Nat)} (h : (sourceGraph registry graph).levels? = some levels) :
    Effective registry types graph
      ((settleAll types graph (sourceGraph registry graph) levels.flatten).of graph) := by
  intro id hid
  rw [← settle_eq_overlay hid]
  have hnodup : levels.flatten.Nodup := (Digraph.perm_of_levels? h).nodup_iff.2 List.nodup_range
  exact settle_settleAll (Digraph.inOrder_of_levels? h) hnodup (fun _ _ => List.not_mem_nil)
    (fun _ hid => absurd hid List.not_mem_nil) id (Or.inr (mem_of_levels? h hid))

theorem Effective.unique {levels : List (List Nat)} (h : (sourceGraph registry graph).levels? = some levels)
    {effective effective' : ModuleId → Except PropertyError Properties}
    (he : Effective registry types graph effective) (he' : Effective registry types graph effective')
    {id : ModuleId} (hid : id < graph.modules.length) : effective id = effective' id := by
  have hall := Digraph.InOrder.induction (p := fun _ id => id < graph.modules.length → effective id = effective' id)
    (fun _ _ h => h) (fun _ id ih hid => ?_) (Digraph.inOrder_of_levels? h)
    (n := 0) (fun _ hid => absurd hid List.not_mem_nil)
  · exact hall id (mem_of_levels? h hid) hid
  · rw [he id hid, he' id hid, ← settle_eq_overlay hid, ← settle_eq_overlay hid]
    exact settle_congr fun source hs => ih source hs (List.mem_range.1 hs.mem_nodes)

/-! ## Fields that are not taken over -/

section Fields
variable {name : String} (hname : name ∈ notInherited)
include hname

theorem find?_inherit {schema? : Option Schema} {merged inherited : Properties} :
    Table.find? (inherit schema? merged inherited).state name = Table.find? merged name := by
  unfold inherit
  cases schema? with
  | some schema => exact Properties.find?_appendMatching_of_mem hname
  | none =>
    refine Properties.find?_appendAt_of_ne fun entry he => Table.ne_of_find?_eq_none ?_ he
    simp only [notInherited, List.foldl_cons, List.foldl_nil, Table.find?_erase]
    simp only [notInherited, List.mem_cons, List.not_mem_nil, or_false] at hname
    rcases hname with rfl | rfl | rfl <;> simp

theorem find?_foldlM_inherit {schema? : Option Schema} {effective : ModuleId → Except PropertyError Properties}
    {targets : List ModuleId} {merged result : Properties}
    (h : targets.foldlM (fun merged target => do
      let inherited ← effective target
      (inherit schema? merged inherited).outcome) merged = .ok result) :
    Table.find? result name = Table.find? merged name := by
  induction targets generalizing merged with
  | nil => injection h with h; rw [h]
  | cons target targets ih =>
    rw [List.foldlM_cons, bind_assoc] at h
    obtain ⟨inherited, -, h⟩ := bind_eq_ok h
    obtain ⟨next, hnext, h⟩ := bind_eq_ok h
    rw [ih h, ← (Attempt.outcome_eq_ok.1 hnext).2, find?_inherit hname]

/-- A module ends up with its own lists of defaults and of rules. -/
theorem find?_of_overlay {effective : ModuleId → Except PropertyError Properties} {id : ModuleId}
    (hordered : Table.Ordered (ownProperties graph id)) {properties : Properties}
    (h : overlay registry types graph effective id = .ok properties) :
    Table.find? properties name = Table.find? (ownProperties graph id) name := by
  unfold overlay at h
  split at h
  · injection h with h; rw [h]
  · obtain ⟨merged, hmerged, happend⟩ := bind_eq_ok h
    obtain ⟨herror, rfl⟩ := Attempt.outcome_eq_ok.1 happend
    have hnone : Table.find? merged name = none := find?_foldlM_inherit hname hmerged
    have hfind := Properties.find?_appendAt hordered herror name
    rw [hnone] at hfind
    exact hfind

end Fields

end VariantGraph.Defaults
