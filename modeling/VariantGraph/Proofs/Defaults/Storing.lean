import VariantGraph.Proofs.Defaults.Effective
/-!
# Giving modules what they end up with

Modules have first variants of their own (`firstVariant_injective`), so storing what some modules end up
with changes the variant of each of them once and no other (`variant_place_of_mem`,
`variant_place_of_ne`), whatever their order (`foldl_place_perm`).
-/
namespace VariantGraph.Defaults

variable {graph : Graph} {effective : ModuleId → Except PropertyError Properties}

/-! ## First variants -/

section FirstVariant
variable (hlinked : graph.Linked)
include hlinked

theorem firstVariant_mem {id : ModuleId} (h : id < graph.modules.length) :
    firstVariant (graph.module id) ∈ (graph.module id).variants := by
  have hne := hlinked.inhabited id h
  unfold firstVariant
  cases hv : (graph.module id).variants with
  | nil => exact absurd hv hne
  | cons first rest => exact List.mem_cons_self

theorem firstVariant_lt {id : ModuleId} (h : id < graph.modules.length) :
    firstVariant (graph.module id) < graph.variants.length :=
  Graph.lt_of_isLive (hlinked.current id h _ (firstVariant_mem hlinked h)).1

theorem firstVariant_injective {a b : ModuleId} (ha : a < graph.modules.length) (hb : b < graph.modules.length)
    (h : firstVariant (graph.module a) = firstVariant (graph.module b)) : a = b := by
  rw [← (hlinked.current a ha _ (firstVariant_mem hlinked ha)).2, h,
    (hlinked.current b hb _ (firstVariant_mem hlinked hb)).2]

end FirstVariant

/-! ## One module -/

/-- A variant with what its module ends up with, if there is anything. -/
def deliver (effective : ModuleId → Except PropertyError Properties) (id : ModuleId) (variant : Variant) : Variant :=
  match effective id with
  | .ok properties => { variant with properties }
  | .error _ => variant

/-- The graph in which one module has what it ends up with. -/
def place (graph : Graph) (effective : ModuleId → Except PropertyError Properties) (current : Graph)
    (id : ModuleId) : Graph :=
  current.modifyVariant (firstVariant (graph.module id)) (deliver effective id)

/-- The error for a module that ends up with nothing. -/
def failure? (graph : Graph) (effective : ModuleId → Except PropertyError Properties) (id : ModuleId) :
    Option BuildError :=
  match effective id with
  | .ok _ => none
  | .error cause => some (.invalidProperty ⟨(graph.module id).name, (graph.module id).package⟩ cause)

theorem store_eq (build : Build) (h : build.graph.modules = graph.modules) (id : ModuleId) :
    store effective build id =
      ⟨place graph effective build.graph id, build.errors ++ (failure? graph effective id).toList⟩ := by
  have hmodule : build.graph.module id = graph.module id := Graph.module_congr h id
  unfold store place failure?
  rw [hmodule]
  cases he : effective id with
  | ok properties =>
    have hdeliver : deliver effective id = fun variant => { variant with properties } := by
      funext variant; simp only [deliver, he]
    rw [hdeliver, Option.toList_none, List.append_nil]
    rfl
  | error cause =>
    have hdeliver : deliver effective id = fun variant => variant := by funext variant; simp only [deliver, he]
    have hsame : build.graph.variants.modify (firstVariant (graph.module id)) (fun variant => variant) =
        build.graph.variants := List.modify_id _ _
    rw [hdeliver, Graph.modifyVariant, hsame]
    rfl

/-- **Some modules after another.** The errors come in their order. -/
theorem foldl_store_eq (users : List ModuleId) (build : Build) (h : build.graph.modules = graph.modules) :
    users.foldl (store effective) build =
      ⟨users.foldl (place graph effective) build.graph,
        build.errors ++ users.filterMap (failure? graph effective)⟩ := by
  induction users generalizing build with
  | nil => simp
  | cons id users ih =>
    have hplace : (place graph effective build.graph id).modules = graph.modules := h
    rw [List.foldl_cons, List.foldl_cons, store_eq build h, ih ⟨place graph effective build.graph id, _⟩ hplace,
      List.append_assoc]
    refine congrArg (Build.mk _) (congrArg (build.errors ++ ·) ?_)
    cases hf : failure? graph effective id <;> simp [hf]

/-! ## All modules -/

@[simp] theorem modules_foldl_place (users : List ModuleId) (current : Graph) :
    (users.foldl (place graph effective) current).modules = current.modules := by
  induction users generalizing current with
  | nil => rfl
  | cons id users ih => exact ih _

@[simp] theorem length_variants_foldl_place (users : List ModuleId) (current : Graph) :
    (users.foldl (place graph effective) current).variants.length = current.variants.length := by
  induction users generalizing current with
  | nil => rfl
  | cons id users ih => exact (ih _).trans (Graph.length_variants_modifyVariant ..)

theorem variant_place_of_ne {v : VariantId} {users : List ModuleId} {current : Graph}
    (h : ∀ id ∈ users, firstVariant (graph.module id) ≠ v) :
    (users.foldl (place graph effective) current).variant v = current.variant v := by
  induction users generalizing current with
  | nil => rfl
  | cons id users ih =>
    rw [List.foldl_cons, ih fun other ho => h other (List.mem_cons_of_mem _ ho), place, Graph.variant_modifyVariant,
      if_neg fun hv => h id List.mem_cons_self hv.1.symm]

section Linked
variable (hlinked : graph.Linked)
include hlinked

theorem variant_place_of_mem {users : List ModuleId} (husers : ∀ id ∈ users, id < graph.modules.length)
    (hnodup : users.Nodup) {current : Graph} (hlen : current.variants.length = graph.variants.length)
    {id : ModuleId} (h : id ∈ users) :
    (users.foldl (place graph effective) current).variant (firstVariant (graph.module id)) =
      deliver effective id (current.variant (firstVariant (graph.module id))) := by
  induction users generalizing current with
  | nil => cases h
  | cons first rest ih =>
    obtain ⟨hnot, hnodup⟩ := List.nodup_cons.1 hnodup
    have hfirst := husers first List.mem_cons_self
    have hrest := fun other ho => husers other (List.mem_cons_of_mem first ho)
    have hlt := firstVariant_lt hlinked (husers id h)
    rw [List.foldl_cons]
    by_cases he : id = first
    · -- nothing is stored for this module afterwards
      subst he
      rw [variant_place_of_ne fun other ho hv => hnot (firstVariant_injective hlinked (hrest other ho) hfirst hv ▸ ho),
        place, Graph.variant_modifyVariant, if_pos ⟨rfl, hlen.symm ▸ hlt⟩]
    · have hne : firstVariant (graph.module id) ≠ firstVariant (graph.module first) :=
        fun hv => he (firstVariant_injective hlinked (husers id h) hfirst hv)
      rw [ih hrest hnodup (by rw [place, Graph.length_variants_modifyVariant, hlen])
        ((List.mem_cons.1 h).resolve_left he), place, Graph.variant_modifyVariant, if_neg fun hv => hne hv.1]

/-- The order in which modules are given what they end up with does not matter. -/
theorem foldl_place_perm {users users' : List ModuleId} (husers : ∀ id ∈ users, id < graph.modules.length)
    (hperm : users.Perm users') (current : Graph) :
    users.foldl (place graph effective) current = users'.foldl (place graph effective) current := by
  refine hperm.foldl_eq' (fun a ha b hb current => ?_) current
  by_cases he : a = b
  · rw [he]
  · have hne : firstVariant (graph.module a) ≠ firstVariant (graph.module b) :=
      fun hv => he (firstVariant_injective hlinked (husers a ha) (husers b hb) hv)
    simp only [place, Graph.modifyVariant, List.modify_modify_ne _ _ _ hne]

end Linked

end VariantGraph.Defaults
