import VariantGraph.Proofs.Defaults.Propagation
import VariantGraph.Proofs.Graph.Renaming
import VariantGraph.Proofs.Namespace.Renaming
/-!
# Taking over defaults does not depend on numbers

What modules take over from each other is told by references, and what they end up with by an equation
without numbers (`Effective.renamed`). So on graphs of unsplit modules that differ in the numbers, taking
over defaults goes well on both or on neither, and keeps the difference (`propagate_renamed`).
-/
namespace VariantGraph

/-- A graph in which every module has one variant, of the same number. -/
structure Graph.Single (graph : Graph) : Prop where
  size : graph.variants.length = graph.modules.length
  variants : ∀ id < graph.modules.length, (graph.module id).variants = [id]

/-- Other properties, the same on both sides. -/
theorem Graph.Renamed.ofShape {σ φ : Equiv.Perm Nat} {a b a' b' : Graph} (h : Renamed σ φ a b)
    (ha : a'.SameShape a) (hb : b'.SameShape b) (hsize : a'.variants.length = a.variants.length)
    (hsize' : b'.variants.length = b.variants.length)
    (hproperties : ∀ v < a.variants.length, (b'.variant (φ v)).properties = (a'.variant v).properties) :
    Renamed σ φ a' b' where
  modules := by rw [ha.modules, hb.modules, h.modules]
  variants := by rw [hsize, hsize', h.variants]
  freeModules m hm := h.freeModules m (by rw [← ha.modules]; exact hm)
  freeVariants v hv := h.freeVariants v (by rw [← hsize]; exact hv)
  header m := by rw [ha.module, hb.module, h.header]
  rows m := by rw [ha.module, hb.module, h.rows]
  bare v hv := by
    rw [hsize] at hv
    have hbare := h.bare v hv
    rw [ha.variant v, hb.variant (φ v), hproperties v hv]
    show { (b.variant (φ v)).bare with properties := (a'.variant v).properties } = _
    rw [hbare]
    rfl

theorem Graph.Renamed.single {σ : Equiv.Perm Nat} {a b : Graph} (h : Renamed σ σ a b) (hs : a.Single) : b.Single where
  size := by rw [h.variants, h.modules, hs.size]
  variants id' hid' := by
    obtain ⟨id, rfl⟩ := σ.surjective id'
    rw [h.modules, h.module_lt_iff] at hid'
    rw [h.rows, hs.variants id hid', List.map_singleton]

namespace Defaults

variable {σ : Equiv.Perm Nat} {registry registry' : Registry} {types : TypeTable} {graph graph' : Graph}
  {effective : ModuleId → Except PropertyError Properties}

/-- Storing properties leaves the variants where they are. -/
theorem single_propagate (hs : graph.Single)
    (hsize : (propagate registry types graph).graph.variants.length = graph.variants.length) :
    (propagate registry types graph).graph.Single where
  size := by rw [hsize, (propagate_sameShape ..).modules, hs.size]
  variants id hid := by
    rw [(propagate_sameShape ..).modules] at hid
    rw [(propagate_sameShape ..).module, hs.variants id hid]

theorem ownProperties_of_single (hs : graph.Single) {id : ModuleId} (hid : id < graph.modules.length) :
    ownProperties graph id = (graph.variant id).properties := by
  rw [ownProperties, firstVariant, hs.variants id hid, List.headD_cons]

section
variable (hr : Registry.Renamed σ registry registry') (h : Graph.Renamed σ σ graph graph') (hs : graph.Single)
include h

theorem ownProperties_renamed (hs : graph.Single) {id : ModuleId} (hid : id < graph.modules.length) :
    ownProperties graph' (σ id) = ownProperties graph id := by
  have hid' : σ id < graph'.modules.length := by rw [h.modules]; exact h.module_lt_iff.2 hid
  rw [ownProperties_of_single hs hid, ownProperties_of_single (h.single hs) hid', h.properties]

include hr

/-- An entry in the list of a module means the same. -/
theorem resolve_renamed (id : ModuleId) (reference : String) :
    resolve registry' graph' (graph'.module (σ id)) reference =
      (resolve registry graph (graph.module id) reference).map σ := by
  have huser := h.header id
  unfold resolve
  dsimp only
  rw [Module.name_congr huser, Module.package_congr huser, hr.resolve]
  cases registry.resolve (graph.module id).package reference with
  | error cause => rfl
  | ok target =>
    have hhead := h.header target
    have hrules : (graph'.module (σ target)).defaultsVisibility = (graph.module target).defaultsVisibility :=
      show (graph'.module (σ target)).header.defaultsVisibility = (graph.module target).header.defaultsVisibility by
        rw [hhead]
    simp only [Except.map, h.can, hr.denied, Module.name_congr hhead, Module.package_congr hhead, hrules]
    split
    · rfl
    · cases registry.deniedBy? (graph.module id).package (graph.module target).defaultsVisibility
          (graph.module target).package <;> rfl

include hs

theorem sources_renamed {id : ModuleId} (hid : id < graph.modules.length) :
    sources registry' graph' (σ id) = (sources registry graph id).map σ := by
  unfold sources resolveAll
  rw [ownProperties_renamed h hs hid, List.map_filterMap, List.filterMap_map, List.filterMap_map]
  refine List.filterMap_congr fun reference _ => ?_
  simp only [Function.comp_apply, resolve_renamed hr h]
  cases resolve registry graph (graph.module id) reference <;> rfl

theorem takesFrom_renamed {user' target' : ModuleId} (ht : TakesFrom registry' graph' user' target') :
    TakesFrom registry graph (σ.symm user') (σ.symm target') := by
  obtain ⟨user, rfl⟩ := σ.surjective user'
  obtain ⟨hlt, hentry⟩ := ht
  rw [h.modules, h.module_lt_iff] at hlt
  have hmem := mem_sources.2 hentry
  rw [sources_renamed hr h hs hlt] at hmem
  obtain ⟨target, htarget, rfl⟩ := List.mem_map.1 hmem
  rw [σ.symm_apply_apply, σ.symm_apply_apply]
  exact ⟨hlt, mem_sources.1 htarget⟩

/-- Nothing is wrong with the references of the second graph if nothing is with those of the first. -/
theorem not_faulty_renamed (hf : ¬ Faulty registry graph) : ¬ Faulty registry' graph' := by
  rintro (⟨user', hlt, reference, hmem, error, hrefused⟩ | ⟨id', hcycle⟩)
  · obtain ⟨user, rfl⟩ := σ.surjective user'
    rw [h.modules, h.module_lt_iff] at hlt
    rw [ownProperties_renamed h hs hlt] at hmem
    rw [← resolve_eq_error_iff, resolve_renamed hr h] at hrefused
    cases hresolve : resolve registry graph (graph.module user) reference with
    | error cause => exact hf (Or.inl ⟨user, hlt, reference, hmem, cause, resolve_eq_error_iff.1 hresolve⟩)
    | ok target => rw [hresolve] at hrefused; cases hrefused
  · refine hf (Or.inr ⟨σ.symm id', ?_⟩)
    exact Relation.TransGen.lift σ.symm (fun _ _ ht => takesFrom_renamed hr h hs ht) _ _ hcycle

omit hr in
theorem overlayAll_renamed {id : ModuleId} (hid : id < graph.modules.length) (targets : List ModuleId) :
    overlayAll types graph' (fun id' => effective (σ.symm id')) (σ id) (targets.map σ) =
      overlayAll types graph effective id targets := by
  have htype : (graph'.module (σ id)).moduleType = (graph.module id).moduleType := Module.moduleType_congr (h.header id)
  unfold overlayAll
  simp only [htype, ownProperties_renamed h hs hid, List.foldlM_map, Equiv.symm_apply_apply]

/-- **What modules end up with is told without numbers.** -/
theorem Effective.renamed (he : Effective registry types graph effective) :
    Effective registry' types graph' (fun id' => effective (σ.symm id')) := by
  intro id' hid'
  obtain ⟨id, rfl⟩ := σ.surjective id'
  rw [h.modules, h.module_lt_iff] at hid'
  show effective (σ.symm (σ id)) = _
  rw [Equiv.symm_apply_apply, he id hid', overlay, overlay, sources_renamed hr h hs hid',
    ownProperties_renamed h hs hid']
  cases hsources : sources registry graph id with
  | nil => rfl
  | cons first rest => exact (overlayAll_renamed h hs hid' (first :: rest)).symm

/-- **Taking over goes well on both graphs, and keeps the difference.** -/
theorem propagate_renamed (hlinked : graph.Linked) (hlinked' : graph'.Linked)
    (hok : (propagate registry types graph).errors = []) :
    (propagate registry' types graph').errors = [] ∧
      Graph.Renamed σ σ (propagate registry types graph).graph (propagate registry' types graph').graph := by
  have hf := not_faulty_of_errors hok
  have hf' := not_faulty_renamed hr h hs hf
  obtain ⟨levels, hlevels⟩ := exists_levels_of_not_faulty hf
  have he : Effective registry types graph _ := effective_settleAll hlevels
  have he' := Effective.renamed hr h hs he
  have hcarries := fun (id : ModuleId) (hid : id < graph.modules.length) => ownProperties_propagate hlinked he hok hid
  have herrors' : (propagate registry' types graph').errors = [] := by
    rw [propagate_eq_foldl_store hf' he', foldl_store_eq _ _ rfl, List.nil_append]
    refine List.filterMap_eq_nil_iff.2 fun id' hu => ?_
    obtain ⟨id, rfl⟩ := σ.surjective id'
    have hlt := lt_of_mem_users hu
    rw [h.modules, h.module_lt_iff] at hlt
    rw [failure?, Equiv.symm_apply_apply, hcarries id hlt]
  have hsize : (propagate registry types graph).graph.variants.length = graph.variants.length := by
    rw [propagate_eq_foldl_store hf he, foldl_store_eq _ _ rfl, length_variants_foldl_place]
  have hsize' : (propagate registry' types graph').graph.variants.length = graph'.variants.length := by
    rw [propagate_eq_foldl_store hf' he', foldl_store_eq _ _ rfl, length_variants_foldl_place]
  refine ⟨herrors', h.ofShape (propagate_sameShape ..) (propagate_sameShape ..) hsize hsize' fun v hv => ?_⟩
  rw [hs.size] at hv
  have hv' : σ v < graph'.modules.length := by rw [h.modules]; exact h.module_lt_iff.2 hv
  have hcarries' := ownProperties_propagate hlinked' he' herrors' hv'
  rw [Equiv.symm_apply_apply, hcarries v hv] at hcarries'
  have hown := Except.ok.inj hcarries'
  rw [ownProperties_of_single (single_propagate hs hsize) (by rw [(propagate_sameShape ..).modules]; exact hv),
    ownProperties_of_single (single_propagate (h.single hs) hsize')
      (by rw [(propagate_sameShape ..).modules]; exact hv')] at hown
  exact hown.symm

end

end Defaults
end VariantGraph
