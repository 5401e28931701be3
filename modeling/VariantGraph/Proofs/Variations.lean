import VariantGraph.Graph.Tag
import VariantGraph.Proofs.Table
/-!
# Variations with more values

The more both sides of a dependency are split, the less its tag allows (`Tag.allows_of_refines`), so
what matches after a split matched before.
-/
namespace VariantGraph

namespace Variations

variable {before after : Variations} {axis : String}

/-- Variations with all values of others, and maybe more. -/
structure Refines (after before : Variations) : Prop where
  entries : ∀ entry ∈ before, entry ∈ after
  values : ∀ axis value, before.value? axis = some value → after.value? axis = some value

theorem Refines.refl (variations : Variations) : variations.Refines variations :=
  ⟨fun _ h => h, fun _ _ h => h⟩

theorem Refines.trans {a b c : Variations} (h : a.Refines b) (h' : b.Refines c) : a.Refines c :=
  ⟨fun entry he => h.entries entry (h'.entries entry he),
    fun axis value hv => h.values axis value (h'.values axis value hv)⟩

theorem value?_assign (variations : Variations) (axis other value : String) :
    (variations.assign axis value).value? other = if axis = other then some value else variations.value? other :=
  Table.find?_insert ..

theorem refines_assign (h : before.value? axis = none) (value : String) :
    (before.assign axis value).Refines before := by
  refine ⟨fun entry he => Table.mem_insert_of_mem he (Table.ne_of_find?_eq_none h he), fun other old ho => ?_⟩
  rw [value?_assign, if_neg fun he => ?_, ho]
  rw [he, ho] at h; cases h

/-- What agrees with more values agrees with fewer. -/
theorem Refines.agrees (h : after.Refines before) {axis value : String}
    (ha : (after.value? axis).all (· = value) = true) : (before.value? axis).all (· = value) = true := by
  cases hv : before.value? axis with
  | none => rfl
  | some old => rwa [h.values _ _ hv] at ha

theorem Refines.compatible (h : after.Refines before) {variations : Variations}
    (hc : variations.compatible after = true) : variations.compatible before = true :=
  List.all_eq_true.2 fun entry he => h.agrees (List.all_eq_true.1 hc entry he)

theorem compatible_assign {variations a b : Variations} {value : String}
    (ha : variations.compatible a = true) (hb : variations.compatible (b.assign axis value) = true) :
    variations.compatible (a.assign axis value) = true := by
  refine List.all_eq_true.2 fun (other, old) he => ?_
  have hold := List.all_eq_true.1 ha _ he
  have hnew := List.all_eq_true.1 hb _ he
  simp only [value?_assign] at hold hnew ⊢
  split
  · next hsame => rwa [if_pos hsame] at hnew
  · exact hold

end Variations

namespace Tag

open Variations

variable {tag : Tag} {before after target target' : Variations}

/-- **Splits narrow what a dependency may lead to.** -/
theorem allows_of_refines (hv : after.Refines before) (ht : target'.Refines target)
    (h : tag.allows after target' = true) : tag.allows before target = true := by
  unfold allows appliesTo at h ⊢
  simp only [Bool.and_eq_true, Bool.or_eq_true] at h ⊢
  obtain ⟨⟨happlies, hrequired⟩, hnear⟩ := h
  refine ⟨⟨hv.compatible happlies, ht.compatible hrequired⟩, hnear.imp_right fun hall => ?_⟩
  refine List.all_eq_true.2 fun entry he => ?_
  have hentry : entry ∈ tag.origin ++ after := by
    rcases List.mem_append.1 he with ho | hb
    · exact List.mem_append_left _ ho
    · exact List.mem_append_right _ (hv.entries entry hb)
  have hafter := List.all_eq_true.1 hall entry hentry
  simp only [Bool.or_eq_true] at hafter ⊢
  exact hafter.imp_right ht.agrees

/-- What a tag requires holds of every target that is split on the axis. -/
theorem required_of_allows (h : tag.allows before target = true) {axis value own : String}
    (hrequired : (axis, value) ∈ tag.required) (hown : target.value? axis = some own) : own = value := by
  unfold allows at h
  simp only [Bool.and_eq_true] at h
  have hentry := List.all_eq_true.1 h.1.2 _ hrequired
  simpa [hown] using hentry

/-- On an axis on which it requires nothing, a near tag leads to targets with the variant's own value. -/
theorem agrees_of_allows (h : tag.allows before target = true) (hnear : tag.far = false)
    {axis value own : String} (hfree : tag.required.has axis = false)
    (hvalue : before.value? axis = some value) (hown : target.value? axis = some own) : own = value := by
  unfold allows at h
  simp only [Bool.and_eq_true, hnear, Bool.false_or] at h
  have hentry := List.all_eq_true.1 h.2 _ (List.mem_append_right _ (Table.mem_of_find? hvalue))
  simpa [hfree, hown] using hentry

end Tag

end VariantGraph
