import VariantGraph.Table
/-!
# Ordered tables

In an ordered table every key stands once, so an entry is found under its key (`find?_of_mem`), and
putting entries in and taking them out keeps the order.
-/
namespace VariantGraph.Table

variable {α β : Type} {t : Table α}

theorem lt_of_not_lt {a b : String} (h : ¬ a < b) (hne : b ≠ a) : b < a := by grind

theorem ordered_cons {name : String} {value : α} {rest : Table α} :
    Ordered ((name, value) :: rest) ↔ (∀ entry ∈ rest, name < entry.1) ∧ Ordered rest :=
  List.pairwise_cons

theorem mem_of_find? {key : String} {value : α} (h : t.find? key = some value) : (key, value) ∈ t := by
  induction t with
  | nil => cases h
  | cons entry rest ih =>
    obtain ⟨name, old⟩ := entry
    unfold find? at h
    split at h
    · next he => subst he; injection h with h; subst h; exact List.mem_cons_self
    · exact List.mem_cons_of_mem _ (ih h)

theorem find?_of_mem (ht : Ordered t) {key : String} {value : α} (h : (key, value) ∈ t) :
    t.find? key = some value := by
  induction t with
  | nil => cases h
  | cons entry rest ih =>
    obtain ⟨name, old⟩ := entry
    obtain ⟨hlt, hrest⟩ := ordered_cons.1 ht
    unfold find?
    rcases List.mem_cons.1 h with he | hmem
    · injection he with hname hvalue
      subst hname; subst hvalue; rw [if_pos rfl]
    · have hne : name ≠ key := fun he => String.lt_irrefl key (he ▸ hlt _ hmem)
      rw [if_neg hne]; exact ih hrest hmem

/-- Nothing is found under a key that is smaller than all others. -/
theorem find?_eq_none_of_lt {key : String} (h : ∀ entry ∈ t, key < entry.1) : t.find? key = none := by
  cases hf : t.find? key with
  | none => rfl
  | some value => exact absurd (h _ (mem_of_find? hf)) (String.lt_irrefl key)

/-- **Tables with the same look-ups are the same.** -/
theorem eq_of_find? {other : Table α} (ht : Ordered t) (ho : Ordered other)
    (h : ∀ key, t.find? key = other.find? key) : t = other := by
  induction t generalizing other with
  | nil =>
    cases other with
    | nil => rfl
    | cons entry rest => exact absurd (h entry.1) (by simp [find?])
  | cons entry rest ih =>
    obtain ⟨name, value⟩ := entry
    obtain ⟨hlt, hrest⟩ := ordered_cons.1 ht
    cases other with
    | nil => exact absurd (h name) (by simp [find?])
    | cons entry' rest' =>
      obtain ⟨name', value'⟩ := entry'
      obtain ⟨hlt', hrest'⟩ := ordered_cons.1 ho
      -- each of the two first keys is found in the other table, so neither is smaller
      have hname : name = name' := Decidable.byContradiction fun hne => by
        have hin : (name, value) ∈ rest' := mem_of_find? (by simpa [find?, Ne.symm hne] using (h name).symm)
        have hin' : (name', value') ∈ rest := mem_of_find? (by simpa [find?, hne] using h name')
        exact String.lt_irrefl name (String.lt_trans (hlt _ hin') (hlt' _ hin))
      subst hname
      have hvalue : value = value' := by simpa [find?] using h name
      rw [hvalue, ih hrest hrest' fun key => ?_]
      by_cases hk : name = key
      · subst hk
        rw [find?_eq_none_of_lt hlt, find?_eq_none_of_lt hlt']
      · simpa [find?, hk] using h key

theorem nodup_of_ordered (ht : Ordered t) : t.Nodup :=
  ht.imp fun {a b} hlt (heq : a = b) => String.lt_irrefl b.1 (heq ▸ hlt)

theorem mem_insert {key name : String} {value new : α} (h : (name, value) ∈ t.insert key new) :
    (name = key ∧ value = new) ∨ (name, value) ∈ t := by
  induction t with
  | nil =>
    obtain ⟨rfl, rfl⟩ := Prod.mk.injEq .. ▸ List.mem_singleton.1 h
    exact Or.inl ⟨rfl, rfl⟩
  | cons entry rest ih =>
    obtain ⟨first, old⟩ := entry
    unfold insert at h
    split at h
    · rcases List.mem_cons.1 h with he | hmem
      · injection he with h1 h2; exact Or.inl ⟨h1, h2⟩
      · exact Or.inr (List.mem_cons_of_mem _ hmem)
    · split at h
      · rcases List.mem_cons.1 h with he | hmem
        · injection he with h1 h2; exact Or.inl ⟨h1, h2⟩
        · exact Or.inr hmem
      · rcases List.mem_cons.1 h with he | hmem
        · exact Or.inr (he ▸ List.mem_cons_self)
        · exact (ih hmem).imp id (List.mem_cons_of_mem _)

theorem ordered_insert (ht : Ordered t) (key : String) (value : α) : Ordered (t.insert key value) := by
  induction t with
  | nil => exact List.pairwise_singleton _ _
  | cons entry rest ih =>
    obtain ⟨name, old⟩ := entry
    obtain ⟨hlt, hrest⟩ := ordered_cons.1 ht
    unfold insert
    split
    · next he => subst he; exact ordered_cons.2 ⟨hlt, hrest⟩
    · next hne =>
      split
      · next hkey =>
        refine ordered_cons.2 ⟨fun entry hmem => ?_, ht⟩
        rcases List.mem_cons.1 hmem with rfl | hmem
        · exact hkey
        · exact String.lt_trans hkey (hlt entry hmem)
      · next hkey =>
        refine ordered_cons.2 ⟨fun entry hmem => ?_, ih hrest⟩
        obtain ⟨name', value'⟩ := entry
        rcases mem_insert hmem with ⟨he, -⟩ | hmem
        · rw [he]; exact lt_of_not_lt hkey hne
        · exact hlt _ hmem

theorem mem_insert_of_mem {key : String} {value : α} {entry : String × α}
    (h : entry ∈ t) (hne : entry.1 ≠ key) : entry ∈ t.insert key value := by
  induction t with
  | nil => cases h
  | cons first rest ih =>
    obtain ⟨name, old⟩ := first
    unfold insert
    rcases List.mem_cons.1 h with rfl | hrest
    · rw [if_neg hne]
      split
      · exact List.mem_cons_of_mem _ List.mem_cons_self
      · exact List.mem_cons_self
    · split
      · exact List.mem_cons_of_mem _ hrest
      · split
        · exact List.mem_cons_of_mem _ (List.mem_cons_of_mem _ hrest)
        · exact List.mem_cons_of_mem _ (ih hrest)

theorem mem_insert_self (t : Table α) (key : String) (value : α) : (key, value) ∈ t.insert key value :=
  mem_of_find? (by rw [find?_insert, if_pos rfl])

/-- An entry is only lost to a new one under its key, and then it was the one to be found. -/
theorem mem_insert_or_found (key : String) (value : α) {entry : String × α} (h : entry ∈ t) :
    entry ∈ t.insert key value ∨ (entry.1 = key ∧ t.find? key = some entry.2) := by
  induction t with
  | nil => cases h
  | cons first rest ih =>
    obtain ⟨name, old⟩ := first
    unfold insert
    split
    · next he =>
      rcases List.mem_cons.1 h with rfl | hrest
      · exact Or.inr ⟨he, by simp [find?, he]⟩
      · exact Or.inl (List.mem_cons_of_mem _ hrest)
    · next hne =>
      split
      · exact Or.inl (List.mem_cons_of_mem _ h)
      · rcases List.mem_cons.1 h with rfl | hrest
        · exact Or.inl List.mem_cons_self
        · refine (ih hrest).imp (List.mem_cons_of_mem _) fun hfound => ⟨hfound.1, ?_⟩
          rw [find?, if_neg hne]
          exact hfound.2

/-- Entries under different keys may be put in either order. -/
theorem insert_comm (t : Table α) {key name : String} (hne : key ≠ name) (value other : α) :
    (t.insert key value).insert name other = (t.insert name other).insert key value := by
  induction t with
  | nil => grind [insert]
  | cons entry rest ih =>
    obtain ⟨first, old⟩ := entry
    grind [insert]

/-- Of two values under one key the later one counts. -/
theorem insert_insert (t : Table α) (key : String) (value other : α) :
    (t.insert key value).insert key other = t.insert key other := by
  induction t with
  | nil => simp [insert]
  | cons entry rest ih =>
    obtain ⟨name, old⟩ := entry
    by_cases hname : name = key
    · simp [insert, hname]
    · by_cases hlt : key < name <;> simp [insert, hname, hlt, ih]

/-- A value that stands under a key is put there to no effect. -/
theorem insert_of_find? (ht : Ordered t) {key : String} {value : α} (h : t.find? key = some value) :
    t.insert key value = t := by
  refine eq_of_find? (ordered_insert ht key value) ht fun name => ?_
  rw [find?_insert]
  split
  · next hname => rw [← hname, h]
  · rfl

theorem ne_of_find?_eq_none {key : String} (h : t.find? key = none)
    {entry : String × α} (he : entry ∈ t) : entry.1 ≠ key := by
  induction t with
  | nil => cases he
  | cons first rest ih =>
    obtain ⟨name, old⟩ := first
    unfold find? at h
    split at h
    · cases h
    · next hne =>
      rcases List.mem_cons.1 he with rfl | hrest
      · exact hne
      · exact ih h hrest

theorem mem_erase {key : String} {entry : String × α} (h : entry ∈ t.erase key) : entry ∈ t := by
  induction t with
  | nil => cases h
  | cons first rest ih =>
    obtain ⟨name, old⟩ := first
    unfold erase at h
    split at h
    · exact List.mem_cons_of_mem _ (ih h)
    · rcases List.mem_cons.1 h with rfl | hmem
      · exact List.mem_cons_self
      · exact List.mem_cons_of_mem _ (ih hmem)

/-- Exactly the entries under the key are taken out. -/
theorem mem_erase_iff {key : String} {entry : String × α} : entry ∈ t.erase key ↔ entry ∈ t ∧ entry.1 ≠ key := by
  induction t with
  | nil => simp [erase]
  | cons first rest ih =>
    obtain ⟨name, old⟩ := first
    unfold erase
    split
    · next he =>
      rw [ih, List.mem_cons]
      constructor
      · exact fun h => ⟨.inr h.1, h.2⟩
      · rintro ⟨rfl | hmem, hne⟩
        · exact absurd he hne
        · exact ⟨hmem, hne⟩
    · next hne =>
      rw [List.mem_cons, ih, List.mem_cons]
      constructor
      · rintro (rfl | ⟨hmem, hk⟩)
        · exact ⟨.inl rfl, hne⟩
        · exact ⟨.inr hmem, hk⟩
      · exact fun h => h.1.imp id fun hmem => ⟨hmem, h.2⟩

theorem ordered_erase (ht : Ordered t) (key : String) : Ordered (t.erase key) := by
  induction t with
  | nil => exact ht
  | cons entry rest ih =>
    obtain ⟨name, old⟩ := entry
    obtain ⟨hlt, hrest⟩ := ordered_cons.1 ht
    unfold erase
    split
    · exact ih hrest
    · exact ordered_cons.2 ⟨fun entry hmem => hlt entry (mem_erase hmem), ih hrest⟩

theorem erase_of_find?_none {key : String} (h : t.find? key = none) : t.erase key = t := by
  induction t with
  | nil => rfl
  | cons entry rest ih =>
    obtain ⟨name, value⟩ := entry
    by_cases hname : name = key
    · simp [find?, hname] at h
    · rw [find?, if_neg hname] at h
      rw [erase, if_neg hname, ih h]

end VariantGraph.Table
