import VariantGraph.Proofs.Property.Merge
/-!
# Merging name by name

A merge of ordered trees is settled name by name (`mixes_appendAt`): a value that only one tree has stays, and two
values are joined if they are of one kind. What is joined keeps its kind, so it does not matter which of three values
are joined first, nor whether that fails early or late (`Value.join?_assoc`).
-/
namespace VariantGraph

/-! ## Joining what may be absent -/

/-- What two things that may be absent come to: the only one of them, or both joined. -/
def joinAt {α : Type} (join : α → α → Option α) : Option α → Option α → Option (Option α)
  | none, new => some new
  | some old, none => some (some old)
  | some old, some new => (join old new).map some

theorem none_joinAt {α : Type} (join : α → α → Option α) (new : Option α) : joinAt join none new = some new := by
  cases new <;> rfl

theorem joinAt_congr {α : Type} {join join' : α → α → Option α} {a b : Option α}
    (h : ∀ x ∈ a, ∀ y ∈ b, join x y = join' x y) : joinAt join a b = joinAt join' a b := by
  cases a with
  | none => rw [none_joinAt, none_joinAt]
  | some x =>
    cases b with
    | none => rfl
    | some y => exact congrArg (Option.map some) (h x rfl y rfl)

theorem joinAt_assoc {α : Type} {join : α → α → Option α} {a b c : Option α}
    (h : ∀ x ∈ a, ∀ y ∈ b, ∀ z ∈ c, (join x y).bind (join · z) = (join y z).bind (join x ·)) :
    (joinAt join a b).bind (joinAt join · c) = (joinAt join b c).bind (joinAt join a ·) := by
  cases a with
  | none => simp [none_joinAt]
  | some x =>
    cases b with
    | none => simp [joinAt]
    | some y =>
      cases c with
      | none => cases hxy : join x y <;> simp [joinAt, hxy]
      | some z =>
        have hxyz := congrArg (Option.map some) (h x rfl y rfl z rfl)
        simpa only [joinAt, Option.bind_map, Option.map_bind, Function.comp_def] using hxyz

namespace Table

variable {α : Type} {join : String → α → α → Option α} {first second mixed : Table α}

/-- A table holds under every key what two tables come to there. -/
structure Mixes (join : String → α → α → Option α) (first second mixed : Table α) : Prop where
  ordered : Ordered mixed
  found : ∀ key, joinAt (join key) (first.find? key) (second.find? key) = some (mixed.find? key)

theorem Mixes.unique {other : Table α} (h : Mixes join first second mixed) (h' : Mixes join first second other) :
    mixed = other :=
  eq_of_find? h.ordered h'.ordered fun key => Option.some.inj ((h.found key).symm.trans (h'.found key))

theorem mixes_iff : Mixes join first second mixed ↔
    Ordered mixed ∧ ∀ key, joinAt (join key) (first.find? key) (second.find? key) = some (mixed.find? key) :=
  ⟨fun h => ⟨h.ordered, h.found⟩, fun h => ⟨h.1, h.2⟩⟩

theorem mixes_congr {join' : String → α → α → Option α}
    (h : ∀ key, joinAt (join key) (first.find? key) (second.find? key) =
      joinAt (join' key) (first.find? key) (second.find? key)) :
    Mixes join first second mixed ↔ Mixes join' first second mixed := by
  simp only [mixes_iff, h]

/-- When two of three tables are mixed first, what stands under a key in the end is settled there. -/
theorem exists_mixes {f : String → Option α → Option (Option α)}
    (hexists : (∀ key, joinAt (join key) (first.find? key) (second.find? key) ≠ none) →
      ∃ pair, Mixes join first second pair) :
    (∃ pair, Mixes join first second pair ∧ Ordered mixed ∧
      ∀ key, f key (pair.find? key) = some (mixed.find? key)) ↔
    Ordered mixed ∧ ∀ key,
      (joinAt (join key) (first.find? key) (second.find? key)).bind (f key) = some (mixed.find? key) := by
  constructor
  · rintro ⟨pair, hpair, hordered, hnext⟩
    exact ⟨hordered, fun key => by rw [hpair.found, Option.bind_some, hnext]⟩
  · rintro ⟨hordered, hall⟩
    obtain ⟨pair, hpair⟩ := hexists fun key hnone => by
      have hkey := hall key
      rw [hnone] at hkey
      cases hkey
    refine ⟨pair, hpair, hordered, fun key => ?_⟩
    have hkey := hall key
    rwa [hpair.found] at hkey

end Table

theorem Attempt.toOption_outcome {σ α : Type} {attempt : Attempt σ α} {state : σ} :
    attempt.outcome.toOption = some state ↔ attempt.outcome = .ok state := by
  cases attempt.outcome <;> simp [Except.toOption]

/-! ## Merging trees name by name -/

namespace Properties

variable {path : String} {props more merged : Properties}

theorem ordered_appendAt (hp : Table.Ordered props) : Table.Ordered (appendAt path props more).state := by
  induction more generalizing props with
  | nil =>
    simp only [appendAt]
    exact hp
  | cons entry rest ih =>
    obtain ⟨name, value⟩ := entry
    simp only [appendAt]
    split
    · exact ih (Table.ordered_insert hp name value)
    · split
      · exact ih (Table.ordered_insert hp name _)
      · exact Table.ordered_insert hp name _

/-- A merge runs to its end if the values of every common name can be merged. -/
theorem error?_appendAt_of_common (hm : Table.Ordered more) (h : ∀ name, ∀ old ∈ props.find? name,
    ∀ new ∈ Table.find? more name, (Value.append (joinPath path name) old new).error? = none) :
    (appendAt path props more).error? = none := by
  induction more generalizing props with
  | nil => rfl
  | cons entry rest ih =>
    obtain ⟨first, value⟩ := entry
    obtain ⟨hlt, hrest⟩ := Table.ordered_cons.1 hm
    -- later names are other ones, so their values are still those of the first tree
    have hlater : ∀ inserted : Value, ∀ name, ∀ old ∈ (props.insert first inserted).find? name,
        ∀ new ∈ Table.find? rest name, (Value.append (joinPath path name) old new).error? = none := by
      intro inserted name old hold new hnew
      have hne : first ≠ name := fun he =>
        String.lt_irrefl name (he ▸ hlt _ (Table.mem_of_find? hnew))
      rw [Table.find?_insert, if_neg hne] at hold
      exact h name old hold new (by rwa [Table.find?, if_neg hne])
    simp only [appendAt]
    cases hf : props.find? first with
    | none => exact ih hrest (hlater value)
    | some old =>
      have hone := h first old hf value (by rw [Table.find?, if_pos rfl]; rfl)
      simp only [Attempt.result_of_error? hone]
      exact ih hrest (hlater _)

/-- How two values of a name are joined in trees at a path. -/
def joinUnder (path name : String) (old new : Value) : Option Value :=
  (Value.append (joinPath path name) old new).outcome.toOption

theorem mixes_of_error? (hp : Table.Ordered props) (hm : Table.Ordered more)
    (h : (appendAt path props more).error? = none) :
    Table.Mixes (joinUnder path) props more (appendAt path props more).state := by
  refine ⟨ordered_appendAt hp, fun name => ?_⟩
  have hfound := find?_appendAt hm h name
  cases hx : Table.find? props name with
  | none =>
    rw [hx] at hfound
    exact congrArg some hfound.symm
  | some old =>
    cases hy : Table.find? more name with
    | none =>
      simp only [hx, hy] at hfound
      exact congrArg some hfound.symm
    | some new =>
      simp only [hx, hy] at hfound
      have hjoined : joinUnder path name old new = some (Value.append (joinPath path name) old new).state :=
        Attempt.toOption_outcome.2 (Attempt.outcome_eq_ok.2 ⟨hfound.1, rfl⟩)
      rw [hfound.2, joinAt, hjoined]
      rfl

theorem error?_of_joinAt (hm : Table.Ordered more)
    (h : ∀ name, joinAt (joinUnder path name) (props.find? name) (Table.find? more name) ≠ none) :
    (appendAt path props more).error? = none := by
  refine error?_appendAt_of_common hm fun name old hold new hnew => ?_
  have hjoin := h name
  rw [hold, hnew] at hjoin
  obtain ⟨joined, hjoined⟩ : ∃ joined, joinUnder path name old new = some joined :=
    Option.ne_none_iff_exists'.1 fun hnone => hjoin (congrArg (Option.map some) hnone)
  exact (Attempt.outcome_eq_ok.1 (Attempt.toOption_outcome.1 hjoined)).1

/-- **A merge is settled name by name.** -/
theorem mixes_appendAt (hp : Table.Ordered props) (hm : Table.Ordered more) :
    (appendAt path props more).outcome = .ok merged ↔ Table.Mixes (joinUnder path) props more merged := by
  rw [Attempt.outcome_eq_ok]
  constructor
  · rintro ⟨herror, rfl⟩
    exact mixes_of_error? hp hm herror
  · intro hmixes
    have herror := error?_of_joinAt hm fun name hnone => Option.some_ne_none _ ((hmixes.found name).symm.trans hnone)
    exact ⟨herror, (mixes_of_error? hp hm herror).unique hmixes⟩

end Properties

/-! ## Joining values -/

/-- The value that two values come to, if they can be merged. -/
def Value.join? (old new : Value) : Option Value := (Value.append "" old new).outcome.toOption

theorem Attempt.toOption_within {σ τ α : Type} (attempt : Attempt σ α) (embed : σ → τ) :
    (attempt.within embed).outcome.toOption = attempt.outcome.toOption.map embed := by
  unfold outcome within
  cases attempt.result <;> rfl

/-- Where two values stand matters only to what is reported. -/
theorem Value.toOption_append {n : Nat} {old new : Value} (ho : old.Neat n) (hn : new.Neat n) (path : String) :
    (Value.append path old new).outcome.toOption = old.join? new := by
  unfold Value.join?
  induction n generalizing path old new with
  | zero =>
    cases old <;> cases new <;> first | exact ho.elim | exact hn.elim | rfl
  | succ n ih =>
    cases old with
    | map fields =>
      cases new with
      | map more =>
        simp only [Value.append, Attempt.toOption_within]
        refine congrArg _ (Option.ext fun merged => ?_)
        simp only [Attempt.toOption_outcome, Properties.mixes_appendAt ho.1 hn.1]
        refine Table.mixes_congr fun name => joinAt_congr fun x hx y hy => ?_
        have hxn := ho.2 _ (Table.mem_of_find? hx)
        have hyn := hn.2 _ (Table.mem_of_find? hy)
        exact (ih hxn hyn _).trans (ih hxn hyn _).symm
      | _ => rfl
    | _ => cases new <;> rfl

namespace Value

variable {x y z v : Value}

theorem join?_map (fields more : Properties) :
    join? (.map fields) (.map more) = (fields.append more).outcome.toOption.map .map := by
  simp only [join?, append, Attempt.toOption_within, Properties.append]

/-- What is joined is of one kind, and stays of that kind. -/
theorem kindName_of_join? (h : x.join? y = some v) : x.kindName = v.kindName ∧ y.kindName = v.kindName := by
  cases x with
  | map fields =>
    cases y with
    | map more =>
      rw [join?_map] at h
      obtain ⟨merged, -, rfl⟩ := Option.map_eq_some_iff.1 h
      exact ⟨rfl, rfl⟩
    | _ => cases h
  | _ =>
    cases y <;> cases h
    exact ⟨rfl, rfl⟩

theorem join?_of_kindName_ne (h : x.kindName ≠ y.kindName) : x.join? y = none := by
  refine Option.eq_none_iff_forall_ne_some.2 fun v hv => h ?_
  exact (kindName_of_join? hv).1.trans (kindName_of_join? hv).2.symm

/-- A later scalar takes the place of an earlier one. -/
theorem eq_of_join? (h : x.join? y = some v) (hlist : v.list? = none) (hmap : v.map? = none) : y = v := by
  cases x with
  | map fields =>
    cases y with
    | map more =>
      rw [join?_map] at h
      obtain ⟨merged, -, rfl⟩ := Option.map_eq_some_iff.1 h
      cases hmap
    | _ => cases h
  | list items =>
    cases y <;> cases h
    cases hlist
  | _ =>
    cases y <;> cases h
    rfl

/-- A list comes from two lists. -/
theorem eq_append_of_join? {items : List String} (h : x.join? y = some (list items)) :
    ∃ first second, x = list first ∧ y = list second ∧ items = first ++ second := by
  cases x with
  | map fields =>
    cases y with
    | map more =>
      rw [join?_map] at h
      obtain ⟨merged, -, hlist⟩ := Option.map_eq_some_iff.1 h
      cases hlist
    | _ => cases h
  | list first =>
    cases y <;> cases h
    exact ⟨_, _, rfl, rfl, rfl⟩
  | _ => cases y <;> cases h

/-- Three values of different kinds cannot be joined, whichever two are joined first. -/
theorem join?_assoc_of_ne (h : ¬ (x.kindName = y.kindName ∧ y.kindName = z.kindName)) :
    (x.join? y).bind (·.join? z) = (y.join? z).bind (x.join? ·) := by
  have hleft : (x.join? y).bind (·.join? z) = none := by
    refine Option.bind_eq_none_iff.2 fun v hv => join?_of_kindName_ne fun hz => h ?_
    obtain ⟨hx, hy⟩ := kindName_of_join? hv
    exact ⟨hx.trans hy.symm, hy.trans hz⟩
  have hright : (y.join? z).bind (x.join? ·) = none := by
    refine Option.bind_eq_none_iff.2 fun v hv => join?_of_kindName_ne fun hx => h ?_
    obtain ⟨hy, hz⟩ := kindName_of_join? hv
    exact ⟨hx.trans hy.symm, hy.trans hz.symm⟩
  rw [hleft, hright]

end Value

/-! ## Three trees -/

namespace Properties

variable {n : Nat} {a b c t : Properties}

theorem joinAt_joinUnder (ha : NeatBy (fun _ => n) a) (hb : NeatBy (fun _ => n) b) (path name : String) :
    joinAt (joinUnder path name) (a.find? name) (b.find? name) =
      joinAt Value.join? (a.find? name) (b.find? name) :=
  joinAt_congr fun _ hx _ hy => Value.toOption_append (ha.find? hx) (hb.find? hy) _

theorem append_eq_ok_iff (ha : NeatBy (fun _ => n) a) (hb : NeatBy (fun _ => n) b) :
    (a.append b).outcome = .ok t ↔ Table.Mixes (fun _ => Value.join?) a b t :=
  (mixes_appendAt ha.ordered hb.ordered).trans (Table.mixes_congr (joinAt_joinUnder ha hb ""))

theorem NeatBy.append (ha : NeatBy (fun _ => n) a) (hb : NeatBy (fun _ => n) b)
    (h : (a.append b).outcome = .ok t) : NeatBy (fun _ => n) t := by
  obtain ⟨-, rfl⟩ := Attempt.outcome_eq_ok.1 h
  exact ha.appendAt "" hb

/-- Two trees can be merged if what they have in common can be joined. -/
theorem exists_mixes_of_joinAt (ha : NeatBy (fun _ => n) a) (hb : NeatBy (fun _ => n) b)
    (h : ∀ name, joinAt Value.join? (a.find? name) (b.find? name) ≠ none) :
    ∃ pair, Table.Mixes (fun _ => Value.join?) a b pair := by
  have herror : (a.append b).error? = none := error?_of_joinAt hb.ordered fun name => by
    rw [joinAt_joinUnder ha hb]
    exact h name
  exact ⟨_, (append_eq_ok_iff ha hb).1 (Attempt.outcome_eq_ok.2 ⟨herror, rfl⟩)⟩

/-- Trees are merged in any grouping if their values are joined in any. -/
theorem append_assoc_of_join? (ha : NeatBy (fun _ => n) a) (hb : NeatBy (fun _ => n) b)
    (hc : NeatBy (fun _ => n) c) (hjoin : ∀ x y z : Value, x.Neat n → y.Neat n → z.Neat n →
      (x.join? y).bind (·.join? z) = (y.join? z).bind (x.join? ·)) :
    (∃ ab, (a.append b).outcome = .ok ab ∧ (ab.append c).outcome = .ok t) ↔
      ∃ bc, (b.append c).outcome = .ok bc ∧ (a.append bc).outcome = .ok t := by
  have hleft : (∃ ab, (a.append b).outcome = .ok ab ∧ (ab.append c).outcome = .ok t) ↔ Table.Ordered t ∧ ∀ name,
      (joinAt Value.join? (a.find? name) (b.find? name)).bind (joinAt Value.join? · (c.find? name)) =
        some (t.find? name) := by
    refine Iff.trans (exists_congr fun ab => ?_) (Table.exists_mixes (exists_mixes_of_joinAt ha hb))
    rw [← append_eq_ok_iff ha hb]
    exact and_congr_right fun hab => (append_eq_ok_iff (ha.append hb hab) hc).trans Table.mixes_iff
  have hright : (∃ bc, (b.append c).outcome = .ok bc ∧ (a.append bc).outcome = .ok t) ↔ Table.Ordered t ∧ ∀ name,
      (joinAt Value.join? (b.find? name) (c.find? name)).bind (joinAt Value.join? (a.find? name) ·) =
        some (t.find? name) := by
    refine Iff.trans (exists_congr fun bc => ?_) (Table.exists_mixes (exists_mixes_of_joinAt hb hc))
    rw [← append_eq_ok_iff hb hc]
    exact and_congr_right fun hbc => (append_eq_ok_iff ha (hb.append hc hbc)).trans Table.mixes_iff
  rw [hleft, hright]
  refine and_congr_right fun _ => forall_congr' fun name => ?_
  rw [joinAt_assoc fun x hx y hy z hz => hjoin x y z (ha.find? hx) (hb.find? hy) (hc.find? hz)]

end Properties

/-- Values that are no maps are joined in any grouping. -/
theorem Value.join?_assoc_of_map? {x y z : Value} (h : x.map? = none) :
    (x.join? y).bind (·.join? z) = (y.join? z).bind (x.join? ·) := by
  by_cases hkind : x.kindName = y.kindName ∧ y.kindName = z.kindName
  · obtain ⟨hxy, hyz⟩ := hkind
    cases x <;> cases y <;> simp only [kindName, String.reduceEq] at hxy <;> cases z <;>
      simp only [kindName, String.reduceEq] at hyz
    case list.list.list items more rest =>
      exact congrArg (fun items => some (Value.list items)) (List.append_assoc items more rest)
    case map.map.map => cases h
    all_goals rfl
  · exact join?_assoc_of_ne hkind

/-- **Values are joined in any grouping**, failures included. -/
theorem Value.join?_assoc {n : Nat} {x y z : Value} (hx : x.Neat n) (hy : y.Neat n) (hz : z.Neat n) :
    (x.join? y).bind (·.join? z) = (y.join? z).bind (x.join? ·) := by
  induction n generalizing x y z with
  | zero => exact join?_assoc_of_map? hx.map?_eq_none
  | succ n ih =>
    cases x with
    | map a =>
      cases y with
      | map b =>
        cases z with
        | map c =>
          have htrees : (Properties.append a b).outcome.toOption.bind (fun ab => (ab.append c).outcome.toOption) =
              (Properties.append b c).outcome.toOption.bind fun bc => (Properties.append a bc).outcome.toOption := by
            refine Option.ext fun t => ?_
            simp only [Option.bind_eq_some_iff, Attempt.toOption_outcome]
            exact Properties.append_assoc_of_join? (Properties.neatBy_map.1 hx) (Properties.neatBy_map.1 hy)
              (Properties.neatBy_map.1 hz) fun _ _ _ => ih
          have hmaps := congrArg (Option.map Value.map) htrees
          simpa only [join?_map, Option.bind_map, Option.map_bind, Function.comp_def] using hmaps
        | _ => exact join?_assoc_of_ne fun h => by simp [kindName] at h
      | _ => exact join?_assoc_of_ne fun h => by simp [kindName] at h
    | _ => exact join?_assoc_of_map? rfl

end VariantGraph
