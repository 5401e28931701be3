import VariantGraph.Proofs.Table
import VariantGraph.Property.Merge
/-!
# What merging does to each field

A merge that runs to its end puts lists one behind the other (`getList_append`) and leaves maps alone
when what is appended holds none (`getMap?_append`). Merging never makes trees deeper or disorders
them (`NeatBy.appendAt`).
-/
namespace VariantGraph

/-- What two steps that may fail came to, taken apart. -/
theorem bind_eq_ok {ε α β : Type} {first : Except ε α} {next : α → Except ε β} {result : β}
    (h : (first >>= next) = .ok result) : ∃ a, first = .ok a ∧ next a = .ok result := by
  cases first with
  | error error => cases h
  | ok a => exact ⟨a, rfl, h⟩

theorem bind_eq_ok_iff {ε α β : Type} {first : Except ε α} {next : α → Except ε β} {result : β} :
    (first >>= next) = .ok result ↔ ∃ a, first = .ok a ∧ next a = .ok result :=
  ⟨bind_eq_ok, fun ⟨_, hfirst, hnext⟩ => hfirst ▸ hnext⟩

theorem ok_bind {ε α β : Type} (a : α) (next : α → Except ε β) : (Except.ok a >>= next) = next a := rfl

theorem mapError_eq_ok {ε ε' α : Type} {f : ε → ε'} {attempt : Except ε α} {result : α}
    (h : attempt.mapError f = .ok result) : attempt = .ok result := by
  cases attempt with
  | error error => cases h
  | ok a => exact congrArg _ (Except.ok.inj h)

/-- One of two steps failed. -/
theorem bind_eq_error {ε α β : Type} {first : Except ε α} {next : α → Except ε β} {error : ε}
    (h : (first >>= next) = .error error) : first = .error error ∨ ∃ a, first = .ok a ∧ next a = .error error := by
  cases first with
  | error cause => exact .inl (congrArg _ (Except.error.inj h))
  | ok a => exact .inr ⟨a, rfl, h⟩

theorem mapError_eq_error {ε ε' α : Type} {f : ε → ε'} {attempt : Except ε α} {error : ε'}
    (h : attempt.mapError f = .error error) : ∃ cause, attempt = .error cause ∧ f cause = error := by
  cases attempt with
  | error cause => exact ⟨cause, rfl, Except.error.inj h⟩
  | ok a => cases h

namespace Attempt

variable {σ τ α : Type}

@[simp] theorem error?_done (state : σ) (answer : α) : (Attempt.done state answer).error? = none := rfl

@[simp] theorem error?_stopped (state : σ) (error : PropertyError) :
    (Attempt.stopped state error : Attempt σ α).error? = some error := rfl

@[simp] theorem error?_within (attempt : Attempt σ α) (embed : σ → τ) :
    (attempt.within embed).error? = attempt.error? := rfl

/-- What an operation leads to, unless it stopped. -/
def outcome (attempt : Attempt σ α) : Except PropertyError σ := attempt.result.map fun _ => attempt.state

theorem outcome_eq_ok {attempt : Attempt σ α} {state : σ} :
    attempt.outcome = .ok state ↔ attempt.error? = none ∧ attempt.state = state := by
  unfold outcome error?
  cases attempt.result <;> simp [Except.map]

theorem result_of_error? {attempt : Attempt σ Unit} (h : attempt.error? = none) :
    attempt.result = .ok () := by
  unfold error? at h
  split at h
  · next answer hr => exact hr
  · cases h

theorem error?_andThen {first : Attempt σ Unit} {next : σ → Attempt σ α} :
    (first.andThen next).error? = none ↔ first.error? = none ∧ (next first.state).error? = none := by
  unfold andThen
  cases hr : first.result with
  | ok answer => simp [error?, hr]
  | error error => simp [error?, hr, stopped]

theorem state_andThen {first : Attempt σ Unit} (next : σ → Attempt σ α) (h : first.error? = none) :
    (first.andThen next).state = (next first.state).state := by
  unfold andThen
  rw [result_of_error? h]

end Attempt

/-! ## Neat values: ordered, and of bounded depth -/

/-- A value with maps nested at most to a depth, all of them ordered. -/
def Value.Neat : Nat → Value → Prop
  | 0, .map _ => False
  | depth + 1, .map fields => Table.Ordered fields ∧ ∀ entry ∈ fields, Value.Neat depth entry.2
  | _, _ => True

theorem Value.Neat.mono {depth : Nat} {value : Value} (h : value.Neat depth) :
    value.Neat (depth + 1) := by
  induction depth generalizing value with
  | zero =>
    cases value with
    | map fields => exact h.elim
    | _ => trivial
  | succ depth ih =>
    cases value with
    | map fields => exact ⟨h.1, fun entry he => ih (h.2 entry he)⟩
    | _ => trivial

theorem Value.Neat.of_zero {value : Value} (h : value.Neat 0) (depth : Nat) : value.Neat depth := by
  induction depth with
  | zero => exact h
  | succ depth ih => exact ih.mono

/-- A flat value is no map. -/
theorem Value.Neat.map?_eq_none {value : Value} (h : value.Neat 0) : value.map? = none := by
  cases value with
  | map fields => exact h.elim
  | _ => rfl

/-- A tree whose fields are neat, each to a depth of its own. -/
structure Properties.NeatBy (depth : String → Nat) (props : Properties) : Prop where
  ordered : Table.Ordered props
  neat : ∀ entry ∈ props, entry.2.Neat (depth entry.1)

theorem neatBy_nil {depth : String → Nat} : Properties.NeatBy depth [] :=
  ⟨List.Pairwise.nil, fun _ he => absurd he List.not_mem_nil⟩

namespace Properties

variable {depth : String → Nat} {props more : Properties}

theorem NeatBy.find? (h : NeatBy depth props) {name : String} {value : Value}
    (hf : Table.find? props name = some value) : value.Neat (depth name) :=
  h.neat _ (Table.mem_of_find? hf)

theorem NeatBy.insert (h : NeatBy depth props) {name : String} {value : Value}
    (hv : value.Neat (depth name)) : NeatBy depth (Table.insert props name value) := by
  refine ⟨Table.ordered_insert h.ordered name value, fun entry he => ?_⟩
  rcases Table.mem_insert he with ⟨hname, hvalue⟩ | hold
  · rw [hname, hvalue]; exact hv
  · exact h.neat entry hold

theorem NeatBy.erase (h : NeatBy depth props) (name : String) : NeatBy depth (Table.erase props name) :=
  ⟨Table.ordered_erase h.ordered name, fun entry he => h.neat entry (Table.mem_erase he)⟩

theorem NeatBy.mono {depth' : String → Nat} (h : NeatBy depth props)
    (hle : ∀ entry ∈ props, entry.2.Neat (depth entry.1) → entry.2.Neat (depth' entry.1)) :
    NeatBy depth' props := ⟨h.ordered, fun entry he => hle entry he (h.neat entry he)⟩

theorem neatBy_map {n : Nat} {fields : Properties} :
    (Value.map fields).Neat (n + 1) ↔ NeatBy (fun _ => n) fields :=
  ⟨fun h => ⟨h.1, h.2⟩, fun h => ⟨h.ordered, h.neat⟩⟩

theorem NeatBy.tail {entry : String × Value} (h : NeatBy depth (entry :: props)) : NeatBy depth props :=
  ⟨(List.pairwise_cons.1 h.ordered).2, fun e he => h.neat e (List.mem_cons_of_mem _ he)⟩

/-- Fields are merged neatly if their values are. -/
theorem neatBy_appendAt (path : String) (hp : NeatBy depth props) (hm : NeatBy depth more)
    (hv : ∀ entry ∈ more, ∀ old path, old.Neat (depth entry.1) →
      (Value.append path old entry.2).state.Neat (depth entry.1)) :
    NeatBy depth (appendAt path props more).state := by
  induction more generalizing props with
  | nil => simp only [appendAt]; exact hp
  | cons entry rest ih =>
    obtain ⟨name, value⟩ := entry
    have hrest := fun e he => hv e (List.mem_cons_of_mem _ he)
    simp only [appendAt]
    cases hf : props.find? name with
    | none => exact ih (hp.insert (hm.neat _ List.mem_cons_self)) hm.tail hrest
    | some old =>
      have hmerged := hp.insert (hv _ List.mem_cons_self old (joinPath path name) (hp.find? hf))
      simp only
      split
      · exact ih hmerged hm.tail hrest
      · exact hmerged

end Properties

open Properties in
theorem Value.Neat.append {n : Nat} (path : String) {old new : Value}
    (ho : old.Neat n) (hn : new.Neat n) : (Value.append path old new).state.Neat n := by
  induction n generalizing path old new with
  | zero =>
    cases old <;> cases new <;> first | exact ho.elim | exact hn.elim | trivial
  | succ n ih =>
    cases old with
    | map fields =>
      cases new with
      | map more =>
        simp only [Value.append, Attempt.within]
        refine neatBy_map.2 (neatBy_appendAt path (neatBy_map.1 ho) (neatBy_map.1 hn) ?_)
        exact fun entry he old path hold => ih path hold (hn.2 entry he)
      | _ => simpa only [Value.append, Attempt.stopped] using ho
    | _ => cases new <;> simp only [Value.append, Attempt.stopped, Attempt.done, Value.Neat]

namespace Properties

variable {depth : String → Nat} {props more : Properties}

theorem NeatBy.appendAt (path : String) (hp : NeatBy depth props) (hm : NeatBy depth more) :
    NeatBy depth (appendAt path props more).state :=
  neatBy_appendAt path hp hm fun entry he _ path ho => ho.append path (hm.neat entry he)

theorem NeatBy.appendMatching (schema : Schema) (excluded : List String) (hp : NeatBy depth props)
    (hm : NeatBy depth more) : NeatBy depth (appendMatching schema excluded props more).state := by
  induction more generalizing props with
  | nil => simp only [Properties.appendMatching]; exact hp
  | cons entry rest ih =>
    obtain ⟨name, value⟩ := entry
    have hone : NeatBy depth [(name, value)] :=
      ⟨List.pairwise_singleton _ _, fun e he => List.mem_singleton.1 he ▸ hm.neat _ List.mem_cons_self⟩
    have happended := hp.appendAt "" hone
    simp only [Properties.appendMatching]
    split
    · exact ih hp hm.tail
    · split
      · exact ih hp hm.tail
      · split
        · unfold Attempt.andThen
          split
          · exact ih happended hm.tail
          · exact happended
        · exact hp

/-! ## Each field after a merge -/

/-- What stands under a name after a merge that ran to its end: the only one of two values, or both
merged. -/
theorem find?_appendAt {path : String} (hm : Table.Ordered more)
    (h : (Properties.appendAt path props more).error? = none) (name : String) :
    match Table.find? props name, Table.find? more name with
    | some old, some new => (Value.append (joinPath path name) old new).error? = none ∧
        Table.find? (Properties.appendAt path props more).state name =
          some (Value.append (joinPath path name) old new).state
    | some old, none => Table.find? (Properties.appendAt path props more).state name = some old
    | none, new => Table.find? (Properties.appendAt path props more).state name = new := by
  induction more generalizing props with
  | nil =>
    simp only [Properties.appendAt, Table.find?]
    cases hf : Table.find? props name <;> exact hf
  | cons entry rest ih =>
    obtain ⟨first, value⟩ := entry
    obtain ⟨hlt, hrest⟩ := Table.ordered_cons.1 hm
    -- the name of the first entry does not come again
    have hfresh : Table.find? rest first = none := Table.find?_eq_none_of_lt hlt
    simp only [Properties.appendAt] at h ⊢
    cases hf : Table.find? props first with
    | none =>
      simp only [hf] at h ⊢
      have := ih hrest h
      rw [Table.find?_insert] at this
      by_cases hn : first = name
      · subst hn
        simpa only [hf, hfresh, Table.find?, if_true] using this
      · simpa only [Table.find?, hn, if_false] using this
    | some old =>
      simp only [hf] at h ⊢
      split at h
      · next answer hr =>
        have hone : (Value.append (joinPath path first) old value).error? = none := by
          unfold Attempt.error?; rw [hr]
        have := ih hrest h
        rw [Table.find?_insert] at this
        by_cases hn : first = name
        · subst hn
          simp only [hfresh, if_true] at this
          simpa only [hf, Table.find?, if_true] using ⟨hone, this⟩
        · simpa only [Table.find?, hn, if_false] using this
      · cases h

/-- Nothing is merged under a name that the appended tree does not have. -/
theorem find?_appendAt_of_ne {path name : String} (h : ∀ entry ∈ more, entry.1 ≠ name) :
    Table.find? (Properties.appendAt path props more).state name = Table.find? props name := by
  induction more generalizing props with
  | nil => simp only [Properties.appendAt, Attempt.done]
  | cons entry rest ih =>
    obtain ⟨first, value⟩ := entry
    have hrest := fun entry he => h entry (List.mem_cons_of_mem _ he)
    have hinsert : ∀ value : Value, Table.find? (Table.insert props first value) name = Table.find? props name :=
      fun value => by rw [Table.find?_insert, if_neg (h _ List.mem_cons_self)]
    simp only [Properties.appendAt]
    split
    · rw [ih hrest, hinsert]
    · split
      · rw [ih hrest, hinsert]
      · exact hinsert _

/-- Nothing is merged under a name that is excluded. -/
theorem find?_appendMatching_of_mem {schema : Schema} {excluded : List String} {name : String}
    (h : name ∈ excluded) :
    Table.find? (Properties.appendMatching schema excluded props more).state name = Table.find? props name := by
  induction more generalizing props with
  | nil => simp only [Properties.appendMatching, Attempt.done]
  | cons entry rest ih =>
    obtain ⟨first, value⟩ := entry
    simp only [Properties.appendMatching]
    split
    · exact ih
    · next hfirst =>
      have hne : ∀ entry ∈ [(first, value)], entry.1 ≠ name := by
        intro entry he hname
        have hsame : first = name := by rw [← hname, List.mem_singleton.1 he]
        exact hfirst (hsame ▸ h)
      split
      · exact ih
      · split
        · unfold Attempt.andThen
          split
          · rw [ih, find?_appendAt_of_ne hne]
          · exact find?_appendAt_of_ne hne
        · rfl

/-! ## Lists and maps after a merge -/

theorem get?_of_single {name : String} (hname : pathComponents name = [name]) (props : Properties) :
    props.get? name = Table.find? props name := by rw [get?, hname]; rfl

theorem list?_append {path : String} {old new : Value} (h : (Value.append path old new).error? = none) :
    ((Value.append path old new).state.list?).getD [] = old.list?.getD [] ++ new.list?.getD [] := by
  cases old <;> cases new <;> simp [Value.append, Attempt.within, Attempt.done, Value.list?] at h ⊢

theorem map?_append {path : String} {old new : Value} (h : (Value.append path old new).error? = none)
    (hnew : new.map? = none) : (Value.append path old new).state.map? = old.map? := by
  cases new with
  | map fields => cases hnew
  | _ => cases old <;> simp [Value.append, Attempt.done, Value.map?] at h ⊢

/-- Lists are put one behind the other, and what is no list counts as an empty one. -/
theorem getList_append {name : String} (hname : pathComponents name = [name])
    (hm : Table.Ordered more) (h : (append props more).error? = none) :
    getList (append props more).state name = getList props name ++ getList more name := by
  have hf := find?_appendAt hm h name
  simp only [getList, get?_of_single hname]
  unfold append
  split at hf
  · next old new ho hn =>
    rw [hf.2, ho, hn]; exact list?_append hf.1
  · next old ho hn => rw [hf, ho, hn]; simp
  · next ho => rw [hf, ho]; simp

/-- Maps stay as they are when what is appended holds none. -/
theorem getMap?_append {name : String} (hname : pathComponents name = [name])
    (hm : NeatBy (fun _ => 0) more) (h : (append props more).error? = none) :
    getMap? (append props more).state name = getMap? props name := by
  have hf := find?_appendAt hm.ordered h name
  simp only [getMap?, get?_of_single hname]
  unfold append
  split at hf
  · next old new ho hn =>
    rw [hf.2, ho]; exact map?_append hf.1 (hm.find? hn).map?_eq_none
  · next old ho hn => rw [hf, ho]
  · next ho =>
    rw [hf, ho]
    cases hn : Table.find? more name with
    | none => rfl
    | some new => exact (hm.find? hn).map?_eq_none

theorem getList_appendAll {name : String} (hname : pathComponents name = [name]) {trees : List Properties}
    (hm : ∀ tree ∈ trees, Table.Ordered tree) (h : (appendAll props trees).error? = none) :
    getList (appendAll props trees).state name = getList props name ++ trees.flatMap (getList · name) := by
  induction trees generalizing props with
  | nil => simp [appendAll, Attempt.done]
  | cons tree trees ih =>
    obtain ⟨h1, h2⟩ := Attempt.error?_andThen.1 h
    have htree := hm tree List.mem_cons_self
    rw [appendAll, Attempt.state_andThen _ h1, ih (fun t ht => hm t (List.mem_cons_of_mem _ ht)) h2,
      getList_append hname htree h1, List.flatMap_cons, List.append_assoc]

theorem getMap?_appendAll {name : String} (hname : pathComponents name = [name]) {trees : List Properties}
    (hm : ∀ tree ∈ trees, NeatBy (fun _ => 0) tree) (h : (appendAll props trees).error? = none) :
    getMap? (appendAll props trees).state name = getMap? props name := by
  induction trees generalizing props with
  | nil => rfl
  | cons tree trees ih =>
    obtain ⟨h1, h2⟩ := Attempt.error?_andThen.1 h
    rw [appendAll, Attempt.state_andThen _ h1, ih (fun t ht => hm t (List.mem_cons_of_mem _ ht)) h2,
      getMap?_append hname (hm tree List.mem_cons_self) h1]

end Properties
end VariantGraph
