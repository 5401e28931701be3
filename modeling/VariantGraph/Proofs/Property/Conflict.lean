import VariantGraph.Proofs.Property.Regrouping
/-!
# Where a merge stops

A merge stops at the first place, in the order of the names that lead there, where both trees hold values and
these are of different kinds (`Value.Clash`). Everything before that place is merged as if the appended tree
ended there, and everything from there on is as it was (`merging_stops_at_first_clash`).

`append_error?` and `appendAt_stopped` say what one step of a merge can fail at; the rest is an induction on
how deep the trees are.
-/
namespace VariantGraph

/-! ## Below a value -/

/-- The value that names lead to from a value: itself if there are none. -/
def Value.reach? (value : Value) : List String → Option Value
  | [] => some value
  | names => value.map?.bind (Properties.follow? · names)

theorem Properties.follow?_cons (props : Properties) (name : String) (rest : List String) :
    props.follow? (name :: rest) = (props.find? name).bind (·.reach? rest) := by
  cases rest with
  | nil => cases h : Table.find? props name <;> simp [follow?, Value.reach?, h]
  | cons next rest =>
    rw [follow?_cons_cons, Option.bind_assoc]
    rfl

theorem Value.reach?_map (fields : Properties) (name : String) (rest : List String) :
    (Value.map fields).reach? (name :: rest) = (fields.find? name).bind (·.reach? rest) :=
  Properties.follow?_cons fields name rest

/-- Names that lead from two values, through maps on both sides, to values of different kinds. -/
structure Value.Clash (old new : Value) (names : List String) (x y : Value) : Prop where
  left : old.reach? names = some x
  right : new.reach? names = some y
  kinds : x.kindName ≠ y.kindName

/-- In two maps a clash is one below two values of one name. -/
theorem Value.clash_map {fields more : Properties} {names : List String} {x y : Value} :
    (Value.map fields).Clash (.map more) names x y ↔ ∃ name rest old new, names = name :: rest ∧
      fields.find? name = some old ∧ more.find? name = some new ∧ old.Clash new rest x y := by
  constructor
  · rintro ⟨hleft, hright, hkinds⟩
    cases names with
    | nil =>
      cases hleft
      cases hright
      exact absurd rfl hkinds
    | cons name rest =>
      rw [reach?_map] at hleft hright
      obtain ⟨old, hold, hx⟩ := Option.bind_eq_some_iff.1 hleft
      obtain ⟨new, hnew, hy⟩ := Option.bind_eq_some_iff.1 hright
      exact ⟨name, rest, old, new, rfl, hold, hnew, hx, hy, hkinds⟩
  · rintro ⟨name, rest, old, new, rfl, hold, hnew, hx, hy, hkinds⟩
    refine ⟨?_, ?_, hkinds⟩
    · rw [reach?_map, hold]
      exact hx
    · rw [reach?_map, hnew]
      exact hy

/-! ## A part of a tree -/

mutual

/-- A value without the entries below it whose names, from the value on, are not kept. -/
def Value.restrict (keep : List String → Bool) : Value → Value
  | .map fields => .map (Value.restrictFields keep fields)
  | other => other

def Value.restrictFields (keep : List String → Bool) : List (String × Value) → List (String × Value)
  | [] => []
  | (name, value) :: rest =>
    if keep [name] then
      (name, Value.restrict (fun names => keep (name :: names)) value) :: Value.restrictFields keep rest
    else Value.restrictFields keep rest

end

/-- The entries of a tree whose names come before some names. -/
def Properties.before (names : List String) (props : Properties) : Properties :=
  Value.restrictFields (fun other => decide (other < names)) props

mutual

theorem Value.restrict_of_all {keep : List String → Bool} (hkeep : ∀ names, keep names = true) (value : Value) :
    value.restrict keep = value := by
  match value with
  | .map fields => rw [restrict, restrictFields_of_all hkeep fields]
  | .bool _ | .int _ | .string _ | .list _ => rfl

theorem Value.restrictFields_of_all {keep : List String → Bool} (hkeep : ∀ names, keep names = true)
    (fields : List (String × Value)) : restrictFields keep fields = fields := by
  match fields with
  | [] => rfl
  | (name, value) :: rest =>
    rw [restrictFields, if_pos (hkeep _), restrict_of_all (fun names => hkeep (name :: names)) value,
      restrictFields_of_all hkeep rest]

end

/-- Entries with smaller names are kept as they are. -/
theorem Properties.before_of_lt {name : String} {names : List String} {first : Properties}
    (h : ∀ entry ∈ first, entry.1 < name) (rest : Properties) :
    before (name :: names) (first ++ rest) = first ++ before (name :: names) rest := by
  induction first with
  | nil => rfl
  | cons entry first ih =>
    obtain ⟨key, value⟩ := entry
    obtain ⟨hlt, hfirst⟩ := List.forall_mem_cons.1 h
    have hkeep : ∀ below, decide (key :: below < name :: names) = true := fun below =>
      decide_eq_true (List.cons_lt_cons_iff.2 (.inl hlt))
    simp only [List.cons_append, before, Value.restrictFields]
    rw [if_pos (hkeep []), Value.restrict_of_all hkeep]
    exact congrArg _ (ih hfirst)

/-- Entries with greater names are left out. -/
theorem Properties.before_of_gt {name : String} {names : List String} {rest : Properties}
    (h : ∀ entry ∈ rest, name < entry.1) : before (name :: names) rest = [] := by
  induction rest with
  | nil => rfl
  | cons entry rest ih =>
    obtain ⟨key, value⟩ := entry
    obtain ⟨hlt, hrest⟩ := List.forall_mem_cons.1 h
    have hdrop : ¬ [key] < name :: names := by
      rw [List.cons_lt_cons_iff]
      rintro (hkey | ⟨rfl, -⟩)
      · exact String.lt_irrefl name (String.lt_trans hlt hkey)
      · exact String.lt_irrefl key hlt
    rw [before, Value.restrictFields, if_neg (by simpa using hdrop)]
    exact ih hrest

/-- Of an entry with the first of some names those parts are kept that come before the others. -/
theorem Properties.before_cons {name : String} {names : List String} {value : Value} {rest : Properties}
    (h : ∀ entry ∈ rest, name < entry.1) : before (name :: names) ((name, value) :: rest) =
      if names = [] then [] else [(name, value.restrict fun other => decide (other < names))] := by
  have hkeep : ∀ below, decide (name :: below < name :: names) = decide (below < names) := fun below => by
    simp
  have hrest : before (name :: names) rest = [] := before_of_gt h
  unfold before at hrest ⊢
  rw [Value.restrictFields, hrest]
  simp only [hkeep]
  cases names with
  | nil => simp
  | cons next names => simp [List.nil_lt_cons]

/-! ## One step of a merge -/

/-- An entry with a smaller name stands before the others. -/
theorem Table.mem_of_lt {first rest : Properties} {name key : String} {value other : Value}
    (hgt : ∀ entry ∈ rest, name < entry.1) (hmem : (key, other) ∈ first ++ (name, value) :: rest) (hlt : key < name) :
    (key, other) ∈ first := by
  rcases List.mem_append.1 hmem with hmem | hmem
  · exact hmem
  · rcases List.mem_cons.1 hmem with heq | hmem
    · cases heq
      exact absurd hlt (String.lt_irrefl name)
    · exact absurd (String.lt_trans hlt (hgt _ hmem)) (String.lt_irrefl key)

/-- Two values cannot be merged if they are of different kinds, or are maps that cannot be merged. -/
theorem Value.append_error? {path : String} {old new : Value} {error : PropertyError}
    (h : (Value.append path old new).error? = some error) :
    (old.kindName ≠ new.kindName ∧ error = .shapeMismatch path old.kindName new.kindName ∧
      (Value.append path old new).state = old) ∨
    ∃ fields more, old = .map fields ∧ new = .map more ∧
      (Properties.appendAt path fields more).error? = some error := by
  by_cases hkind : old.kindName = new.kindName
  · right
    cases old <;> cases new <;> simp only [kindName, String.reduceEq] at hkind
    case map.map fields more => exact ⟨fields, more, rfl, rfl, h⟩
    all_goals cases h
  · left
    refine ⟨hkind, ?_⟩
    cases old <;> cases new <;> first | exact absurd rfl hkind | (cases h; exact ⟨rfl, rfl⟩)

/-- Values that were merged are of one kind. -/
theorem Value.kindName_of_append {path : String} {old new : Value} (h : (Value.append path old new).error? = none) :
    old.kindName = new.kindName := by
  cases old <;> cases new <;> first | rfl | cases h

namespace Properties

variable {path : String} {props more mid : Properties} {error : PropertyError}

/-- A merge goes on with what a first part came to. -/
theorem appendAt_append {first : Properties} (h : (appendAt path props first).outcome = .ok mid) (rest : Properties) :
    appendAt path props (first ++ rest) = appendAt path mid rest := by
  induction first generalizing props with
  | nil =>
    cases h
    rfl
  | cons entry first ih =>
    obtain ⟨name, value⟩ := entry
    rw [List.cons_append, appendAt]
    rw [appendAt] at h
    cases hf : props.find? name with
    | none =>
      simp only [hf] at h ⊢
      exact ih h
    | some old =>
      simp only [hf] at h ⊢
      cases hr : (Value.append (joinPath path name) old value).result with
      | ok answer =>
        simp only [hr] at h ⊢
        exact ih h
      | error error =>
        simp only [hr] at h
        cases h

/-- A merge that stops was stopped by one entry: those before it were merged, and those after it were not looked at. -/
theorem appendAt_stopped (hm : Table.Ordered more) (h : (appendAt path props more).error? = some error) :
    ∃ first name value rest mid old, more = first ++ (name, value) :: rest ∧
      (appendAt path props first).outcome = .ok mid ∧ props.find? name = some old ∧
      (Value.append (joinPath path name) old value).error? = some error ∧
      (appendAt path props more).state = mid.insert name (Value.append (joinPath path name) old value).state := by
  induction more generalizing props with
  | nil => cases h
  | cons entry rest ih =>
    obtain ⟨name, value⟩ := entry
    obtain ⟨hlt, hrest⟩ := Table.ordered_cons.1 hm
    cases hone : (appendAt path props [(name, value)]).outcome with
    | ok next =>
      have hgo : ∀ more, appendAt path props ((name, value) :: more) = appendAt path next more := appendAt_append hone
      rw [hgo] at h ⊢
      obtain ⟨first, name', value', rest', mid, old, rfl, hfirst, hold, hstop, hstate⟩ := ih hrest h
      have hne : name ≠ name' := fun he =>
        String.lt_irrefl name' (he ▸ hlt _ (List.mem_append_right _ List.mem_cons_self))
      have hkept : next.find? name' = props.find? name' := by
        rw [← (Attempt.outcome_eq_ok.1 hone).2]
        exact find?_appendAt_of_ne fun entry he => List.mem_singleton.1 he ▸ hne
      exact ⟨(name, value) :: first, name', value', rest', mid, old, rfl, by rw [hgo, hfirst], hkept ▸ hold, hstop,
        hstate⟩
    | error cause =>
      -- the first entry itself cannot be merged
      rw [appendAt] at h hone ⊢
      cases hf : props.find? name with
      | none =>
        simp only [hf] at hone
        cases hone
      | some old =>
        simp only [hf] at h hone ⊢
        cases hr : (Value.append (joinPath path name) old value).result with
        | ok answer =>
          simp only [hr] at hone
          cases hone
        | error error =>
          simp only [hr] at h ⊢
          cases h
          exact ⟨[], name, value, rest, props, old, rfl, rfl, hf, by rw [Attempt.error?, hr], rfl⟩

end Properties

/-! ## The whole of a merge -/

/-- Where values can be merged, nothing clashes below them. -/
theorem Value.not_clash_of_append {n : Nat} {path : String} {old new x y : Value} {names : List String}
    (hn : new.Neat n) (h : (Value.append path old new).error? = none) : ¬ old.Clash new names x y := by
  intro hclash
  induction names generalizing n path old new with
  | nil =>
    obtain ⟨hx, hy, hkinds⟩ := hclash
    cases hx
    cases hy
    exact hkinds (kindName_of_append h)
  | cons name rest ih =>
    cases old with
    | map fields =>
      cases new with
      | map more =>
        obtain ⟨key, below, u, v, hnames, hu, hv, hbelow⟩ := clash_map.1 hclash
        cases hnames
        cases n with
        | zero => exact hn.elim
        | succ n =>
          have hfound := Properties.find?_appendAt hn.1 h name
          rw [hu, hv] at hfound
          exact ih (hn.2 _ (Table.mem_of_find? hv)) hfound.1 hbelow
      | _ => cases hclash.right
    | _ => cases hclash.left

/-- What a merge of two values that stops at some names says and leaves. -/
structure Value.StopsAt (path : String) (old new : Value) (error : PropertyError) (names : List String)
    (x y : Value) : Prop where
  clash : old.Clash new names x y
  first : ∀ other x' y', old.Clash new other x' y' → other = names ∨ names < other
  error : error = .shapeMismatch (names.foldl joinPath path) x.kindName y.kindName
  /-- Values that clash themselves stay as they are. -/
  here : names = [] → (Value.append path old new).state = old
  merged : names ≠ [] → (Value.append path old (new.restrict fun other => decide (other < names))).outcome =
    .ok (Value.append path old new).state
  kept : ∀ other, ¬ other < names → (Value.append path old new).state.reach? other = old.reach? other

/-- Values of different kinds clash themselves. -/
theorem Value.stopsAt_nil {path : String} {old new : Value} (hkind : old.kindName ≠ new.kindName)
    (hstate : (Value.append path old new).state = old) :
    StopsAt path old new (.shapeMismatch path old.kindName new.kindName) [] old new where
  clash := ⟨rfl, rfl, hkind⟩
  first := fun other _ _ _ => by
    cases other with
    | nil => exact .inl rfl
    | cons name rest => exact .inr (List.nil_lt_cons name rest)
  error := rfl
  here := fun _ => hstate
  merged := fun hne => absurd rfl hne
  kept := fun other _ => by rw [hstate]

section Below
variable {n : Nat} {path name : String} {fields first rest mid : Properties} {value old x y : Value}
  {error : PropertyError} {names : List String}

/-- A merge that is stopped below one name is stopped at that name and those below it. -/
theorem Value.StopsAt.below (hf : Properties.NeatBy (fun _ => n) fields)
    (hm : Properties.NeatBy (fun _ => n) (first ++ (name, value) :: rest))
    (hmid : (Properties.appendAt path fields first).outcome = .ok mid) (hold : fields.find? name = some old)
    (hstate : (Properties.appendAt path fields (first ++ (name, value) :: rest)).state =
      mid.insert name (Value.append (joinPath path name) old value).state)
    (h : StopsAt (joinPath path name) old value error names x y) :
    StopsAt path (.map fields) (.map (first ++ (name, value) :: rest)) error (name :: names) x y := by
  obtain ⟨hordfirst, hordrest, hbetween⟩ := List.pairwise_append.1 hm.ordered
  obtain ⟨hgt, -⟩ := Table.ordered_cons.1 hordrest
  have hlt : ∀ entry ∈ first, entry.1 < name := fun entry he => hbetween entry he _ List.mem_cons_self
  have hvalue : Table.find? (first ++ (name, value) :: rest) name = some value :=
    Table.find?_of_mem hm.ordered (List.mem_append_right _ List.mem_cons_self)
  obtain ⟨herror, hmidstate⟩ := Attempt.outcome_eq_ok.1 hmid
  have hmidord : Table.Ordered mid := hmidstate ▸ Properties.ordered_appendAt hf.ordered
  -- the entries before touch smaller names only
  have hmidfind : ∀ key, ¬ key < name → mid.find? key = fields.find? key := fun key hkey => by
    rw [← hmidstate]
    exact Properties.find?_appendAt_of_ne fun entry he heq => hkey (heq ▸ hlt entry he)
  have hmidname : mid.find? name = some old := (hmidfind name (String.lt_irrefl name)).trans hold
  refine ⟨?_, fun other x' y' hother => ?_, h.error, fun hnil => absurd hnil (List.cons_ne_nil _ _), fun _ => ?_,
    fun other hother => ?_⟩
  · exact clash_map.2 ⟨name, names, old, value, rfl, hold, hvalue, h.clash⟩
  · -- another clash is not under a smaller name, since what is there was merged
    obtain ⟨key, below, u, v, rfl, hu, hv, hbelow⟩ := clash_map.1 hother
    by_cases hkey : key < name
    · have hmem : (key, v) ∈ first := Table.mem_of_lt hgt (Table.mem_of_find? hv) hkey
      have hfound := Properties.find?_appendAt hordfirst herror key
      rw [hu, Table.find?_of_mem hordfirst hmem] at hfound
      exact absurd hbelow (not_clash_of_append (hm.find? hv) hfound.1)
    · by_cases heq : name = key
      · subst heq
        cases hold.symm.trans hu
        cases hvalue.symm.trans hv
        rcases h.first below x' y' hbelow with rfl | hlater
        · exact .inl rfl
        · exact .inr (List.cons_lt_cons_iff.2 (.inr ⟨rfl, hlater⟩))
      · exact .inr (List.cons_lt_cons_iff.2 (.inl (Table.lt_of_not_lt hkey heq)))
  · -- up to the clash the merge is that of the entries before
    rw [restrict, Value.append, Value.append]
    show ((Properties.appendAt path fields (Properties.before (name :: names) _)).within _).outcome = _
    rw [Properties.before_of_lt hlt, Properties.before_cons hgt]
    by_cases hnames : names = []
    · have hsame : mid.insert name old = mid := Table.eq_of_find? (Table.ordered_insert hmidord _ _) hmidord
        fun key => by
          rw [Table.find?_insert]
          split
          · next he => rw [← he, hmidname]
          · rfl
      rw [if_pos hnames, List.append_nil]
      refine Attempt.outcome_eq_ok.2 ⟨herror, ?_⟩
      simp only [Attempt.within, hmidstate, hstate, h.here hnames, hsame]
    · obtain ⟨hone, honestate⟩ := Attempt.outcome_eq_ok.1 (h.merged hnames)
      rw [if_neg hnames, Properties.appendAt_append hmid]
      refine Attempt.outcome_eq_ok.2 ?_
      simp only [Properties.appendAt, hmidname, Attempt.result_of_error? hone, Attempt.within, honestate, hstate]
      exact ⟨rfl, rfl⟩
  · cases other with
    | nil => exact absurd (List.nil_lt_cons name names) hother
    | cons key below =>
      rw [List.cons_lt_cons_iff, not_or, not_and] at hother
      obtain ⟨hkey, hbelow⟩ := hother
      simp only [Value.append, Attempt.within, reach?_map, hstate, Table.find?_insert]
      by_cases heq : name = key
      · subst heq
        rw [if_pos rfl, hold]
        exact h.kept below (hbelow rfl)
      · rw [if_neg heq, hmidfind key hkey]

end Below

/-- **A merge that stops does so at the first clash.** -/
theorem Value.exists_stopsAt {n : Nat} {path : String} {old new : Value} {error : PropertyError} (ho : old.Neat n)
    (hn : new.Neat n) (h : (Value.append path old new).error? = some error) :
    ∃ names x y, StopsAt path old new error names x y := by
  induction n generalizing path old new with
  | zero =>
    rcases append_error? h with ⟨hkind, rfl, hstate⟩ | ⟨fields, more, rfl, rfl, -⟩
    · exact ⟨[], old, new, stopsAt_nil hkind hstate⟩
    · exact ho.elim
  | succ n ih =>
    rcases append_error? h with ⟨hkind, rfl, hstate⟩ | ⟨fields, more, rfl, rfl, herror⟩
    · exact ⟨[], old, new, stopsAt_nil hkind hstate⟩
    · obtain ⟨first, name, value, rest, mid, entry, rfl, hmid, hold, hstop, hstate⟩ :=
        Properties.appendAt_stopped hn.1 herror
      have hvalue := hn.2 (name, value) (List.mem_append_right _ List.mem_cons_self)
      obtain ⟨names, x, y, hstops⟩ := ih (ho.2 _ (Table.mem_of_find? hold)) hvalue hstop
      exact ⟨name :: names, x, y,
        hstops.below (Properties.neatBy_map.1 ho) (Properties.neatBy_map.1 hn) hmid hold hstate⟩

namespace Properties

/-- Names that lead, through maps in two trees, to values of different kinds. -/
structure Clash (props more : Properties) (names : List String) (old new : Value) : Prop where
  left : props.follow? names = some old
  right : more.follow? names = some new
  kinds : old.kindName ≠ new.kindName

theorem clash_iff {props more : Properties} {names : List String} {old new : Value} :
    props.Clash more names old new ↔ (Value.map props).Clash (.map more) names old new := by
  cases names with
  | nil =>
    refine ⟨fun h => ?_, fun h => ?_⟩
    · cases h.left
    · cases h.left
      cases h.right
      exact absurd rfl h.kinds
  | cons name rest =>
    exact ⟨fun h => ⟨h.left, h.right, h.kinds⟩, fun h => ⟨h.left, h.right, h.kinds⟩⟩

end Properties

/-- **A merge stops at the first clash, and only there.** Merging fails exactly if some names lead, through maps in
both trees, to values of different kinds. It then reports the first such names in order, with the kinds of the two
values. What it leaves is the tree merged with those entries of the other one whose names come before, and whatever
any later names lead to, the clash included, is as it was. -/
theorem merging_stops_at_first_clash {props more : Properties} (hp : props.Ordered) (hm : more.Ordered) :
    ((props.append more).error? ≠ none ↔ ∃ names old new, props.Clash more names old new) ∧
    ∀ error, (props.append more).error? = some error → ∃ names old new,
      props.Clash more names old new ∧
      (∀ other old' new', props.Clash more other old' new' → other = names ∨ names < other) ∧
      error = .shapeMismatch (names.foldl joinPath "") old.kindName new.kindName ∧
      (props.append (more.before names)).outcome = .ok (props.append more).state ∧
      ∀ other, ¬ other < names → (props.append more).state.follow? other = props.follow? other := by
  have htrees : ∀ tree ∈ [props, more], tree.Ordered := by simp [hp, hm]
  obtain ⟨n, hn⟩ := Properties.exists_neatBy htrees
  have hpn : (Value.map props).Neat (n + 1) := Properties.neatBy_map.2 (hn props (by simp))
  have hmn : (Value.map more).Neat (n + 1) := Properties.neatBy_map.2 (hn more (by simp))
  have hstops : ∀ error, (props.append more).error? = some error → ∃ names old new,
      Value.StopsAt "" (.map props) (.map more) error names old new := fun _ => Value.exists_stopsAt hpn hmn
  refine ⟨⟨fun hne => ?_, ?_⟩, fun error herror => ?_⟩
  · obtain ⟨error, herror⟩ := Option.ne_none_iff_exists'.1 hne
    obtain ⟨names, old, new, hstop⟩ := hstops error herror
    exact ⟨names, old, new, Properties.clash_iff.2 hstop.clash⟩
  · rintro ⟨names, old, new, hclash⟩ hnone
    have hmaps : (Value.append "" (.map props) (.map more)).error? = none := hnone
    exact Value.not_clash_of_append hmn hmaps (Properties.clash_iff.1 hclash)
  · obtain ⟨names, old, new, hstop⟩ := hstops error herror
    have hne : names ≠ [] := by
      rintro rfl
      exact hstop.clash.kinds (by cases hstop.clash.left; cases hstop.clash.right; rfl)
    have hmerged := hstop.merged hne
    refine ⟨names, old, new, Properties.clash_iff.2 hstop.clash, fun other old' new' hother => ?_, hstop.error, ?_,
      fun other hother => ?_⟩
    · exact hstop.first other old' new' (Properties.clash_iff.1 hother)
    · obtain ⟨hend, hstate⟩ := Attempt.outcome_eq_ok.1 hmerged
      exact Attempt.outcome_eq_ok.2 ⟨hend, Value.map.inj hstate⟩
    · cases other with
      | nil => rfl
      | cons key below => exact hstop.kept _ hother

/-- Sources for two architectures, one of them a text. -/
def listedAndTold : Properties :=
  [("arch", .map [("arm", .map [("srcs", .list ["a.c"])]), ("x86", .map [("srcs", .string "b.c")])]),
    ("stl", .string "libc")]

/-- Flags and sources for both architectures, all of them lists. -/
def listedTwice : Properties :=
  [("arch", .map [("arm", .map [("srcs", .list ["c.c"])]),
    ("x86", .map [("cflags", .list ["-x"]), ("srcs", .list ["d.c"])])]), ("stl", .list ["none"])]

/-- Of two clashes the first is reported; what comes before it is merged, on the way to it as well. -/
theorem merging_stops_at_first_clash_sources : listedAndTold.Ordered ∧ listedTwice.Ordered ∧
    (listedAndTold.append listedTwice).error? = some (.shapeMismatch "arch.x86.srcs" "string" "list") ∧
    listedAndTold.Clash listedTwice ["stl"] (.string "libc") (.list ["none"]) ∧
    (∃ names old new, listedAndTold.Clash listedTwice names old new ∧
      (names = ["stl"] ∨ names < ["stl"]) ∧ names.foldl joinPath "" = "arch.x86.srcs" ∧
      (listedAndTold.append (listedTwice.before names)).outcome = .ok (listedAndTold.append listedTwice).state) ∧
    (listedAndTold.append listedTwice).state =
      [("arch", .map [("arm", .map [("srcs", .list ["a.c", "c.c"])]),
        ("x86", .map [("cflags", .list ["-x"]), ("srcs", .string "b.c")])]), ("stl", .string "libc")] := by
  have hp : listedAndTold.Ordered := by
    simp only [listedAndTold, Properties.Ordered, Value.Ordered, Value.FieldsOrdered, Table.Ordered]
    decide +kernel
  have hm : listedTwice.Ordered := by
    simp only [listedTwice, Properties.Ordered, Value.Ordered, Value.FieldsOrdered, Table.Ordered]
    decide +kernel
  have herror : (listedAndTold.append listedTwice).error? =
      some (.shapeMismatch "arch.x86.srcs" "string" "list") := rfl
  have hlater : listedAndTold.Clash listedTwice ["stl"] (.string "libc") (.list ["none"]) := ⟨rfl, rfl, by decide⟩
  obtain ⟨names, old, new, hclash, hfirst, hsaid, hmerged, -⟩ :=
    (merging_stops_at_first_clash hp hm).2 _ herror
  injection hsaid with hnames
  exact ⟨hp, hm, herror, hlater,
    ⟨names, old, new, hclash, (hfirst _ _ _ hlater).imp_left Eq.symm, hnames.symm, hmerged⟩, rfl⟩

end VariantGraph
