import Mathlib.Data.List.Induction
import VariantGraph.Proofs.Table
import VariantGraph.Proofs.Text
import VariantGraph.Property.Path
/-!
# Dotted paths are lenses

A path goes on below its first name in the map that stands there, or in an empty one if nothing does (`below?`), so
looking up, setting and removing are one recursion on the names of a path. Setting fails exactly where a name on the way
has a value that is no map (`Blocked`), and what setting and removing change is at the path, above it or below it
(`SameElsewhere`). Done in place, both go down from map to map and change the last one; where a value is in the way,
setting has made no map before it gets there (`setInPlace_eq`, `takeOut_eq`).
-/
namespace VariantGraph
namespace Properties

variable {props inner inner' t : Properties} {name walked : String} {names first rest : List String} {value : Value}

/-! ## Going down -/

/-- The tree in which paths go on below a name: the map that stands there, or an empty one. -/
def below? (props : Properties) (name : String) : Option Properties :=
  match props.find? name with
  | none => some []
  | some value => value.map?

theorem below?_insert (props : Properties) (name : String) (inner : Properties) :
    below? (props.insert name (.map inner)) name = some inner := by
  rw [below?, Table.find?_insert, if_pos rfl]
  rfl

theorem follow?_singleton : props.follow? [name] = props.find? name := rfl

theorem follow?_nil_left : follow? [] names = none := by
  rcases names with _ | ⟨name, _ | ⟨second, rest⟩⟩ <;> rfl

theorem follow?_below (hrest : rest ≠ []) : props.follow? (name :: rest) = (props.below? name).bind (follow? · rest) := by
  unfold below?
  rw [follow?.eq_3 _ _ _ hrest]
  cases Table.find? props name with
  | none => exact follow?_nil_left.symm
  | some value => cases value <;> rfl

/-- A map with something in it is there. -/
theorem find?_of_below? (hbelow : props.below? name = some inner) (h : inner.follow? names = some value) :
    props.find? name = some (.map inner) := by
  unfold below? at hbelow
  split at hbelow
  · cases hbelow
    rw [follow?_nil_left] at h
    cases h
  · next found hfind =>
    cases found with
    | map fields => cases hbelow; exact hfind
    | _ => cases hbelow

theorem setAt_below (hrest : rest ≠ []) : setAt walked value props (name :: rest) =
    match props.below? name with
    | none => .error (.notAMap (joinPath walked name))
    | some inner => (setAt (joinPath walked name) value inner rest).map fun inner => props.insert name (.map inner) := by
  unfold below?
  rw [setAt.eq_3 _ _ _ _ _ hrest]
  cases Table.find? props name with
  | none => rfl
  | some value => cases value <;> rfl

theorem removeAt?_nil_left : removeAt? [] names = none := by
  rcases names with _ | ⟨name, _ | ⟨second, rest⟩⟩ <;> rfl

theorem removeAt?_below (hrest : rest ≠ []) : props.removeAt? (name :: rest) =
    (props.below? name).bind fun inner => (inner.removeAt? rest).map fun (value, inner) =>
      (value, props.insert name (.map inner)) := by
  unfold below?
  rw [removeAt?.eq_3 _ _ _ hrest]
  cases Table.find? props name with
  | none => rw [Option.bind_some, removeAt?_nil_left]; rfl
  | some value => cases value <;> rfl

theorem replaceAt?_nil_left : replaceAt? value [] names = none := by
  rcases names with _ | ⟨name, _ | ⟨second, rest⟩⟩ <;> rfl

theorem replaceAt?_below (hrest : rest ≠ []) : props.replaceAt? value (name :: rest) =
    (props.below? name).bind fun inner => (inner.replaceAt? value rest).map fun inner =>
      props.insert name (.map inner) := by
  unfold below?
  rw [replaceAt?.eq_3 _ _ _ _ hrest]
  cases Table.find? props name with
  | none => rw [Option.bind_some, replaceAt?_nil_left]; rfl
  | some value => cases value <;> rfl

/-- What setting below a name comes to. -/
theorem setAt_below_eq_ok (hrest : rest ≠ []) (h : setAt walked value props (name :: rest) = .ok t) :
    ∃ inner inner', props.below? name = some inner ∧ setAt (joinPath walked name) value inner rest = .ok inner' ∧
      t = props.insert name (.map inner') := by
  rw [setAt_below hrest] at h
  split at h
  · cases h
  · next inner hinner =>
    cases hset : setAt (joinPath walked name) value inner rest with
    | error error => rw [hset] at h; cases h
    | ok inner' => rw [hset] at h; exact ⟨inner, inner', hinner, hset, (Except.ok.inj h).symm⟩

/-- What removing below a name comes to. -/
theorem removeAt?_below_eq_some (hrest : rest ≠ []) (h : props.removeAt? (name :: rest) = some (value, t)) :
    ∃ inner inner', props.below? name = some inner ∧ inner.removeAt? rest = some (value, inner') ∧
      t = props.insert name (.map inner') := by
  rw [removeAt?_below hrest] at h
  obtain ⟨inner, hinner, h⟩ := Option.bind_eq_some_iff.1 h
  obtain ⟨⟨found, inner'⟩, hremove, h⟩ := Option.map_eq_some_iff.1 h
  cases h
  exact ⟨inner, inner', hinner, hremove, rfl⟩

/-! ## Values in the way -/

/-- A name on the way, before the last one, has a value that is no map. -/
def Blocked (props : Properties) (names : List String) : Prop :=
  ∃ first rest value, names = first ++ rest ∧ first ≠ [] ∧ rest ≠ [] ∧ props.follow? first = some value ∧
    value.map? = none

theorem not_blocked_singleton : ¬ props.Blocked [name] := by
  rintro ⟨first, rest, value, hnames, hfirst, hrest, -⟩
  rcases List.singleton_eq_append_iff.1 hnames with ⟨rfl, -⟩ | ⟨-, rfl⟩
  · exact hfirst rfl
  · exact hrest rfl

/-- A value is in the way if it stands under the first name, or is in the way below it. -/
theorem blocked_cons_iff (hrest : rest ≠ []) : props.Blocked (name :: rest) ↔
    props.below? name = none ∨ ∃ inner, props.below? name = some inner ∧ inner.Blocked rest := by
  constructor
  · rintro ⟨first, last, value, hnames, hfirst, hlast, hvalue, hmap⟩
    obtain ⟨name', first, rfl⟩ := List.exists_cons_of_ne_nil hfirst
    obtain ⟨rfl, rfl⟩ := List.cons.inj hnames
    by_cases hempty : first = []
    · subst hempty
      rw [follow?_singleton] at hvalue
      exact .inl (by rw [below?, hvalue]; exact hmap)
    · rw [follow?_below hempty] at hvalue
      obtain ⟨inner, hinner, hvalue⟩ := Option.bind_eq_some_iff.1 hvalue
      exact .inr ⟨inner, hinner, first, last, value, rfl, hempty, hlast, hvalue, hmap⟩
  · rintro (hbelow | ⟨inner, hinner, first, last, value, rfl, hfirst, hlast, hvalue, hmap⟩)
    · cases hfind : Table.find? props name with
      | none => simp [below?, hfind] at hbelow
      | some value =>
        rw [below?, hfind] at hbelow
        exact ⟨[name], rest, value, rfl, List.cons_ne_nil _ _, hrest, hfind, hbelow⟩
    · refine ⟨name :: first, last, value, rfl, List.cons_ne_nil _ _, hlast, ?_, hmap⟩
      rw [follow?_below hfirst, hinner, Option.bind_some, hvalue]

/-- **Setting fails exactly where a value is in the way.** -/
theorem setAt_eq_error_iff (hnames : names ≠ []) :
    (∃ error, setAt walked value props names = .error error) ↔ props.Blocked names := by
  induction names, hnames using List.recNeNil generalizing props walked with
  | singleton name => exact iff_of_false (fun ⟨_, h⟩ => by cases h) not_blocked_singleton
  | cons name rest hrest ih =>
    rw [setAt_below hrest, blocked_cons_iff hrest]
    cases props.below? name with
    | none => simp
    | some inner =>
      simp only [reduceCtorEq, false_or, Option.some.injEq, exists_eq_left', ← @ih inner (joinPath walked name)]
      cases setAt (joinPath walked name) value inner rest <;> simp [Except.map]

/-! ## What stays the same -/

/-- Paths lead to the same as before, apart from some names, what is above them and what is below. -/
def SameElsewhere (names : List String) (props t : Properties) : Prop :=
  ∀ other, ¬ other <+: names → ¬ names <+: other → t.follow? other = props.follow? other

/-- A path begins with what stands under its first name. -/
theorem follow?_congr (h : t.find? name = props.find? name) (rest : List String) :
    t.follow? (name :: rest) = props.follow? (name :: rest) := by
  by_cases hrest : rest = []
  · subst hrest
    exact h
  · rw [follow?_below hrest, follow?_below hrest, below?, below?, h]

theorem sameElsewhere_singleton (h : ∀ other ≠ name, t.find? other = props.find? other) :
    SameElsewhere [name] props t := by
  intro other habove hbelow
  cases other with
  | nil => exact absurd List.nil_prefix habove
  | cons first other =>
    refine follow?_congr (h first fun hfirst => hbelow ?_) other
    rw [hfirst]
    exact List.prefix_append [name] other

theorem SameElsewhere.below (h : SameElsewhere rest inner inner') (hinner : props.below? name = some inner) :
    SameElsewhere (name :: rest) props (props.insert name (.map inner')) := by
  intro other habove hbelow
  cases other with
  | nil => exact absurd List.nil_prefix habove
  | cons first other =>
    by_cases hfirst : first = name
    · subst hfirst
      rw [List.cons_prefix_cons, and_iff_right rfl] at habove hbelow
      have hother : other ≠ [] := fun hempty => habove (hempty ▸ List.nil_prefix)
      rw [follow?_below hother, follow?_below hother, below?_insert, hinner]
      exact h other habove hbelow
    · refine follow?_congr ?_ other
      rw [Table.find?_insert, if_neg (Ne.symm hfirst)]

/-! ## Setting -/

theorem follow?_setAt (hnames : names ≠ []) (h : setAt walked value props names = .ok t) :
    t.follow? names = some value := by
  induction names, hnames using List.recNeNil generalizing props walked t with
  | singleton name =>
    obtain rfl := Except.ok.inj h
    rw [follow?_singleton, Table.find?_insert, if_pos rfl]
  | cons name rest hrest ih =>
    obtain ⟨inner, inner', -, hset, rfl⟩ := setAt_below_eq_ok hrest h
    rw [follow?_below hrest, below?_insert]
    exact ih hset

theorem sameElsewhere_setAt (hnames : names ≠ []) (h : setAt walked value props names = .ok t) :
    SameElsewhere names props t := by
  induction names, hnames using List.recNeNil generalizing props walked t with
  | singleton name =>
    obtain rfl := Except.ok.inj h
    exact sameElsewhere_singleton fun other hother => by rw [Table.find?_insert, if_neg (Ne.symm hother)]
  | cons name rest hrest ih =>
    obtain ⟨inner, inner', hinner, hset, rfl⟩ := setAt_below_eq_ok hrest h
    exact (ih hset).below hinner

/-- Of two values set at one place the later one counts. -/
theorem setAt_setAt (hnames : names ≠ []) (h : setAt walked value props names = .ok t) (other : Value) :
    setAt walked other t names = setAt walked other props names := by
  induction names, hnames using List.recNeNil generalizing props walked t with
  | singleton name =>
    obtain rfl := Except.ok.inj h
    exact congrArg Except.ok (Table.insert_insert props name value other)
  | cons name rest hrest ih =>
    obtain ⟨inner, inner', hinner, hset, rfl⟩ := setAt_below_eq_ok hrest h
    rw [setAt_below hrest, setAt_below hrest, below?_insert, hinner]
    simp only [ih hset, Table.insert_insert]

/-! ## Removing -/

/-- What is removed is what the path leads to. -/
theorem map_fst_removeAt? (hnames : names ≠ []) : (props.removeAt? names).map (·.1) = props.follow? names := by
  induction names, hnames using List.recNeNil generalizing props with
  | singleton name => simp [removeAt?, follow?, Function.comp_def]
  | cons name rest hrest ih =>
    rw [removeAt?_below hrest, follow?_below hrest, Option.map_bind]
    simp [← ih, Function.comp_def]

theorem follow?_removeAt? (hnames : names ≠ []) (h : props.removeAt? names = some (value, t)) :
    t.follow? names = none := by
  induction names, hnames using List.recNeNil generalizing props t with
  | singleton name =>
    obtain ⟨_, -, hfound⟩ := Option.map_eq_some_iff.1 h
    cases hfound
    rw [follow?_singleton, Table.find?_erase, if_pos rfl]
  | cons name rest hrest ih =>
    obtain ⟨inner, inner', -, hremove, rfl⟩ := removeAt?_below_eq_some hrest h
    rw [follow?_below hrest, below?_insert]
    exact ih hremove

theorem sameElsewhere_removeAt? (hnames : names ≠ []) (h : props.removeAt? names = some (value, t)) :
    SameElsewhere names props t := by
  induction names, hnames using List.recNeNil generalizing props t with
  | singleton name =>
    obtain ⟨_, -, hfound⟩ := Option.map_eq_some_iff.1 h
    cases hfound
    exact sameElsewhere_singleton fun other hother => by rw [Table.find?_erase, if_neg (Ne.symm hother)]
  | cons name rest hrest ih =>
    obtain ⟨inner, inner', hinner, hremove, rfl⟩ := removeAt?_below_eq_some hrest h
    exact (ih hremove).below hinner

/-! ## Order -/

/-- A tree is ordered if its names increase and what stands under them is ordered. -/
theorem ordered_iff : props.Ordered ↔ Table.Ordered props ∧ ∀ entry ∈ props, entry.2.Ordered := by
  have hfields : ∀ fields : List (String × Value), Value.FieldsOrdered fields ↔ ∀ entry ∈ fields, entry.2.Ordered := by
    intro fields
    induction fields with
    | nil => exact iff_of_true trivial fun _ hmem => absurd hmem List.not_mem_nil
    | cons field fields ih => rw [Value.FieldsOrdered, ih, List.forall_mem_cons]
  exact and_congr_right fun _ => hfields props

theorem ordered_nil : Properties.Ordered [] := ordered_iff.2 ⟨List.Pairwise.nil, by simp⟩

theorem Ordered.insert (h : props.Ordered) (name : String) (hvalue : value.Ordered) :
    Properties.Ordered (props.insert name value) := by
  obtain ⟨hnames, hentries⟩ := ordered_iff.1 h
  refine ordered_iff.2 ⟨Table.ordered_insert hnames name value, fun entry hentry => ?_⟩
  rcases Table.mem_insert hentry with ⟨-, hnew⟩ | hold
  · rw [hnew]
    exact hvalue
  · exact hentries entry hold

theorem Ordered.erase (h : props.Ordered) (name : String) : Properties.Ordered (props.erase name) := by
  obtain ⟨hnames, hentries⟩ := ordered_iff.1 h
  exact ordered_iff.2 ⟨Table.ordered_erase hnames name, fun entry hentry => hentries entry (Table.mem_erase hentry)⟩

theorem Ordered.below? (h : props.Ordered) (hinner : props.below? name = some inner) : inner.Ordered := by
  unfold Properties.below? at hinner
  split at hinner
  · cases hinner
    exact ordered_nil
  · next value hfind =>
    have hvalue := (ordered_iff.1 h).2 _ (Table.mem_of_find? hfind)
    cases value with
    | map fields => cases hinner; exact hvalue
    | _ => cases hinner

theorem Ordered.setAt (hnames : names ≠ []) (h : props.Ordered) (hvalue : value.Ordered)
    (hset : setAt walked value props names = .ok t) : t.Ordered := by
  induction names, hnames using List.recNeNil generalizing props walked t with
  | singleton name =>
    obtain rfl := Except.ok.inj hset
    exact h.insert name hvalue
  | cons name rest hrest ih =>
    obtain ⟨inner, inner', hinner, hbelow, rfl⟩ := setAt_below_eq_ok hrest hset
    exact h.insert name (ih (h.below? hinner) hbelow)

theorem Ordered.removeAt? (hnames : names ≠ []) (h : props.Ordered)
    (hremove : props.removeAt? names = some (value, t)) : t.Ordered := by
  induction names, hnames using List.recNeNil generalizing props t with
  | singleton name =>
    obtain ⟨_, -, hfound⟩ := Option.map_eq_some_iff.1 hremove
    cases hfound
    exact h.erase name
  | cons name rest hrest ih =>
    obtain ⟨inner, inner', hinner, hbelow, rfl⟩ := removeAt?_below_eq_some hrest hremove
    exact h.insert name (ih (h.below? hinner) hbelow)

/-! ## In place -/

/-- Goes down from map to map by the names of the maps, making those that are not there, and puts a value into the last
one. What was made stays when a value is in the way. -/
def putBelow (leaf : String) (value : Value) : String → Properties → List String → Attempt Properties Unit
  | _, props, [] => .done (props.insert leaf value) ()
  | walked, props, name :: parents =>
    let walked := joinPath walked name
    let made := if props.has name then props else props.insert name (.map [])
    match made.find? name with
    | some (.map inner) => (putBelow leaf value walked inner parents).within fun inner => made.insert name (.map inner)
    | _ => .stopped made (.notAMap walked)

/-- Sets a value in place: the maps on the way are named before the last dot. -/
def setInPlace (props : Properties) (path : String) (value : Value) : Attempt Properties Unit :=
  match Text.cutLast? '.' path with
  | some (parents, leaf) => putBelow leaf value "" props (pathComponents parents)
  | none => putBelow path value "" props []

/-- Removes a value in place, from the map that what stands before the last dot leads to; the value and the tree. -/
def takeOut (props : Properties) (path : String) : Option Value × Properties :=
  match Text.cutLast? '.' path with
  | some (parents, leaf) =>
    match props.getMap? parents with
    | some inner => (inner.find? leaf, (props.replace? parents (.map (inner.erase leaf))).getD props)
    | none => (none, props)
  | none => (props.find? path, props.erase path)

/-- Below nothing, no value is in the way. -/
theorem exists_setAt_nil (hnames : names ≠ []) (walked : String) (value : Value) :
    ∃ t, setAt walked value [] names = .ok t := by
  cases hset : setAt walked value [] names with
  | ok t => exact ⟨t, rfl⟩
  | error error =>
    obtain ⟨first, rest, value, -, -, -, hvalue, -⟩ := (setAt_eq_error_iff hnames).1 ⟨error, hset⟩
    rw [follow?_nil_left] at hvalue
    cases hvalue

/-- **What is made on the way down is never left behind**: where a map is missing, no value can be in the way below. -/
theorem putBelow_eq (hprops : props.Ordered) {leaf : String} {parents : List String} :
    putBelow leaf value walked props parents =
      match setAt walked value props (parents ++ [leaf]) with
      | .ok t => .done t ()
      | .error error => .stopped props error := by
  induction parents generalizing props walked with
  | nil => rfl
  | cons name parents ih =>
    have hrest : parents ++ [leaf] ≠ [] := by simp
    rw [List.cons_append, setAt_below hrest, putBelow]
    cases hfind : Table.find? props name with
    | none =>
      have hmissing : Table.has props name = false := by simp [Table.has, hfind]
      have hbelow : props.below? name = some [] := by rw [Properties.below?, hfind]
      obtain ⟨t, hset⟩ := exists_setAt_nil hrest (joinPath walked name) value
      simp only [hmissing, Bool.false_eq_true, if_false, Table.find?_insert, if_true, hbelow, ih ordered_nil, hset]
      exact congrArg (Attempt.done · ()) (Table.insert_insert props name _ _)
    | some found =>
      have hthere : Table.has props name = true := by simp [Table.has, hfind]
      simp only [hthere, if_true, hfind]
      cases found with
      | map inner =>
        have hbelow : props.below? name = some inner := by rw [Properties.below?, hfind]; rfl
        simp only [hbelow, ih (hprops.below? hbelow)]
        cases setAt (joinPath walked name) value inner (parents ++ [leaf]) with
        | ok inner' => rfl
        | error error =>
          exact congrArg (Attempt.stopped · error) (Table.insert_of_find? (ordered_iff.1 hprops).1 hfind)
      | _ => rw [Properties.below?, hfind]; rfl

theorem follow?_append (hfirst : first ≠ []) (hrest : rest ≠ []) :
    props.follow? (first ++ rest) = ((props.follow? first).bind Value.map?).bind (follow? · rest) := by
  induction first, hfirst using List.recNeNil generalizing props with
  | singleton name =>
    rw [List.singleton_append, follow?_below hrest, follow?_singleton, Properties.below?]
    cases Table.find? props name with
    | none => exact follow?_nil_left
    | some value => rfl
  | cons name first hfirst ih =>
    rw [List.cons_append, follow?_below (List.append_ne_nil_of_left_ne_nil hfirst rest), follow?_below hfirst]
    cases props.below? name with
    | none => rfl
    | some inner => exact ih

/-- Taking a name out of a map is replacing the map by one without it. -/
theorem removeAt?_append_singleton (hnames : names ≠ []) (h : props.follow? names = some (.map inner)) (leaf : String) :
    props.removeAt? (names ++ [leaf]) = (inner.find? leaf).bind fun value =>
      (props.replaceAt? (.map (inner.erase leaf)) names).map (value, ·) := by
  induction names, hnames using List.recNeNil generalizing props with
  | singleton name =>
    have hbelow : props.below? name = some inner := by
      rw [follow?_singleton] at h
      rw [Properties.below?, h]
      rfl
    rw [follow?_singleton] at h
    rw [List.singleton_append, removeAt?_below (List.cons_ne_nil _ _), hbelow, Option.bind_some, replaceAt?, h, removeAt?]
    cases Table.find? inner leaf <;> rfl
  | cons name rest hrest ih =>
    rw [follow?_below hrest] at h
    obtain ⟨below, hbelow, h⟩ := Option.bind_eq_some_iff.1 h
    rw [List.cons_append, removeAt?_below (List.append_ne_nil_of_left_ne_nil hrest _), replaceAt?_below hrest, hbelow,
      Option.bind_some, Option.bind_some, ih h]
    cases Table.find? inner leaf with
    | none => rfl
    | some value => simp [Function.comp_def]

/-- A value that stands at a place is put there to no effect. -/
theorem replaceAt?_self (hnames : names ≠ []) (hprops : props.Ordered) (h : props.follow? names = some value) :
    props.replaceAt? value names = some props := by
  induction names, hnames using List.recNeNil generalizing props with
  | singleton name =>
    rw [follow?_singleton] at h
    simp [replaceAt?, h, Table.insert_of_find? (ordered_iff.1 hprops).1 h]
  | cons name rest hrest ih =>
    rw [follow?_below hrest] at h
    obtain ⟨inner, hbelow, h⟩ := Option.bind_eq_some_iff.1 h
    have hfind := find?_of_below? hbelow h
    rw [replaceAt?_below hrest, hbelow, Option.bind_some, ih (hprops.below? hbelow) h, Option.map_some,
      Table.insert_of_find? (ordered_iff.1 hprops).1 hfind]

theorem pathComponents_ne_nil (path : String) : pathComponents path ≠ [] := Text.split_ne_nil '.' path

/-- **Setting in place is setting**, and leaves the tree as it was if that fails. -/
theorem setInPlace_eq (hprops : props.Ordered) (path : String) (value : Value) :
    props.setInPlace path value =
      match props.set path value with
      | .ok t => .done t ()
      | .error error => .stopped props error := by
  unfold setInPlace
  cases hcut : Text.cutLast? '.' path with
  | none =>
    have hcomponents : pathComponents path = [path] := Text.split_of_cutLast?_eq_none hcut
    rw [set, hcomponents]
    rfl
  | some cut =>
    obtain ⟨parents, leaf⟩ := cut
    have hcomponents : pathComponents path = pathComponents parents ++ [leaf] := Text.split_of_cutLast?_eq_some hcut
    rw [set, hcomponents]
    exact putBelow_eq hprops

theorem map_fst_remove? (props : Properties) (path : String) : (props.remove? path).map (·.1) = props.get? path :=
  map_fst_removeAt? (pathComponents_ne_nil path)

theorem without_of_get?_eq_none {path : String} (h : props.get? path = none) : props.without path = props := by
  rw [← map_fst_remove?, Option.map_eq_none_iff] at h
  rw [without, h]

theorem getMap?_eq_some_iff {path : String} : props.getMap? path = some inner ↔ props.get? path = some (.map inner) := by
  rw [getMap?, Option.bind_eq_some_iff]
  constructor
  · rintro ⟨value, hvalue, hmap⟩
    cases value with
    | map fields => cases hmap; exact hvalue
    | _ => cases hmap
  · exact fun h => ⟨.map inner, h, rfl⟩

/-- **Removing in place is removing.** -/
theorem takeOut_eq (hprops : props.Ordered) (path : String) :
    props.takeOut path = (props.get? path, props.without path) := by
  unfold takeOut
  cases hcut : Text.cutLast? '.' path with
  | none =>
    have hcomponents : pathComponents path = [path] := Text.split_of_cutLast?_eq_none hcut
    rw [get?, without, remove?, hcomponents, follow?_singleton, removeAt?]
    cases hfind : Table.find? props path with
    | none => simp [Table.erase_of_find?_none hfind]
    | some value => rfl
  | some cut =>
    obtain ⟨parents, leaf⟩ := cut
    have hparents := pathComponents_ne_nil parents
    have hcomponents : pathComponents path = pathComponents parents ++ [leaf] := Text.split_of_cutLast?_eq_some hcut
    have hget : props.get? path = (props.getMap? parents).bind (Table.find? · leaf) := by
      rw [get?, hcomponents, follow?_append hparents (List.cons_ne_nil _ _)]
      rfl
    cases hmap : props.getMap? parents with
    | none =>
      rw [hmap, Option.bind_none] at hget
      rw [hget, without_of_get?_eq_none hget]
      simp only [hmap]
    | some inner =>
      have hfollow : props.follow? (pathComponents parents) = some (.map inner) := getMap?_eq_some_iff.1 hmap
      simp only [hget, hmap, Option.bind_some, without, remove?, replace?, hcomponents,
        removeAt?_append_singleton hparents hfollow]
      cases hfind : Table.find? inner leaf with
      | none =>
        rw [Table.erase_of_find?_none hfind, replaceAt?_self hparents hprops hfollow]
        rfl
      | some value =>
        cases props.replaceAt? (.map (inner.erase leaf)) (pathComponents parents) <;> rfl

/-! ## By dotted path -/

/-- A value is in the way of a path if what stands before some dot of it leads to one that is no map. -/
theorem blocked_pathComponents_iff {path : String} : props.Blocked (pathComponents path) ↔
    ∃ start rest value, path = start ++ "." ++ rest ∧ props.get? start = some value ∧ value.map? = none := by
  have hdot : String.singleton '.' = "." := rfl
  constructor
  · rintro ⟨first, rest, value, hcomponents, hfirst, hrest, hvalue, hmap⟩
    have hsplit : pathComponents (Text.join "." first) = first :=
      Text.split_join hfirst fun name hname =>
        Text.not_mem_of_mem_split (show name ∈ Text.split '.' path by
          rw [← pathComponents, hcomponents]; simp [hname])
    refine ⟨Text.join "." first, Text.join "." rest, value, ?_, ?_, hmap⟩
    · have hjoin := Text.join_split '.' path
      rw [← pathComponents, hcomponents] at hjoin
      rw [← hjoin]
      exact String.intercalate_append_of_ne_nil hfirst hrest
    · rw [get?, hsplit, hvalue]
  · rintro ⟨start, rest, value, rfl, hvalue, hmap⟩
    refine ⟨pathComponents start, pathComponents rest, value, ?_, pathComponents_ne_nil start,
      pathComponents_ne_nil rest, hvalue, hmap⟩
    rw [← hdot]
    exact Text.split_append '.' start rest

/-- Neither of two paths goes on where the other ends. -/
def Apart (path other : String) : Prop :=
  ¬ pathComponents other <+: pathComponents path ∧ ¬ pathComponents path <+: pathComponents other

instance (path other : String) : Decidable (Apart path other) := inferInstanceAs (Decidable (_ ∧ _))

/-- **Dotted paths are lenses.** Setting fails exactly where what stands before a dot of the path leads to a value that
is no map, and then leaves the tree as it was, with no map made on the way. Where it succeeds, the path leads to the
value, paths apart from it lead where they did, and setting again is as if the first value had not been set. Removing
gives what the path led to; then it leads nowhere, paths apart from it lead where they did, and nothing changes if it
led nowhere before. The trees stay ordered. -/
theorem paths_are_lenses {props : Properties} (hprops : props.Ordered) (path : String) (value : Value) :
    ((∃ error, props.set path value = .error error) ↔
      ∃ start rest found, path = start ++ "." ++ rest ∧ props.get? start = some found ∧ found.map? = none) ∧
    (∀ error, props.set path value = .error error → props.setInPlace path value = .stopped props error) ∧
    (∀ t, props.set path value = .ok t → props.setInPlace path value = .done t () ∧
      t.get? path = some value ∧ (∀ other, Apart path other → t.get? other = props.get? other) ∧
      (∀ again, t.set path again = props.set path again) ∧ (value.Ordered → t.Ordered)) ∧
    props.takeOut path = (props.get? path, props.without path) ∧
    props.remove? path = (props.get? path).map (·, props.without path) ∧
    (props.without path).get? path = none ∧ (props.get? path = none → props.without path = props) ∧
    (∀ other, Apart path other → (props.without path).get? other = props.get? other) ∧
    (props.without path).Ordered := by
  have hnames := pathComponents_ne_nil path
  have hremoved := map_fst_remove? props path
  refine ⟨?_, fun error herror => ?_, fun t ht => ⟨?_, ?_, ?_, ?_, ?_⟩, takeOut_eq hprops path, ?_⟩
  · exact (setAt_eq_error_iff hnames).trans blocked_pathComponents_iff
  · rw [setInPlace_eq hprops, herror]
  · rw [setInPlace_eq hprops, ht]
  · exact follow?_setAt hnames ht
  · exact fun other hapart => sameElsewhere_setAt hnames ht _ hapart.1 hapart.2
  · exact setAt_setAt hnames ht
  · exact fun hvalue => hprops.setAt hnames hvalue ht
  · cases hremove : props.remove? path with
    | none =>
      rw [hremove, Option.map_none] at hremoved
      rw [without_of_get?_eq_none hremoved.symm, ← hremoved]
      exact ⟨rfl, rfl, fun _ => rfl, fun _ _ => rfl, hprops⟩
    | some removed =>
      obtain ⟨found, t⟩ := removed
      rw [hremove, Option.map_some] at hremoved
      have hwithout : props.without path = t := by rw [without, hremove]
      rw [hwithout, ← hremoved]
      refine ⟨rfl, follow?_removeAt? hnames hremove, fun hnone => absurd hnone (by simp), fun other hapart => ?_, ?_⟩
      · exact sameElsewhere_removeAt? hnames hremove _ hapart.1 hapart.2
      · exact hprops.removeAt? hnames hremove

/-- A tree with an empty name on the way, and with text on another way. -/
def emptyName : Properties := [("a", .map [("", .map [("b", .int 1)]), ("s", .string "x")])]

theorem lenses_emptyName :
    emptyName.Ordered ∧ (∃ error, emptyName.set "a.s.t.u" (.bool true) = .error error) ∧
    emptyName.setInPlace "a.s.t.u" (.bool true) = .stopped emptyName (.notAMap "a.s") ∧
    (∃ t, emptyName.set "a..c.d" (.bool true) = .ok t ∧ t.get? "a..c.d" = some (.bool true) ∧
      t.get? "a..b" = some (.int 1)) ∧
    emptyName.takeOut "a..b" = (some (.int 1), [("a", .map [("", .map []), ("s", .string "x")])]) ∧
    (emptyName.without "a..b").get? "a.s" = some (.string "x") := by
  have hordered : emptyName.Ordered := by
    have hlt : "" < "s" := by decide
    have hone : ∀ entry : String × Value, Table.Ordered [entry] := fun entry => List.pairwise_singleton _ entry
    exact ⟨hone _, ⟨List.pairwise_pair.2 hlt, ⟨hone _, trivial, trivial⟩, trivial, trivial⟩, trivial⟩
  obtain ⟨hfails, hstopped, -⟩ := paths_are_lenses hordered "a.s.t.u" (.bool true)
  obtain ⟨-, -, hset, -⟩ := paths_are_lenses hordered "a..c.d" (.bool true)
  obtain ⟨-, -, -, htaken, -, -, -, hkept, -⟩ := paths_are_lenses hordered "a..b" (.bool true)
  have herror := hfails.2 ⟨"a.s", "t.u", .string "x", rfl, rfl, rfl⟩
  have happart : Apart "a..c.d" "a..b" := by decide
  have hother : Apart "a..b" "a.s" := by decide
  refine ⟨hordered, herror, hstopped _ rfl, ⟨_, rfl, ?_, ?_⟩, htaken, ?_⟩
  · exact (hset _ rfl).2.1
  · exact (hset _ rfl).2.2.1 _ happart
  · exact hkept _ hother

end Properties
end VariantGraph
