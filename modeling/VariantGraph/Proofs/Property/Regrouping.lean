import VariantGraph.Proofs.Property.Joining
import VariantGraph.Proofs.Property.Path
/-!
# Merging is associative

Ordered trees are neat to some depth (`Properties.exists_neatBy`), so three of them may be merged in either grouping
(`NeatBy.append_assoc`), and any number of them one after another or in groups (`Grouping.outcome_eq_ok_iff`). At every
path the scalar that was set last counts and lists stand one behind the other (`merging_associative`).
-/
namespace VariantGraph

/-! ## Trees of any depth -/

theorem Value.Neat.of_le {m n : Nat} (hle : m ≤ n) {value : Value} (h : value.Neat m) : value.Neat n := by
  induction hle with
  | refl => exact h
  | step _ ih => exact ih.mono

/-- Fields that are neat, each to some depth, are so to one depth. -/
theorem exists_neat_of_forall {α : Type} {value : α → Value} {items : List α}
    (h : ∀ item ∈ items, ∃ n, (value item).Neat n) : ∃ n, ∀ item ∈ items, (value item).Neat n := by
  induction items with
  | nil => exact ⟨0, fun _ hmem => absurd hmem List.not_mem_nil⟩
  | cons first rest ih =>
    obtain ⟨m, hm⟩ := h first List.mem_cons_self
    obtain ⟨n, hn⟩ := ih fun item hmem => h item (List.mem_cons_of_mem _ hmem)
    exact ⟨max m n, List.forall_mem_cons.2
      ⟨hm.of_le (Nat.le_max_left m n), fun item hmem => (hn item hmem).of_le (Nat.le_max_right m n)⟩⟩

/-- Every ordered value is neat to some depth. -/
theorem Value.exists_neat : ∀ (value : Value), value.Ordered → ∃ n, value.Neat n
  | .map fields, h => by
    have hfields : ∀ entry ∈ fields, ∃ n, entry.2.Neat n := by
      rintro ⟨name, value⟩ hmem
      exact exists_neat value ((Properties.ordered_iff.1 h).2 _ hmem)
    obtain ⟨n, hn⟩ := exists_neat_of_forall hfields
    exact ⟨n + 1, h.1, hn⟩
  | .bool _, _ | .int _, _ | .string _, _ | .list _, _ => ⟨0, trivial⟩
termination_by value => sizeOf value
decreasing_by
  have hsize := List.sizeOf_lt_of_mem hmem
  simp only [Prod.mk.sizeOf_spec, Value.map.sizeOf_spec] at hsize ⊢
  omega

/-- Some ordered trees are neat to one depth. -/
theorem Properties.exists_neatBy {trees : List Properties} (h : ∀ tree ∈ trees, tree.Ordered) :
    ∃ n, ∀ tree ∈ trees, tree.NeatBy fun _ => n := by
  obtain ⟨n, hn⟩ := exists_neat_of_forall fun tree hmem => Value.exists_neat (.map tree) (h tree hmem)
  exact ⟨n, fun tree hmem => neatBy_map.1 (hn tree hmem).mono⟩

namespace Properties

variable {n : Nat} {a b c t : Properties}

/-- **Trees are merged in any grouping.** -/
theorem NeatBy.append_assoc (ha : NeatBy (fun _ => n) a) (hb : NeatBy (fun _ => n) b) (hc : NeatBy (fun _ => n) c) :
    (∃ ab, (a.append b).outcome = .ok ab ∧ (ab.append c).outcome = .ok t) ↔
      ∃ bc, (b.append c).outcome = .ok bc ∧ (a.append bc).outcome = .ok t :=
  append_assoc_of_join? ha hb hc fun _ _ _ => Value.join?_assoc

theorem append_nil (a : Properties) : (a.append []).outcome = .ok a := rfl

theorem NeatBy.nil_append (ha : NeatBy (fun _ => n) a) : (Properties.append [] a).outcome = .ok a :=
  (append_eq_ok_iff neatBy_nil ha).2 ⟨ha.ordered, fun _ => none_joinAt _ _⟩

/-! ## Many trees -/

theorem appendAll_nil (a : Properties) : (appendAll a []).outcome = .ok a := rfl

theorem appendAll_cons {more : Properties} {rest : List Properties} : (appendAll a (more :: rest)).outcome = .ok t ↔
    ∃ merged, (a.append more).outcome = .ok merged ∧ (appendAll merged rest).outcome = .ok t := by
  simp only [appendAll, Attempt.outcome_eq_ok, Attempt.error?_andThen]
  constructor
  · rintro ⟨⟨hfirst, hrest⟩, hstate⟩
    exact ⟨_, ⟨hfirst, rfl⟩, hrest, (Attempt.state_andThen _ hfirst).symm.trans hstate⟩
  · rintro ⟨merged, ⟨hfirst, rfl⟩, hrest, hstate⟩
    exact ⟨⟨hfirst, hrest⟩, (Attempt.state_andThen _ hfirst).trans hstate⟩

theorem appendAll_append {first second : List Properties} : (appendAll a (first ++ second)).outcome = .ok t ↔
    ∃ merged, (appendAll a first).outcome = .ok merged ∧ (appendAll merged second).outcome = .ok t := by
  induction first generalizing a with
  | nil => simp [appendAll_nil]
  | cons more rest ih =>
    simp only [List.cons_append, appendAll_cons, ih]
    constructor
    · rintro ⟨b, hb, c, hc, ht⟩
      exact ⟨c, ⟨b, hb, hc⟩, ht⟩
    · rintro ⟨c, ⟨b, hb, hc⟩, ht⟩
      exact ⟨b, hb, c, hc, ht⟩

theorem NeatBy.appendAll {trees : List Properties} (ha : NeatBy (fun _ => n) a)
    (htrees : ∀ tree ∈ trees, NeatBy (fun _ => n) tree) (h : (appendAll a trees).outcome = .ok t) :
    NeatBy (fun _ => n) t := by
  induction trees generalizing a with
  | nil => exact Except.ok.inj h ▸ ha
  | cons more rest ih =>
    obtain ⟨hmore, hrest⟩ := List.forall_mem_cons.1 htrees
    obtain ⟨merged, hmerged, ht⟩ := appendAll_cons.1 h
    exact ih (ha.append hmore hmerged) hrest ht

/-- Trees that are merged onto another one may be merged among themselves first. -/
theorem NeatBy.appendAll_iff {trees : List Properties} (ha : NeatBy (fun _ => n) a)
    (htrees : ∀ tree ∈ trees, NeatBy (fun _ => n) tree) : (Properties.appendAll a trees).outcome = .ok t ↔
      ∃ merged, (Properties.appendAll [] trees).outcome = .ok merged ∧ (a.append merged).outcome = .ok t := by
  induction trees generalizing a t with
  | nil => simp [appendAll_nil, append_nil]
  | cons more rest ih =>
    obtain ⟨hmore, hrest⟩ := List.forall_mem_cons.1 htrees
    have hneat : ∀ {later}, (Properties.appendAll [] rest).outcome = .ok later → NeatBy (fun _ => n) later :=
      neatBy_nil.appendAll hrest
    have hstart : ∀ merged, (Properties.appendAll [] (more :: rest)).outcome = .ok merged ↔
        ∃ later, (Properties.appendAll [] rest).outcome = .ok later ∧ (more.append later).outcome = .ok merged := by
      intro merged
      rw [appendAll_cons, hmore.nil_append]
      simp only [Except.ok.injEq, exists_eq_left', ih hmore hrest]
    rw [appendAll_cons]
    simp only [hstart]
    constructor
    · rintro ⟨am, ham, ht⟩
      obtain ⟨later, hlater, ht⟩ := (ih (ha.append hmore ham) hrest).1 ht
      obtain ⟨merged, hmerged, ht⟩ := (ha.append_assoc hmore (hneat hlater)).1 ⟨am, ham, ht⟩
      exact ⟨merged, ⟨later, hlater, hmerged⟩, ht⟩
    · rintro ⟨merged, ⟨later, hlater, hmerged⟩, ht⟩
      obtain ⟨am, ham, ht⟩ := (ha.append_assoc hmore (hneat hlater)).2 ⟨merged, hmerged, ht⟩
      exact ⟨am, ham, (ih (ha.append hmore ham) hrest).2 ⟨later, hlater, ht⟩⟩

/-! ## At a path -/

theorem follow?_cons_cons (props : Properties) (name second : String) (rest : List String) :
    props.follow? (name :: second :: rest) =
      ((props.find? name).bind Value.map?).bind (follow? · (second :: rest)) :=
  follow?_append (List.cons_ne_nil name []) (List.cons_ne_nil second rest)

/-- At every path two trees come to what their values there are joined to. -/
theorem NeatBy.follow?_append (ha : NeatBy (fun _ => n) a) (hb : NeatBy (fun _ => n) b)
    (h : (a.append b).outcome = .ok t) (names : List String) :
    joinAt Value.join? (a.follow? names) (b.follow? names) = some (t.follow? names) := by
  induction names generalizing n a b t with
  | nil => simp [follow?, joinAt]
  | cons name rest ih =>
    have hfound := ((append_eq_ok_iff ha hb).1 h).found name
    cases rest with
    | nil => simpa only [follow?] using hfound
    | cons second rest =>
      simp only [follow?_cons_cons]
      cases hx : Table.find? a name with
      | none =>
        rw [hx, none_joinAt] at hfound
        rw [Option.some.inj hfound]
        exact none_joinAt _ _
      | some x =>
        cases hy : Table.find? b name with
        | none =>
          rw [hx, hy] at hfound
          rw [← Option.some.inj hfound]
          cases (some x).bind Value.map? |>.bind (follow? · (second :: rest)) <;> rfl
        | some y =>
          rw [hx, hy] at hfound
          obtain ⟨v, hv, hsome⟩ := Option.map_eq_some_iff.1 hfound
          rw [← hsome]
          have hxn := ha.find? hx
          have hyn := hb.find? hy
          cases x with
          | map fields =>
            cases y with
            | map more =>
              rw [Value.join?_map] at hv
              obtain ⟨merged, hmerged, rfl⟩ := Option.map_eq_some_iff.1 hv
              cases n with
              | zero => exact hxn.elim
              | succ n => exact ih (neatBy_map.1 hxn) (neatBy_map.1 hyn) (Attempt.toOption_outcome.1 hmerged)
            | _ => cases hv
          -- what is no map is joined to no map, and no path leads further
          | _ =>
            cases y <;> cases hv
            rfl

end Properties

/-! ## Any grouping -/

/-- How trees are grouped for merging: one tree as it is, or what one group comes to and onto it what another does. -/
inductive Grouping where
  | tree (props : Properties)
  | both (first second : Grouping)

namespace Grouping

/-- The grouped trees, from first to last. -/
def trees : Grouping → List Properties
  | tree props => [props]
  | both first second => first.trees ++ second.trees

/-- What the trees are merged to. -/
def outcome : Grouping → Except PropertyError Properties
  | tree props => .ok props
  | both first second => do
    let props ← first.outcome
    let more ← second.outcome
    (props.append more).outcome

variable {n : Nat} {t : Properties}

theorem outcome_both {first second : Grouping} : (both first second).outcome = .ok t ↔
    ∃ props, first.outcome = .ok props ∧ ∃ more, second.outcome = .ok more ∧ (props.append more).outcome = .ok t := by
  simp only [outcome, bind_eq_ok_iff]

theorem neatBy_outcome {grouping : Grouping} (hneat : ∀ tree ∈ grouping.trees, tree.NeatBy fun _ => n)
    (h : grouping.outcome = .ok t) : t.NeatBy fun _ => n := by
  induction grouping generalizing t with
  | tree props => exact Except.ok.inj h ▸ hneat props List.mem_cons_self
  | both first second ihfirst ihsecond =>
    obtain ⟨hfirst, hsecond⟩ := List.forall_mem_append.1 hneat
    obtain ⟨props, hprops, more, hmore, ht⟩ := outcome_both.1 h
    exact (ihfirst hfirst hprops).append (ihsecond hsecond hmore) ht

/-- Every grouping comes to what the trees come to one after another. -/
theorem outcome_eq_ok_iff {grouping : Grouping} (hneat : ∀ tree ∈ grouping.trees, tree.NeatBy fun _ => n) :
    grouping.outcome = .ok t ↔ (Properties.appendAll [] grouping.trees).outcome = .ok t := by
  induction grouping generalizing t with
  | tree props =>
    have hprops := hneat props List.mem_cons_self
    simp [outcome, trees, Properties.appendAll_cons, hprops.nil_append, Properties.appendAll_nil]
  | both first second ihfirst ihsecond =>
    obtain ⟨hfirst, hsecond⟩ := List.forall_mem_append.1 hneat
    rw [outcome_both, trees, Properties.appendAll_append]
    refine exists_congr fun props => ?_
    rw [ihfirst hfirst]
    refine and_congr_right fun hprops => ?_
    rw [(Properties.NeatBy.appendAll neatBy_nil hfirst hprops).appendAll_iff hsecond]
    simp only [ihsecond hsecond]

end Grouping

/-! ## What is found in the end -/

/-- A value stands for those that were merged to it, from first to last: they are of its kind, the last of them is the
value itself unless it is a list or a map, and a list holds their items one behind the other. -/
structure Settles (values : List Value) (result : Value) : Prop where
  nonempty : values ≠ []
  kind : ∀ value ∈ values, value.kindName = result.kindName
  last : result.list? = none → result.map? = none → values.getLast? = some result
  items : ∀ items, result = .list items → items = values.flatMap fun value => value.list?.getD []

/-- What is found for the values that were merged: nothing if there were none. -/
def SettlesAt (values : List Value) : Option Value → Prop
  | none => values = []
  | some result => Settles values result

theorem settles_singleton (value : Value) : Settles [value] value where
  nonempty := List.cons_ne_nil _ _
  kind := fun _ hmem => List.mem_singleton.1 hmem ▸ rfl
  last := fun _ _ => rfl
  items := by rintro items rfl; simp [Value.list?]

theorem Settles.append {values more : List Value} {old new result : Value} (hold : Settles values old)
    (hnew : Settles more new) (h : old.join? new = some result) : Settles (values ++ more) result := by
  obtain ⟨hkold, hknew⟩ := Value.kindName_of_join? h
  refine ⟨List.append_ne_nil_of_left_ne_nil hold.nonempty more, fun value hmem => ?_, fun hlist hmap => ?_,
    fun items hitems => ?_⟩
  · rcases List.mem_append.1 hmem with hmem | hmem
    · exact (hold.kind value hmem).trans hkold
    · exact (hnew.kind value hmem).trans hknew
  · cases Value.eq_of_join? h hlist hmap
    rw [List.getLast?_append, hnew.last hlist hmap, Option.some_or]
  · subst hitems
    obtain ⟨first, second, rfl, rfl, rfl⟩ := Value.eq_append_of_join? h
    rw [List.flatMap_append, ← hold.items first rfl, ← hnew.items second rfl]

theorem SettlesAt.append {values more : List Value} {old new found : Option Value} (hold : SettlesAt values old)
    (hnew : SettlesAt more new) (h : joinAt Value.join? old new = some found) : SettlesAt (values ++ more) found := by
  cases old with
  | none =>
    cases hold
    cases (none_joinAt Value.join? new).symm.trans h
    exact hnew
  | some old =>
    cases new with
    | none =>
      cases hnew
      cases h
      rw [List.append_nil]
      exact hold
    | some new =>
      obtain ⟨result, hresult, rfl⟩ := Option.map_eq_some_iff.1 h
      exact Settles.append hold hnew hresult

/-- What is found at a path stands for what the grouped trees have there. -/
theorem Grouping.settlesAt {n : Nat} {grouping : Grouping} {t : Properties}
    (hneat : ∀ tree ∈ grouping.trees, tree.NeatBy fun _ => n) (h : grouping.outcome = .ok t) (names : List String) :
    SettlesAt (grouping.trees.filterMap (·.follow? names)) (t.follow? names) := by
  induction grouping generalizing t with
  | tree props =>
    cases h
    simp only [trees, List.filterMap_cons, List.filterMap_nil]
    cases props.follow? names with
    | none => rfl
    | some value => exact settles_singleton value
  | both first second ihfirst ihsecond =>
    obtain ⟨hfirst, hsecond⟩ := List.forall_mem_append.1 hneat
    obtain ⟨props, hprops, more, hmore, ht⟩ := outcome_both.1 h
    rw [trees, List.filterMap_append]
    refine (ihfirst hfirst hprops).append (ihsecond hsecond hmore) ?_
    exact (neatBy_outcome hfirst hprops).follow?_append (neatBy_outcome hsecond hmore) ht names

/-- **Merging is associative**, failures included, and the empty tree changes nothing. However trees are grouped, they
come to what they come to one after another, and at every path the scalar that was set last counts and lists stand one
behind the other. -/
theorem merging_associative :
    (∀ a b c t : Properties, a.Ordered → b.Ordered → c.Ordered →
      (((a.append b).outcome >>= fun ab => (ab.append c).outcome) = .ok t ↔
        ((b.append c).outcome >>= fun bc => (a.append bc).outcome) = .ok t)) ∧
    (∀ a : Properties, a.Ordered → (Properties.append [] a).outcome = .ok a ∧ (a.append []).outcome = .ok a) ∧
    ∀ grouping : Grouping, (∀ tree ∈ grouping.trees, tree.Ordered) → ∀ t : Properties,
      (grouping.outcome = .ok t ↔ (Properties.appendAll [] grouping.trees).outcome = .ok t) ∧
      (grouping.outcome = .ok t → ∀ names : List String,
        SettlesAt (grouping.trees.filterMap (·.follow? names)) (t.follow? names)) := by
  refine ⟨fun a b c t ha hb hc => ?_, fun a ha => ?_, fun grouping hordered t => ?_⟩
  · have htrees : ∀ tree ∈ [a, b, c], tree.Ordered := by simp [ha, hb, hc]
    obtain ⟨n, hn⟩ := Properties.exists_neatBy htrees
    simp only [bind_eq_ok_iff]
    exact (hn a (by simp)).append_assoc (hn b (by simp)) (hn c (by simp))
  · have htrees : ∀ tree ∈ [a], tree.Ordered := by simp [ha]
    obtain ⟨n, hn⟩ := Properties.exists_neatBy htrees
    exact ⟨(hn a (by simp)).nil_append, Properties.append_nil a⟩
  · obtain ⟨n, hn⟩ := Properties.exists_neatBy hordered
    exact ⟨Grouping.outcome_eq_ok_iff hn, fun ht => Grouping.settlesAt hn ht⟩

/-- A source for one architecture, and a library. -/
def sourceFor (arch source library : String) : Properties :=
  [("arch", .map [(arch, .map [("srcs", .list [source])])]), ("stl", .string library)]

theorem ordered_sourceFor (arch source library : String) : (sourceFor arch source library).Ordered := by
  have hlt : "arch" < "stl" := by decide
  have hkeys : Table.Ordered (sourceFor arch source library) :=
    Table.ordered_cons.2 ⟨fun entry hmem => List.mem_singleton.1 hmem ▸ hlt, List.pairwise_singleton _ _⟩
  have hone : ∀ name (value : Value), Table.Ordered [(name, value)] := fun _ _ => List.pairwise_singleton _ _
  exact ⟨hkeys, ⟨hone _ _, ⟨hone _ _, trivial, trivial⟩, trivial⟩, trivial, trivial⟩

theorem merging_associative_sources :
    (∀ arch source library, (sourceFor arch source library).Ordered) ∧
    (Properties.append [] (sourceFor "arm" "a.c" "libc")).outcome = .ok (sourceFor "arm" "a.c" "libc") ∧
    ∃ t : Properties,
      (((sourceFor "arm" "a.c" "libc").append (sourceFor "arm" "b.c" "none")).outcome >>= fun ab =>
        (ab.append (sourceFor "x86" "c.c" "system")).outcome) = .ok t ∧
      (((sourceFor "arm" "b.c" "none").append (sourceFor "x86" "c.c" "system")).outcome >>= fun bc =>
        ((sourceFor "arm" "a.c" "libc").append bc).outcome) = .ok t ∧
      t.follow? ["arch", "arm", "srcs"] = some (.list ["a.c", "b.c"]) ∧
      SettlesAt [.list ["a.c"], .list ["b.c"]] (t.follow? ["arch", "arm", "srcs"]) ∧
      t.follow? ["stl"] = some (.string "system") ∧
      SettlesAt [.string "libc", .string "none", .string "system"] (t.follow? ["stl"]) := by
  have hordered : ∀ arch source library, (sourceFor arch source library).Ordered := ordered_sourceFor
  have hleft : (((sourceFor "arm" "a.c" "libc").append (sourceFor "arm" "b.c" "none")).outcome >>= fun ab =>
      (ab.append (sourceFor "x86" "c.c" "system")).outcome) =
        .ok [("arch", .map [("arm", .map [("srcs", .list ["a.c", "b.c"])]), ("x86", .map [("srcs", .list ["c.c"])])]),
          ("stl", .string "system")] := rfl
  have hright := (merging_associative.1 _ _ _ _ (hordered ..) (hordered ..) (hordered ..)).1 hleft
  -- the second grouping, with the path of the sources and that of the library
  have hsettles := (merging_associative.2.2 (.both (.tree (sourceFor "arm" "a.c" "libc"))
    (.both (.tree (sourceFor "arm" "b.c" "none")) (.tree (sourceFor "x86" "c.c" "system"))))
    (by simp [Grouping.trees, hordered]) _).2 hright
  exact ⟨hordered, (merging_associative.2.1 _ (hordered ..)).1, _, hleft, hright, rfl,
    hsettles ["arch", "arm", "srcs"], rfl, hsettles ["stl"]⟩

end VariantGraph
