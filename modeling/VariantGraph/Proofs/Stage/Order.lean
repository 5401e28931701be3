import VariantGraph.Proofs.Stage.Outcome
/-!
# The order of the variants of a module

A module lists its variants in split order: what comes of a visit stands where the visited variant
stood (`Build.placed`). Other variants of the module and other modules are split in the same stage, in
an order that the dependencies decide, and yet the list after a stage is the list before it with every
variant replaced by its outcomes (`Stage.rows_sweep`).
-/
namespace VariantGraph
open VariantGraph.Graph

/-! ## Replacing a variant in a list -/

section Replace
variable {old : VariantId} {created l : List VariantId}

theorem replaceBy_eq_self (h : old ∉ l) : replaceBy old created l = l := by
  induction l with
  | nil => rfl
  | cons x l ih =>
    obtain ⟨hx, hl⟩ := not_or.1 (fun hmem => h (List.mem_cons.2 hmem))
    have hrest : replaceBy old created l = l := ih hl
    show (if x = old then created else [x]) ++ replaceBy old created l = x :: l
    rw [if_neg fun he => hx he.symm, hrest]
    rfl

theorem replaceBy_same (old : VariantId) (l : List VariantId) : replaceBy old [old] l = l := by
  induction l with
  | nil => rfl
  | cons x l ih =>
    have hx : (if x = old then [old] else [x]) = [x] := by split <;> simp_all
    show (if x = old then [old] else [x]) ++ replaceBy old [old] l = x :: l
    rw [hx, ih]
    rfl

/-- A variant is replaced in every block of a list that is made of blocks. -/
theorem replaceBy_flatMap (old : VariantId) (created l : List VariantId) (block : VariantId → List VariantId) :
    replaceBy old created (l.flatMap block) = l.flatMap fun u => replaceBy old created (block u) := by
  simp only [replaceBy, List.flatMap_assoc]

end Replace

/-! ## Lists of variants after an operation -/

namespace Graph

variable {graph : Graph}

theorem variants_addCheckedDependency (graph : Graph) (source : VariantId) (tag : Tag) (target : ModuleId)
    (property : String) (m : ModuleId) :
    ((graph.addCheckedDependency source tag target property).module m).variants =
      (graph.module m).variants := by
  rw [addCheckedDependency, markChecked, module_modifyVariant, addDependency]
  split
  · rfl
  · rw [module_modifyModule]
    split <;> rfl

theorem variants_split {old : VariantId} {axis : String} {values : List (String × Properties)}
    (hne : values ≠ []) {m : ModuleId} (hm : m < graph.modules.length) :
    ((graph.split old axis values).module m).variants =
      if m = (graph.variant old).module then replaceBy old (graph.createdBy values) (graph.module m).variants
      else (graph.module m).variants := by
  rw [split_eq_refresh hne, module_refresh, variants_grow axis hm]

/-- The new variants have the values of the split, in order. -/
theorem map_bare_createdBy {old : VariantId} {axis : String} {values : List (String × Properties)}
    (hne : values ≠ []) :
    (graph.createdBy values).map (fun v => ((graph.split old axis values).variant v).bare) =
      values.map fun entry => (graph.variant old).bare.child axis entry.1 entry.2 := by
  apply List.ext_getElem
  · simp [createdBy]
  · intro k hk hk'
    have hlt : k < values.length := by simpa using hk'
    have hcreated : k < (graph.createdBy values).length := by simpa using hk
    have hid : (graph.createdBy values)[k] = graph.variants.length + k := by simp [createdBy]
    rw [List.getElem_map, List.getElem_map, hid, split_eq_refresh hne, bare_refresh,
      variant_grow_created hlt, bare_derive]

end Graph

/-! ## One visit -/

/-- What comes of a visit stands, in order, where the visited variant stood. -/
structure Placed (env : Environment) (id : VariantId) (effects : Effects) (created : List VariantId)
    (before after : Graph) : Prop where
  rows : ∀ m < before.modules.length,
    (after.module m).variants = replaceBy id created (before.module m).variants
  bare : (created.map fun v => (after.variant v).bare) =
    effects.outcome env.registry (before.moduleOf id).package (before.variant id).bare
  fresh : ∀ v ∈ created, v = id ∨ before.isLive v = false

/-- What comes of a visit is live: the list of the module of the visited variant holds it. -/
theorem Placed.isLive {env : Environment} {id : VariantId} {effects : Effects} {created : List VariantId}
    {before after : Graph} (h : Placed env id effects created before after) (hc : Consistent before)
    (hl : before.isLive id = true) (hc' : Consistent after) (hlen : after.modules.length = before.modules.length)
    {v : VariantId} (hv : v ∈ created) : after.isLive v = true := by
  have hm := hc.owner id hl
  have hlisted : v ∈ (after.module (before.variant id).module).variants := by
    rw [h.rows _ hm]
    exact mem_replaceBy.2 (Or.inr ⟨hc.listed id hl, hv⟩)
  exact (hc'.current _ (by rw [hlen]; exact hm) v hlisted).1

namespace Build

variable {env : Environment} {build : Build} {id : VariantId}

theorem variants_requested {requests : List Request} (h : (requests.foldl (request env id) build).errors = [])
    (m : ModuleId) :
    ((requests.foldl (request env id) build).graph.module m).variants = (build.graph.module m).variants := by
  induction requests generalizing build with
  | nil => rfl
  | cons first requests ih =>
    rw [List.foldl_cons] at h ⊢
    have herr := errors_of_foldl (fun _ q hq => (request_of_errors q hq).1) requests h
    obtain ⟨-, target, -, hg⟩ := request_of_errors first herr
    rw [ih h, hg, variants_addCheckedDependency]

theorem variants_applyUnsplit {effects : Effects} (h : (build.applyUnsplit env id effects).errors = [])
    (m : ModuleId) :
    ((build.applyUnsplit env id effects).graph.module m).variants = (build.graph.module m).variants := by
  rw [applyUnsplit, variants_requested h]
  exact congrArg (·.variants) (Graph.module_congr (modules_changeOn effects build.graph id) m)

theorem placed (effects : Effects) (hb : env.registry.Below build.graph.modules.length)
    (hc : Consistent build.graph) (hl : build.graph.isLive id = true)
    (h : (build.apply env id effects).errors = []) :
    ∃ created, Placed env id effects created build.graph (build.apply env id effects).graph := by
  have herr := errors_applyUnsplit h
  obtain ⟨-, -, hr⟩ := requested_applyUnsplit effects hb hc hl herr
  have hrows := variants_applyUnsplit herr
  have hself := (hr.live id).trans hl
  have howner : ((build.applyUnsplit env id effects).graph.variant id).module =
      (build.graph.variant id).module := by
    have hm : (effects.linked env.registry (build.graph.moduleOf id).package
        (build.graph.variant id).bare).module = (build.graph.variant id).bare.module := (linkAll_same ..).1
    rw [← Variant.bare_module, hr.self, hm, Variant.bare_module]
  rw [apply_eq]
  -- without new variants the visited one stays in its place
  have whole : effects.outcome env.registry (build.graph.moduleOf id).package (build.graph.variant id).bare =
        [effects.linked env.registry (build.graph.moduleOf id).package (build.graph.variant id).bare] →
      Placed env id effects [id] build.graph (build.applyUnsplit env id effects).graph := by
    intro hout
    refine ⟨fun m _ => by rw [replaceBy_same, hrows], ?_, fun v hv => Or.inl (List.mem_singleton.1 hv)⟩
    rw [hout, List.map_singleton, hr.self]
  cases hs : effects.split with
  | none => exact ⟨[id], whole (by simp only [Effects.outcome, hs])⟩
  | some split =>
    by_cases hv : split.variations = []
    · simp only [hv, split_nil]
      exact ⟨[id], whole (by simp only [Effects.outcome, hs, hv, if_true])⟩
    · refine ⟨(build.applyUnsplit env id effects).graph.createdBy split.variations, ?_, ?_, ?_⟩
      · intro m hm
        have hsame : m < (build.applyUnsplit env id effects).graph.modules.length := by
          rw [hr.headers.length]; exact hm
        rw [variants_split hv hsame, howner, hrows]
        split
        · rfl
        · next hne =>
          refine (replaceBy_eq_self fun hmem => hne ?_).symm
          exact ((hc.current m hm id hmem).2).symm
      · rw [map_bare_createdBy hv, hr.self]
        simp only [Effects.outcome, hs, hv, if_false]
      · intro v hmem
        refine Or.inr ?_
        rw [← hr.live, Bool.eq_false_iff]
        intro hlive
        have hlt := lt_of_isLive hlive
        have hge := (mem_createdBy.1 hmem).1
        omega

end Build

/-! ## A whole stage -/

/-- The variants of a module in split order, without targets. -/
def Graph.row (graph : Graph) (m : ModuleId) : List Variant :=
  (graph.module m).variants.map fun v => (graph.variant v).bare

section
variable (env : Environment) (stage : Stage) (start : Graph)

/-- The lists of a stage under way: in the place of every variant stands the block of what came of it,
which is the variant itself as long as it waits. -/
structure Rows (waiting : List VariantId) (current : Graph) (block : VariantId → List VariantId)
    (effects : VariantId → Effects) : Prop where
  rows : ∀ m < start.modules.length, (current.module m).variants = (start.module m).variants.flatMap block
  waits : ∀ u ∈ waiting, block u = [u]
  visited : ∀ u, start.isLive u = true → u ∉ waiting → Visited env stage start u (effects u) ∧
    ((block u).map fun v => (current.variant v).bare) = becomes env start u (effects u)
  /-- Blocks hold what is live, and no two of them the same. -/
  live : ∀ u, start.isLive u = true → ∀ v ∈ block u, current.isLive v = true
  apart : ∀ u, start.isLive u = true → ∀ w, start.isLive w = true → ∀ v ∈ block u, v ∈ block w → u = w

end

variable {env : Environment} {stage : Stage} {start : Graph}

theorem Rows.begin {waiting : List VariantId} (hw : waiting.Perm start.liveIds) (effects : VariantId → Effects) :
    Rows env stage start waiting start (fun u => [u]) effects where
  rows m _ := by simp
  waits _ _ := rfl
  visited u hu hnot := absurd (hw.mem_iff.2 (mem_liveIds.2 hu)) hnot
  live u hu v hv := by rw [List.mem_singleton.1 hv]; exact hu
  apart u _ w _ v hv hv' := (List.mem_singleton.1 hv).symm.trans (List.mem_singleton.1 hv')

section
variable {id : VariantId} {rest : List VariantId} {current : Graph} {block : VariantId → List VariantId}
  {effects : VariantId → Effects} (h : Rows env stage start (id :: rest) current block effects)
include h

/-- A variant that waits is in no block but its own. -/
theorem Rows.not_mem_other (hid : start.isLive id = true) {u : VariantId} (hu : start.isLive u = true)
    (hne : u ≠ id) : id ∉ block u := by
  intro hmem
  have hself : id ∈ block id := by rw [h.waits id List.mem_cons_self]; exact List.mem_singleton.2 rfl
  exact hne (h.apart u hu id hid id hmem hself)

/-- What comes of a visit is in no block of another variant. -/
theorem Rows.not_mem_created (hid : start.isLive id = true) {visit : Effects} {created : List VariantId}
    {after : Graph} (hplaced : Placed env id visit created current after) {u : VariantId}
    (hu : start.isLive u = true) (hne : u ≠ id) {v : VariantId} (hv : v ∈ created) : v ∉ block u := by
  intro hmem
  rcases hplaced.fresh v hv with rfl | hdead
  · exact h.not_mem_other hid hu hne hmem
  · rw [h.live u hu v hmem] at hdead; cases hdead

end

/-- A visit replaces the visited variant by what comes of it, and leaves all other blocks. -/
theorem Rows.apply {id : VariantId} {rest : List VariantId} {build : Build} {visit : Effects}
    {block : VariantId → List VariantId} {effects : VariantId → Effects}
    (hb : env.registry.Below start.modules.length) (hc : Consistent start)
    (hp : Progress env stage start (id :: rest) build.graph) (hs : Seen env stage start id visit)
    (he : (build.apply env id visit).errors = [])
    (h : Rows env stage start (id :: rest) build.graph block effects) :
    ∃ created, Rows env stage start rest (build.apply env id visit).graph
      (fun u => if u = id then created else block u) (fun u => if u = id then visit else effects u) := by
  obtain ⟨hstart, hlive, hbare⟩ := hp.waits id List.mem_cons_self
  have hbelow : env.registry.Below build.graph.modules.length := by rw [hp.headers.length]; exact hb
  obtain ⟨-, hclean, ha⟩ := Build.applied visit hbelow hp.consistent hlive he
  obtain ⟨created, hplaced⟩ := Build.placed visit hbelow hp.consistent hlive he
  have hpackage := moduleOf_package hp.headers hbare
  -- the other blocks hold what the visit leaves alone
  have hkept : ∀ u, start.isLive u = true → u ≠ id → ∀ v ∈ block u,
      (build.apply env id visit).graph.isLive v = true ∧
        ((build.apply env id visit).graph.variant v).bare = (build.graph.variant v).bare :=
    fun u hu hne v hv => ha.kept v (h.live u hu v hv) fun heq => h.not_mem_other hstart hu hne (heq ▸ hv)
  refine ⟨created, ?_, ?_, ?_, ?_, ?_⟩
  · intro m hm
    have hm' : m < build.graph.modules.length := by rw [hp.headers.length]; exact hm
    rw [hplaced.rows m hm', h.rows m hm, replaceBy_flatMap]
    refine List.flatMap_congr fun u hu => ?_
    by_cases hui : u = id
    · rw [if_pos hui, hui, h.waits id List.mem_cons_self]
      simp [replaceBy]
    · rw [if_neg hui]
      exact replaceBy_eq_self (h.not_mem_other hstart (hc.current m hm u hu).1 hui)
  · intro u hu
    have hne : u ≠ id := fun heq => (List.nodup_cons.1 hp.nodup).1 (heq ▸ hu)
    rw [if_neg hne]
    exact h.waits u (List.mem_cons_of_mem _ hu)
  · intro u hu hnot
    by_cases hui : u = id
    · subst hui
      rw [if_pos rfl, if_pos rfl]
      refine ⟨⟨hstart, hs, hclean, fun r hr => ?_⟩, ?_⟩
      · obtain ⟨t, ht⟩ := ha.admitted r hr
        rw [hpackage] at ht
        exact ⟨t, ht.congr hp.headers⟩
      · rw [hplaced.bare, hpackage, hbare]; rfl
    · rw [if_neg hui, if_neg hui]
      have hwait : u ∉ id :: rest := fun hmem => hnot ((List.mem_cons.1 hmem).resolve_left hui)
      obtain ⟨hvisited, hblock⟩ := h.visited u hu hwait
      refine ⟨hvisited, ?_⟩
      rw [← hblock]
      exact List.map_congr_left fun v hv => (hkept u hu hui v hv).2
  · intro u hu v hv
    by_cases hui : u = id
    · rw [if_pos hui] at hv
      exact hplaced.isLive hp.consistent hlive ha.consistent ha.headers.length hv
    · rw [if_neg hui] at hv
      exact (hkept u hu hui v hv).1
  · intro u hu w hw v hv hv'
    by_cases hui : u = id
    · by_cases hwi : w = id
      · rw [hui, hwi]
      · rw [if_pos hui] at hv
        rw [if_neg hwi] at hv'
        exact absurd hv' (h.not_mem_created hstart hplaced hw hwi hv)
    · rw [if_neg hui] at hv
      by_cases hwi : w = id
      · rw [if_pos hwi] at hv'
        exact absurd hv (h.not_mem_created hstart hplaced hu hui hv')
      · rw [if_neg hwi] at hv'
        exact h.apart u hu w hw v hv hv'

/-- **The list of a module after a stage** is the list before it with every variant replaced by what
comes of it, in order. -/
theorem Stage.rows_sweep (hb : env.registry.Below start.modules.length) (hc : Consistent start)
    (h : (stage.sweep env start).errors = []) : ∃ effects : VariantId → Effects,
      (∀ u, start.isLive u = true → Visited env stage start u (effects u)) ∧
      ∀ m < start.modules.length, (stage.sweep env start).graph.row m =
        (start.module m).variants.flatMap fun u => becomes env start u (effects u) := by
  have hkeeps : Keeps env stage start fun waiting current =>
      ∃ block effects, Rows env stage start waiting current block effects := by
    rintro id rest build effects hp hs he ⟨block, before, hrows⟩
    obtain ⟨created, hnext⟩ := hrows.apply hb hc hp hs he
    exact ⟨_, _, hnext⟩
  obtain ⟨-, block, effects, hrows⟩ := Stage.sweep_induction hb hc hkeeps
    (fun waiting hw => ⟨_, _, Rows.begin hw fun _ => .none⟩) h
  refine ⟨effects, fun u hu => (hrows.visited u hu List.not_mem_nil).1, fun m hm => ?_⟩
  rw [row, hrows.rows m hm, List.map_flatMap]
  refine List.flatMap_congr fun u hu => ?_
  exact (hrows.visited u (hc.current m hm u hu).1 List.not_mem_nil).2

end VariantGraph
