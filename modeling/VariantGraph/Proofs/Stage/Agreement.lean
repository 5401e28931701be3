import VariantGraph.ModuleType.Builtin
import VariantGraph.Proofs.Stage.Selection
/-!
# Dependencies asked for early agree with references selected late

The dependencies stage reads all branches before any split and restricts what it asks for to variants
with the value of the branch; the splits fold the branches of their value into the properties. For a
fully split variant both say the same: the references in its lists are those of the requests that
exist for it (`mem_getList_iff`).
-/
namespace VariantGraph
open Properties Dependencies

/-- What a module type needs for the two to agree: its fields are plain names, each role has one field,
and a module can be split by just those conditions for which it has a field. -/
structure ModuleType.Regular (type : ModuleType) : Prop where
  fields : ∀ field role, (field, role) ∈ type.schema.dependencyFields →
    pathComponents field = [field] ∧ ∀ condition : Condition, field ≠ condition.field
  roles : ∀ field field' role, (field, role) ∈ type.schema.dependencyFields →
    (field', role) ∈ type.schema.dependencyFields → field = field'
  conditional : ∀ name condition, (name, condition) ∈ type.schema.conditionalFields → name = condition.field
  splits : ∀ condition : Condition, condition.capability ∈ type.capabilities ↔
    (condition.field, condition) ∈ type.schema.conditionalFields

theorem regular_builtin {types : TypeTable} (htypes : types = Builtin.types) {name : String}
    {type : ModuleType} (h : types.find? name = some type)
    (hd : Capability.defaults ∉ type.capabilities) : type.Regular := by
  subst htypes
  have hall : ∀ entry ∈ Builtin.types, Capability.defaults ∉ entry.2.capabilities →
      (∀ field ∈ entry.2.schema.dependencyFields, pathComponents field.1 = [field.1] ∧
        field.1 ≠ Condition.target.field ∧ field.1 ≠ Condition.arch.field ∧
        field.1 ≠ Condition.link.field) ∧
      (∀ field ∈ entry.2.schema.dependencyFields, ∀ field' ∈ entry.2.schema.dependencyFields,
        field.2 = field'.2 → field.1 = field'.1) ∧
      (∀ field ∈ entry.2.schema.conditionalFields, field.1 = field.2.field) ∧
      ∀ condition ∈ [Condition.target, .arch, .link], condition.capability ∈ entry.2.capabilities ↔
        (condition.field, condition) ∈ entry.2.schema.conditionalFields := by decide +kernel
  obtain ⟨h1, h2, h3, h4⟩ := hall _ (Table.mem_of_find? h) hd
  refine ⟨fun field role hf => ?_, fun field field' role hf hf' => h2 _ hf _ hf' rfl,
    fun name condition hc => h3 _ hc, fun condition => h4 condition (by cases condition <;> simp)⟩
  obtain ⟨hname, ht, ha, hl⟩ := h1 _ hf
  exact ⟨hname, fun condition => by cases condition <;> assumption⟩

section Agreement
variable {type : ModuleType} {registry : Registry} {package : String} {host : Target} {picks : List Pick}
  {before linked final : Variant}

/-- A branch that a pick has selected is named by one of its keys, or is the one for everything else. -/
theorem mem_branches {pick : Pick} {properties branch : Properties} (h : branch ∈ pick.branches properties) :
    ∃ key branches, (key ∈ pick.keys ∨ key = conditionsDefault) ∧
      properties.getMap? pick.condition.field = some branches ∧ (key, Value.map branch) ∈ branches := by
  have hat : ∀ {key}, branchAt? ((properties.getMap? pick.condition.field).getD []) key = some branch →
      ∃ branches, properties.getMap? pick.condition.field = some branches ∧
        (key, Value.map branch) ∈ branches := by
    intro key hk
    obtain ⟨value, hf, hm⟩ := Option.bind_eq_some_iff.1 hk
    cases hg : properties.getMap? pick.condition.field with
    | none => rw [hg] at hf; cases hf
    | some branches =>
      rw [hg] at hf
      cases value with
      | map fields => injection hm with hm; subst hm; exact ⟨branches, rfl, Table.mem_of_find? hf⟩
      | _ => cases hm
  simp only [Pick.branches, chosen] at h
  split at h
  · obtain ⟨branches, hg, hmem⟩ := hat (Option.mem_toList.1 h)
    exact ⟨_, branches, Or.inr rfl, hg, hmem⟩
  · obtain ⟨key, hkey, hk⟩ := List.mem_filterMap.1 h
    obtain ⟨branches, hg, hmem⟩ := hat hk
    exact ⟨key, branches, Or.inl hkey, hg, hmem⟩

/-- A branch that a key of a pick names is selected. -/
theorem mem_branches_of_key {pick : Pick} {properties branch branches : Properties} {key : String}
    (hkey : key ∈ pick.keys) (hg : properties.getMap? pick.condition.field = some branches)
    (ho : Table.Ordered branches) (hmem : (key, Value.map branch) ∈ branches) :
    branch ∈ pick.branches properties := by
  have hnamed : branch ∈ pick.keys.filterMap (branchAt? branches) :=
    List.mem_filterMap.2 ⟨key, hkey, by rw [branchAt?, Table.find?_of_mem ho hmem]; rfl⟩
  simp only [Pick.branches, hg, Option.getD_some, chosen, if_neg (List.ne_nil_of_mem hnamed)]
  exact hnamed

section Picked
variable (hregular : type.Regular) (hwired : Wired registry package type.schema host before linked)
  (hneat : before.properties.NeatBy fieldDepth) (hpicked : Picked host before.properties picks final)
  (hconditions : ∀ condition, condition ∈ picks.map (·.condition) ↔ condition.capability ∈ type.capabilities)
  {field : String} {role : Role} (hf : (field, role) ∈ type.schema.dependencyFields)
include hregular hwired hneat hpicked hconditions hf

omit hneat in
/-- What a selected branch lists was asked for, for variants with the value that selected it. -/
theorem exists_request_of_branch {reference : String} {pick : Pick} (hpick : pick ∈ picks)
    {branch : Properties} (hb : branch ∈ pick.branches before.properties)
    (href : reference ∈ branch.getList field) :
    ∃ list ∈ branchLists type.schema before.properties, ∃ request ∈ BranchList.requests host list,
      request.reference = reference ∧ request.tag.role = role ∧
        request.tag.appliesTo final.variations = true := by
  obtain ⟨key, branches, hkey, hg, hmem⟩ := mem_branches hb
  have hcond := (hregular.splits pick.condition).1
    ((hconditions pick.condition).1 (List.mem_map.2 ⟨pick, hpick, rfl⟩))
  have hlist : (⟨pick.condition, key, role,
      pick.condition.field ++ "." ++ key ++ "." ++ field, Properties.getList branch field⟩ : BranchList) ∈
        branchLists type.schema before.properties :=
    mem_branchLists.2 ⟨_, _, hcond, key, branch, by rw [hg]; exact hmem, field, role, hf,
      List.ne_nil_of_mem href, rfl⟩
  have hnamed := hkey.resolve_right (hwired.placed _ hlist)
  refine ⟨_, hlist, _, mem_branchRequests.2 ⟨reference, href, rfl⟩, rfl, role_tagFor .., ?_⟩
  exact (appliesTo_onlyFrom (hpicked.axes pick hpick)).2 ((hpicked.matched pick hpick key).1 hnamed).symm

omit hwired in
/-- What was asked for from a branch, for a variant with its value, is listed by a selected branch. -/
theorem exists_branch_of_request {request : Request} {list : BranchList}
    (hlist : list ∈ branchLists type.schema before.properties) (hrequest : request ∈ BranchList.requests host list)
    (hrole : request.tag.role = role) (happlies : request.tag.appliesTo final.variations = true) :
    ∃ pick ∈ picks, ∃ branch ∈ pick.branches before.properties, request.reference ∈ branch.getList field := by
  obtain ⟨name, condition, hc, key, branch, hmem, field', role', hf', -, rfl⟩ := mem_branchLists.1 hlist
  obtain ⟨reference, href, rfl⟩ := mem_branchRequests.1 hrequest
  obtain rfl : role' = role := (role_tagFor ..).symm.trans hrole
  obtain rfl := hregular.roles field' field role' hf' hf
  obtain rfl := hregular.conditional name condition hc
  obtain ⟨pick, hpick, rfl⟩ := List.mem_map.1 ((hconditions condition).2 ((hregular.splits condition).2 hc))
  have hvalue := (appliesTo_onlyFrom (hpicked.axes pick hpick)).1 happlies
  have hkey : key ∈ pick.keys := (hpicked.matched pick hpick key).2 hvalue.symm
  refine ⟨pick, hpick, branch, ?_, href⟩
  cases hg : before.properties.getMap? pick.condition.field with
  | none => rw [hg] at hmem; cases hmem
  | some branches =>
    rw [hg] at hmem
    exact mem_branches_of_key hkey hg
      (hneat.branches pick.condition.single_field pick.condition.field_ne hg).ordered hmem

/-- **No reference is lost, and none comes from a branch that was not selected.** -/
theorem mem_getList_iff (reference : String) : reference ∈ final.properties.getList field ↔
    ∃ request ∈ requestsOf type.schema host before.properties, request.reference = reference ∧
      request.tag.role = role ∧ request.tag.appliesTo final.variations = true := by
  obtain ⟨hname, hne⟩ := hregular.fields field role hf
  rw [hpicked.lists field hname hne, List.mem_append]
  simp only [requestsOf, List.mem_append]
  constructor
  · rintro (htop | hbranch)
    · exact ⟨_, Or.inl (mem_topRequests.2 ⟨field, role, hf, reference, htop, rfl⟩), rfl, role_tagFor ..,
        appliesTo_tagFor ..⟩
    · obtain ⟨pick, hpick, hbranch⟩ := List.mem_flatMap.1 hbranch
      obtain ⟨branch, hb, href⟩ := List.mem_flatMap.1 hbranch
      obtain ⟨list, hlist, request, hrequest, hspec⟩ :=
        exists_request_of_branch hregular hwired hpicked hconditions hf hpick hb href
      exact ⟨request, Or.inr (List.mem_flatMap.2 ⟨list, hlist, hrequest⟩), hspec⟩
  · rintro ⟨request, htop | hbranch, rfl, hrole, happlies⟩
    · obtain ⟨field', role', hf', reference, href, rfl⟩ := mem_topRequests.1 htop
      obtain rfl : role' = role := (role_tagFor ..).symm.trans hrole
      obtain rfl := hregular.roles field' field role' hf' hf
      exact Or.inl href
    · obtain ⟨list, hlist, hrequest⟩ := List.mem_flatMap.1 hbranch
      obtain ⟨pick, hpick, branch, hb, href⟩ :=
        exists_branch_of_request hregular hneat hpicked hconditions hf hlist hrequest hrole happlies
      exact Or.inr (List.mem_flatMap.2 ⟨pick, hpick, List.mem_flatMap.2 ⟨branch, hb, href⟩⟩)

/-- The references in a list lead to modules, which are those of the dependencies in the role that exist
for the variant. -/
theorem resolve_iff (hsame : final.dependencies = linked.dependencies) :
    (∀ reference ∈ final.properties.getList field, ∃ id, registry.resolve package reference = .ok id) ∧
    ∀ id, (∃ reference ∈ final.properties.getList field, registry.resolve package reference = .ok id) ↔
      ∃ tag, (id, tag) ∈ final.dependencies.map Dependency.key ∧ tag.role = role ∧
        tag.appliesTo final.variations = true := by
  have hmem := mem_getList_iff hregular hwired hneat hpicked hconditions hf
  constructor
  · intro reference href
    obtain ⟨request, hr, rfl, -, -⟩ := (hmem reference).1 href
    exact hwired.resolves request hr
  · intro id
    rw [hsame]
    constructor
    · rintro ⟨reference, href, hid⟩
      obtain ⟨request, hr, rfl, hrole, happlies⟩ := (hmem reference).1 href
      exact ⟨request.tag, (hwired.keys _).2 ⟨request, hr, hid, rfl⟩, hrole, happlies⟩
    · rintro ⟨tag, hkey, hrole, happlies⟩
      obtain ⟨request, hr, hid, htag⟩ := (hwired.keys _).1 hkey
      have htag : request.tag = tag := htag
      subst htag
      exact ⟨request.reference, (hmem _).2 ⟨request, hr, rfl, hrole, happlies⟩, hid⟩

end Picked

end Agreement
end VariantGraph
