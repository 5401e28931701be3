import VariantGraph.Graph.Basic
import VariantGraph.Namespace.Registry
import VariantGraph.Proofs.PackagePath
/-!
# Who may see a module

The rules in force for a module are its own ones. If it has none, they are those of the deepest package at or above
its package that sets some; if there is none, everyone may see it (`Registry.InForce`). A package sees a module exactly
if it is the package of the module or some rule in force admits it (`visible_iff_admitted`), and rules that were read
from labels and keep a module private admit no one (`not_admits_of_parse`).
-/
namespace VariantGraph
open PackagePath

/-! ## Rules -/

namespace VisibilityRule

/-- The packages that a rule admits. -/
inductive Admits : VisibilityRule → String → Prop
  | everyone (visitor : String) : Admits everyone visitor
  | legacyEveryone (visitor : String) : Admits legacyEveryone visitor
  | package (path : String) : Admits (package path) path
  | subtree {path visitor : String} (h : AtOrAbove path visitor) : Admits (subtree path) visitor

theorem admits_iff {rule : VisibilityRule} {visitor : String} : rule.admits visitor = true ↔ rule.Admits visitor := by
  cases rule with
  | everyone => simp [admits, Admits.everyone]
  | legacyEveryone => simp [admits, Admits.legacyEveryone]
  | nobody =>
    constructor
    · intro h; cases h
    · intro h; cases h
  | override =>
    constructor
    · intro h; cases h
    · intro h; cases h
  | package path =>
    rw [admits, decide_eq_true_eq]
    exact ⟨fun h => h ▸ .package path, fun h => by cases h; rfl⟩
  | subtree path =>
    rw [admits, within_iff]
    exact ⟨.subtree, fun h => by cases h; assumption⟩

theorem anyAdmits_iff {rules : List VisibilityRule} {visitor : String} :
    anyAdmits rules visitor = true ↔ ∃ rule ∈ rules, rule.Admits visitor := by
  simp [anyAdmits, admits_iff]

/-- The rules of a list are those behind a leading override, and that. -/
theorem eq_override_or_mem_body {rules : List VisibilityRule} {rule : VisibilityRule} (h : rule ∈ rules) :
    rule = override ∨ rule ∈ body rules := by
  unfold body
  split
  · exact List.mem_cons.1 h
  · exact .inr h

/-- Several rules in a list that was accepted, a leading override apart, may all stand beside others. -/
theorem not_isExclusive_of_listError? {rules : List VisibilityRule} (hlist : listError? rules = none)
    (hmany : 1 < (body rules).length) : ∀ rule ∈ body rules, rule.isExclusive = false := by
  unfold listError? at hlist
  split at hlist
  · cases hlist
  · split at hlist
    · cases hlist
    · simpa [hmany] using hlist

/-- Beside a rule that stands alone there is at most a leading override. -/
theorem eq_of_isExclusive {rules : List VisibilityRule} (hlist : listError? rules = none) {rule other : VisibilityRule}
    (hrule : rule ∈ rules) (hexclusive : rule.isExclusive = true) (hother : other ∈ rules) :
    other = override ∨ other = rule := by
  have hmem : rule ∈ body rules := by
    rcases eq_override_or_mem_body hrule with rfl | hmem
    · cases hexclusive
    · exact hmem
  have hlength : ¬ 1 < (body rules).length := by
    intro hmany
    have := not_isExclusive_of_listError? hlist hmany rule hmem
    simp [hexclusive] at this
  refine (eq_override_or_mem_body hother).imp id fun hother => ?_
  obtain ⟨only, honly⟩ :=
    List.length_eq_one_iff.1 (Nat.le_antisymm (Nat.not_lt.1 hlength) (List.length_pos_of_mem hmem))
  rw [honly, List.mem_singleton] at hmem hother
  rw [hother, hmem]

/-- What is read are labels that can be read each by itself, to a list that breaks no rule about lists. -/
theorem parse_eq_ok_iff {home : String} {labels : List String} {rules : List VisibilityRule} :
    parse home labels = .ok rules ↔ ofLabels home labels = .ok rules ∧ listError? rules = none := by
  unfold parse
  cases ofLabels home labels with
  | error cause => simp [bind, Except.bind]
  | ok read =>
    dsimp only [bind, Except.bind]
    cases hlist : listError? read with
    | none =>
      simp only [Except.ok.injEq]
      exact ⟨fun h => ⟨h, h ▸ hlist⟩, fun h => h.1⟩
    | some error =>
      simp only [Except.ok.injEq, reduceCtorEq, false_iff]
      rintro ⟨rfl, hnone⟩
      rw [hlist] at hnone
      cases hnone

/-- **What is private, nobody is admitted to**: rules that were read from labels then say nothing else. -/
theorem not_admits_of_parse {home : String} {labels : List String} {rules : List VisibilityRule}
    (h : parse home labels = .ok rules) (hnobody : nobody ∈ rules) (visitor : String) :
    ¬ ∃ rule ∈ rules, rule.Admits visitor := by
  rintro ⟨rule, hrule, hadmits⟩
  rcases eq_of_isExclusive (parse_eq_ok_iff.1 h).2 hnobody rfl hrule with rfl | rfl
  · cases hadmits
  · cases hadmits

end VisibilityRule

/-! ## Rules in force -/

namespace Registry

variable {registry : Registry} {own : Option (List VisibilityRule)} {package visitor : String}
  {rules : List VisibilityRule}

/-- A package is registered, and sets rules for the modules in and below it. -/
def Sets (registry : Registry) (path : String) (rules : List VisibilityRule) : Prop :=
  ∃ package, registry.packages.find? path = some package ∧ package.defaultVisibility = some rules

/-- The rules in force for a module of a package that has rules of its own, or none. -/
inductive InForce (registry : Registry) (own : Option (List VisibilityRule)) (package : String) :
    List VisibilityRule → Prop
  | own {rules : List VisibilityRule} (hown : own = some rules) : InForce registry own package rules
  | inherited {rules : List VisibilityRule} {path : String} (hown : own = none)
      (hdeepest : Deepest (fun path => ∃ rules, registry.Sets path rules) package path)
      (hrules : registry.Sets path rules) : InForce registry own package rules
  | unset (hown : own = none) (hnone : ∀ path rules, AtOrAbove path package → ¬ registry.Sets path rules) :
      InForce registry own package [.legacyEveryone]

/-- The rules that a package sets, if it is registered and sets some. -/
def rulesSetBy? (registry : Registry) (path : String) : Option (List VisibilityRule) :=
  (registry.packages.find? path).bind (·.defaultVisibility)

theorem rulesSetBy?_eq_some_iff {path : String} :
    registry.rulesSetBy? path = some rules ↔ registry.Sets path rules := by
  simp [rulesSetBy?, Sets, Option.bind_eq_some_iff]

/-- Rules are inherited by going up from the package until one sets some. -/
theorem defaultVisibility?_eq_searchUp : registry.defaultVisibility? package = searchUp registry.rulesSetBy? package :=
  findSome?_ancestors

/-- **There are rules in force for every module**, and they are the ones that are looked up. -/
theorem inForce_iff : registry.InForce own package rules ↔ registry.effectiveRules own package = rules := by
  have hsets : ∀ path, (∃ rules, registry.Sets path rules) ↔ registry.rulesSetBy? path ≠ none := by
    simp [← rulesSetBy?_eq_some_iff, Option.ne_none_iff_exists']
  unfold effectiveRules
  rw [defaultVisibility?_eq_searchUp]
  constructor
  · rintro (rfl | ⟨rfl, hdeepest, hrules⟩ | ⟨rfl, hnone⟩)
    · rfl
    · have hsearch := searchUp_eq_some_iff.2 ⟨_, hdeepest.congr hsets, rulesSetBy?_eq_some_iff.2 hrules⟩
      simp [hsearch]
    · have hsearch : searchUp registry.rulesSetBy? package = none := by
        refine searchUp_eq_none_iff.2 fun path habove => Option.eq_none_iff_forall_ne_some.2 fun rules hrules => ?_
        exact hnone path rules habove (rulesSetBy?_eq_some_iff.1 hrules)
      simp [hsearch]
  · rintro rfl
    cases own with
    | some rules => exact .own rfl
    | none =>
      cases hsearch : searchUp registry.rulesSetBy? package with
      | some rules =>
        obtain ⟨path, hdeepest, hrules⟩ := searchUp_eq_some_iff.1 hsearch
        exact .inherited rfl (hdeepest.congr fun other => (hsets other).symm) (rulesSetBy?_eq_some_iff.1 hrules)
      | none =>
        refine .unset rfl fun path rules habove hrules => ?_
        have hpath := searchUp_eq_none_iff.1 hsearch path habove
        rw [rulesSetBy?_eq_some_iff.2 hrules] at hpath
        cases hpath

theorem deniedBy?_eq_none_iff : registry.deniedBy? visitor own package = none ↔
    visitor = package ∨ ∃ rule ∈ registry.effectiveRules own package, rule.Admits visitor := by
  rw [← VisibilityRule.anyAdmits_iff, ← decide_eq_true_iff (p := visitor = package), ← Bool.or_eq_true]
  unfold deniedBy?
  dsimp only
  split
  · simp [*]
  · simp [*]

theorem eq_of_deniedBy? {denied : List VisibilityRule} (h : registry.deniedBy? visitor own package = some denied) :
    denied = registry.effectiveRules own package := by
  unfold deniedBy? at h
  dsimp only at h
  split at h
  · cases h
  · exact (Option.some.inj h).symm

/-- **A package sees a module if it is the package of the module, or a rule in force admits it.** Exactly one list of
rules is in force, and it is the one that is shown when a package is kept out; if labels were read to it that say
private, only the package of the module sees it. The rules are found by going up from the package of the module, which
ends at the root on every path, however its slashes stand, and comes by the paths at or above it and no others. -/
theorem visible_iff_admitted (registry : Registry) (visitor : String) (target : Module) :
    (∃ rules, (∀ other, registry.InForce target.visibility target.package other ↔ other = rules) ∧
      (registry.deniedBy? visitor target.visibility target.package = none ↔
        visitor = target.package ∨ ∃ rule ∈ rules, rule.Admits visitor) ∧
      (∀ denied, registry.deniedBy? visitor target.visibility target.package = some denied → denied = rules) ∧
      ∀ home labels, VisibilityRule.parse home labels = .ok rules → .nobody ∈ rules →
        (registry.deniedBy? visitor target.visibility target.package = none ↔ visitor = target.package)) ∧
    ∀ path, registry.defaultVisibility? path = searchUp registry.rulesSetBy? path ∧
      (∃ steps, parent^[steps] path = "") ∧
      (∀ visited, (∃ steps, parent^[steps] path = visited) ↔ within path visited = true) ∧
      ∀ visited, within path visited = true ↔ AtOrAbove visited path := by
  refine ⟨⟨registry.effectiveRules target.visibility target.package, fun other => ?_, deniedBy?_eq_none_iff,
    fun denied => eq_of_deniedBy?, fun home labels hparse hnobody => ?_⟩, fun path => ⟨?_, ?_, ?_, ?_⟩⟩
  · rw [inForce_iff, eq_comm]
  · rw [deniedBy?_eq_none_iff, or_iff_left (VisibilityRule.not_admits_of_parse hparse hnobody visitor)]
  · exact defaultVisibility?_eq_searchUp
  · exact exists_iterate_parent_iff.2 (.inl rfl)
  · intro visited
    rw [exists_iterate_parent_iff, within_iff]
  · exact fun visited => within_iff

/-- A package whose modules are seen below it, and one below it that keeps its own private. -/
def withPrivatePart : Registry :=
  ⟨.preferImports, [(globalNamespace, ⟨[], []⟩)],
    [("a", ⟨some [.subtree "a"]⟩), ("a/", ⟨none⟩), ("a//c", ⟨some [.override, .nobody]⟩)]⟩

/-- A module of a package that sets no rules. -/
def withoutRules (package : String) : Module := { (default : Module) with package }

/-- Rules are inherited across doubled slashes: the private ones keep even their own package out, and the others let in
what is below theirs. -/
theorem visible_withPrivatePart :
    VisibilityRule.parse "a//c" ["//visibility:override", "//visibility:private"] = .ok [.override, .nobody] ∧
    withPrivatePart.InForce none "a//c/d/" [.override, .nobody] ∧
    withPrivatePart.deniedBy? "a//c/d/" none "a//c/d/" = none ∧
    withPrivatePart.deniedBy? "a//c" none "a//c/d/" ≠ none ∧
    withPrivatePart.InForce none "a//b" [.subtree "a"] ∧
    withPrivatePart.deniedBy? "a/x" none "a//b" = none := by
  have hparse : VisibilityRule.parse "a//c" ["//visibility:override", "//visibility:private"] =
      .ok [.override, .nobody] := rfl
  have hforce : withPrivatePart.InForce none "a//c/d/" [.override, .nobody] := inForce_iff.2 (by decide +kernel)
  have hforce' : withPrivatePart.InForce none "a//b" [.subtree "a"] := inForce_iff.2 (by decide +kernel)
  obtain ⟨⟨rules, hrules, hvisible, -, -⟩, -⟩ := visible_iff_admitted withPrivatePart "a//c/d/" (withoutRules "a//c/d/")
  obtain ⟨⟨kept, hkept, -, -, hprivate⟩, -⟩ := visible_iff_admitted withPrivatePart "a//c" (withoutRules "a//c/d/")
  obtain ⟨⟨subtree, hsubtree, hseen, -, -⟩, -⟩ := visible_iff_admitted withPrivatePart "a/x" (withoutRules "a//b")
  obtain rfl := (hkept _).1 hforce
  obtain rfl := (hsubtree _).1 hforce'
  have hkeptOut := hprivate "a//c" _ hparse (by simp)
  refine ⟨hparse, hforce, hvisible.2 (.inl rfl), ?_, hforce', ?_⟩
  · exact fun hnone => absurd (hkeptOut.1 hnone) (by decide)
  · exact hseen.2 (.inr ⟨.subtree "a", by simp, .subtree (within_iff.1 (by decide +kernel))⟩)

end Registry
end VariantGraph
