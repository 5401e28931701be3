import VariantGraph.Proofs.Namespace.Renaming
/-!
# What plain names mean

Which module a plain name means is said here by which namespaces hold the name (`Means`), and not by how they are
searched. The search counts the entries of an import list that hold the name. That is the number of modules among them
unless one module is counted twice (`CountedTwice`), as it is when the list repeats a namespace; there, and only there,
the search calls a name ambiguous that means one module (`resolve_by_holders`).
-/
namespace VariantGraph.Registry

/-! ## Who holds a name -/

/-- The namespaces that are imported where a package is. -/
def importsOf (registry : Registry) (package : String) : List String :=
  (registry.imports? (registry.enclosing package)).getD []

/-- An imported namespace holds a name, as this module. -/
def ImportHolds (registry : Registry) (package name : String) (id : ModuleId) : Prop :=
  ∃ scope ∈ registry.importsOf package, registry.lookup? scope name = some id

/-- A plain name means the module that the enclosing namespace holds under it; else the one module that imported
namespaces hold, which the global namespace must not rival if that is forbidden; else the one in the global
namespace. -/
inductive Means (registry : Registry) (package name : String) (id : ModuleId) : Prop
  | own (hown : registry.lookup? (registry.enclosing package) name = some id)
  | imported (hown : registry.lookup? (registry.enclosing package) name = none)
      (hone : ∀ other, registry.ImportHolds package name other ↔ other = id)
      (hglobal : registry.precedence = .strict → registry.lookup? globalNamespace name = none)
  | inGlobal (hown : registry.lookup? (registry.enclosing package) name = none)
      (hnone : ∀ other, ¬ registry.ImportHolds package name other)
      (hglobal : registry.lookup? globalNamespace name = some id)

/-- A plain name is ambiguous when imported namespaces hold two modules, or when one of them and the global namespace
hold the name and may not rival each other. -/
inductive Ambiguous (registry : Registry) (package name : String) : Prop
  | imports {first second : ModuleId} (hown : registry.lookup? (registry.enclosing package) name = none)
      (hfirst : registry.ImportHolds package name first) (hsecond : registry.ImportHolds package name second)
      (hne : first ≠ second)
  | strict {imported global : ModuleId} (hown : registry.lookup? (registry.enclosing package) name = none)
      (hstrict : registry.precedence = .strict) (himported : registry.ImportHolds package name imported)
      (hglobal : registry.lookup? globalNamespace name = some global)

/-- A plain name means the one module of the imported namespaces, but more than one entry of the import list holds
it. -/
structure CountedTwice (registry : Registry) (package name : String) : Prop where
  own : registry.lookup? (registry.enclosing package) name = none
  one : ∃ id, ∀ other, registry.ImportHolds package name other ↔ other = id
  global : registry.precedence = .strict → registry.lookup? globalNamespace name = none
  twice : 1 < (registry.importsOf package).countP fun scope => (registry.lookup? scope name).isSome

/-- Registries that hold the same modules in the same namespaces, whatever these import. -/
structure AlikeButImports (a b : Registry) : Prop where
  precedence : b.precedence = a.precedence
  lookup : ∀ scope name, b.lookup? scope name = a.lookup? scope name
  declared : ∀ scope, b.namespaces.has scope = a.namespaces.has scope

variable {registry a b : Registry} {package name : String} {id : ModuleId}

/-! ## Counting the imports -/

theorem mem_importedMatches {imports : List String} {scope : String} :
    (scope, id) ∈ registry.importedMatches imports name ↔ scope ∈ imports ∧ registry.lookup? scope name = some id := by
  simp only [importedMatches, List.mem_filterMap, Option.map_eq_some_iff, Prod.mk.injEq]
  constructor
  · rintro ⟨scope', hmem, id', hlookup, rfl, rfl⟩
    exact ⟨hmem, hlookup⟩
  · rintro ⟨hmem, hlookup⟩
    exact ⟨scope, hmem, id, hlookup, rfl, rfl⟩

/-- The imports that hold a name, with what they hold, where a package is. -/
def matchesOf (registry : Registry) (package name : String) : List (String × ModuleId) :=
  registry.importedMatches (registry.importsOf package) name

theorem length_matchesOf : (registry.matchesOf package name).length =
    (registry.importsOf package).countP fun scope => (registry.lookup? scope name).isSome := by
  simp [matchesOf, importedMatches, List.length_filterMap_eq_countP]

theorem importHolds_iff :
    registry.ImportHolds package name id ↔ ∃ scope, (scope, id) ∈ registry.matchesOf package name := by
  simp only [ImportHolds, matchesOf, mem_importedMatches]

/-- Where imports hold one module, and not more than one of them does, there is one that does. -/
theorem exists_matchesOf_eq_singleton (hone : ∀ other, registry.ImportHolds package name other ↔ other = id)
    (hlength : (registry.matchesOf package name).length ≤ 1) :
    ∃ scope, registry.matchesOf package name = [(scope, id)] := by
  obtain ⟨scope, hmem⟩ := importHolds_iff.1 ((hone id).2 rfl)
  obtain ⟨entry, hentry⟩ := List.length_eq_one_iff.1 (Nat.le_antisymm hlength (List.length_pos_of_mem hmem))
  rw [hentry, List.mem_singleton] at hmem
  exact ⟨scope, by rw [hentry, hmem]⟩

/-- One entry that holds a name holds one module. -/
theorem importHolds_of_singleton {scope : String} (h : registry.matchesOf package name = [(scope, id)])
    (other : ModuleId) : registry.ImportHolds package name other ↔ other = id := by
  simp [importHolds_iff, h]

/-! ## Searching -/

/-- What a search finds that found nothing at home. -/
theorem resolvePlain_of_own_none (hown : registry.lookup? (registry.enclosing package) name = none) :
    (∀ id, registry.resolvePlain package name = .ok id ↔
      (∃ scope, registry.matchesOf package name = [(scope, id)]) ∧
          (registry.precedence = .strict → registry.lookup? globalNamespace name = none) ∨
        registry.matchesOf package name = [] ∧ registry.lookup? globalNamespace name = some id) ∧
    ∀ said found, registry.resolvePlain package name = .error (.ambiguousModule said found) →
      1 < (registry.matchesOf package name).length ∨
        (∃ entry, registry.matchesOf package name = [entry]) ∧ registry.precedence = .strict ∧
          ∃ id, registry.lookup? globalNamespace name = some id := by
  -- at home in the global namespace the search does not look there again
  have hglobal : (if registry.enclosing package = globalNamespace then none
      else registry.lookup? globalNamespace name) = registry.lookup? globalNamespace name := by
    split
    · next hhome => rw [← hhome, hown]
    · rfl
  have himports : registry.importedMatches
      (((registry.namespaces.find? (registry.enclosing package)).map (·.imports)).getD []) name =
        registry.matchesOf package name := rfl
  unfold resolvePlain
  simp only [hown, himports, hglobal]
  generalize registry.lookup? globalNamespace name = inGlobal
  rcases registry.matchesOf package name with _ | ⟨⟨scope, held⟩, _ | ⟨second, several⟩⟩
  · cases inGlobal <;> simp
  · cases inGlobal <;> by_cases hstrict : registry.precedence = .strict <;> simp [hstrict]
  · simp

theorem resolvePlain_of_own (hown : registry.lookup? (registry.enclosing package) name = some id) :
    registry.resolvePlain package name = .ok id := by
  unfold resolvePlain
  simp only [hown]

/-- Where no module is counted twice, a search finds what a name means. -/
theorem resolvePlain_eq_ok_iff_means (hcounted : ¬ registry.CountedTwice package name) (id : ModuleId) :
    registry.resolvePlain package name = .ok id ↔ registry.Means package name id := by
  cases hown : registry.lookup? (registry.enclosing package) name with
  | some held =>
    rw [resolvePlain_of_own hown, Except.ok.injEq]
    constructor
    · rintro rfl
      exact .own hown
    · rintro (hheld | ⟨hnone, -, -⟩ | ⟨hnone, -, -⟩)
      · exact Option.some.inj (hown.symm.trans hheld)
      · cases hown.symm.trans hnone
      · cases hown.symm.trans hnone
  | none =>
    rw [(resolvePlain_of_own_none hown).1]
    constructor
    · rintro (⟨⟨scope, hmatch⟩, hglobal⟩ | ⟨hnil, hglobal⟩)
      · exact .imported hown (importHolds_of_singleton hmatch) hglobal
      · exact .inGlobal hown (by simp [importHolds_iff, hnil]) hglobal
    · rintro (hheld | ⟨-, hone, hglobal⟩ | ⟨-, hnone, hglobal⟩)
      · cases hown.symm.trans hheld
      · refine .inl ⟨exists_matchesOf_eq_singleton hone ?_, hglobal⟩
        by_contra hmany
        exact hcounted ⟨hown, ⟨id, hone⟩, hglobal, by rw [← length_matchesOf]; omega⟩
      · refine .inr ⟨List.eq_nil_iff_forall_not_mem.2 ?_, hglobal⟩
        rintro ⟨scope, held⟩ hmem
        exact hnone held (importHolds_iff.2 ⟨scope, hmem⟩)

/-- Where no module is counted twice, a name that a search calls ambiguous is so. -/
theorem ambiguous_of_resolvePlain (hcounted : ¬ registry.CountedTwice package name) (said : String)
    (found : List String) (h : registry.resolvePlain package name = .error (.ambiguousModule said found)) :
    registry.Ambiguous package name := by
  cases hown : registry.lookup? (registry.enclosing package) name with
  | some held => rw [resolvePlain_of_own hown] at h; cases h
  | none =>
    rcases (resolvePlain_of_own_none hown).2 said found h with hmany | ⟨⟨⟨scope, held⟩, hmatch⟩, hstrict, id, hglobal⟩
    · obtain ⟨⟨scope, held⟩, hmem⟩ := List.exists_mem_of_length_pos (Nat.zero_lt_of_lt hmany)
      have hheld : registry.ImportHolds package name held := importHolds_iff.2 ⟨scope, hmem⟩
      by_cases hone : ∀ other, registry.ImportHolds package name other ↔ other = held
      · by_cases hglobal : registry.precedence = .strict → registry.lookup? globalNamespace name = none
        · exact absurd ⟨hown, ⟨held, hone⟩, hglobal, by rwa [← length_matchesOf]⟩ hcounted
        · obtain ⟨hstrict, hrival⟩ := Classical.not_imp.1 hglobal
          obtain ⟨rival, hrival⟩ := Option.ne_none_iff_exists'.1 hrival
          exact .strict hown hstrict hheld hrival
      · obtain ⟨other, hother⟩ := not_forall.1 hone
        have hne : registry.ImportHolds package name other ∧ other ≠ held := by
          by_contra hnot
          exact hother ⟨fun hholds => by_contra fun hne => hnot ⟨hholds, hne⟩, fun heq => heq ▸ hheld⟩
        exact .imports hown hne.1 hheld hne.2
    · exact .strict hown hstrict ((importHolds_of_singleton hmatch held).2 rfl) hglobal

/-- Where a search finds what a name means, no module is counted twice: the name would mean that one, and the search
does not find it. -/
theorem not_countedTwice_of_found
    (hfound : ∀ id, registry.resolvePlain package name = .ok id ↔ registry.Means package name id) :
    ¬ registry.CountedTwice package name := by
  rintro ⟨hown, ⟨id, hone⟩, hglobal, htwice⟩
  rw [← length_matchesOf] at htwice
  rcases ((resolvePlain_of_own_none hown).1 id).1 ((hfound id).2 (.imported hown hone hglobal)) with
    ⟨⟨scope, hmatch⟩, -⟩ | ⟨hnil, -⟩
  · simp [hmatch] at htwice
  · simp [hnil] at htwice

/-! ## Other imports -/

namespace AlikeButImports

theorem enclosing (h : AlikeButImports a b) (package : String) : b.enclosing package = a.enclosing package := by
  simp only [Registry.enclosing, h.declared]

theorem symm (h : AlikeButImports a b) : AlikeButImports b a where
  precedence := h.precedence.symm
  lookup scope name := (h.lookup scope name).symm
  declared scope := (h.declared scope).symm

theorem lookup?_enclosing (h : AlikeButImports a b) (package name : String) :
    b.lookup? (b.enclosing package) name = a.lookup? (a.enclosing package) name := by
  rw [h.enclosing, h.lookup]

theorem means (h : AlikeButImports a b) (hsame : ∀ scope, scope ∈ a.importsOf package ↔ scope ∈ b.importsOf package)
    (hmeans : a.Means package name id) : b.Means package name id := by
  have hholds : ∀ other, b.ImportHolds package name other ↔ a.ImportHolds package name other := by
    intro other
    simp only [ImportHolds, hsame, h.lookup]
  rcases hmeans with hheld | ⟨hnone, hone, hglobal⟩ | ⟨hnone, himports, hglobal⟩
  · exact .own (by rw [h.lookup?_enclosing, hheld])
  · refine .imported (by rw [h.lookup?_enclosing, hnone]) ?_ ?_
    · simpa only [hholds] using hone
    · simpa only [h.precedence, h.lookup] using hglobal
  · refine .inGlobal (by rw [h.lookup?_enclosing, hnone]) ?_ (by rw [h.lookup, hglobal])
    simpa only [hholds] using himports

/-- What a name means depends only on which namespaces are imported. -/
theorem means_iff (h : AlikeButImports a b)
    (hsame : ∀ scope, scope ∈ a.importsOf package ↔ scope ∈ b.importsOf package) :
    a.Means package name id ↔ b.Means package name id :=
  ⟨h.means hsame, h.symm.means fun scope => (hsame scope).symm⟩

/-- The order of the imports changes nothing that a search finds. -/
theorem resolvePlain_perm (h : AlikeButImports a b) (hperm : (a.importsOf package).Perm (b.importsOf package))
    (name : String) (id : ModuleId) : a.resolvePlain package name = .ok id ↔ b.resolvePlain package name = .ok id := by
  have hmatches : (a.matchesOf package name).Perm (b.matchesOf package name) := by
    simp only [matchesOf, importedMatches, h.lookup]
    exact hperm.filterMap _
  have hone : ∀ entry, a.matchesOf package name = [entry] ↔ b.matchesOf package name = [entry] := by
    intro entry
    rw [← List.perm_singleton, ← List.perm_singleton]
    exact ⟨hmatches.symm.trans, hmatches.trans⟩
  have hnil : a.matchesOf package name = [] ↔ b.matchesOf package name = [] := by
    rw [← List.perm_nil, ← List.perm_nil]
    exact ⟨hmatches.symm.trans, hmatches.trans⟩
  cases hown : a.lookup? (a.enclosing package) name with
  | some held => rw [resolvePlain_of_own hown, resolvePlain_of_own ((h.lookup?_enclosing package name).trans hown)]
  | none =>
    rw [(resolvePlain_of_own_none hown).1, (resolvePlain_of_own_none ((h.lookup?_enclosing package name).trans hown)).1]
    simp only [hone, hnil, h.precedence, h.lookup]

end AlikeButImports

/-- **A plain name means what holds it, unless a module is counted twice.** The search finds a module exactly if the
name means that one, and calls a name ambiguous only if two modules rival, where and only where no module is counted
twice. So the order of imports does not change what is found, and neither does repeating some of them, as long as
none that holds the name is repeated. -/
theorem resolve_by_holders (registry : Registry) {package text name : String}
    (htext : Reference.parse? text = some (.plain name)) :
    (((∀ id, registry.resolve package text = .ok id ↔ registry.Means package name id) ∧
        ∀ said found, registry.resolve package text = .error (.ambiguousModule said found) →
          registry.Ambiguous package name) ↔ ¬ registry.CountedTwice package name) ∧
    ∀ other, AlikeButImports registry other →
      ((registry.importsOf package).Perm (other.importsOf package) ∨
        (∀ scope, scope ∈ registry.importsOf package ↔ scope ∈ other.importsOf package) ∧
          ¬ registry.CountedTwice package name ∧ ¬ other.CountedTwice package name) →
      ∀ id, registry.resolve package text = .ok id ↔ other.resolve package text = .ok id := by
  have hresolve : ∀ searched : Registry, searched.resolve package text = searched.resolvePlain package name := by
    intro searched
    rw [resolve, htext]
  simp only [hresolve]
  refine ⟨⟨fun h => not_countedTwice_of_found h.1, fun hcounted => ?_⟩, fun other hlike hsame id => ?_⟩
  · exact ⟨resolvePlain_eq_ok_iff_means hcounted, ambiguous_of_resolvePlain hcounted⟩
  · rcases hsame with hperm | ⟨hsame, hcounted, hcounted'⟩
    · exact hlike.resolvePlain_perm hperm name id
    · rw [resolvePlain_eq_ok_iff_means hcounted, resolvePlain_eq_ok_iff_means hcounted', hlike.means_iff hsame]

/-- A namespace with some imports, beside a library. -/
def besideLibrary (imports : List String) (modules : Table ModuleId) : Registry :=
  ⟨.strict, [(globalNamespace, ⟨[], []⟩), ("app", ⟨imports, []⟩), ("lib", ⟨[], modules⟩)], []⟩

/-- The library holds a module. -/
def appImporting (imports : List String) : Registry := besideLibrary imports [("foo", 0)]

/-- Declares both namespaces and enters the module. -/
def declareApp (imports : List String) : Except RegistryError (String × Registry) := do
  let registry ← (empty .strict).addNamespace "app" imports
  let registry ← registry.addNamespace "lib" []
  registry.register "lib" "foo" 0

theorem declareApp_eq (imports : List String) : declareApp imports = .ok ("lib", appImporting imports) := by
  have hdeclared : declareApp imports = (besideLibrary imports []).register "lib" "foo" 0 := rfl
  have hancestors : PackagePath.ancestors "lib" = ["lib", ""] := by decide +kernel
  have hhome : (besideLibrary imports []).enclosing "lib" = "lib" := by
    rw [enclosing, hancestors]
    rfl
  rw [hdeclared, register, hhome]
  rfl

/-- The library is found in either order of the imports, though the namespace imports itself as well. -/
theorem resolve_by_holders_app :
    let registry := appImporting ["app", "lib"]
    let other := appImporting ["lib", "app"]
    declareApp ["app", "lib"] = .ok ("lib", registry) ∧ declareApp ["lib", "app"] = .ok ("lib", other) ∧
    Reference.parse? "foo" = some (.plain "foo") ∧ AlikeButImports registry other ∧
    (registry.importsOf "app/tool").Perm (other.importsOf "app/tool") ∧ ¬ registry.CountedTwice "app/tool" "foo" ∧
    registry.Means "app/tool" "foo" 0 ∧ other.resolve "app/tool" "foo" = .ok 0 := by
  intro registry other
  have hparse : Reference.parse? "foo" = some (.plain "foo") := by decide +kernel
  have hlike : AlikeButImports registry other := by
    refine ⟨rfl, fun scope name => ?_, fun scope => ?_⟩
    · simp only [registry, other, appImporting, besideLibrary, lookup?, Table.find?]
      split_ifs <;> rfl
    · simp only [registry, other, appImporting, besideLibrary, Table.has, Table.find?]
      split_ifs <;> rfl
  have hperm : (registry.importsOf "app/tool").Perm (other.importsOf "app/tool") := List.Perm.swap "lib" "app" []
  have hcounted : ¬ registry.CountedTwice "app/tool" "foo" := fun h => absurd h.twice (by decide +kernel)
  have hfound : registry.resolve "app/tool" "foo" = .ok 0 := rfl
  obtain ⟨hexact, hothers⟩ := @resolve_by_holders registry "app/tool" "foo" "foo" hparse
  exact ⟨declareApp_eq _, declareApp_eq _, hparse, hlike, hperm, hcounted, ((hexact.2 hcounted).1 0).1 hfound,
    (hothers other hlike (.inl hperm) 0).1 hfound⟩

/-- An import that is repeated hides what it holds: the name means the module, no other one rivals it, and it is
called ambiguous. -/
theorem repeated_import_ambiguous :
    let registry := appImporting ["lib", "lib"]
    declareApp ["lib", "lib"] = .ok ("lib", registry) ∧ registry.Means "app" "foo" 0 ∧
    ¬ registry.Ambiguous "app" "foo" ∧
    registry.resolve "app" "foo" = .error (.ambiguousModule "foo" ["lib", "lib"]) ∧
    (appImporting ["lib"]).resolve "app" "foo" = .ok 0 := by
  intro registry
  have hholds : ∀ id, registry.ImportHolds "app" "foo" id ↔ id = 0 := by
    intro id
    have himports : registry.importsOf "app" = ["lib", "lib"] := rfl
    have hlookup : registry.lookup? "lib" "foo" = some 0 := rfl
    simp [ImportHolds, himports, hlookup, eq_comm]
  refine ⟨declareApp_eq _, .imported rfl hholds fun _ => rfl, ?_, rfl, rfl⟩
  rintro (⟨-, hfirst, hsecond, hne⟩ | ⟨-, -, -, hglobal⟩)
  · exact hne (((hholds _).1 hfirst).trans ((hholds _).1 hsecond).symm)
  · cases hglobal

end VariantGraph.Registry
