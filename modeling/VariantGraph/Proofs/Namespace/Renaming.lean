import VariantGraph.Namespace.Registry
import Mathlib.Logic.Equiv.Defs
/-!
# Registries that differ in the numbers of modules only

A registry hands numbers on and never looks into them. So two registries with the same namespaces and
packages that hold the same names, one under other numbers, give the same answers but for these numbers
(`renamed_of_lookup?`).
-/
namespace VariantGraph

/-- Two registries that answer the same but for the numbers of modules. -/
structure Registry.Renamed (σ : Equiv.Perm Nat) (a b : Registry) : Prop where
  resolve : ∀ package text, b.resolve package text = (a.resolve package text).map σ
  rules : ∀ own package, b.effectiveRules own package = a.effectiveRules own package

namespace Registry

theorem Renamed.refl (registry : Registry) : Renamed (Equiv.refl _) registry registry where
  resolve package text := by cases registry.resolve package text <;> rfl
  rules _ _ := rfl

theorem Renamed.denied {σ : Equiv.Perm Nat} {a b : Registry} (h : Renamed σ a b) (visitor : String)
    (own : Option (List VisibilityRule)) (package : String) :
    b.deniedBy? visitor own package = a.deniedBy? visitor own package := by
  simp only [deniedBy?, h.rules]

/-- The imports of a namespace, if it is declared. -/
def imports? (registry : Registry) (scope : String) : Option (List String) :=
  (registry.namespaces.find? scope).map (·.imports)

theorem has_eq_isSome (registry : Registry) (scope : String) :
    registry.namespaces.has scope = (registry.imports? scope).isSome := by
  rw [imports?, Option.isSome_map, Table.has]

/-- Namespaces enclose packages by their names only. -/
theorem enclosing_congr {a b : Registry} (h : b.imports? = a.imports?) : b.enclosing = a.enclosing := by
  funext package
  simp only [enclosing, has_eq_isSome, h]

section Renamed
variable {σ : Equiv.Perm Nat} {a b : Registry}
  (hlookup : ∀ scope name, b.lookup? scope name = (a.lookup? scope name).map σ)
include hlookup

theorem importedMatches_renamed (imports : List String) (name : String) : b.importedMatches imports name =
    (a.importedMatches imports name).map fun (scope, id) => (scope, σ id) := by
  simp only [importedMatches, List.map_filterMap, hlookup, Option.map_map]
  rfl

variable (hprecedence : b.precedence = a.precedence) (himports : b.imports? = a.imports?)
include hprecedence himports

theorem resolvePlain_renamed (package name : String) :
    b.resolvePlain package name = (a.resolvePlain package name).map σ := by
  have hscopes : (b.namespaces.find? (a.enclosing package)).map (·.imports) =
      (a.namespaces.find? (a.enclosing package)).map (·.imports) := congrFun himports _
  have hglobal : (if a.enclosing package = globalNamespace then none
        else (a.lookup? globalNamespace name).map σ) =
      (if a.enclosing package = globalNamespace then none else a.lookup? globalNamespace name).map σ := by
    split <;> rfl
  unfold resolvePlain
  dsimp only
  rw [enclosing_congr himports, hscopes, importedMatches_renamed hlookup, hlookup, hlookup, hprecedence, hglobal]
  generalize ((a.namespaces.find? (a.enclosing package)).map (·.imports)).getD [] = imports
  generalize (if a.enclosing package = globalNamespace then none else a.lookup? globalNamespace name) = inGlobal
  cases a.lookup? (a.enclosing package) name with
  | some id => rfl
  | none =>
    simp only [Option.map_none]
    -- no imported namespace holds the name, one does, or several do
    rcases a.importedMatches imports name with _ | ⟨⟨scope, id⟩, _ | ⟨second, several⟩⟩
    · cases inGlobal <;> rfl
    · simp only [List.map_cons, List.map_nil, Option.isSome_map]
      split <;> rfl
    · simp [Except.map, Function.comp_def]

/-- **Registries give the same answers but for numbers** if they hold the same names under other numbers. -/
theorem renamed_of_lookup? (hpackages : b.packages = a.packages) : Renamed σ a b where
  resolve package text := by
    unfold resolve
    split
    · rfl
    · exact resolvePlain_renamed hlookup hprecedence himports package _
    · next scope name _ =>
      have hscope := congrFun himports scope
      have hname := hlookup scope name
      unfold imports? at hscope
      unfold lookup? at hname
      cases hb : b.namespaces.find? scope with
      | none =>
        cases ha : a.namespaces.find? scope with
        | none => rfl
        | some entry => simp [ha, hb] at hscope
      | some entry' =>
        cases ha : a.namespaces.find? scope with
        | none => simp [ha, hb] at hscope
        | some entry =>
          simp only [ha, hb, Option.bind_some] at hname
          simp only [hname]
          cases entry.modules.find? name <;> rfl
  rules own package := by simp only [effectiveRules, defaultVisibility?, hpackages]

end Renamed

end Registry
end VariantGraph
