import VariantGraph.Proofs.Namespace.Reference
import VariantGraph.Proofs.Namespace.Resolution
import VariantGraph.Proofs.Workspace.Acceptance
/-!
# Every module can be referred to

A module that was loaded is found from every package by what is written for its namespace and its name, and from the
packages in its namespace by its name alone (`referable_of_accepted`). Entering a name and searching for it each look
for the namespace of a package; they agree because no module changes which namespaces there are (`Entered.enclosing`).
-/
namespace VariantGraph

namespace Registry

variable {registry : Registry} {user scope name : String} {id : ModuleId}

/-- A namespace and a name that can be written down mean what is held there, for every package. -/
theorem resolve_qualified (hwritable : (Reference.qualified scope name).Writable)
    (hheld : registry.lookup? scope name = some id) :
    registry.resolve user ("//" ++ scope ++ ":" ++ name) = .ok id := by
  have hparse : Reference.parse? ("//" ++ scope ++ ":" ++ name) = some (.qualified scope name) :=
    Reference.parse?_eq_some_iff.2 ⟨hwritable, rfl⟩
  obtain ⟨entry, hentry, hmodule⟩ := Option.bind_eq_some_iff.1 hheld
  unfold resolve
  simp only [hparse, hentry, hmodule]

/-- A plain name means what the namespace of the package holds, whatever else there is of that name. -/
theorem resolve_plain_of_own (hwritable : (Reference.plain name).Writable)
    (hown : registry.lookup? (registry.enclosing user) name = some id) : registry.resolve user name = .ok id := by
  have hparse : Reference.parse? name = some (.plain name) := Reference.parse?_eq_some_iff.2 ⟨hwritable, rfl⟩
  unfold resolve
  simp only [hparse, resolvePlain_of_own hown]

end Registry

variable {config : Config} {types : TypeTable} {stages : List Stage} {packages : List PackageRecord}
  {workspace : Workspace}

/-- The registry finds every module under its name in its namespace, after packages were loaded without errors. -/
theorem Workspace.lookup?_of_addPackages (h : (fresh config types stages).addPackages packages = (workspace, []))
    {id : ModuleId} {package : String} {record : ModuleRecord}
    (hid : (modulesOf packages)[id]? = some (package, record)) :
    workspace.registry.lookup? (workspace.graph.module id).scope record.name = some id := by
  have hentered := entered_of_addPackages h
  obtain ⟨module, properties, -, hmodule, -⟩ := hentered.made id _ hid
  rw [hentered.lookup]
  exact ⟨_, hid, by rw [hmodule]; rfl⟩

/-- **Every loaded module can be referred to.** A module with a name that is not empty and has no colon is what its
namespace and its name mean in every package, if these can be told apart again; and if the name has no slash either, it
is what the name alone means in every package that has the same enclosing namespace, as its own package has. That does
not depend on what is imported there, nor on what other namespaces hold, nor on how imports and the global namespace
rank. -/
theorem referable_of_accepted (h : (Workspace.fresh config types stages).addPackages packages = (workspace, []))
    {id : ModuleId} {package : String} {record : ModuleRecord}
    (hid : (Workspace.modulesOf packages)[id]? = some (package, record)) (hname : record.name ≠ "")
    (hcolon : ':' ∉ record.name.toList) :
    let module := workspace.graph.module id
    (module.name = record.name ∧ module.package = package ∧ Encloses packages module.scope package) ∧
    (':' ∉ module.scope.toList → module.scope.toList.getLast? ≠ some '/' →
      ∀ user, workspace.registry.resolve user ("//" ++ module.scope ++ ":" ++ record.name) = .ok id) ∧
    ('/' ∉ record.name.toList →
      ∀ user, Encloses packages module.scope user → workspace.registry.resolve user record.name = .ok id) := by
  have hheld := Workspace.lookup?_of_addPackages h hid
  obtain ⟨hsame, hpackage, hscope⟩ := Workspace.module_of_addPackages h hid
  refine ⟨⟨hsame, hpackage, (hscope _).2 rfl⟩, fun hplain hend user => ?_, fun hslash user huser => ?_⟩
  · exact Registry.resolve_qualified (.qualified hplain hend hname hcolon) hheld
  · refine Registry.resolve_plain_of_own (.plain hname hcolon hslash) ?_
    rwa [(Workspace.encloses_iff_of_addPackages h).1 huser]

/-- Three namespaces with a module of one name; two of them are in reach of the third. -/
def sameNameThrice : List PackageRecord :=
  [⟨"app/main", none, none, [⟨"filegroup", "x", []⟩]⟩,
    ⟨"", none, none, [⟨"filegroup", "x", []⟩]⟩,
    ⟨"lib", none, some [], [⟨"filegroup", "x", []⟩]⟩,
    ⟨"app", none, some ["lib"], [⟨"filegroup", "src/y", []⟩]⟩]

/-- A fresh workspace in which imports and the global namespace may not both hold a name. -/
def strictWorkspace : Workspace :=
  .fresh { Config.onLinux with precedence := .strict } Builtin.types []

theorem referable_sameNameThrice : ∃ workspace, strictWorkspace.addPackages sameNameThrice = (workspace, []) ∧
    workspace.registry.resolve "app/test" "x" = .ok 0 ∧ workspace.registry.resolve "lib" "//app:x" = .ok 0 ∧
    workspace.registry.resolve "app" "//:x" = .ok 1 ∧ workspace.registry.resolve "lib" "//app:src/y" = .ok 3 := by
  have hload : strictWorkspace.addPackages sameNameThrice = ((strictWorkspace.addPackages sameNameThrice).1, []) :=
    Prod.ext rfl (by decide +kernel)
  have hscopes : ∀ id ∈ [0, 1, 3], ((strictWorkspace.addPackages sameNameThrice).1.graph.module id).scope =
      if id = 1 then "" else "app" := by decide +kernel
  have hmain : (Workspace.modulesOf sameNameThrice)[0]? = some ("app/main", ⟨"filegroup", "x", []⟩) := rfl
  have hroot : (Workspace.modulesOf sameNameThrice)[1]? = some ("", ⟨"filegroup", "x", []⟩) := rfl
  have hsource : (Workspace.modulesOf sameNameThrice)[3]? = some ("app", ⟨"filegroup", "src/y", []⟩) := rfl
  obtain ⟨-, hqualified, hplain⟩ := referable_of_accepted hload hmain (by decide) (by decide)
  obtain ⟨-, hglobal, -⟩ := referable_of_accepted hload hroot (by decide) (by decide)
  obtain ⟨-, hslash, -⟩ := referable_of_accepted hload hsource (by decide) (by decide)
  rw [hscopes 0 (by simp)] at hqualified hplain
  rw [hscopes 1 (by simp)] at hglobal
  rw [hscopes 3 (by simp)] at hslash
  have htest : Encloses sameNameThrice "app" "app/test" :=
    (Workspace.encloses_iff_of_addPackages hload).2 (by decide +kernel)
  exact ⟨_, hload, hplain (by decide) "app/test" htest, hqualified (by decide) (by decide) "lib",
    hglobal (by decide) (by decide) "app", hslash (by decide) (by decide) "lib"⟩

end VariantGraph
