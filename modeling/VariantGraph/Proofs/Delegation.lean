import VariantGraph.Delegation
import VariantGraph.Proofs.Table
import VariantGraph.Proofs.Text
/-!
# Which packages are converted by default

The entry of a package decides for its own modules. Where there is none, an entry that is about a whole tree decides if
it stands for the root, for the package, or for one that its path goes on behind with a slash. The paths on the way are
put together part by part; on a path that does not begin with a slash they are just these
(`mem_stemsOf_split_iff`, `convertsByDefault_iff_covered`).
-/
namespace VariantGraph.ExternalBuild

variable {external : ExternalBuild} {package key stem : String} {parts : List String}

/-! ## The paths on the way -/

/-- A stem and the paths behind it add components to it, none or more. No slash follows an empty stem, so that one has
to be the last. -/
theorem mem_cons_stemsOf_iff (hstem : stem ≠ "" ∨ parts = []) :
    key ∈ stem :: stemsOf stem parts ↔ ∃ first, first <+: parts ∧ key = Text.join "/" (stem :: first) := by
  induction parts generalizing stem with
  | nil => simp [stemsOf, Text.join]
  | cons part parts ih =>
    have hne : stem ≠ "" := hstem.resolve_right (List.cons_ne_nil _ _)
    have hnext : stem ++ "/" ++ part ≠ "" := by simp
    rw [stemsOf, if_neg hne, List.mem_cons, ih (.inl hnext)]
    simp only [List.prefix_cons_iff]
    constructor
    · rintro (rfl | ⟨first, hfirst, rfl⟩)
      · exact ⟨[], .inl rfl, by simp [Text.join]⟩
      · exact ⟨part :: first, .inr ⟨first, rfl, hfirst⟩, by simp [Text.join, String.append_assoc]⟩
    · rintro ⟨_, rfl | ⟨first, rfl, hfirst⟩, rfl⟩
      · exact .inl (by simp)
      · exact .inr ⟨first, hfirst, by simp [Text.join, String.append_assoc]⟩

/-- **The paths on the way to a package** are its own and those that it goes on behind with a slash. -/
theorem mem_stemsOf_split_iff (hpackage : package.toList.head? ≠ some '/') :
    key ∈ stemsOf "" (Text.split '/' package) ↔ package = key ∨ ∃ rest, package = key ++ "/" ++ rest := by
  have hslash : String.singleton '/' = "/" := rfl
  rw [← hslash, ← Text.split_isPrefix_iff]
  obtain ⟨part, parts, hsplit⟩ := List.exists_cons_of_ne_nil (Text.split_ne_nil '/' package)
  -- an empty first part with more behind it would make the path begin with a slash
  have hpart : part ≠ "" ∨ parts = [] := by
    cases parts with
    | nil => exact .inr rfl
    | cons second parts =>
      refine .inl fun hempty => hpackage ?_
      have hjoin := Text.join_split '/' package
      rw [hsplit, hempty] at hjoin
      simp [← hjoin, Text.join]
  rw [hsplit, stemsOf, if_pos rfl, mem_cons_stemsOf_iff hpart]
  constructor
  · rintro ⟨first, hfirst, rfl⟩
    have hprefix : part :: first <+: part :: parts := (List.prefix_cons_inj part).2 hfirst
    have hkey : Text.split '/' (Text.join "/" (part :: first)) = part :: first :=
      Text.split_join (List.cons_ne_nil _ _) fun piece hpiece =>
        Text.not_mem_of_mem_split (hsplit ▸ hprefix.subset hpiece)
    rwa [hkey]
  · intro hprefix
    obtain ⟨first, others, hkey⟩ := List.exists_cons_of_ne_nil (Text.split_ne_nil '/' key)
    rw [hkey] at hprefix
    obtain ⟨rfl, hothers⟩ := List.cons_prefix_cons.1 hprefix
    exact ⟨others, hothers, by rw [← hkey, ← hslash, Text.join_split]⟩

/-! ## The defaults -/

/-- The key of the entry that is about a package itself. -/
def entryKey (package : String) : String := if package = "" then rootPackageKey else package

/-- The keys under which an entry about a whole tree is about a package: the root, the package, and those that its path
goes on behind with a slash. -/
inductive Covers : String → String → Prop
  | root (package : String) : Covers rootPackageKey package
  | package (package : String) : Covers package package
  | above (key rest : String) : Covers key (key ++ "/" ++ rest)

theorem covers_iff : Covers key package ↔
    key = rootPackageKey ∨ package = key ∨ ∃ rest, package = key ++ "/" ++ rest := by
  constructor
  · rintro (_ | _ | ⟨_, rest⟩)
    · exact .inl rfl
    · exact .inr (.inl rfl)
    · exact .inr (.inr ⟨rest, rfl⟩)
  · rintro (rfl | rfl | ⟨rest, rfl⟩)
    · exact .root package
    · exact .package package
    · exact .above key rest

theorem convertsByDefault_of_entry {entry : ConversionDefault}
    (hentry : external.packages.find? (entryKey package) = some entry) :
    external.convertsByDefault package = decide (entry ≠ .keepPackage) := by
  unfold convertsByDefault
  unfold entryKey at hentry
  rw [hentry]
  cases entry <;> rfl

/-- A package without an entry of its own is converted if it is covered by one about a whole tree. -/
theorem convertsByDefault_iff_covered (hpackage : package.toList.head? ≠ some '/')
    (hnone : external.packages.find? (entryKey package) = none) : external.convertsByDefault package = true ↔
      ∃ key, Covers key package ∧ external.packages.find? key = some .convertTree := by
  unfold convertsByDefault
  unfold entryKey at hnone
  rw [hnone, Bool.or_eq_true, List.any_eq_true]
  simp only [mem_stemsOf_split_iff hpackage, convertsTree, decide_eq_true_eq, covers_iff, or_and_right, exists_or,
    exists_eq_left]

/-- **Conversion defaults follow the package tree.** The entry of a package itself decides. Where there is none, the
package is converted exactly if it is covered by an entry about a whole tree. So of the other entries it matters only
under which covering keys one about a whole tree stands: what an entry says about a package above and its modules alone
does not count, and neither does an entry under a key that is no package above, be it the beginning of the path. -/
theorem converted_by_tree (external : ExternalBuild) (hpackage : package.toList.head? ≠ some '/') :
    (∀ entry, external.packages.find? (entryKey package) = some entry →
      (external.convertsByDefault package = true ↔ entry ≠ .keepPackage)) ∧
    (external.packages.find? (entryKey package) = none → (external.convertsByDefault package = true ↔
      ∃ key, Covers key package ∧ external.packages.find? key = some .convertTree)) ∧
    ∀ other : ExternalBuild, other.packages.find? (entryKey package) = external.packages.find? (entryKey package) →
      (∀ key, Covers key package →
        (other.packages.find? key = some .convertTree ↔ external.packages.find? key = some .convertTree)) →
      other.convertsByDefault package = external.convertsByDefault package := by
  refine ⟨fun entry hentry => ?_, convertsByDefault_iff_covered hpackage, fun other hown htrees => ?_⟩
  · rw [convertsByDefault_of_entry hentry, decide_eq_true_eq]
  · cases hentry : external.packages.find? (entryKey package) with
    | some entry => rw [convertsByDefault_of_entry hentry, convertsByDefault_of_entry (hown.trans hentry)]
    | none =>
      rw [Bool.eq_iff_iff, convertsByDefault_iff_covered hpackage hentry,
        convertsByDefault_iff_covered hpackage (hown.trans hentry)]
      exact exists_congr fun key => and_congr_right (htrees key)

/-- A tree that is converted, but for the modules of its top, and one package in it with an entry for itself alone. -/
def treeWithParts : ExternalBuild :=
  ⟨false, [(".", .convertPackage), ("a", .keepPackage), ("a/", .convertTree), ("a//b", .keepPackage)], [], []⟩

theorem converted_treeWithParts :
    "a//b/c".toList.head? ≠ some '/' ∧ "ab".toList.head? ≠ some '/' ∧
    treeWithParts.packages.find? (entryKey "a//b/c") = none ∧ treeWithParts.convertsByDefault "a//b/c" = true ∧
    treeWithParts.convertsByDefault "a//b" = false ∧
    treeWithParts.packages.find? (entryKey "ab") = none ∧ treeWithParts.convertsByDefault "ab" = false := by
  have hdeep : "a//b/c".toList.head? ≠ some '/' := by decide
  have hown : "a//b".toList.head? ≠ some '/' := by decide
  have hbeside : "ab".toList.head? ≠ some '/' := by decide
  have htree : ∀ key, treeWithParts.packages.find? key = some .convertTree → key = "a/" := by
    intro key hkey
    simpa [treeWithParts, Table.find?] using Table.mem_of_find? hkey
  refine ⟨hdeep, hbeside, rfl, ?_, ?_, rfl, ?_⟩
  · exact ((converted_by_tree treeWithParts hdeep).2.1 rfl).2 ⟨"a/", .above "a/" "b/c", rfl⟩
  · have hkept := (converted_by_tree treeWithParts hown).1 .keepPackage rfl
    exact Bool.eq_false_iff.2 fun hconverted => hkept.1 hconverted rfl
  · refine Bool.eq_false_iff.2 fun hconverted => ?_
    obtain ⟨key, hcovers, hkey⟩ := ((converted_by_tree treeWithParts hbeside).2.1 rfl).1 hconverted
    obtain rfl := htree key hkey
    rcases covers_iff.1 hcovers with h | h | ⟨rest, h⟩
    · exact absurd h (by decide)
    · exact absurd h (by decide)
    · exact absurd (congrArg (·.toList.take 2) h) (by simp)

end VariantGraph.ExternalBuild
