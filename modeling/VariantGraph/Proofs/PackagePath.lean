import VariantGraph.PackagePath
import VariantGraph.Proofs.Text
import Mathlib.Logic.Function.Iterate
/-!
# The packages above a package

A path is at or above another one if its components are the first ones of the other, and the root is above every path
(`AtOrAbove`). Both ways of telling agree with that on every text, wherever its slashes are: comparing beginnings
(`within_iff`), and cutting off what follows the last slash until nothing is left (`exists_iterate_parent_iff`). Of the
paths at or above a package that have a property, one is the deepest (`Deepest.unique`), and it is the one at which a
search from the package upwards ends (`searchUp_eq_some_iff`).
-/
namespace VariantGraph.PackagePath

variable {α : Type} {package path ancestor other : String}

/-! ## Components -/

/-- What stands between the slashes of a path. -/
def components (path : String) : List String := Text.split '/' path

/-- A path is the root, or its components are the first ones of the other path. -/
def AtOrAbove (ancestor path : String) : Prop := ancestor = "" ∨ components ancestor <+: components path

theorem components_injective (h : components path = components other) : path = other := by
  have hpieces := (List.map_inj_right fun _ _ => String.ofList_injective).1 h
  exact String.toList_inj.1 (Text.pieces_injective hpieces)

/-- A path is at or above another one if that is the same, or goes on behind it with a slash. -/
theorem atOrAbove_iff : AtOrAbove ancestor path ↔
    ancestor = "" ∨ path = ancestor ∨ ∃ rest, path.toList = ancestor.toList ++ '/' :: rest := by
  rw [AtOrAbove, components, components, Text.split, Text.split,
    List.prefix_map_iff_of_injective fun _ _ => String.ofList_injective, Text.pieces_isPrefix_iff, String.toList_inj]

theorem AtOrAbove.refl (path : String) : AtOrAbove path path := .inr List.prefix_rfl

/-- The characters of a path begin with those of a path above it. -/
theorem AtOrAbove.isPrefix (h : AtOrAbove ancestor path) : ancestor.toList <+: path.toList := by
  rcases atOrAbove_iff.1 h with rfl | rfl | ⟨rest, hrest⟩
  · simp
  · exact List.prefix_rfl
  · exact ⟨_, hrest.symm⟩

/-- Only the root is above the root. -/
theorem atOrAbove_root_iff : AtOrAbove ancestor "" ↔ ancestor = "" :=
  ⟨fun h => by simpa using h.isPrefix, .inl⟩

theorem AtOrAbove.length_le (h : AtOrAbove ancestor path) : ancestor.length ≤ path.length := by
  simpa only [String.length_toList] using h.isPrefix.length_le

/-- **Comparing beginnings** tells the paths at or above a package. -/
theorem within_iff : within package ancestor = true ↔ AtOrAbove ancestor package := by
  have hstarts : Text.startsWith (ancestor ++ "/") package = true ↔
      ∃ rest, package.toList = ancestor.toList ++ '/' :: rest := by
    simp [Text.startsWith, Option.isSome_iff_exists, Text.after?_eq_some_iff]
  simp [within, atOrAbove_iff, hstarts, or_assoc]

/-! ## Going up -/

/-- What stands before the last slash of a path; the root if there is none. -/
def parent (path : String) : String :=
  match Text.cutChars? '/' path.toList.reverse with
  | some (_, before) => String.ofList before.reverse
  | none => ""

/-- A path has no slash, or its last one stands between its parent and its last component. -/
theorem parent_cases (path : String) : ('/' ∉ path.toList ∧ parent path = "") ∨
    ∃ last, path.toList = (parent path).toList ++ '/' :: last ∧ '/' ∉ last := by
  unfold parent
  cases hcut : Text.cutChars? '/' path.toList.reverse with
  | none => exact .inl ⟨by simpa using Text.cutChars?_eq_none_iff.1 hcut, rfl⟩
  | some cut =>
    obtain ⟨last, before⟩ := cut
    obtain ⟨hpath, hlast⟩ := Text.cutChars?_eq_some_iff.1 hcut
    rw [List.reverse_eq_iff] at hpath
    exact .inr ⟨last.reverse, by simp [hpath], by simpa using hlast⟩

theorem length_parent_lt (hpath : path ≠ "") : (parent path).length < path.length := by
  rcases parent_cases path with ⟨-, hparent⟩ | ⟨last, hlast, -⟩
  · rw [hparent]
    exact Nat.pos_of_ne_zero fun h => hpath (by simpa using h)
  · have hlength := congrArg List.length hlast
    simp only [List.length_append, List.length_cons, String.length_toList] at hlength
    omega

/-- What holds of the root, and of every other path if it holds of its parent, holds of every path. -/
theorem up_induction {motive : String → Prop} (root : motive "")
    (step : ∀ path, path ≠ "" → motive (parent path) → motive path) (path : String) : motive path :=
  if h : path = "" then h ▸ root else step path h (up_induction root step (parent path))
termination_by path.length
decreasing_by exact length_parent_lt h

/-- A parent has all components but the last one. -/
theorem atOrAbove_iff_parent : AtOrAbove ancestor path ↔ ancestor = path ∨ AtOrAbove ancestor (parent path) := by
  rcases parent_cases path with ⟨hslash, hparent⟩ | ⟨last, hlast, hslash⟩
  · rw [hparent, atOrAbove_root_iff, atOrAbove_iff]
    constructor
    · rintro (h | h | ⟨rest, h⟩)
      · exact .inr h
      · exact .inl h.symm
      · simp [h] at hslash
    · rintro (h | h)
      · exact .inr (.inl h.symm)
      · exact .inl h
  · have hcomponents : components path = components (parent path) ++ [String.ofList last] := by
      simp [components, Text.split, hlast, Text.pieces_append_cons, Text.pieces_of_not_mem hslash]
    have hsame : components ancestor = components path ↔ ancestor = path :=
      ⟨components_injective, congrArg components⟩
    rw [AtOrAbove, AtOrAbove, hcomponents, List.prefix_concat_iff, ← hcomponents, hsame]
    exact or_left_comm

/-- **Going up to the parent again and again** leads to the paths at or above a path, and to no others. -/
theorem exists_iterate_parent_iff : (∃ steps, parent^[steps] path = ancestor) ↔ AtOrAbove ancestor path := by
  constructor
  · rintro ⟨steps, rfl⟩
    induction steps generalizing path with
    | zero => exact .refl path
    | succ steps ih =>
      rw [Function.iterate_succ_apply]
      exact atOrAbove_iff_parent.2 (.inr ih)
  · intro h
    induction path using up_induction with
    | root => exact ⟨0, (atOrAbove_root_iff.1 h).symm⟩
    | step path _ ih =>
      rcases atOrAbove_iff_parent.1 h with rfl | habove
      · exact ⟨0, rfl⟩
      · obtain ⟨steps, hsteps⟩ := ih habove
        exact ⟨steps + 1, by rwa [Function.iterate_succ_apply]⟩

/-! ## The deepest path -/

/-- The longest of the paths with a property that are at or above a package. -/
structure Deepest (p : String → Prop) (package path : String) : Prop where
  holds : p path
  above : AtOrAbove path package
  longest : ∀ other, p other → AtOrAbove other package → other.length ≤ path.length

/-- Only one path of a length is at or above a package, so only one is the longest. -/
theorem Deepest.unique {p : String → Prop} (h : Deepest p package path) (h' : Deepest p package other) :
    path = other := by
  have hlength : path.toList.length = other.toList.length := by
    simpa only [String.length_toList] using
      Nat.le_antisymm (h'.longest path h.holds h.above) (h.longest other h'.holds h'.above)
  have hstart := List.prefix_of_prefix_length_le h.above.isPrefix h'.above.isPrefix (Nat.le_of_eq hlength)
  exact String.toList_inj.1 (hstart.eq_of_length hlength)

theorem Deepest.congr {p q : String → Prop} (h : Deepest p package path) (hpq : ∀ other, p other ↔ q other) :
    Deepest q package path where
  holds := (hpq path).1 h.holds
  above := h.above
  longest other hother := h.longest other ((hpq other).2 hother)

/-- The first answer on the way from a path up to the root. -/
def searchUp (find : String → Option α) (path : String) : Option α :=
  match find path with
  | some answer => some answer
  | none => if _ : path = "" then none else searchUp find (parent path)
termination_by path.length
decreasing_by exact length_parent_lt ‹_›

section
variable {find : String → Option α}

theorem searchUp_root : searchUp find "" = find "" := by
  rw [searchUp]
  cases find "" <;> simp

theorem searchUp_of_ne (hpath : path ≠ "") : searchUp find path = (find path).or (searchUp find (parent path)) := by
  rw [searchUp]
  cases find path <;> simp [hpath]

/-- A search finds nothing if no path at or above has an answer. -/
theorem searchUp_eq_none_iff :
    searchUp find path = none ↔ ∀ ancestor, AtOrAbove ancestor path → find ancestor = none := by
  induction path using up_induction with
  | root => simp [searchUp_root, atOrAbove_root_iff]
  | step path hpath ih => simp [searchUp_of_ne hpath, ih, @atOrAbove_iff_parent path]

/-- **A search upwards finds what the deepest path has**, of those that have an answer. -/
theorem searchUp_eq_some_iff {answer : α} : searchUp find path = some answer ↔
    ∃ deepest, Deepest (fun ancestor => find ancestor ≠ none) path deepest ∧ find deepest = some answer := by
  have hfound : ∀ answer, searchUp find path = some answer →
      ∃ deepest, Deepest (fun ancestor => find ancestor ≠ none) path deepest ∧ find deepest = some answer := by
    intro answer h
    induction path using up_induction with
    | root =>
      rw [searchUp_root] at h
      exact ⟨"", ⟨by simp [h], .refl "", fun _ _ habove => habove.length_le⟩, h⟩
    | step path hpath ih =>
      rw [searchUp_of_ne hpath] at h
      cases hfind : find path with
      | some found =>
        rw [hfind, Option.some_or] at h
        exact ⟨path, ⟨by simp [hfind], .refl path, fun _ _ habove => habove.length_le⟩, hfind.trans h⟩
      | none =>
        rw [hfind, Option.none_or] at h
        obtain ⟨deepest, ⟨hholds, habove, hlongest⟩, hanswer⟩ := ih h
        refine ⟨deepest, ⟨hholds, atOrAbove_iff_parent.2 (.inr habove), fun other hother hover => ?_⟩, hanswer⟩
        rcases atOrAbove_iff_parent.1 hover with rfl | hover
        · exact absurd hfind hother
        · exact hlongest other hother hover
  refine ⟨hfound answer, fun ⟨deepest, hdeepest, hanswer⟩ => ?_⟩
  cases hsearch : searchUp find path with
  | none => exact absurd (searchUp_eq_none_iff.1 hsearch deepest hdeepest.above) hdeepest.holds
  | some found =>
    obtain ⟨other, hother, hfound⟩ := hfound found hsearch
    rw [← hanswer, ← hfound, hother.unique hdeepest]

/-- Nothing stands before a slash where there is none. -/
theorem stems_of_not_mem {text : List Char} (h : '/' ∉ text) : stems text = [] := by
  induction text with
  | nil => rfl
  | cons c text ih =>
    rw [List.mem_cons, not_or] at h
    simp [stems, Ne.symm h.1, ih h.2]

theorem stems_append_cons {text last : List Char} (h : '/' ∉ last) :
    stems (text ++ '/' :: last) = stems text ++ [text] := by
  induction text with
  | nil => simp [stems, stems_of_not_mem h]
  | cons c text ih => by_cases hc : c = '/' <;> simp [stems, hc, ih]

/-- A search through the list of all paths at or above a package is a search upwards. -/
theorem findSome?_ancestors : (ancestors path).findSome? find = searchUp find path := by
  induction path using up_induction with
  | root => cases h : find "" <;> simp [ancestors, stems, searchUp_root, h]
  | step path hpath ih =>
    rw [searchUp_of_ne hpath, ← ih]
    rcases parent_cases path with ⟨hslash, hparent⟩ | ⟨last, hlast, hslash⟩
    · have hancestors : ancestors path = [path, ""] := by simp [ancestors, stems_of_not_mem hslash]
      rw [hancestors, hparent, List.findSome?_cons]
      cases find path with
      | some answer => rfl
      | none => cases h : find "" <;> simp [ancestors, stems, h]
    · have hancestors : ancestors path = path :: ancestors (parent path) := by
        simp [ancestors, hlast, stems_append_cons hslash]
      rw [hancestors, List.findSome?_cons]
      cases find path <;> rfl

end

end VariantGraph.PackagePath
