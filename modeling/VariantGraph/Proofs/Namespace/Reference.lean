import VariantGraph.Namespace.Registry
import VariantGraph.Proofs.Text
/-!
# How references are written

Reading is the inverse of writing: a text is read as a reference exactly if it is how that reference is written, and
the reference is one that can be (`parse?_eq_some_iff`). So a module is meant by what is written for it, as long as its
name and its namespace can be told apart again.

The texts that are read have one of two forms, and none has both (`IsQualified`, `IsPlain`). A search refuses all
others for how they are written, whatever the registry holds (`read_as_written`).
-/
namespace VariantGraph

/-! ## Reading and writing -/

namespace Reference

/-- What can be written down and read again: a name is not empty and has no colon, a namespace has no colon either and
does not end in a slash, and a plain name has no slash. -/
inductive Writable : Reference → Prop
  | plain {name : String} (hname : name ≠ "") (hcolon : ':' ∉ name.toList) (hslash : '/' ∉ name.toList) :
      Writable (.plain name)
  | qualified {scope name : String} (hscope : ':' ∉ scope.toList) (hend : scope.toList.getLast? ≠ some '/')
      (hname : name ≠ "") (hcolon : ':' ∉ name.toList) : Writable (.qualified scope name)

variable {text : String} {reference : Reference}

/-- **Reading a reference is the inverse of writing it down.** -/
theorem parse?_eq_some_iff : parse? text = some reference ↔ reference.Writable ∧ text = reference.render := by
  unfold parse?
  constructor
  · intro h
    split at h
    · next rest hstrip =>
      split at h
      · next scope name hcut =>
        split at h
        · cases h
        · next hread =>
          obtain rfl := Option.some.inj h
          obtain ⟨hrest, hscope⟩ := Text.cut?_eq_some_iff.1 hcut
          obtain ⟨⟨hname, hcolon⟩, hend⟩ : (name ≠ "" ∧ ':' ∉ name.toList) ∧ scope.toList.getLast? ≠ some '/' := by
            simpa [Text.has, Text.endsIn] using hread
          refine ⟨.qualified hscope hend hname hcolon, ?_⟩
          rw [Text.stripLead?_eq_some_iff.1 hstrip]
          exact String.toList_inj.1 (by simp [render, hrest])
      · cases h
    · split at h
      · cases h
      · next hread =>
        obtain rfl := Option.some.inj h
        obtain ⟨⟨hname, hcolon⟩, hslash⟩ : (text ≠ "" ∧ ':' ∉ text.toList) ∧ '/' ∉ text.toList := by
          simpa [Text.has] using hread
        exact ⟨.plain hname hcolon hslash, rfl⟩
  · rintro ⟨hwritable, rfl⟩
    cases hwritable with
    | @plain name hname hcolon hslash =>
      -- two slashes in front would be slashes in the name
      have hstrip : Text.stripLead? "//" name = none := by
        refine Option.eq_none_iff_forall_ne_some.2 fun rest hstrip => hslash ?_
        simp [Text.stripLead?_eq_some_iff.1 hstrip]
      simp [render, hstrip, Text.has, hname, hcolon, hslash]
    | @qualified scope name hscope hend hname hcolon =>
      have hstrip : Text.stripLead? "//" ("//" ++ scope ++ ":" ++ name) = some (scope ++ ":" ++ name) :=
        Text.stripLead?_eq_some_iff.2 (by simp only [String.append_assoc])
      have hcut : Text.cut? ':' (scope ++ ":" ++ name) = some (scope, name) :=
        Text.cut?_eq_some_iff.2 ⟨by simp, hscope⟩
      simp [render, hstrip, hcut, Text.has, Text.endsIn, hname, hcolon, hend]

/-! ## The two forms -/

/-- Two slashes, a namespace, a colon and a name: the namespace has no colon and does not end in a slash, the name is
not empty and has no colon. -/
def IsQualified (text : String) : Prop :=
  ∃ scope name : String, text = "//" ++ scope ++ ":" ++ name ∧ ':' ∉ scope.toList ∧
    scope.toList.getLast? ≠ some '/' ∧ name ≠ "" ∧ ':' ∉ name.toList

/-- A name and nothing else: it does not begin with two slashes, is not empty and has neither a colon nor a slash. -/
def IsPlain (text : String) : Prop :=
  ¬ "//".toList <+: text.toList ∧ text ≠ "" ∧ ':' ∉ text.toList ∧ '/' ∉ text.toList

theorem not_isPlain_of_isQualified (h : IsQualified text) : ¬ IsPlain text := by
  obtain ⟨scope, name, rfl, -⟩ := h
  rintro ⟨hstart, -⟩
  exact hstart ⟨(scope ++ ":" ++ name).toList, by simp⟩

theorem isQualified_iff : IsQualified text ↔ ∃ scope name, parse? text = some (.qualified scope name) := by
  simp only [parse?_eq_some_iff]
  constructor
  · rintro ⟨scope, name, htext, hscope, hend, hname, hcolon⟩
    exact ⟨scope, name, .qualified hscope hend hname hcolon, htext⟩
  · rintro ⟨scope, name, ⟨⟩ | ⟨hscope, hend, hname, hcolon⟩, htext⟩
    exact ⟨scope, name, htext, hscope, hend, hname, hcolon⟩

theorem isPlain_iff : IsPlain text ↔ ∃ name, parse? text = some (.plain name) := by
  simp only [parse?_eq_some_iff]
  constructor
  · rintro ⟨-, hname, hcolon, hslash⟩
    exact ⟨text, .plain hname hcolon hslash, rfl⟩
  · rintro ⟨name, ⟨hname, hcolon, hslash⟩, rfl⟩
    -- a name without slashes does not begin with two
    refine ⟨fun hstart => hslash (hstart.subset ?_), hname, hcolon, hslash⟩
    simp

theorem exists_parse?_eq_some_iff :
    (∃ reference, parse? text = some reference) ↔ IsQualified text ∨ IsPlain text := by
  rw [isQualified_iff, isPlain_iff]
  constructor
  · rintro ⟨name | ⟨scope, name⟩, h⟩
    · exact .inr ⟨name, h⟩
    · exact .inl ⟨scope, name, h⟩
  · rintro (⟨scope, name, h⟩ | ⟨name, h⟩)
    · exact ⟨_, h⟩
    · exact ⟨_, h⟩

end Reference

/-! ## Refusing -/

namespace Registry

variable {registry : Registry} {package name text said : String}

/-- The search for a name finds no fault with how it is written. -/
theorem resolvePlain_ne_invalidReference : registry.resolvePlain package name ≠ .error (.invalidReference said) := by
  unfold resolvePlain
  dsimp only
  -- every way to end is a module, or another fault
  generalize (if registry.enclosing package = globalNamespace then none
    else registry.lookup? globalNamespace name) = inGlobal
  split
  · simp
  · split
    · split <;> simp
    · cases inGlobal <;> simp
    · simp

/-- A search refuses a reference for how it is written exactly if the text cannot be read, and then says that text. -/
theorem resolve_eq_invalidReference_iff :
    registry.resolve package text = .error (.invalidReference said) ↔ Reference.parse? text = none ∧ said = text := by
  unfold resolve
  cases hparse : Reference.parse? text with
  | none => simp [eq_comm]
  | some reference =>
    refine iff_of_false (fun h => ?_) (by simp)
    cases reference with
    | plain name => exact resolvePlain_ne_invalidReference h
    | qualified scope name =>
      dsimp only at h
      split at h
      · cases h
      · split at h <;> cases h

end Registry

namespace Reference

/-- **References are read as they are written.** What is read is written as the text was, and is read from that again. A
text is read exactly if it has one of the two forms, as a qualified reference if it has the one and as a plain name if
it has the other; no text has both. A search refuses every other text as it stands, in any registry and for any
package. -/
theorem read_as_written (text : String) :
    (∀ reference, parse? text = some reference →
      reference.render = text ∧ parse? reference.render = some reference) ∧
    ((∃ reference, parse? text = some reference) ↔ IsQualified text ∨ IsPlain text) ∧
    ((∃ scope name, parse? text = some (.qualified scope name)) ↔ IsQualified text) ∧
    ((∃ name, parse? text = some (.plain name)) ↔ IsPlain text) ∧
    ¬ (IsQualified text ∧ IsPlain text) ∧
    ∀ (registry : Registry) (package said : String),
      registry.resolve package text = .error (.invalidReference said) ↔
        ¬ (IsQualified text ∨ IsPlain text) ∧ said = text := by
  refine ⟨fun reference hread => ?_, exists_parse?_eq_some_iff, isQualified_iff.symm, isPlain_iff.symm, ?_, ?_⟩
  · have htext : reference.render = text := (parse?_eq_some_iff.1 hread).2.symm
    exact ⟨htext, htext ▸ hread⟩
  · exact fun h => not_isPlain_of_isQualified h.1 h.2
  · intro registry package said
    rw [Registry.resolve_eq_invalidReference_iff, ← exists_parse?_eq_some_iff, Option.eq_none_iff_forall_ne_some,
      not_exists]

theorem read_slashesInName :
    parse? "//a//b:/c/" = some (.qualified "a//b" "/c/") ∧
    (Reference.qualified "a//b" "/c/").render = "//a//b:/c/" ∧
    parse? (Reference.qualified "a//b" "/c/").render = some (.qualified "a//b" "/c/") ∧
    IsQualified "//a//b:/c/" ∧ ¬ IsPlain "//a//b:/c/" := by
  have hread : parse? "//a//b:/c/" = some (.qualified "a//b" "/c/") := by decide +kernel
  obtain ⟨hwritten, -, hqualified, -, hone, -⟩ := read_as_written "//a//b:/c/"
  obtain ⟨hrender, hagain⟩ := hwritten _ hread
  have hform : IsQualified "//a//b:/c/" := hqualified.1 ⟨_, _, hread⟩
  exact ⟨hread, hrender, hagain, hform, fun hplain => hone ⟨hform, hplain⟩⟩

end Reference
end VariantGraph
