import VariantGraph.Graph.Id
import VariantGraph.Proofs.Property.Merge
/-!
# Look-ups that may fail

A program that looks things up by number or by name stops where nothing is there. `Found` is the answer of
such a program, or the first thing that it missed. Walks over lists miss nothing when none of their steps
does, and then they come to what they come to without look-ups (`mapM_eq_ok`, `keep_eq_ok`, `foldlM_eq_ok`).
-/
namespace VariantGraph.Checked

/-- What a look-up can miss. -/
inductive Missing where
  | module (id : ModuleId)
  | variant (id : VariantId)
  /-- A module that lists no variant. -/
  | firstVariant (name : String)
  | scope (name : String)
  /-- A module or variant without a node, or a node that stands for none. -/
  | node (id : Nat)
  | degree (node : Nat)
  /-- A graph that has neither waves nor a cycle. -/
  | cycle
  deriving DecidableEq, Repr

/-- An answer, or what was missed on the way to it. -/
abbrev Found := Except Missing

section
variable {α β : Type}

/-- What a look-up gave, which has to be something. -/
def find (missing : Missing) : Option α → Found α
  | some a => .ok a
  | none => .error missing

/-- The members of a list that a test finds good. -/
def keep (test : α → Found Bool) : List α → Found (List α)
  | [] => .ok []
  | a :: rest => do
    let good ← test a
    let kept ← keep test rest
    return if good then a :: kept else kept

theorem mapM_eq_ok {f : α → Found β} {g : α → β} : ∀ {l : List α}, (∀ a ∈ l, f a = .ok (g a)) →
    l.mapM f = .ok (l.map g)
  | [], _ => rfl
  | a :: l, h => by
    rw [List.mapM_cons, h a List.mem_cons_self, ok_bind,
      mapM_eq_ok fun b hb => h b (List.mem_cons_of_mem a hb), ok_bind]
    rfl

theorem keep_eq_ok {test : α → Found Bool} {p : α → Bool} : ∀ {l : List α}, (∀ a ∈ l, test a = .ok (p a)) →
    keep test l = .ok (l.filter p)
  | [], _ => rfl
  | a :: l, h => by
    rw [keep, h a List.mem_cons_self, ok_bind, keep_eq_ok fun b hb => h b (List.mem_cons_of_mem a hb), ok_bind,
      List.filter_cons]
    rfl

/-- What holds between the members to come and what was made of those before goes on to hold. -/
theorem foldlM_eq_ok {step : β → α → Found β} {next : β → α → β} {motive : List α → β → Prop}
    (hstep : ∀ a rest b, motive (a :: rest) b → step b a = .ok (next b a) ∧ motive rest (next b a)) :
    ∀ {l : List α} {b : β}, motive l b → l.foldlM step b = .ok (l.foldl next b)
  | [], _, _ => rfl
  | a :: l, b, h => by
    obtain ⟨hok, hrest⟩ := hstep a l b h
    rw [List.foldlM_cons, hok, ok_bind]
    exact foldlM_eq_ok hstep hrest

end
end VariantGraph.Checked
