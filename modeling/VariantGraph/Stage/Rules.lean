import VariantGraph.Stage.Basic
/-!
# Stages made of rules

A stage can be put together from rules instead of being programmed: each rule says for which variants
it holds and what is done to them. The actions of all rules that hold are carried out in order; one
that goes wrong is reported, and the next one is carried out all the same.
-/
namespace VariantGraph.Rules

/-- For which variants a rule holds; what is left out always holds. -/
structure Guard where
  /-- The name of the module. -/
  module : Option String
  capability : Option Capability
  /-- An axis and the value on it; no value means that the variant is not split on it. -/
  axis : Option (String × Option String)

/-- What a rule does to a variant. -/
inductive Action where
  | set (path : String) (value : Value)
  | remove (path : String)
  | append (tree : Properties)
  | split (axis : String) (values : List String)
  /-- Sets a property of the new variant with a value. -/
  | setNew (value path : String) (content : Value)
  /-- Selects branches in the properties of the new variant with a value. -/
  | selectNew (value field : String) (keys : List String)
  | depend (request : Request)
  | blameModule (text : String)
  | blameProperty (property text : String)
  /-- Sets a property to one more than the largest number that the targets have there, or to zero. -/
  | height (path : String)

structure Rule where
  guard : Guard
  actions : List Action

def Guard.holds (guard : Guard) (visit : Visit) : Bool :=
  guard.module.all (· = visit.module.name) && guard.capability.all visit.can &&
    guard.axis.all fun (axis, value) => visit.variant.variations.value? axis = value

/-- Asks for a property to be set. -/
def setProperty (visit : Visit) (path : String) (value : Value) : Visit :=
  match visit.properties.set path value with
  | .ok properties => visit.setProperties properties
  | .error cause => visit.report (some cause)

/-- One more than the largest number that the targets of a variant have at a path, or zero. -/
def heightOf (graph : Graph) (id : VariantId) (path : String) : Int :=
  let numbers := (graph.variant id).targets.filterMap fun target =>
    (graph.variant target).properties.getInt? path
  match numbers.max? with
  | some largest => largest + 1
  | none => 0

def Action.perform (visit : Visit) : Action → Visit
  | set path value => setProperty visit path value
  | remove path => visit.setProperties (visit.properties.without path)
  | append tree => visit.change (visit.properties.append tree)
  | split axis values => visit.splitOn axis values
  | setNew value path content =>
    match visit.newProperties? value with
    | none => visit.blame (some path) (.noVariation value)
    | some properties =>
      match properties.set path content with
      | .ok properties => visit.setNewProperties value properties
      | .error cause => visit.report (some cause)
  | selectNew value field keys => visit.selectNew value field keys
  | depend request => visit.depend request
  | blameModule text => visit.blame none (.other text)
  | blameProperty property text => visit.blame (some property) (.other text)
  | height path => setProperty visit path (.int (heightOf visit.graph visit.id path))

def Rule.apply (visit : Visit) (rule : Rule) : Visit :=
  if rule.guard.holds visit then rule.actions.foldl Action.perform visit else visit

end VariantGraph.Rules

/-- The stage that some rules make. -/
def VariantGraph.Stage.ofRules (name : String) (direction : VariantGraph.Direction)
    (rules : List VariantGraph.Rules.Rule) : VariantGraph.Stage :=
  .ofVisit name direction fun visit => rules.foldl VariantGraph.Rules.Rule.apply visit
