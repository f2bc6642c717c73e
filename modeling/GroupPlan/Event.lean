/-! What is reported while a group is planned: each event has a level, a message
and named fields. -/

namespace GroupPlan

inductive Event where
  | started (patterns filters children : Nat)
  | finished (isEmpty : Bool)
  | skippedChild
  | filteredFirstChild
  | foldingWithCondition
  | folded (isOptional : Bool)
deriving DecidableEq

namespace Event

inductive Level where
  | debug
  | trace
deriving DecidableEq

def Level.name : Level → String
  | debug => "DEBUG"
  | trace => "TRACE"

inductive Field where
  | count (value : Nat)
  | flag (value : Bool)
deriving DecidableEq

def level : Event → Level
  | started _ _ _ => .debug
  | finished _ => .debug
  | _ => .trace

def message : Event → String
  | started _ _ _ => "Compiling group"
  | finished _ => "Compiled group"
  | skippedChild => "Skipping empty child group"
  | filteredFirstChild => "Applying filters of the parent group to its first child"
  | foldingWithCondition => "Folding optional child group with a join condition"
  | folded _ => "Folding child group"

def fields : Event → List (String × Field)
  | started patterns filters children =>
    [("patterns", .count patterns), ("filters", .count filters), ("children", .count children)]
  | finished isEmpty => [("empty", .flag isEmpty)]
  | folded isOptional => [("optional", .flag isOptional)]
  | _ => []

end Event

end GroupPlan
