import TraceWeave.Order.Table

/-!
Facts about the types of an application.

A fact classifies a type by its full name, the import path and the type's name
with a dot between them.  A name is classified once.
-/

namespace TraceWeave.Program

open TraceWeave.Order

inductive Fact where
  /-- Implements a gRPC service and is registered with a server. -/
  | serverHandler
  /-- Embeds a gRPC server stream. -/
  | serverStream
  deriving DecidableEq, Repr

/-- The name of a fact, or of its absence. -/
def Fact.text : Option Fact → String
  | none => "None"
  | some .serverHandler => "ServerHandlerType"
  | some .serverStream => "ServerStreamType"

inductive FactError where
  | noFact (name : String)
  | emptyName
  | duplicate (name : String) (existing new : Option Fact)
  deriving DecidableEq, Repr

def FactError.message : FactError → String
  | .noFact name => "cannot record fact None for " ++ name
  | .emptyName => "cannot record a fact for an empty type name"
  | .duplicate name existing new =>
      name ++ " already has fact " ++ Fact.text existing ++ ", cannot add " ++ Fact.text new

structure Facts where
  table : Table String Fact := {}

namespace Facts

def get? (facts : Facts) (name : String) : Option Fact := facts.table.get? name

def size (facts : Facts) : Nat := facts.table.size

def isEmpty (facts : Facts) : Bool := facts.size == 0

/-- Records a fact for a name that has none. -/
def add (facts : Facts) (name : String) (fact : Option Fact) : Except FactError Facts :=
  if name.isEmpty then .error .emptyName
  else
    match fact with
    | none => .error (.noFact name)
    | some fact =>
        match facts.get? name with
        | some existing => .error (.duplicate name (some existing) (some fact))
        | none => .ok ⟨facts.table.insert name fact⟩

/-- Records a fact unless it is known, and collects the error. -/
def record (fact : Fact) (state : Facts × List FactError) (name : String) :
    Facts × List FactError :=
  let (facts, errors) := state
  if facts.get? name == some fact then (facts, errors)
  else
    match facts.add name (some fact) with
    | .ok facts => (facts, errors)
    | .error error => (facts, errors ++ [error])

end Facts

end TraceWeave.Program
