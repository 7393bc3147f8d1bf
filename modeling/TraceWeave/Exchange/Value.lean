/-!
Plain values, by which trees are handed to other tools.
-/

namespace TraceWeave.Exchange

inductive Value where
  | null
  | bool (value : Bool)
  | number (value : Nat)
  | text (value : String)
  | list (items : List Value)
  | record (fields : List (String × Value))

instance : Inhabited Value := ⟨.null⟩

namespace Value

/-! ## Writing -/

/-- Says nothing: what is false, absent or an empty list. -/
def isVoid : Value → Bool
  | .null => true
  | .bool value => !value
  | .list items => items.isEmpty
  | _ => false

/-- A record without the fields that say nothing. -/
def ofFields (fields : List (String × Value)) : Value := .record (fields.filter (!·.2.isVoid))

def ofTexts (texts : List String) : Value := .list (texts.map .text)

def ofText? (value : Option String) : Value := (value.map Value.text).getD .null

/-! ## Reading -/

/-- A field that says something. -/
def field? (value : Value) (key : String) : Option Value :=
  match value with
  | .record fields =>
      match fields.lookup key with
      | some .null => none
      | field => field
  | _ => none

def field (value : Value) (key : String) : Value := (value.field? key).getD .null

def asText? : Value → Option String
  | .text value => some value
  | _ => none

def asBool? : Value → Option Bool
  | .bool value => some value
  | _ => none

def asList : Value → List Value
  | .list items => items
  | _ => []

def textAt? (value : Value) (key : String) : Option String := (value.field? key).bind asText?

def textAt (value : Value) (key : String) : String := (value.textAt? key).getD ""

def flagAt (value : Value) (key : String) : Bool :=
  ((value.field? key).bind asBool?).getD false

def listAt (value : Value) (key : String) : List Value := (value.field key).asList

def textsAt (value : Value) (key : String) : List String := (value.listAt key).filterMap asText?

/-! ## Nesting -/

mutual

def depth : Value → Nat
  | .list items => depthOfItems items + 1
  | .record fields => depthOfFields fields + 1
  | _ => 1

def depthOfItems : List Value → Nat
  | [] => 0
  | item :: items => max item.depth (depthOfItems items)

def depthOfFields : List (String × Value) → Nat
  | [] => 0
  | (_, value) :: fields => max value.depth (depthOfFields fields)

end

end Value

end TraceWeave.Exchange
