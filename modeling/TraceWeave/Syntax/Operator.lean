/-!
The operators of Go and how tightly they bind.
-/

namespace TraceWeave.Syntax

/-- The five levels of the binary operators, and zero for everything else. -/
def precedence (op : String) : Nat :=
  if op == "||" then 1
  else if op == "&&" then 2
  else if ["==", "!=", "<", "<=", ">", ">="].contains op then 3
  else if ["+", "-", "|", "^"].contains op then 4
  else if ["*", "/", "%", "<<", ">>", "&", "&^"].contains op then 5
  else 0

def unaryOperators : List String := ["+", "-", "!", "^", "*", "&", "<-"]

/-- Assignment with an operator in front of the equals sign. -/
def compoundAssignments : List String :=
  ["*=", "/=", "%=", "<<=", ">>=", "&=", "&^=", "+=", "-=", "|=", "^="]

end TraceWeave.Syntax
