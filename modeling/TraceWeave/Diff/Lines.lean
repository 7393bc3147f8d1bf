/-!
Lines of a text, each with the line break that ends it.
-/

namespace TraceWeave.Diff

def isBreak (c : Char) : Bool := c == '\n' || c == '\r'

/-- Splits behind every line feed and behind every carriage return that no line feed follows. -/
def linesFrom : (line : List Char) → List Char → List String
  | line, [] => if line.isEmpty then [] else [String.ofList line.reverse]
  | line, '\r' :: '\n' :: cs => String.ofList ('\n' :: '\r' :: line).reverse :: linesFrom [] cs
  | line, c :: cs =>
      if isBreak c then String.ofList (c :: line).reverse :: linesFrom [] cs
      else linesFrom (c :: line) cs

def lines (text : String) : List String := linesFrom [] text.toList

/-- The line ends with a line break. -/
def endsLine (line : String) : Bool := line.endsWith isBreak

end TraceWeave.Diff
