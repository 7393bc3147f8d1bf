import TraceWeave.Syntax.Concrete

/-!
Reading lexemes.

A `Parser` takes lexemes from the front of the input or fails without a
message: only the fact that a text is not a Go file is ever reported.  Rules
refer to each other through a function on `Goal`, which `Grammar.read` ties
together.

A line break is an ordinary blank wherever the input cannot end a statement, so
every look at the next lexeme says whether line breaks count.
-/

namespace TraceWeave.Syntax

abbrev Parser := StateT (List Lexeme) Option

/-! ## How an expression may end and go on -/

structure ExprContext where
  /-- A line break ends the expression. -/
  breaks : Bool
  /-- A type name may be followed by the body of a composite literal. -/
  bodies : Bool
  /-- The symbols `++`, `--` and `<-` may follow the expression. -/
  steps : Bool
  /-- The guard `.(type)` may follow the expression. -/
  guard : Bool
  deriving DecidableEq, Repr, Inhabited

namespace ExprContext

/-- Between brackets. -/
def enclosed : ExprContext := { breaks := false, bodies := true, steps := false, guard := false }

/-- A value at the end of a statement. -/
def value : ExprContext := { breaks := true, bodies := true, steps := false, guard := false }

/-- The start of a statement. -/
def statement : ExprContext := { breaks := true, bodies := true, steps := true, guard := false }

/-- The header of a conditional or a loop. -/
def header : ExprContext := { breaks := false, bodies := false, steps := true, guard := false }

/-- The header of a switch. -/
def switchHeader : ExprContext := { header with guard := true }

/-- The operation of a clause of a select statement. -/
def communication : ExprContext := { enclosed with steps := true }

/-- The right-hand side of a statement that starts in the context. -/
def right (ctx : ExprContext) : ExprContext := { ctx with steps := false }

end ExprContext

/-- What a rule may ask for. -/
inductive Goal where
  /-- An expression whose operators bind at least as tightly as given. -/
  | expr (ctx : ExprContext) (precedence : Nat)
  | unary (ctx : ExprContext)
  | type (breaks : Bool)
  | literalValue
  | block
  | stmt
  deriving Repr, Inhabited

abbrev Rules := Goal → Parser Concrete

namespace Parser

/-- The next lexeme; a line break counts only where `breaks` says so. -/
def upcoming (breaks : Bool) : Parser (Option Lexeme) := do
  let input ← get
  if breaks then return (input.dropWhile (·.kind == .comment)).head?
  else return (input.dropWhile Lexeme.isTrivia).head?

/-- Takes the next lexeme if it passes the test; comments and line breaks are skipped. -/
def take (test : Lexeme → Bool) : Parser Lexeme := do
  match (← get).dropWhile Lexeme.isTrivia with
  | lexeme :: rest =>
      if test lexeme then
        set rest
        return lexeme
      else failure
  | [] => failure

def symbol (text : String) : Parser Concrete :=
  return Concrete.token (← take (·.isSymbol text))

def keyword (text : String) : Parser Concrete :=
  return Concrete.token (← take (·.isWord text))

/-- Takes any word as a name.  Keywords are names wherever they mean nothing else. -/
def name : Parser Concrete :=
  return Concrete.leaf .identifier (← take (·.kind == .word))

def stringLiteral : Parser Concrete :=
  return Concrete.leaf .literal (← take fun lexeme =>
    lexeme.kind == .literal && (lexeme.text.startsWith "\"" || lexeme.text.startsWith "\x60"))

def nextIs (breaks : Bool) (text : String) : Parser Bool :=
  return (← upcoming breaks).any (·.isSymbol text)

def nextIsWord (text : String) : Parser Bool :=
  return (← upcoming false).any (·.isWord text)

/-- The lexeme after the next one. -/
def second? : Parser (Option Lexeme) := do
  let rest := ((← get).dropWhile Lexeme.isTrivia).drop 1
  return (rest.dropWhile Lexeme.isTrivia).head?

/-- Puts a lexeme back in front of the input. -/
def putBack (lexeme : Lexeme) : Parser Unit := modify (lexeme :: ·)

def maybe {α : Type} (parser : Parser α) : Parser (Option α) :=
  (some <$> parser) <|> pure none

/-- Repeats a parser until it fails; every success takes part of the input. -/
def repeated {α : Type} (parser : Parser α) : Nat → Parser (List α)
  | 0 => pure []
  | limit + 1 => do
      match ← maybe parser with
      | none => pure []
      | some item => return item :: (← repeated parser limit)

def many {α : Type} (parser : Parser α) : Parser (List α) := do
  repeated parser (← get).length

/-- One or more items with commas between them; the commas stay in the list. -/
def commaList (item : Parser Concrete) : Parser (List Concrete) := do
  let first ← item
  let rest ← many do
    let comma ← symbol ","
    return [comma, ← item]
  return first :: rest.flatten

/-- Like `commaList`, with an optional comma at the end. -/
def commaListOpen (item : Parser Concrete) : Parser (List Concrete) := do
  let items ← commaList item
  match ← maybe (symbol ",") with
  | some comma => return items ++ [comma]
  | none => return items

/-- No items, or a list with an optional comma at the end. -/
def commaListMaybe (item : Parser Concrete) : Parser (List Concrete) :=
  return (← maybe (commaListOpen item)).getD []

/-- Like `commaListMaybe`, where a comma may stand for no items at all. -/
def commaListLoose (item : Parser Concrete) : Parser (List Concrete) := do
  match ← commaListMaybe item with
  | [] => return (← maybe (symbol ",")).toList
  | items => return items

/--
Takes the end of a statement: a run of line breaks, a semicolon, or the end of
the input, which leaves no lexeme.
-/
def statementEnd : Parser (List Concrete) := do
  match (← get).dropWhile (·.kind == .comment) with
  | [] =>
      set ([] : List Lexeme)
      return []
  | lexeme :: rest =>
      if lexeme.kind == .breaks || lexeme.isSymbol ";" || lexeme.isSymbol "\x00" then
        set rest
        return [Concrete.token lexeme]
      else failure

end Parser

end TraceWeave.Syntax
