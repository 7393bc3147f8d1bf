import TraceWeave.Syntax.Operator
import TraceWeave.Syntax.Grammar.Types

/-!
The grammar of expressions.

Types and expressions share much of their notation.  A name or a qualified name
with bracketed types, applied to one argument, reads as a conversion; applied
to any other number of arguments it reads as a call with type arguments.
Brackets that cannot hold types are an index or a slice.
-/

namespace TraceWeave.Syntax

open TraceWeave.Syntax.Parser

namespace Grammar

/-! ## Names that may be types -/

/-- A name, or a name qualified by a package. -/
def isTypeName (tree : Concrete) : Bool :=
  match tree.kind with
  | .identifier => true
  | .selector => (tree.child? .operand).any (·.kind == .identifier)
  | _ => false

/-- An index that could be type arguments. -/
def isTypeLike : Nat → Concrete → Bool
  | 0, _ => false
  | limit + 1, tree =>
      match tree.kind with
      | .identifier => true
      | .selector => isTypeName tree
      | .unary =>
          tree.children.head?.any (·.isToken "*") && (tree.child? .operand).any (isTypeLike limit)
      | .paren => (tree.named.head?).any (isTypeLike limit)
      | .index =>
          (tree.child? .operand).any isTypeName && (tree.child? .index).any (isTypeLike limit)
      | _ => false

/-- A parenthesised expression that reads as a type with type arguments. -/
def isGenericType : Nat → Concrete → Bool
  | 0, _ => false
  | limit + 1, tree =>
      match tree.kind with
      | .unary =>
          tree.children.head?.any (·.isToken "*") && (tree.child? .operand).any (isGenericType limit)
      | .paren => (tree.named.head?).any (isGenericType limit)
      | .index =>
          (tree.child? .operand).any isTypeName && (tree.child? .index).any (isTypeLike limit)
      | _ => false

/-- An argument list with one argument that is not spread. -/
def isSingle (arguments : Concrete) : Bool :=
  match arguments.named with
  | [argument] => argument.kind != .spreadArgument
  | _ => false

/-! ## Argument lists and literal bodies -/

def exprList (rules : Rules) (ctx : ExprContext) : Parser Concrete := do
  let first ← rules (.expr ctx 1)
  let rest ← many do
    if ← nextIs ctx.breaks "," then
      let comma ← symbol ","
      return [comma, ← rules (.expr ctx 1)]
    else failure
  return .node .exprList (first :: rest.flatten)

def argumentList (rules : Rules) : Parser Concrete := do
  let opening ← symbol "("
  let items ← commaListMaybe do
    let value ← rules (.expr .enclosed 1)
    match ← maybe (symbol "...") with
    | some dots => return .node .spreadArgument [value, dots]
    | none => return value
  return .node .argumentList (opening :: items ++ [← symbol ")"])

/-- The arguments of `new` and `make`: a type, then expressions. -/
def typeFirstArguments (rules : Rules) : Parser Concrete := do
  let opening ← symbol "("
  if ← nextIs false ")" then return .node .argumentList [opening, ← symbol ")"]
  else
    let type ← rules (.type false)
    let values ← many do
      let comma ← symbol ","
      return [comma, ← rules (.expr .enclosed 1)]
    let comma ← maybe (symbol ",")
    return .node .argumentList
      (opening :: type :: values.flatten ++ comma.toList ++ [← symbol ")"])

/-- The rule for the body of a composite literal. -/
def literalValueRule (rules : Rules) : Parser Concrete := do
  let opening ← symbol "\x7b"
  let element : Parser Concrete := do
    if ← nextIs false "\x7b" then rules .literalValue else rules (.expr .enclosed 1)
  let items ← commaListLoose do
    let first ← element
    match ← maybe (symbol ":") with
    | some colon => return .node .other [first, colon, ← element]
    | none => return first
  return .node .literalValue (opening :: items ++ [← symbol "\x7d"])

/-! ## Operands -/

def composite (rules : Rules) (type : Concrete) : Parser Concrete := do
  return .node .composite [type.as .type, (← rules .literalValue).as .body]

/-- A conversion to a type: one operand between parentheses. -/
def conversion (rules : Rules) (type : Concrete) : Parser Concrete := do
  let opening ← symbol "("
  let operand ← rules (.expr .enclosed 1)
  let comma ← maybe (symbol ",")
  return .node .other ([type, opening, operand] ++ comma.toList ++ [← symbol ")"])

/-- An operand that starts with a type that is no name. -/
def typeOperand (rules : Rules) (ctx : ExprContext) (bodies : Bool) : Parser Concrete := do
  let type ← rules (.type false)
  if bodies && (← nextIs ctx.breaks "\x7b") then composite rules type
  else conversion rules type

def sequenceOperand (rules : Rules) (ctx : ExprContext) : Parser Concrete := do
  let inferred : Parser Concrete := do
    let opening ← symbol "["
    let dots ← symbol "..."
    let closing ← symbol "]"
    let element ← rules (.type false)
    composite rules (.node .other [opening, dots, closing, element])
  inferred <|> typeOperand rules ctx true

def funcOperand (rules : Rules) : Parser Concrete := do
  let literal : Parser Concrete := do
    let word ← keyword "func"
    let params ← parameterList rules
    let results ← result rules false
    return .node .funcLit
      (word :: params.as .params :: results ++ [(← rules .block).as .body])
  let converted : Parser Concrete := do
    conversion rules (← functionType rules false)
  let convertedPlain : Parser Concrete := do
    let word ← keyword "func"
    let params ← parameterList rules
    conversion rules (.node .other [word, params])
  literal <|> converted <|> convertedPlain

def parenOperand (rules : Rules) : Parser Concrete := do
  let value : Parser Concrete := do
    let opening ← symbol "("
    let inner ← rules (.expr .enclosed 1)
    return .node .paren [opening, inner, ← symbol ")"]
  let converted : Parser Concrete := do
    let opening ← symbol "("
    let inner ← rules (.type false)
    conversion rules (.node .paren [opening, inner, ← symbol ")"])
  value <|> converted

def operand (rules : Rules) (ctx : ExprContext) : Parser Concrete := do
  match ← upcoming false with
  | none => failure
  | some lexeme =>
      match lexeme.kind, lexeme.text with
      | .literal, _ => return .leaf .literal (← take fun _ => true)
      | .word, "func" => funcOperand rules
      | .word, "struct" => typeOperand rules ctx true
      | .word, "map" => typeOperand rules ctx true
      | .word, "chan" => typeOperand rules ctx false
      | .word, "interface" => typeOperand rules ctx false
      | .word, text =>
          let word ← name
          if (text == "new" || text == "make") && (← nextIs ctx.breaks "(") then
            let arguments ← typeFirstArguments rules
            return .node .call [word.as .callee, arguments.as .args]
          else return word
      | .symbol, "(" => parenOperand rules
      | .symbol, "[" => sequenceOperand rules ctx
      | _, _ => failure

/-! ## What may follow an operand -/

/-- The rest of an index or a slice, behind its opening bracket. -/
def indexRest (rules : Rules) (base opening : Concrete) : Parser Concrete := do
  let value : Parser (Option Concrete) := do
    if (← nextIs false ":") || (← nextIs false "]") then return none
    else some <$> rules (.expr .enclosed 1)
  let first ← value
  match first, ← maybe (symbol "]") with
  | some index, some closing =>
      return .node .index [base.as .operand, opening, index.as .index, closing]
  | _, some _ => failure
  | _, none =>
      let colon ← symbol ":"
      let stop ← value
      let limit ←
        match stop with
        | none => pure []
        | some _ =>
            match ← maybe (symbol ":") with
            | none => pure []
            | some second => pure [second, ← rules (.expr .enclosed 1)]
      return .node .other
        ([base, opening] ++ first.toList ++ [colon] ++ stop.toList ++ limit ++ [← symbol "]"])

/-- Brackets behind an operand: type arguments, an index or a slice. -/
def bracketed (rules : Rules) (ctx : ExprContext) (base : Concrete) : Parser Concrete := do
  let input ← get
  let index : Parser Concrete := do
    let opening ← symbol "["
    indexRest rules base opening
  match ← maybe (typeArguments rules) with
  | none => index
  | some types =>
      if ← nextIs ctx.breaks "(" then
        let arguments ← argumentList rules
        if isTypeName base && isSingle arguments then
          return .node .other [base, types, arguments]
        else
          return .node .call [base.as .callee, types.as .typeArgs, arguments.as .args]
      else if ctx.bodies && isTypeName base && (← nextIs ctx.breaks "\x7b") then
        composite rules (.node .generic [base.as .type, types.as .typeArgs])
      else
        let rest ← get
        set input
        index <|> do
          set rest
          return .node .other [base, types]

/-- The guard `.(type)` comes next. -/
def atGuard : Parser Bool := do
  match (← get).filter (!·.isTrivia) with
  | dot :: opening :: word :: _ =>
      return dot.isSymbol "." && opening.isSymbol "(" && word.isWord "type"
  | _ => return false

/-- A member or a type assertion behind an operand. -/
def dotted (rules : Rules) (base : Concrete) : Parser Concrete := do
  let dot ← symbol "."
  if ← nextIs false "(" then
    let opening ← symbol "("
    let type ← rules (.type false)
    return .node .other [base, dot, opening, type, ← symbol ")"]
  else
    let member ← name
    return .node .selector [base.as .operand, dot, member.as .member]

def called (rules : Rules) (base : Concrete) : Parser Concrete := do
  let arguments ← argumentList rules
  if base.kind == .paren && isGenericType base.height base && isSingle arguments then
    return .node .other [base, arguments]
  else return .node .call [base.as .callee, arguments.as .args]

/-- Extends an operand by everything that binds to it from the right. -/
def suffixes (rules : Rules) (ctx : ExprContext) : Nat → Concrete → Parser Concrete
  | 0, base => pure base
  | limit + 1, base => do
      match ← upcoming ctx.breaks with
      | none => return base
      | some lexeme =>
          if lexeme.isSymbol "." then
            if ctx.guard && (← atGuard) then return base
            else suffixes rules ctx limit (← dotted rules base)
          else if lexeme.isSymbol "(" then suffixes rules ctx limit (← called rules base)
          else if lexeme.isSymbol "[" then suffixes rules ctx limit (← bracketed rules ctx base)
          else if lexeme.isSymbol "\x7b" && ctx.bodies && isTypeName base then
            suffixes rules ctx limit (← composite rules base)
          else return base

/-! ## Operators -/

/-- Takes the next symbol, or only its first character. -/
def takeOperator (whole : Bool) : Parser Concrete := do
  let lexeme ← take (·.kind == .symbol)
  if whole then return (Concrete.token lexeme).as .op
  else
    let (first, rest) := lexeme.split 1
    putBack rest
    return (Concrete.token first).as .op

/-- The rule for unary expressions.  Symbols that cannot start an operand are cut in two. -/
def unaryRule (rules : Rules) (ctx : ExprContext) : Parser Concrete := do
  match ← upcoming false with
  | none => failure
  | some lexeme =>
      let whole := lexeme.kind == .symbol && unaryOperators.contains lexeme.text
      let cut := lexeme.kind == .symbol && ["++", "--", "&&", "&^"].contains lexeme.text
      if whole || cut then
        let op ← takeOperator whole
        return .node .unary [op, (← rules (.unary ctx)).as .operand]
      else
        let base ← operand rules ctx
        suffixes rules ctx (← get).length base

/-- The binary operator at the front of the input, and whether it is the whole symbol. -/
def binaryOperator? (ctx : ExprContext) (lexeme : Lexeme) : Option (String × Bool) :=
  if lexeme.kind != .symbol then none
  else if precedence lexeme.text != 0 then some (lexeme.text, true)
  else if ctx.steps then none
  else
    match lexeme.text with
    | "++" => some ("+", false)
    | "--" => some ("-", false)
    | "<-" => some ("<", false)
    | _ => none

def binaries (rules : Rules) (ctx : ExprContext) (level : Nat) :
    Nat → Concrete → Parser Concrete
  | 0, left => pure left
  | limit + 1, left => do
      match (← upcoming ctx.breaks).bind (binaryOperator? ctx) with
      | none => return left
      | some (text, whole) =>
          if precedence text < level then return left
          else
            let op ← takeOperator whole
            let right ← rules (.expr ctx (precedence text + 1))
            binaries rules ctx level limit
              (.node .binary [left.as .left, op, right.as .right])

/-- The rule for expressions: operators of one level group to the left. -/
def exprRule (rules : Rules) (ctx : ExprContext) (level : Nat) : Parser Concrete := do
  let first ← rules (.unary ctx)
  binaries rules ctx level (← get).length first

end Grammar

end TraceWeave.Syntax
