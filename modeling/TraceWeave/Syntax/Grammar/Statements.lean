import TraceWeave.Syntax.Grammar.Expressions

/-!
The grammar of statements, declarations and files.
-/

namespace TraceWeave.Syntax

open TraceWeave.Syntax.Parser

namespace Grammar

/-! ## Declarations -/

/-- Marks the words of a list as names and leaves the commas alone. -/
def asNames (trees : List Concrete) : List Concrete :=
  trees.map fun tree => if tree.isNamed then tree.as .name else tree

/-- An equals sign and the values behind it. -/
def initialValues (rules : Rules) : Parser (List Concrete) := do
  if ← nextIs true "=" then
    let equals ← symbol "="
    return [equals, (← exprList rules .value).as .value]
  else failure

def varSpec (rules : Rules) : Parser Concrete := do
  let names ← commaList name
  let untyped : Parser (List Concrete) := do
    let equals ← symbol "="
    return [equals, (← exprList rules .value).as .value]
  let typed : Parser (List Concrete) := do
    let type ← rules (.type true)
    return type.as .type :: (← maybe (initialValues rules)).getD []
  return .node .varSpec (asNames names ++ (← untyped <|> typed))

/-- In a constant the commas between the names take part in the list of names. -/
def constSpec (rules : Rules) : Parser Concrete := do
  let names ← commaList name
  let typed : Parser (List Concrete) := do
    match ← upcoming true with
    | some lexeme =>
        if lexeme.kind == .breaks then failure
        else
          let type ← rules (.type true)
          return type.as .type :: (← initialValues rules)
    | none => failure
  let rest := (← maybe (initialValues rules <|> typed)).getD []
  return .node .constSpec (names.map (·.as .name) ++ rest)

def typeSpec (rules : Rules) : Parser Concrete := do
  let word ← name
  let params ← maybe (typeParameters rules)
  match ← maybe (symbol "=") with
  | some equals =>
      return .node .typeAlias
        (word.as .name :: params.toList ++ [equals, (← rules (.type true)).as .type])
  | none =>
      return .node .typeSpec (word.as .name :: params.toList ++ [(← rules (.type true)).as .type])

/-- A keyword and one specification, or several between parentheses. -/
def declaration (word : String) (spec : Parser Concrete) : Parser Concrete := do
  let word ← keyword word
  if ← nextIs false "(" then
    let opening ← symbol "("
    let specs ← many do
      let item ← spec
      return item :: (← statementEnd)
    let closing ← symbol ")"
    return .node .declaration [word, .node .specList (opening :: specs.flatten ++ [closing])]
  else return .node .declaration [word, ← spec]

/-! ## Simple statements -/

def simpleStmt (rules : Rules) (ctx : ExprContext) : Parser Concrete := do
  let left ← exprList rules ctx
  let single : Parser Concrete :=
    match left.children with
    | [value] => pure value
    | _ => failure
  match ← upcoming ctx.breaks with
  | none => return .node .exprStmt [← single]
  | some lexeme =>
      if lexeme.isSymbol ":=" then
        let op ← symbol ":="
        let right ← exprList rules ctx.right
        return .node .shortVar [left.as .left, op, right.as .right]
      else if lexeme.isSymbol "=" || compoundAssignments.any lexeme.isSymbol then
        let op ← takeOperator true
        let right ← exprList rules ctx.right
        return .node .assignment [left.as .left, op, right.as .right]
      else if lexeme.isSymbol "++" || lexeme.isSymbol "--" then
        return .node .other [← single, ← takeOperator true]
      else if lexeme.isSymbol "<-" then
        let channel ← single
        let arrow ← symbol "<-"
        return .node .other [channel, arrow, ← rules (.expr ctx.right 1)]
      else return .node .exprStmt [← single]

/-- The expression of an expression statement. -/
def bareExpr (stmt : Concrete) : Parser Concrete :=
  match stmt.kind, stmt.children with
  | .exprStmt, [value] => pure value
  | _, _ => failure

/-! ## Lists of statements -/

/-- A list of statements ends at a closing brace or at the next clause. -/
def atListEnd : Parser Bool := do
  match ← upcoming false with
  | none => return true
  | some lexeme =>
      return lexeme.isSymbol "\x7d" || lexeme.isWord "case" || lexeme.isWord "default"

def stmtList (rules : Rules) : Nat → Parser (List Concrete)
  | 0 => pure []
  | limit + 1 => do
      if ← atListEnd then return []
      else
        let stmt ← rules .stmt
        match ← maybe statementEnd with
        | some ends => return stmt :: ends ++ (← stmtList rules limit)
        | none => if ← atListEnd then return [stmt] else failure

def stmts (rules : Rules) : Parser (List Concrete) := do
  stmtList rules (← get).length

/-- The rule for blocks. -/
def blockRule (rules : Rules) : Parser Concrete := do
  let opening ← symbol "\x7b"
  let body ← stmts rules
  return .node .block (opening :: body ++ [← symbol "\x7d"])

/-! ## Compound statements -/

def ifStmt (rules : Rules) : Parser Concrete := do
  let word ← keyword "if"
  let first ← simpleStmt rules .header
  let header ←
    match ← maybe (symbol ";") with
    | some semicolon =>
        pure [first.as .init, semicolon, (← rules (.expr .header 1)).as .condition]
    | none => pure [(← bareExpr first).as .condition]
  let body ← rules .block
  let alternative ←
    match ← upcoming true with
    | some lexeme =>
        if lexeme.isWord "else" then do
          let word ← keyword "else"
          let stmt ← if ← nextIsWord "if" then rules .stmt else rules .block
          pure [word, stmt.as .alternative]
        else pure []
    | none => pure []
  return .node .ifStmt (word :: header ++ body.as .body :: alternative)

/-- The range clause of a loop behind what it assigns to. -/
def rangeRest (rules : Rules) (left : List Concrete) : Parser Concrete := do
  let word ← keyword "range"
  return .node .rangeClause (left ++ [word, (← rules (.expr .header 1)).as .right])

/-- A range clause that assigns to something. -/
def rangeAssigning (rules : Rules) : Parser Concrete := do
  let left ← exprList rules .header
  let op ← symbol ":=" <|> symbol "="
  rangeRest rules [left.as .left, op]

/-- Initial statement, condition and step of a loop, from the first semicolon on. -/
def loopClausesRest (rules : Rules) (init : List Concrete) : Parser Concrete := do
  let first ← symbol ";"
  let condition ←
    if ← nextIs false ";" then pure [] else pure [← rules (.expr .header 1)]
  let second ← symbol ";"
  let update ←
    if ← nextIs false "\x7b" then pure [] else pure [← simpleStmt rules .header]
  return .node .loopClauses (init ++ [first] ++ condition ++ [second] ++ update)

def forHeader (rules : Rules) : Parser (List Concrete) := do
  if ← nextIs false "\x7b" then return []
  else if ← nextIsWord "range" then return [← rangeRest rules []]
  else if ← nextIs false ";" then return [← loopClausesRest rules []]
  else
    let clauses : Parser (List Concrete) := do
      let first ← simpleStmt rules .header
      if ← nextIs false ";" then return [← loopClausesRest rules [first]]
      else return [← bareExpr first]
    (List.singleton <$> rangeAssigning rules) <|> clauses

def forStmt (rules : Rules) : Parser Concrete := do
  let word ← keyword "for"
  let header ← forHeader rules
  return .node .forStmt (word :: header ++ [(← rules .block).as .body])

/-! ## Switches -/

/-- A clause: what stands in front of its colon, the colon and the statements behind it. -/
def clause (rules : Rules) (cases : Parser (List Concrete)) : Parser Concrete := do
  let head ←
    if ← nextIsWord "default" then List.singleton <$> keyword "default"
    else do
      let word ← keyword "case"
      pure (word :: (← cases))
  let colon ← symbol ":"
  return .node .clause (head ++ colon :: (← stmts rules))

def clauses (rules : Rules) (cases : Parser (List Concrete)) : Parser (List Concrete) := do
  let opening ← symbol "\x7b"
  let items ← many (clause rules cases)
  return opening :: items ++ [← symbol "\x7d"]

def guardTokens : Parser (List Concrete) := do
  let dot ← symbol "."
  let opening ← symbol "("
  let word ← keyword "type"
  return [dot, opening, word, ← symbol ")"]

/-- The parts of a type switch guard that stand in front of `.(type)`. -/
def guardSubject (stmt : Concrete) : Parser (List Concrete) :=
  match stmt.kind, stmt.children with
  | .exprStmt, [value] => pure [value]
  | .shortVar, [left, op, right] =>
      match right.children with
      | [value] => pure [left, op, value]
      | _ => failure
  | _, _ => failure

/-- The header of a switch, and whether its clauses list types. -/
def switchHeader (rules : Rules) : Parser (List Concrete × Bool) := do
  if ← nextIs false "\x7b" then return ([], false)
  else
    let first ← simpleStmt rules .switchHeader
    if ← atGuard then return ((← guardSubject first) ++ (← guardTokens), true)
    else
      match ← maybe (symbol ";") with
      | none => return ([← bareExpr first], false)
      | some semicolon =>
          if ← nextIs false "\x7b" then return ([first, semicolon], false)
          else
            let second ← simpleStmt rules .switchHeader
            if ← atGuard then
              return (first :: semicolon :: (← guardSubject second) ++ (← guardTokens), true)
            else return ([first, semicolon, ← bareExpr second], false)

def switchStmt (rules : Rules) : Parser Concrete := do
  let word ← keyword "switch"
  let (header, overTypes) ← switchHeader rules
  let cases : Parser (List Concrete) :=
    if overTypes then commaList (rules (.type false))
    else List.singleton <$> exprList rules .enclosed
  return .node .switchStmt (word :: header ++ (← clauses rules cases))

/-- A send or a receive operation. -/
def communication (rules : Rules) : Parser (List Concrete) := do
  let left ← exprList rules .communication
  match ← upcoming false with
  | none => failure
  | some lexeme =>
      if lexeme.isSymbol ":=" || lexeme.isSymbol "=" then
        let op ← takeOperator true
        return [.node .other [left, op, ← rules (.expr .enclosed 1)]]
      else
        match left.children with
        | [value] =>
            if lexeme.isSymbol "<-" then
              let arrow ← symbol "<-"
              return [.node .other [value, arrow, ← rules (.expr .enclosed 1)]]
            else return [.node .other [value]]
        | _ => failure

def selectStmt (rules : Rules) : Parser Concrete := do
  let word ← keyword "select"
  return .node .selectStmt (word :: (← clauses rules (communication rules)))

/-! ## Statements -/

def returnStmt (rules : Rules) : Parser Concrete := do
  let word ← keyword "return"
  match ← upcoming true with
  | none => return .node .returnStmt [word]
  | some lexeme =>
      if lexeme.kind == .breaks || lexeme.isSymbol ";" || lexeme.isSymbol "\x7d" then
        return .node .returnStmt [word]
      else return .node .returnStmt [word, ← exprList rules .value]

/-- A jump with a label that may be missing. -/
def jump (word : String) : Parser Concrete := do
  let word ← keyword word
  match ← upcoming true with
  | some lexeme =>
      if lexeme.kind == .word then return .node .other [word, ← name]
      else return .node .other [word]
  | none => return .node .other [word]

/-- A label; only at the end of a list between braces may its statement be missing. -/
def labeled (rules : Rules) : Parser Concrete := do
  let label ← name
  let colon ← symbol ":"
  if (← upcoming false).isSome && (← atListEnd) then
    return .node .labeled [label.as .label, colon]
  else return .node .labeled [label.as .label, colon, ← rules .stmt]

/-- The rule for statements. -/
def stmtRule (rules : Rules) : Parser Concrete := do
  match ← upcoming false with
  | none => failure
  | some lexeme =>
      match lexeme.kind, lexeme.text with
      | .word, "var" => declaration "var" (varSpec rules)
      | .word, "const" => declaration "const" (constSpec rules)
      | .word, "type" => declaration "type" (typeSpec rules)
      | .word, "return" => returnStmt rules
      | .word, "go" =>
          let word ← keyword "go"
          return .node .spawnStmt [word, ← rules (.expr .value 1)]
      | .word, "defer" =>
          let word ← keyword "defer"
          return .node .deferStmt [word, ← rules (.expr .value 1)]
      | .word, "if" => ifStmt rules
      | .word, "for" => forStmt rules
      | .word, "switch" => switchStmt rules
      | .word, "select" => selectStmt rules
      | .word, "fallthrough" => return .node .other [← keyword "fallthrough"]
      | .word, "break" => jump "break"
      | .word, "continue" => jump "continue"
      | .word, "goto" =>
          let word ← keyword "goto"
          return .node .other [word, ← name]
      | .word, _ =>
          if (← second?).any (·.isSymbol ":") then labeled rules
          else simpleStmt rules .statement
      | .symbol, "\x7b" => rules .block
      | .symbol, ";" => return .node .emptyStmt [← symbol ";"]
      | _, _ => simpleStmt rules .statement

/-! ## Files -/

def importSpec : Parser Concrete := do
  let name ← maybe (symbol "." <|> name)
  return .node .importSpec
    ((name.map (·.as .name)).toList ++ [(← stringLiteral).as .path])

def importDecl : Parser Concrete := do
  let word ← keyword "import"
  if ← nextIs false "(" then
    let opening ← symbol "("
    match ← maybe importSpec with
    | none =>
        return .node .importDecl [word, .node .importSpecList [opening, ← symbol ")"]]
    | some first =>
        let rest ← many do
          let ends ← statementEnd
          return ends ++ [← importSpec]
        let ends := (← maybe statementEnd).getD []
        let closing ← symbol ")"
        return .node .importDecl
          [word, .node .importSpecList (opening :: first :: rest.flatten ++ ends ++ [closing])]
  else return .node .importDecl [word, ← importSpec]

/-- A function or a method; methods have no type parameters. -/
def funcDecl (rules : Rules) : Parser Concrete := do
  let word ← keyword "func"
  let receiver ←
    if ← nextIs false "(" then pure [(← parameterList rules).as .receiver] else pure []
  let name ← name
  let typeParams ←
    if receiver.isEmpty && (← nextIs false "[") then
      pure [(← typeParameters rules).as .typeParams]
    else pure []
  let params ← parameterList rules
  let results ← result rules true
  let body ←
    if ← nextIs true "\x7b" then pure [(← rules .block).as .body] else pure []
  return .node .funcDecl
    (word :: receiver ++ name.as .name :: typeParams ++ params.as .params :: results ++ body)

def packageClause : Parser Concrete := do
  let word ← keyword "package"
  return .node .packageClause [word, ← name]

def fileItem (rules : Rules) : Parser Concrete := do
  if ← nextIsWord "package" then packageClause
  else if ← nextIsWord "import" then importDecl
  else if ← nextIsWord "func" then funcDecl rules <|> rules .stmt
  else rules .stmt

def fileItems (rules : Rules) : Nat → Parser (List Concrete)
  | 0 => failure
  | limit + 1 => do
      match ← upcoming false with
      | none => return []
      | some _ =>
          let item ← fileItem rules
          let ends ← statementEnd
          return item :: ends ++ (← fileItems rules limit)

/-! ## Tying the rules together -/

def rule (rules : Rules) : Goal → Parser Concrete
  | .expr ctx level => exprRule rules ctx level
  | .unary ctx => unaryRule rules ctx
  | .type breaks => typeRule rules breaks
  | .literalValue => literalValueRule rules
  | .block => blockRule rules
  | .stmt => stmtRule rules

/-- Reads a goal with rules nested at most so deep. -/
def read : Nat → Rules
  | 0, _ => failure
  | depth + 1, goal => rule (read depth) goal

/--
The concrete tree of a source text.  At most three rules apply between two
lexemes, so the number of lexemes bounds the nesting of rules.
-/
def file? (cs : List Char) : Option Concrete := do
  let lexemes ← scan? cs
  let (items, rest) ← (fileItems (read (4 * lexemes.length + 4)) (lexemes.length + 1)).run lexemes
  if rest.all Lexeme.isTrivia then
    let comments := (lexemes.filter (·.kind == .comment)).map (Concrete.leaf .comment)
    return (Concrete.node .file items).place comments
  else failure

end Grammar

end TraceWeave.Syntax
