import TraceWeave.Syntax.Grammar.Basic

/-!
The grammar of types, parameter lists and type parameters.
-/

namespace TraceWeave.Syntax

open TraceWeave.Syntax.Parser

namespace Grammar

/-- Words that start a type and are no type names. -/
def typeKeywords : List String := ["func", "struct", "interface", "map", "chan"]

/-- One or more types joined by bars. -/
def typeElem (rules : Rules) (breaks : Bool) : Parser Concrete := do
  let first ← rules (.type breaks)
  let rest ← many do
    if ← nextIs breaks "|" then
      let bar ← symbol "|"
      return [bar, ← rules (.type breaks)]
    else failure
  return .node .typeElem (first :: rest.flatten)

/-- Type arguments, from the opening to the closing bracket. -/
def typeArguments (rules : Rules) : Parser Concrete := do
  let opening ← symbol "["
  let items ← commaListOpen (typeElem rules false)
  return .node .typeArguments (opening :: items ++ [← symbol "]"])

/-! ## Parameters -/

/-- One entry between the commas of a parameter list. -/
inductive ParameterEntry where
  /-- A word alone: a type, or a name whose type comes later in the list. -/
  | word (word : Concrete)
  | named (name type : Concrete)
  | unnamed (type : Concrete)
  | variadic (parts : List Concrete)

def parameterEntry (rules : Rules) : Parser ParameterEntry := do
  let spread : Parser ParameterEntry := do
    let name ← maybe name
    let dots ← symbol "..."
    let type ← rules (.type false)
    return .variadic ((name.map (·.as .name)).toList ++ [dots, type.as .type])
  let named : Parser ParameterEntry := do
    match ← upcoming false with
    | some lexeme =>
        if typeKeywords.contains lexeme.text then failure
        else
          let name ← name
          return .named (name.as .name) ((← rules (.type false)).as .type)
    | none => failure
  let unnamed : Parser ParameterEntry := do
    let type ← rules (.type false)
    if type.kind == .identifier then return .word type else return .unnamed (type.as .type)
  spread <|> named <|> unnamed

/--
Groups the entries of a parameter list, each with the comma behind it.  Words in
front of a named entry are further names of that entry.
-/
def groupParameters : List Concrete → List (ParameterEntry × List Concrete) → List Concrete
  | words, [] => alone words
  | words, (.word word, comma) :: rest => groupParameters (words ++ word :: comma) rest
  | words, (.named name type, comma) :: rest =>
      let names := words.map fun tree => if tree.isNamed then tree.as .name else tree
      .node .parameter (names ++ [name, type]) :: comma ++ groupParameters [] rest
  | words, (.unnamed type, comma) :: rest =>
      alone words ++ .node .parameter [type] :: comma ++ groupParameters [] rest
  | words, (.variadic parts, comma) :: rest =>
      alone words ++ .node .variadicParameter parts :: comma ++ groupParameters [] rest
where
  /-- Words that turned out to be types. -/
  alone (words : List Concrete) : List Concrete :=
    words.map fun tree => if tree.isNamed then .node .parameter [tree.as .type] else tree

/-- A comma may stand for no parameters at all. -/
def parameterList (rules : Rules) : Parser Concrete := do
  let opening ← symbol "("
  let entries ← many do
    let entry ← parameterEntry rules
    match ← maybe (symbol ",") with
    | some comma => return (entry, [comma])
    | none =>
        if ← nextIs false ")" then return (entry, []) else failure
  let comma ← if entries.isEmpty then maybe (symbol ",") else pure none
  return .node .parameterList
    (opening :: groupParameters [] entries ++ comma.toList ++ [← symbol ")"])

/-- The result of a function: a parameter list, a type, or nothing. -/
def result (rules : Rules) (breaks : Bool) : Parser (List Concrete) := do
  if ← nextIs breaks "(" then return [(← parameterList rules).as .result]
  else
    match ← upcoming breaks with
    | some lexeme =>
        if lexeme.kind == .breaks then return []
        else return ((← maybe (rules (.type breaks))).map (·.as .result)).toList
    | none => return []

/-- Type parameters, from the opening to the closing bracket. -/
def typeParameters (rules : Rules) : Parser Concrete := do
  let opening ← symbol "["
  let items ← commaListOpen do
    let names ← commaList name
    return .node .other (names ++ [← typeElem rules false])
  return .node .other (opening :: items ++ [← symbol "]"])

/-! ## Structures and interfaces -/

/-- A type name, with its package and type arguments if it has any. -/
def typeName (rules : Rules) (breaks : Bool) : Parser Concrete := do
  let first ← name
  let base ←
    if ← nextIs breaks "." then do
      let dot ← symbol "."
      let member ← name
      pure (Concrete.node .selector [first.as .operand, dot, member.as .member])
    else pure first
  if ← nextIs breaks "[" then
    (do let arguments ← typeArguments rules
        return Concrete.node .generic [base.as .type, arguments.as .typeArgs]) <|> pure base
  else return base

/-- Items between braces that end like statements; the last end may be missing. -/
def bracedItems (item : Parser Concrete) : Parser (List Concrete) := do
  let opening ← symbol "\x7b"
  let first ← maybe item
  match first with
  | none => return [opening, ← symbol "\x7d"]
  | some first =>
      let rest ← many do
        let ends ← statementEnd
        return ends ++ [← item]
      let ends := (← maybe statementEnd).getD []
      return opening :: first :: rest.flatten ++ ends ++ [← symbol "\x7d"]

def fieldDecl (rules : Rules) : Parser Concrete := do
  let embeddedPointer : Parser (List Concrete) := do
    let star ← symbol "*"
    return [star, (← typeName rules true).as .type]
  let namedFields : Parser (List Concrete) := do
    let names ← commaList name
    let type ← rules (.type true)
    return names.map (fun tree => if tree.isNamed then tree.as .name else tree) ++ [type.as .type]
  let embedded : Parser (List Concrete) := return [(← typeName rules true).as .type]
  let parts ← embeddedPointer <|> sameLine namedFields <|> embedded
  let tag ←
    match ← upcoming true with
    | some lexeme => if lexeme.kind == .literal then maybe stringLiteral else pure none
    | none => pure none
  return .node .fieldDecl (parts ++ tag.toList)
where
  /-- A field name is followed by a comma or a type on its own line. -/
  sameLine (parser : Parser (List Concrete)) : Parser (List Concrete) := do
    let input ← get
    let word ← name
    match ← upcoming true with
    | some lexeme =>
        if word.kind == .identifier && lexeme.kind != .breaks then
          set input
          parser
        else failure
    | none => failure

def interfaceElem (rules : Rules) : Parser Concrete := do
  let method : Parser Concrete := do
    let name ← name
    if ← nextIs true "(" then
      let params ← parameterList rules
      return .node .methodElem ([name.as .name, params.as .params] ++ (← result rules true))
    else failure
  method <|> typeElem rules true

/-! ## Types -/

def functionType (rules : Rules) (breaks : Bool) : Parser Concrete := do
  let word ← keyword "func"
  let params ← parameterList rules
  return .node .other (word :: params :: (← result rules breaks))

def channelType (rules : Rules) (breaks : Bool) : Parser Concrete := do
  if ← nextIs false "<-" then
    let arrow ← symbol "<-"
    let word ← keyword "chan"
    return .node .other [arrow, word, ← rules (.type breaks)]
  else
    let word ← keyword "chan"
    let arrow ← maybe (symbol "<-")
    return .node .other (word :: arrow.toList ++ [← rules (.type breaks)])

/-- A slice type or an array type. -/
def sequenceType (rules : Rules) (breaks : Bool) : Parser Concrete := do
  let opening ← symbol "["
  let length ←
    if ← nextIs false "]" then pure none
    else some <$> rules (.expr .enclosed 1)
  let closing ← symbol "]"
  let element ← afterBracket (rules (.type breaks))
  return .node .other (opening :: length.toList ++ [closing, element])
where
  /-- The element type of an array starts on the line of the bracket where breaks count. -/
  afterBracket (parser : Parser Concrete) : Parser Concrete := do
    match ← upcoming breaks with
    | some lexeme => if lexeme.kind == .breaks then failure else parser
    | none => failure

def mapType (rules : Rules) (breaks : Bool) : Parser Concrete := do
  let word ← keyword "map"
  let opening ← symbol "["
  let key ← rules (.type false)
  let closing ← symbol "]"
  return .node .other [word, opening, key, closing, ← rules (.type breaks)]

def structType (rules : Rules) : Parser Concrete := do
  let word ← keyword "struct"
  let fields ← bracedItems (fieldDecl rules)
  return .node .structType [word, .node .fieldDeclList fields]

def interfaceType (rules : Rules) : Parser Concrete := do
  let word ← keyword "interface"
  return .node .interfaceType (word :: (← bracedItems (interfaceElem rules)))

/-- The rule for types. -/
def typeRule (rules : Rules) (breaks : Bool) : Parser Concrete := do
  match ← upcoming false with
  | none => failure
  | some lexeme =>
      match lexeme.kind, lexeme.text with
      | .word, "func" => functionType rules breaks
      | .word, "struct" => structType rules
      | .word, "interface" => interfaceType rules
      | .word, "map" => mapType rules breaks
      | .word, "chan" => channelType rules breaks
      | .word, _ => typeName rules breaks
      | .symbol, "<-" => channelType rules breaks
      | .symbol, "[" => sequenceType rules breaks
      | .symbol, "*" =>
          let star ← symbol "*"
          return .node .pointer [star, ← rules (.type breaks)]
      | .symbol, "~" =>
          let tilde ← symbol "~"
          return .node .other [tilde, ← rules (.type breaks)]
      | .symbol, "(" =>
          let opening ← symbol "("
          let inner ← rules (.type false)
          return .node .paren [opening, inner, ← symbol ")"]
      | _, _ => failure

end Grammar

end TraceWeave.Syntax
