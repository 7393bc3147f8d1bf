import TraceWeave.Syntax.Attach
import TraceWeave.Syntax.File
import TraceWeave.Syntax.Grammar.Statements

/-!
Reading source files into decorated trees.

Every name that is read gets a number of its own.  A node is kept verbatim when
a comment stands in it at a place that the decorated tree has no room for.
-/

namespace TraceWeave.Syntax

open TraceWeave.Text

/-- The state is the number of the next identifier. -/
abbrev Numbered := StateM Nat

/-! ## String literals -/

namespace Quoted

/-- Replaces a two-character sequence from left to right. -/
def replacePair (first second replacement : Char) : List Char → List Char
  | a :: b :: rest =>
      if a == first && b == second then replacement :: replacePair first second replacement rest
      else a :: replacePair first second replacement (b :: rest)
  | cs => cs

/-- What stands between two marks, if the text starts and ends with the mark. -/
def between? (mark : Char) : List Char → Option (List Char)
  | [] => none
  | c :: rest =>
      if c == mark && rest.getLast? == some mark then some rest.dropLast else none

end Quoted

/--
The contents of a string literal.  Escaped quotes are undone first and escaped
backslashes after them; other escapes stay as they are.
-/
def unquote (literal : String) : String :=
  let trimmed := (trim literal).toList
  let inner :=
    match Quoted.between? '\x22' trimmed with
    | some inner => inner
    | none => (Quoted.between? '\x60' trimmed).getD trimmed
  String.ofList
    (Quoted.replacePair '\\' '\\' '\\' (Quoted.replacePair '\\' '\x22' '\x22' inner))

namespace Reading

/-- Readers of the nodes below the one at hand. -/
structure Below where
  expr : Concrete → Numbered Expr
  stmt : Concrete → Numbered StmtKind
  block : Concrete → Numbered Block

section

variable (source : Source) (below : Below)

def ident (tree : Concrete) : Numbered Ident := do
  let id ← get
  set (id + 1)
  return { name := source.text tree, id }

def verbatim (tree : Concrete) : Expr := { kind := .verbatim (source.text tree) }

/-! ## Parameters and results -/

/-- The parameters of a list; comments behind the last one trail it. -/
def fieldList (tree : Concrete) : Numbered FieldList := do
  let attached := attach source tree.span.startRow tree.named
  let entries := attached.items.filter fun (item, _) =>
    item.kind == .parameter || item.kind == .variadicParameter
  let fields ← entries.mapM fun (item, decs) => do
    let names ← (item.withRole .name).mapM (ident source)
    let type ←
      match item.child? .type with
      | some type => below.expr type
      | none => pure (verbatim source item)
    return { names, type, variadic := item.kind == .variadicParameter, decs : Field }
  let lastRow := (entries.getLast?.map (·.1.span.stopRow)).getD tree.span.startRow
  let closesLine := !fields.isEmpty && tree.span.stopRow > lastRow
  match fields.reverse with
  | [] => return { fields := [], closesLine }
  | last :: front =>
      let decs := { last.decs with trail := last.decs.trail ++ attached.trailing }
      return { fields := front.reverse ++ [{ last with decs }], closesLine }

def results (tree : Concrete) : Numbered Results := do
  let types ←
    if tree.kind == .parameterList then do
      let list ← fieldList source below tree
      pure (list.fields.flatMap fun field =>
        List.replicate (max field.names.length 1) field.type)
    else pure [← below.expr tree]
  return { text := source.text tree, types }

/-- The parameters, results and body that a function node may have. -/
def paramsOf (tree : Concrete) : Numbered FieldList :=
  match tree.child? .params with
  | some params => fieldList source below params
  | none => return {}

def resultsOf (tree : Concrete) : Numbered (Option Results) :=
  match tree.child? .result with
  | some result => some <$> results source below result
  | none => return none

/-! ## Expressions -/

def exprList (tree : Concrete) : Numbered (List Expr) :=
  if tree.kind == .exprList then
    (tree.named.filter (!·.isComment)).mapM below.expr
  else return [← below.expr tree]

def exprListIn (tree : Concrete) (role : Role) : Numbered (List Expr) :=
  match tree.child? role with
  | some list => exprList below list
  | none => return []

/-- The type arguments of a type, with the alternatives of each one in a row. -/
def typeArguments (tree : Concrete) : Numbered (List Expr) := do
  let arguments := tree.named.flatMap fun argument =>
    if argument.kind == .typeElem then argument.named else [argument]
  arguments.mapM below.expr

def call (tree : Concrete) : Numbered Expr := do
  match tree.child? .callee, tree.child? .args with
  | some callee, some arguments =>
      let callee ← below.expr callee
      let callee ←
        match tree.child? .typeArgs with
        | some types => do
            let indices ← types.named.mapM below.expr
            pure { kind := .index callee indices : Expr }
        | none => pure callee
      let spread := arguments.children.any (·.kind == .spreadArgument)
      let openingRow := arguments.span.startRow
      let attached := attach source openingRow arguments.named
      if attached.trailing.isEmpty then
        let args ← attached.items.mapM fun (item, decs) => do
          let target :=
            if item.kind == .spreadArgument then item.named.head?.getD item else item
          let arg ← below.expr target
          return { arg with decs }
        let lastRow := (attached.items.getLast?.map (·.1.span.stopRow)).getD openingRow
        let closesLine := !args.isEmpty && arguments.span.stopRow > lastRow
        return { kind := .call { callee, args, spread, closesLine } }
      else return verbatim source tree
  | _, _ => return verbatim source tree

/-- A binary expression; operands that stand on different lines stay verbatim. -/
def binary (tree : Concrete) : Numbered Expr := do
  match tree.child? .left, tree.child? .op, tree.child? .right with
  | some left, some op, some right =>
      if left.span.stopRow != right.span.startRow then return verbatim source tree
      else
        let left ← below.expr left
        let right ← below.expr right
        return { kind := .binary left (source.text op) right }
  | _, _, _ => return verbatim source tree

def funcLit (tree : Concrete) : Numbered Expr := do
  match tree.child? .body with
  | some body =>
      let params ← paramsOf source below tree
      let results ← resultsOf source below tree
      let body ← below.block body
      return { kind := .func params results body }
  | none => return verbatim source tree

def unary (tree : Concrete) : Numbered Expr := do
  match tree.child? .op, tree.child? .operand with
  | some op, some operand =>
      let operand ← below.expr operand
      let op := source.text op
      if op == "*" then return { kind := .star operand } else return { kind := .unary op operand }
  | _, _ => return verbatim source tree

def expr (tree : Concrete) : Numbered Expr := do
  if tree.hasComment then return verbatim source tree
  else
    match tree.kind with
    | .identifier => return { kind := .ident (← ident source tree) }
    | .literal => return { kind := .literal (source.text tree) }
    | .selector =>
        match tree.child? .operand, tree.child? .member with
        | some operand, some member =>
            let operand ← below.expr operand
            return { kind := .selector operand (← ident source member) }
        | _, _ => return verbatim source tree
    | .call => call source below tree
    | .unary => unary source below tree
    | .pointer =>
        match tree.named with
        | operand :: _ => return { kind := .star (← below.expr operand) }
        | [] => return verbatim source tree
    | .binary => binary source below tree
    | .paren =>
        match tree.named with
        | inner :: _ => return { kind := .paren (← below.expr inner) }
        | [] => return verbatim source tree
    | .index =>
        match tree.child? .operand, tree.child? .index with
        | some operand, some index =>
            let operand ← below.expr operand
            return { kind := .index operand [← below.expr index] }
        | _, _ => return verbatim source tree
    | .generic =>
        match tree.child? .type, tree.child? .typeArgs with
        | some type, some arguments =>
            let type ← below.expr type
            return { kind := .index type (← typeArguments below arguments) }
        | _, _ => return verbatim source tree
    | .composite =>
        match tree.child? .body with
        | some body =>
            let type ← (tree.child? .type).mapM below.expr
            return { kind := .composite type (source.text body) }
        | none => return verbatim source tree
    | .funcLit => funcLit source below tree
    | _ => return verbatim source tree

/-! ## Declarations -/

def structFields (tree : Concrete) : Numbered (List StructField) := do
  let decls := (tree.named.filter (·.kind == .fieldDeclList)).flatMap fun list =>
    list.named.filter (·.kind == .fieldDecl)
  let fields ← decls.mapM fun decl => do
    match decl.child? .type with
    | none => return []
    | some type =>
        let type ← below.expr type
        match decl.withRole .name with
        | [] => return [{ name := none, type : StructField }]
        | names => return names.map fun name => { name := some (source.text name), type }
  return fields.flatten

def interfaceMethod (tree : Concrete) : Numbered Method := do
  let name := ((tree.child? .name).map source.text).getD ""
  let params ← paramsOf source below tree
  return { name, params, results := ← resultsOf source below tree }

def typeDef (tree : Concrete) : Numbered TypeDef := do
  match tree.kind with
  | .structType => return .struct (← structFields source below tree)
  | .interfaceType =>
      let elems := tree.named.filter (!·.isComment)
      let methods ← (elems.filter (·.kind == .methodElem)).mapM (interfaceMethod source below)
      let types := (elems.filter (·.kind != .methodElem)).flatMap fun elem =>
        if elem.kind == .typeElem then elem.named else [elem]
      return .interface (← types.mapM below.expr) methods
  | _ => return .other (← below.expr tree)

def spec (tree : Concrete) : Numbered (List Spec) := do
  if tree.kind == .varSpec || tree.kind == .constSpec then
    let names ← (tree.withRole .name).mapM (ident source)
    let type ← (tree.child? .type).mapM below.expr
    let values ← exprListIn below tree .value
    return [.value names type values (tree.kind == .constSpec)]
  else if tree.kind == .typeSpec || tree.kind == .typeAlias then
    let name := ((tree.child? .name).map source.text).getD ""
    match tree.child? .type with
    | some type => return [.type name (tree.kind == .typeAlias) (← typeDef source below type)]
    | none => return []
  else return []

def declaration (tree : Concrete) : Numbered Declaration := do
  let specs := tree.named.flatMap fun child =>
    if child.kind == .specList then child.named else [child]
  return { text := source.text tree, specs := (← specs.mapM (spec source below)).flatten }

/-! ## Statements -/

def stmts (items : List (Concrete × Decorations)) : Numbered (List Stmt) :=
  items.mapM fun (item, decs) => do return { kind := ← below.stmt item, decs }

/-- Everything between braces but empty statements. -/
def listItems (trees : List Concrete) : List Concrete :=
  trees.filter fun tree => tree.isNamed && tree.kind != .emptyStmt

def block (tree : Concrete) : Numbered Block := do
  let attached := attach source tree.span.startRow (listItems tree.children)
  return {
    stmts := ← stmts below attached.items
    trailing := attached.trailing
    inline := attached.trailing.isEmpty && tree.span.stopRow == tree.span.startRow }

def bareStmt (tree : Concrete) : Numbered Stmt := do
  return { kind := ← below.stmt tree, decs := {} }

def ifStmt (tree : Concrete) : Numbered StmtKind := do
  match tree.child? .condition, tree.child? .body with
  | some condition, some body =>
      let init ← (tree.child? .init).mapM (bareStmt below)
      let condition ← below.expr condition
      let body ← below.block body
      let alternative ← (tree.child? .alternative).mapM (bareStmt below)
      return .cond init condition body alternative
  | _, _ => return .verbatim (source.text tree)

def rangeClause (tree : Concrete) : Numbered LoopHeader := do
  let op :=
    if tree.children.any (·.isToken ":=") then some .define
    else if tree.children.any (·.isToken "=") then some .assign
    else none
  let left ← exprListIn below tree .left
  let operand ←
    match tree.child? .right with
    | some right => below.expr right
    | none => pure { kind := .verbatim "" }
  return .range left.head? (left.drop 1).head? op operand

def forStmt (tree : Concrete) : Numbered StmtKind := do
  match tree.child? .body with
  | some body =>
      let header ←
        match tree.named.filter (·.role != .body) with
        | [] => pure .infinite
        | header :: _ =>
            match header.kind with
            | .loopClauses => pure (.clauses (source.text header))
            | .rangeClause => rangeClause below header
            | _ => .cond <$> below.expr header
      return .loop header (← below.block body)
  | none => return .verbatim (source.text tree)

def clause (tree : Concrete) (decs : Decorations) : Numbered Clause := do
  let (front, rest) := tree.children.span (!·.isToken ":")
  match rest with
  | [] => return { head := source.text tree, body := [], decs }
  | colon :: body =>
      let attached := attach source colon.span.startRow (listItems body)
      let start := (front.head?.getD colon).span.start
      return {
        head := source.slice start colon.span.stop
        body := ← stmts below attached.items
        trailing := attached.trailing
        decs }

def clauses (tree : Concrete) : Numbered (List Clause × List String) := do
  let openingRow :=
    ((tree.children.find? (·.isToken "\x7b")).map (·.span.startRow)).getD tree.span.startRow
  let trees := tree.children.filter fun child => child.isComment || child.kind == .clause
  let attached := attach source openingRow trees
  let clauses ← attached.items.mapM fun (item, decs) => clause source below item decs
  return (clauses, attached.trailing)

/-- What stands between the keyword of a switch and its brace. -/
def switchHeader (tree : Concrete) : Option String :=
  let stop := (tree.children.find? (·.isToken "switch")).map (·.span.stop)
  let start := (tree.children.find? (·.isToken "\x7b")).map (·.span.start)
  match stop, start with
  | some stop, some start =>
      let header := trim (source.slice stop start)
      if header.isEmpty then none else some header
  | _, _ => none

def labeled (tree : Concrete) : Numbered StmtKind := do
  match tree.child? .label, tree.named.find? (·.role != .label) with
  | some label, some inner => return .labeled (source.text label) (← bareStmt below inner)
  | _, _ => return .verbatim (source.text tree)

def stmt (tree : Concrete) : Numbered StmtKind := do
  if tree.kind != .block && tree.hasComment then return .verbatim (source.text tree)
  else
    match tree.kind, tree.named with
    | .exprStmt, value :: _ => return .expr (← below.expr value)
    | .shortVar, _ =>
        let left ← exprListIn below tree .left
        return .assign left .define (← exprListIn below tree .right)
    | .assignment, _ =>
        if (tree.child? .op).any (·.isToken "=") then
          let left ← exprListIn below tree .left
          return .assign left .assign (← exprListIn below tree .right)
        else return .verbatim (source.text tree)
    | .spawnStmt, call :: _ => return .spawn (← below.expr call)
    | .deferStmt, call :: _ => return .defer (← below.expr call)
    | .returnStmt, [] => return .ret []
    | .returnStmt, list :: _ => return .ret (← exprList below list)
    | .ifStmt, _ => ifStmt source below tree
    | .forStmt, _ => forStmt source below tree
    | .switchStmt, _ =>
        let (clauses, trailing) ← clauses source below tree
        return .switch (switchHeader source tree) clauses trailing
    | .selectStmt, _ =>
        let (clauses, trailing) ← clauses source below tree
        return .select clauses trailing
    | .block, _ => return .block (← block source below tree)
    | .labeled, _ => labeled source below tree
    | .declaration, _ => return .decl (← declaration source below tree)
    | _, _ => return .verbatim (source.text tree)

end

/-- Readers for trees of at most the given height. -/
def readers (source : Source) : Nat → Below
  | 0 =>
      { expr := fun tree => return verbatim source tree
        stmt := fun tree => return .verbatim (source.text tree)
        block := fun _ => return { stmts := [] } }
  | height + 1 =>
      let below := readers source height
      { expr := expr source below, stmt := stmt source below, block := block source below }

/-! ## Files -/

def importSpec (source : Source) (tree : Concrete) (decs : Decorations) : ImportSpec :=
  { name := (tree.child? .name).map source.text
    path := ((tree.child? .path).map fun path => unquote (source.text path)).getD ""
    decs }

def importDecl (source : Source) (tree : Concrete) : ImportDecl :=
  match tree.named.find? (!·.isComment) with
  | none => { specs := [], grouped := false, trailing := [] }
  | some child =>
      if child.kind == .importSpecList then
        let attached := attach source child.span.startRow child.named
        { specs := attached.items.map fun (item, decs) => importSpec source item decs
          grouped := true
          trailing := attached.trailing }
      else { specs := [importSpec source child {}], grouped := false, trailing := [] }

def funcDecl (source : Source) (below : Below) (tree : Concrete) : Numbered FuncDecl := do
  let receiver ← (tree.child? .receiver).mapM (fieldList source below)
  let name ←
    match tree.child? .name with
    | some name => ident source name
    | none => pure { name := "_" }
  let params ← paramsOf source below tree
  let results ← resultsOf source below tree
  let body ← (tree.child? .body).mapM below.block
  return {
    receiver, name, params, results, body
    typeParams := (tree.child? .typeParams).map source.text }

def fileItem (source : Source) (below : Below) (file : File) (item : Concrete × Decorations) :
    Numbered File := do
  let (tree, decs) := item
  let add (kind : DeclKind) : File := { file with decls := file.decls ++ [{ kind, decs }] }
  match tree.kind with
  | .packageClause =>
      let package := ((tree.named.find? (!·.isComment)).map source.text).getD ""
      return { file with package, packageDecs := decs }
  | .importDecl => return add (.imports (importDecl source tree))
  | .funcDecl => return add (.func (← funcDecl source below tree))
  | .declaration => return add (.gen (← declaration source below tree))
  | _ => return add (.verbatim (source.text tree))

def file (source : Source) (tree : Concrete) : Numbered File := do
  let attached := attach source 0 tree.named
  let below := readers source tree.height
  attached.items.foldlM (fileItem source below)
    { package := "", packageDecs := {}, decls := [], trailing := attached.trailing }

end Reading

/-- Reads a source text; the state numbers the identifiers. -/
def File.read? (text : String) : StateT Nat Option File := do
  match Grammar.file? text.toList with
  | none => failure
  | some tree =>
      let (file, next) := (Reading.file (Source.ofString text) tree).run (← get)
      set next
      return file

/-- Reads a single source text. -/
def File.parse? (text : String) : Option File :=
  ((File.read? text).run 1).map (·.1)

end TraceWeave.Syntax
