/-!
The decorated tree of a Go source file.

Statements, call arguments, parameters, case clauses, imports and declarations
carry `Decorations`: the vertical room in front of them and the comments that
were attached to them.  Constructs that instrumentation never changes (type
literals, composite literal bodies, slice expressions, three-clause loop
headers, and so on) are kept as verbatim source text.
-/

namespace TraceWeave.Syntax

/-! ## Layout -/

/-- Vertical room between a node and what stands in front of it. -/
inductive Gap where
  | sameLine
  | newLine
  | blankLine
  deriving DecidableEq, Repr, Inhabited

def Gap.isBreak : Gap → Bool
  | .sameLine => false
  | _ => true

/--
Room and comments attached to a node.  `lead` holds the comment lines above the
node, where an empty string stands for a blank line between comment groups;
`trail` holds the comments after it on its last line, each with the padding in
front of it.
-/
structure Decorations where
  before : Gap := .sameLine
  lead : List String := []
  trail : List String := []
  after : Gap := .sameLine
  deriving DecidableEq, Repr, Inhabited

namespace Decorations

/-- The decorations of a node that starts a line of its own. -/
def ownLine : Decorations := { before := .newLine }

def isEmpty (decs : Decorations) : Bool :=
  decs.before == .sameLine && decs.after == .sameLine &&
    decs.lead.isEmpty && decs.trail.isEmpty

/-- What is left once the band above the node has been handed on. -/
def withoutLead (decs : Decorations) : Decorations :=
  { decs with before := .newLine, lead := [] }

def withoutAfter (decs : Decorations) : Decorations :=
  { decs with after := .sameLine }

/-- Adds a comment behind the node, one blank away. -/
def addTrail (decs : Decorations) (text : String) : Decorations :=
  { decs with trail := decs.trail ++ [" " ++ text] }

end Decorations

/-! ## Identifiers -/

/--
An occurrence of a name.  Occurrences that were read from a source file are
numbered from one; generated ones carry zero.
-/
structure Ident where
  name : String
  id : Nat := 0
  deriving DecidableEq, Repr, Inhabited

namespace Ident

def isBlank (ident : Ident) : Bool := ident.name == "_"

def isGenerated (ident : Ident) : Bool := ident.id == 0

end Ident

/-- `define` is `:=` and `assign` is `=`. -/
inductive AssignOp where
  | define
  | assign
  deriving DecidableEq, Repr, Inhabited

/-! ## Expressions and statements -/

mutual

/-- Types are written as expressions too. -/
structure Expr where
  kind : ExprKind
  decs : Decorations := {}

inductive ExprKind where
  | ident (ident : Ident)
  | literal (text : String)
  | selector (operand : Expr) (member : Ident)
  | call (call : Call)
  | star (operand : Expr)
  | unary (op : String) (operand : Expr)
  | binary (left : Expr) (op : String) (right : Expr)
  | paren (inner : Expr)
  | index (operand : Expr) (indices : List Expr)
  | composite (type : Option Expr) (body : String)
  | func (params : FieldList) (results : Option Results) (body : Block)
  | verbatim (text : String)

structure Call where
  callee : Expr
  args : List Expr
  /-- The last argument is followed by `...`. -/
  spread : Bool := false
  /-- The closing parenthesis stands on a line of its own. -/
  closesLine : Bool := false

/-- A result list is written back verbatim; its types serve name resolution. -/
structure Results where
  text : String
  types : List Expr

structure FieldList where
  fields : List Field := []
  closesLine : Bool := false

structure Field where
  names : List Ident
  type : Expr
  variadic : Bool := false
  decs : Decorations := {}

structure Block where
  stmts : List Stmt
  /-- Comments between the last statement and the closing brace. -/
  trailing : List String := []
  /-- Written on one line in the source. -/
  inline : Bool := false

structure Stmt where
  kind : StmtKind
  decs : Decorations := .ownLine

inductive StmtKind where
  | expr (value : Expr)
  | assign (left : List Expr) (op : AssignOp) (right : List Expr)
  | spawn (call : Expr)
  | defer (call : Expr)
  | ret (results : List Expr)
  /-- The alternative is a block or another conditional. -/
  | cond (init : Option Stmt) (test : Expr) (body : Block) (alternative : Option Stmt)
  | loop (header : LoopHeader) (body : Block)
  | switch (header : Option String) (clauses : List Clause) (trailing : List String)
  | select (clauses : List Clause) (trailing : List String)
  | block (block : Block)
  | labeled (label : String) (stmt : Stmt)
  | decl (decl : Declaration)
  | verbatim (text : String)

inductive LoopHeader where
  | infinite
  | cond (test : Expr)
  | clauses (text : String)
  | range (key value : Option Expr) (op : Option AssignOp) (operand : Expr)

structure Clause where
  /-- `case a, b:` or `default:`, verbatim. -/
  head : String
  body : List Stmt
  trailing : List String := []
  decs : Decorations := {}

/-- A `var`, `const` or `type` declaration, written back verbatim. -/
structure Declaration where
  text : String
  specs : List Spec

inductive Spec where
  | value (names : List Ident) (type : Option Expr) (values : List Expr) (constant : Bool)
  | type (name : String) (isAlias : Bool) (definition : TypeDef)

inductive TypeDef where
  | struct (fields : List StructField)
  | interface (embeds : List Expr) (methods : List Method)
  | other (type : Expr)

structure StructField where
  /-- Absent for an embedded field. -/
  name : Option String
  type : Expr

structure Method where
  name : String
  params : FieldList
  results : Option Results

end

instance : Inhabited Expr := ⟨{ kind := .verbatim "" }⟩

instance : Inhabited Results := ⟨{ text := "", types := [] }⟩

instance : Inhabited FieldList := ⟨{}⟩

instance : Inhabited Block := ⟨{ stmts := [] }⟩

instance : Inhabited Stmt := ⟨{ kind := .verbatim "" }⟩

instance : Inhabited LoopHeader := ⟨.infinite⟩

instance : Inhabited Clause := ⟨{ head := "", body := [] }⟩

end TraceWeave.Syntax
