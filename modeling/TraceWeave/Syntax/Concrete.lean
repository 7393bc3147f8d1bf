import TraceWeave.Syntax.Lexeme

/-!
Concrete syntax trees: every lexeme of a source text in its place.

The grammar builds a tree without comments.  `Concrete.place` then puts each
comment into the innermost node that has lexemes on both sides of it, so a
comment in front of a node or behind it belongs to what encloses the node.
-/

namespace TraceWeave.Syntax

inductive NodeKind where
  | token (text : String)
  | comment
  | file
  | packageClause
  | importDecl
  | importSpec
  | importSpecList
  | funcDecl
  | declaration
  | specList
  | varSpec
  | constSpec
  | typeSpec
  | typeAlias
  | parameterList
  | parameter
  | variadicParameter
  | block
  | exprStmt
  | shortVar
  | assignment
  | spawnStmt
  | deferStmt
  | returnStmt
  | ifStmt
  | forStmt
  | loopClauses
  | rangeClause
  | switchStmt
  | selectStmt
  | clause
  | labeled
  | emptyStmt
  | exprList
  | identifier
  | literal
  | selector
  | call
  | argumentList
  | spreadArgument
  | unary
  | pointer
  | binary
  | paren
  | index
  | generic
  | typeArguments
  | typeElem
  | composite
  | literalValue
  | funcLit
  | structType
  | fieldDeclList
  | fieldDecl
  | interfaceType
  | methodElem
  | other
  deriving DecidableEq, Repr, Inhabited

/-- What a child is to its parent. -/
inductive Role where
  | plain
  | name
  | type
  | value
  | path
  | receiver
  | typeParams
  | params
  | result
  | body
  | left
  | op
  | right
  | init
  | condition
  | alternative
  | operand
  | member
  | index
  | callee
  | typeArgs
  | args
  | label
  deriving DecidableEq, Repr, Inhabited

structure Concrete where
  kind : NodeKind
  role : Role
  span : Span
  children : List Concrete
  deriving Inhabited

namespace Concrete

/-- A node over its children, which are in source order. -/
def node (kind : NodeKind) (children : List Concrete) : Concrete :=
  let span :=
    match children.head?, children.getLast? with
    | some first, some last => first.span.through last.span
    | _, _ => default
  { kind, role := .plain, span, children }

def leaf (kind : NodeKind) (lexeme : Lexeme) : Concrete :=
  { kind, role := .plain, span := lexeme.span, children := [] }

/-- The leaf of a symbol, a keyword or a statement end. -/
def token (lexeme : Lexeme) : Concrete := leaf (.token lexeme.text) lexeme

/-- The same tree in a role. -/
def as (tree : Concrete) (role : Role) : Concrete := { tree with role }

def isComment (tree : Concrete) : Bool := tree.kind == .comment

def isToken (tree : Concrete) (text : String) : Bool := tree.kind == .token text

/-- Everything but symbols, keywords and statement ends. -/
def isNamed (tree : Concrete) : Bool :=
  match tree.kind with
  | .token _ => false
  | _ => true

def named (tree : Concrete) : List Concrete := tree.children.filter isNamed

def withRole (tree : Concrete) (role : Role) : List Concrete :=
  tree.children.filter (·.role == role)

def child? (tree : Concrete) (role : Role) : Option Concrete :=
  tree.children.find? (·.role == role)

/-- A comment is a child of the node itself. -/
def hasComment (tree : Concrete) : Bool := tree.children.any isComment

mutual

/-- The number of nodes on the longest way from the tree to a leaf. -/
def height : Concrete → Nat
  | ⟨_, _, _, children⟩ => 1 + heights children

def heights : List Concrete → Nat
  | [] => 0
  | tree :: trees => max tree.height (heights trees)

end

/-! ## Placing comments -/

mutual

/-- Puts comments, in source order, into a tree whose span holds them. -/
def place (comments : List Concrete) : Concrete → Concrete
  | ⟨kind, role, span, children⟩ => ⟨kind, role, span, placeAmong comments children⟩

/-- Puts comments between sibling trees and into the siblings that enclose them. -/
def placeAmong (comments : List Concrete) : List Concrete → List Concrete
  | [] => comments
  | tree :: trees =>
      let (before, others) := comments.span fun comment => comment.span.start < tree.span.start
      let (inside, after) := others.span fun comment => comment.span.start < tree.span.stop
      before ++ place inside tree :: placeAmong after trees

end

end Concrete

end TraceWeave.Syntax
