import TraceWeave.Syntax.Tree

/-!
Source files: a package clause and a list of declarations.
-/

namespace TraceWeave.Syntax

structure ImportSpec where
  name : Option String := none
  path : String
  decs : Decorations := .ownLine
  deriving DecidableEq, Repr, Inhabited

structure ImportDecl where
  specs : List ImportSpec
  /-- Written between parentheses. -/
  grouped : Bool
  trailing : List String
  deriving DecidableEq, Repr, Inhabited

structure FuncDecl where
  receiver : Option FieldList
  name : Ident
  typeParams : Option String
  params : FieldList
  results : Option Results
  body : Option Block

inductive DeclKind where
  | imports (decl : ImportDecl)
  | func (decl : FuncDecl)
  | gen (decl : Declaration)
  | verbatim (text : String)

structure Decl where
  kind : DeclKind
  decs : Decorations

structure File where
  package : String
  packageDecs : Decorations
  decls : List Decl
  /-- Comments behind the last declaration. -/
  trailing : List String

/-! ## Functions -/

/-- The name of a type without pointers, parentheses and type arguments. -/
def Expr.baseTypeName? : Expr → Option String
  | ⟨.ident ident, _⟩ => some ident.name
  | ⟨.star operand, _⟩ => operand.baseTypeName?
  | ⟨.paren inner, _⟩ => inner.baseTypeName?
  | ⟨.index operand _, _⟩ => operand.baseTypeName?
  | _ => none

namespace FuncDecl

def receiverField? (decl : FuncDecl) : Option Field :=
  decl.receiver.bind (·.fields.head?)

def receiverType? (decl : FuncDecl) : Option String :=
  decl.receiverField?.bind (·.type.baseTypeName?)

/-- The name that the receiver is bound to. -/
def receiverName? (decl : FuncDecl) : Option String :=
  decl.receiverField?.bind fun field => field.names.head?.map (·.name)

/-- `Name` for a function and `Type.Name` for a method. -/
def key (decl : FuncDecl) : String :=
  match decl.receiverType? with
  | some type => type ++ "." ++ decl.name.name
  | none => decl.name.name

def isMethod (decl : FuncDecl) : Bool := decl.receiver.isSome

end FuncDecl

/-! ## Views of a file -/

namespace Decl

def func? (decl : Decl) : Option FuncDecl :=
  match decl.kind with
  | .func func => some func
  | _ => none

def imports (decl : Decl) : List ImportSpec :=
  match decl.kind with
  | .imports decl => decl.specs
  | _ => []

/-- Changes the function that a declaration holds. -/
def mapFunc (f : FuncDecl → FuncDecl) (decl : Decl) : Decl :=
  match decl.kind with
  | .func func => { decl with kind := .func (f func) }
  | _ => decl

end Decl

namespace File

def imports (file : File) : List ImportSpec := file.decls.flatMap Decl.imports

def funcs (file : File) : List FuncDecl := file.decls.filterMap Decl.func?

def hasImport (file : File) (path : String) : Bool :=
  file.imports.any (·.path == path)

end File

end TraceWeave.Syntax
