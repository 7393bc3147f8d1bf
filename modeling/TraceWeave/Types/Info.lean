import Std.Data.HashMap
import TraceWeave.Syntax.Build
import TraceWeave.Types.Ty

/-!
What name resolution knows, and the questions it answers.

`Info` links the occurrences of identifiers to the objects that they declare or
use.  Resolution is partial on purpose: what it cannot see has no type.
-/

namespace TraceWeave.Types

open TraceWeave.Syntax

inductive ObjectKind where
  | variable
  | constant
  | func
  | type
  | package
  deriving DecidableEq, Repr, Inhabited

structure Object where
  kind : ObjectKind
  name : String
  /-- The import path of the declaring package; empty for predeclared names. -/
  package : String
  type : Option Ty
  /-- The path that a package name stands for. -/
  imported : Option String := none
  deriving Inhabited

/-- What is known of a declared type. -/
structure TypeDecl where
  /-- Embedded fields have no name. -/
  fields : List (Option String × Ty) := []
  methods : List (String × Signature) := []
  /-- Embedded interfaces. -/
  embeds : List Ty := []
  interface : Bool := false
  deriving Inhabited

namespace TypeDecl

/-- The latest method of a name. -/
def method? (decl : TypeDecl) (name : String) : Option Signature := decl.methods.lookup name

def addMethod (decl : TypeDecl) (name : String) (signature : Signature) : TypeDecl :=
  { decl with methods := (name, signature) :: decl.methods }

/-- The types of the embedded fields. -/
def embeddedFields (decl : TypeDecl) : List Ty :=
  decl.fields.filterMap fun (name, type) => if name.isNone then some type else none

def field? (decl : TypeDecl) (name : String) : Option Ty :=
  decl.fields.findSome? fun (fieldName, type) => if fieldName == some name then some type else none

end TypeDecl

structure PackageInfo where
  name : String := ""
  /-- Objects by name. -/
  members : Std.HashMap String Nat := {}
  deriving Inhabited

structure Info where
  objects : Array Object := #[]
  /-- Objects by the number of an identifier. -/
  uses : Std.HashMap Nat Nat := {}
  packages : Std.HashMap String PackageInfo := {}
  types : Std.HashMap (String × String) TypeDecl := {}
  predeclared : Std.HashMap String Nat := {}
  deriving Inhabited

namespace Info

/-! ## Objects -/

/-- The number of the object that an identifier declares or refers to. -/
def objectId? (info : Info) (ident : Ident) : Option Nat := info.uses.get? ident.id

def object? (info : Info) (ident : Ident) : Option Object :=
  (info.objectId? ident).bind (info.objects[·]?)

def packageName? (info : Info) (path : String) : Option String :=
  (info.packages.get? path).map (·.name)

/-- A member of a package. -/
def member? (info : Info) (path name : String) : Option Object :=
  ((info.packages.get? path).bind (·.members.get? name)).bind (info.objects[·]?)

/-- The import path that a qualifier stands for. -/
def importedPath? (info : Info) (expr : Expr) : Option String := do
  let object ← info.object? (← expr.ident?)
  if object.kind == .package then object.imported else none

/-! ## Members of types -/

/-- The declaration of a named type, behind at most one pointer. -/
def typeDecl? (info : Info) (type : Ty) : Option TypeDecl :=
  type.deref.name?.bind info.types.get?

def isInterface (info : Info) (type : Ty) : Bool :=
  (info.typeDecl? type).any (·.interface)

def embeddedInterfaces (info : Info) (type : Ty) : List Ty :=
  ((info.typeDecl? type).map (·.embeds)).getD []

/-- A field found on the type or through less than `depth` embedded fields. -/
def fieldWithin (info : Info) (name : String) : Nat → Ty → Option Ty
  | 0, _ => none
  | depth + 1, type =>
      match info.typeDecl? type with
      | none => none
      | some decl =>
          match decl.field? name with
          | some field => some field
          | none => decl.embeddedFields.findSome? (info.fieldWithin name depth)

/-- A method found on the type or through less than `depth` embedded types, with its owner. -/
def methodWithin (info : Info) (name : String) : Nat → Ty → Option (Signature × Ty)
  | 0, _ => none
  | depth + 1, type =>
      match info.typeDecl? type with
      | none => none
      | some decl =>
          match decl.method? name with
          | some signature => some (signature, type.deref)
          | none =>
              (decl.embeddedFields ++ decl.embeds).findSome? (info.methodWithin name depth)

/-- The number of types on the longest way to a promoted member. -/
def promotionDepth : Nat := 5

def field? (info : Info) (type : Ty) (name : String) : Option Ty :=
  info.fieldWithin name promotionDepth type

def method? (info : Info) (type : Ty) (name : String) : Option (Signature × Ty) :=
  info.methodWithin name promotionDepth type

/-! ## Types of expressions -/

/-- The type that an expression denotes where a type is expected. -/
def typeExpr? (info : Info) : Expr → Option Ty
  | ⟨.ident ident, _⟩ =>
      match info.object? ident with
      | some object => if object.kind == .type then object.type else none
      | none => none
  | ⟨.selector operand member, _⟩ =>
      match info.importedPath? operand with
      | none => none
      | some path =>
          match info.member? path member.name with
          | some object => if object.kind == .type then object.type else none
          | none => some (.named path member.name)
  | ⟨.star operand, _⟩ => (info.typeExpr? operand).map .pointer
  | ⟨.paren inner, _⟩ => info.typeExpr? inner
  | ⟨.index operand _, _⟩ => info.typeExpr? operand
  | ⟨.verbatim text, _⟩ => some (.other text)
  | _ => none

end Info

/-- The type of a literal, told by its text. -/
def literalType (text : String) : Ty :=
  let cs := text.toList
  let name :=
    match cs.head? with
    | some '\x22' => "string"
    | some '\x60' => "string"
    | some '\x27' => "rune"
    | _ =>
        if cs.getLast? == some 'i' then "complex128"
        else if cs.any (fun c => c == '.' || c == 'e' || c == 'E') && !text.startsWith "0x" then
          "float64"
        else "int"
  .named "" name

/-- Binary operators that yield a truth value. -/
def comparisons : List String := ["==", "!=", "<", "<=", ">", ">=", "&&", "||"]

namespace Info

def literalSignature (info : Info) (params : FieldList) (results : Option Results) : Signature :=
  let type (expr : Expr) : Ty := (info.typeExpr? expr).getD (.other "")
  { params := params.params.map fun (_, expr) => type expr
    results := (results.map fun results => results.types.map type).getD []
    variadic := params.isVariadic }

/-- The results of a call that the callee alone decides: conversions and `new`. -/
def conversionResults? (info : Info) (callee : Expr) (args : List Expr) : Option (List Ty) :=
  match callee.unparen.kind with
  | .ident ident =>
      match info.object? ident with
      | some object =>
          if object.kind == .func && object.package.isEmpty && object.name == "new" then
            some ((args.head?.bind info.typeExpr?).map .pointer).toList
          else if object.kind == .type then some object.type.toList
          else none
      | none => none
  | .selector operand member =>
      match (info.importedPath? operand).bind (info.member? · member.name) with
      | some object => if object.kind == .type then some object.type.toList else none
      | none => none
  | _ => none

/-- The type of the value of an expression. -/
def typeOf? (info : Info) : Expr → Option Ty
  | ⟨.ident ident, _⟩ =>
      match info.object? ident with
      | some object =>
          if object.kind == .type || object.kind == .package then none else object.type
      | none => none
  | ⟨.literal text, _⟩ => some (literalType text)
  | ⟨.selector operand member, _⟩ =>
      match info.importedPath? operand with
      | some path =>
          match info.member? path member.name with
          | some object =>
              if object.kind == .type || object.kind == .package then none else object.type
          | none => none
      | none =>
          match info.typeOf? operand with
          | none => none
          | some base =>
              match info.field? base member.name with
              | some field => some field
              | none => (info.method? base member.name).map fun (signature, _) => .func signature
  | ⟨.call ⟨callee, args, _, _⟩, _⟩ =>
      let results :=
        match info.conversionResults? callee args with
        | some results => results
        | none =>
            match info.typeOf? callee with
            | some (.func signature) => signature.results
            | _ => []
      match results with
      | [result] => some result
      | _ => none
  | ⟨.star operand, _⟩ =>
      match info.typeOf? operand with
      | some (.pointer target) => some target
      | _ => none
  | ⟨.unary op operand, _⟩ =>
      if op == "&" then (info.typeOf? operand).map .pointer
      else if op == "<-" then none
      else info.typeOf? operand
  | ⟨.binary left op _, _⟩ =>
      if comparisons.contains op then some (.named "" "bool") else info.typeOf? left
  | ⟨.paren inner, _⟩ => info.typeOf? inner
  | ⟨.composite (some type) _, _⟩ => info.typeExpr? type
  | ⟨.func params results _, _⟩ => some (.func (info.literalSignature params results))
  | _ => none

/-- The types of the values that a call returns. -/
def resultsOf (info : Info) (call : Call) : List Ty :=
  match info.conversionResults? call.callee call.args with
  | some results => results
  | none =>
      match info.typeOf? call.callee with
      | some (.func signature) => signature.results
      | _ => []

end Info

/-! ## Callees -/

/-- The function or method that a call aims at. -/
structure Callee where
  /-- The import path of the package of the function or of the receiver's type. -/
  package : String
  name : String
  /-- The receiver's type, for methods. -/
  receiver : Option String
  signature : Option Signature

namespace Callee

def isFunc (callee : Callee) (package name : String) : Bool :=
  callee.receiver.isNone && callee.package == package && callee.name == name

def isMethod (callee : Callee) (package receiver name : String) : Bool :=
  callee.receiver == some receiver && callee.package == package && callee.name == name

end Callee

namespace Info

/-- The method of a value that a selector names.  An undeclared one still has a receiver. -/
def methodCallee? (info : Info) (base : Ty) (name : String) : Option Callee :=
  match info.method? base name with
  | some (signature, owner) =>
      owner.name?.map fun (package, receiver) =>
        { package, name, receiver := some receiver, signature := some signature }
  | none =>
      match base.deref.name? with
      | none => none
      | some (package, receiver) =>
          if package.isEmpty || (info.field? base name).isSome then none
          else some { package, name, receiver := some receiver, signature := none }

def callee? (info : Info) (call : Call) : Option Callee :=
  match call.callee.unparen.kind with
  | .ident ident =>
      match info.object? ident with
      | some object =>
          if object.kind == .func then
            some { package := object.package, name := object.name, receiver := none,
                   signature := object.type.bind Ty.signature? }
          else none
      | none => none
  | .selector operand member =>
      match info.importedPath? operand with
      | some package =>
          let signature :=
            ((info.member? package member.name).bind (·.type)).bind Ty.signature?
          some { package, name := member.name, receiver := none, signature }
      | none => (info.typeOf? operand).bind (info.methodCallee? · member.name)
  | _ => none

end Info

end TraceWeave.Types
