import TraceWeave.Syntax.Imports
import TraceWeave.Syntax.Reader
import TraceWeave.Types.Info
import TraceWeave.Types.Known

/-!
Resolving packages.

The declarations of all packages come first and the bodies of functions after
them, so that a name is found wherever it is declared.  Inside a body names
follow the block structure: a use refers to the innermost declaration in front
of it, then to the imports of the file, the members of the package and the
predeclared names.
-/

namespace TraceWeave.Types

open TraceWeave.Syntax

/-- A package to resolve. -/
structure PackageSource where
  path : String
  name : String
  files : List File

namespace Info

/-! ## Recording -/

/-- Adds an object and gives its number. -/
def addObject (info : Info) (object : Object) : Info × Nat :=
  ({ info with objects := info.objects.push object }, info.objects.size)

/-- Links an occurrence to an object; generated occurrences have none. -/
def addUse (info : Info) (ident : Ident) (id : Nat) : Info :=
  if ident.isGenerated then info else { info with uses := info.uses.insert ident.id id }

def setObjectType (info : Info) (id : Nat) (type : Option Ty) : Info :=
  { info with objects := info.objects.modify id fun object => { object with type } }

def modifyPackage (info : Info) (path : String) (f : PackageInfo → PackageInfo) : Info :=
  { info with packages := info.packages.insert path (f ((info.packages.get? path).getD {})) }

def addMember (info : Info) (path name : String) (id : Nat) : Info :=
  info.modifyPackage path fun package => { package with members := package.members.insert name id }

def modifyType (info : Info) (package name : String) (f : TypeDecl → TypeDecl) : Info :=
  { info with
    types := info.types.insert (package, name) (f ((info.types.get? (package, name)).getD {})) }

end Info

/-! ## The state of resolution -/

/-- Names in scope while one file is resolved. -/
structure Resolver where
  info : Info
  package : String
  imports : Std.HashMap String Nat := {}
  /-- Open blocks, the innermost first. -/
  scopes : List (Std.HashMap String Nat) := []

abbrev Resolve := StateM Resolver

namespace Resolver

def modifyInfo (f : Info → Info) : Resolve Unit :=
  modify fun resolver => { resolver with info := f resolver.info }

def addObject (object : Object) : Resolve Nat :=
  modifyGet fun resolver =>
    let (info, id) := resolver.info.addObject object
    (id, { resolver with info })

def lookup? (resolver : Resolver) (name : String) : Option Nat :=
  match resolver.scopes.findSome? (·.get? name) with
  | some id => some id
  | none =>
      match resolver.imports.get? name with
      | some id => some id
      | none =>
          match (resolver.info.packages.get? resolver.package).bind (·.members.get? name) with
          | some id => some id
          | none => resolver.info.predeclared.get? name

def useIdent (ident : Ident) : Resolve Unit := do
  if ident.isBlank || ident.isGenerated then return
  match (← get).lookup? ident.name with
  | some id => modifyInfo (·.addUse ident id)
  | none => return

/-- Binds a name in the innermost block. -/
def bindName (name : String) (id : Nat) : Resolve Unit :=
  modify fun resolver =>
    match resolver.scopes with
    | scope :: scopes => { resolver with scopes := scope.insert name id :: scopes }
    | [] => resolver

def declareLocal (ident : Ident) (kind : ObjectKind) (type : Option Ty) : Resolve Unit := do
  if ident.isBlank || ident.isGenerated then return
  let id ← addObject { kind, name := ident.name, package := (← get).package, type }
  modifyInfo (·.addUse ident id)
  bindName ident.name id

def openBlock : Resolve Unit :=
  modify fun resolver => { resolver with scopes := {} :: resolver.scopes }

def closeBlock : Resolve Unit :=
  modify fun resolver => { resolver with scopes := resolver.scopes.tail }

/-- The imports of a file under the names that they go by. -/
def forFile (info : Info) (package : String) (file : File) : Resolver :=
  let step (resolver : Resolver) (spec : ImportSpec) : Resolver :=
    if spec.name == some "_" || spec.name == some "." then resolver
    else
      let name :=
        match spec.name with
        | some name => name
        | none => (resolver.info.packageName? spec.path).getD (defaultPackageName spec.path)
      let (info, id) := resolver.info.addObject
        { kind := .package, name, package, type := none, imported := some spec.path }
      { resolver with info, imports := resolver.imports.insert name id }
  file.imports.foldl step { info, package }

/-! ## Types -/

mutual

/-- Resolves a type and records the identifiers in it. -/
def resolveType : Expr → Resolve Ty
  | ⟨.ident ident, _⟩ => do
      useIdent ident
      match (← get).info.object? ident with
      | some object =>
          if object.kind == .type then return object.type.getD (.other ident.name)
          else return .other ident.name
      | none => return .other ident.name
  | ⟨.selector operand member, decs⟩ => do
      match operand.ident? with
      | some qualifier => useIdent qualifier
      | none => pure ()
      let info := (← get).info
      match info.importedPath? operand with
      | some path =>
          match info.member? path member.name with
          | some object =>
              if object.kind == .type then return object.type.getD (.named path member.name)
              else return .named path member.name
          | none => return .named path member.name
      | none => return .other (Expr.mk (.selector operand member) decs).text
  | ⟨.star operand, _⟩ => do return .pointer (← resolveType operand)
  | ⟨.paren inner, _⟩ => resolveType inner
  | ⟨.index operand indices, _⟩ => do
      resolveTypes indices
      resolveType operand
  | ⟨kind, decs⟩ => return .other (Expr.mk kind decs).text

def resolveTypes : List Expr → Resolve Unit
  | [] => return
  | expr :: exprs => do
      let _ ← resolveType expr
      resolveTypes exprs

end

def signature (params : FieldList) (results : Option Results) : Resolve Signature := do
  let paramTypes ← params.fields.mapM fun field => do
    let type ← resolveType field.type
    return List.replicate (max field.names.length 1) type
  let resultTypes ← ((results.map (·.types)).getD []).mapM resolveType
  return { params := paramTypes.flatten, results := resultTypes, variadic := params.isVariadic }

/-- Declares parameters; a variadic one is a slice. -/
def declareParams (params : FieldList) : Resolve Unit :=
  params.fields.forM fun field => do
    let type ← resolveType field.type
    let type := if field.variadic then .other ("[]" ++ type.text) else type
    field.names.forM fun name => declareLocal name .variable (some type)

def resolveResults (results : Option Results) : Resolve Unit :=
  ((results.map (·.types)).getD []).forM fun type => do
    let _ ← resolveType type

/-! ## Statements -/

/-- The types of the names on the left of `:=`. -/
def definedTypes (info : Info) (left right : List Expr) : List (Option Ty) :=
  if left.length == right.length then right.map info.typeOf?
  else
    match right with
    | [single] =>
        match single.unparen.call? with
        | some call =>
            let results := info.resultsOf call
            (List.range left.length).map (results[·]?)
        | none => left.map fun _ => none
    | _ => left.map fun _ => none

/-- Declares a name on the left of `:=` unless its block already has it. -/
def defineIdent (ident : Ident) (type : Option Ty) : Resolve Unit := do
  match (← get).scopes.head?.bind (·.get? ident.name) with
  | some id => modifyInfo (·.addUse ident id)
  | none => declareLocal ident .variable type

def declareTypeName (name : String) : Resolve Unit := do
  let package := (← get).package
  let id ← addObject { kind := .type, name, package, type := some (.named package name) }
  bindName name id

/-- Declares the names of a local declaration, whose values are resolved already. -/
def declareValues (names : List Ident) (type : Option Expr) (values : List Expr)
    (constant : Bool) : Resolve Unit := do
  let type ← type.mapM resolveType
  let kind := if constant then .constant else .variable
  names.zipIdx.forM fun (name, index) => do
    let type ←
      match type with
      | some type => pure (some type)
      | none => do pure (values[index]?.bind (← get).info.typeOf?)
    declareLocal name kind type

mutual

def resolveExpr : Expr → Resolve Unit
  | ⟨.ident ident, _⟩ => useIdent ident
  | ⟨.selector operand _, _⟩ => resolveExpr operand
  | ⟨.call ⟨callee, args, _, _⟩, _⟩ => do
      resolveExpr callee
      resolveExprs args
  | ⟨.star operand, _⟩ => resolveExpr operand
  | ⟨.unary _ operand, _⟩ => resolveExpr operand
  | ⟨.paren inner, _⟩ => resolveExpr inner
  | ⟨.binary left _ right, _⟩ => do
      resolveExpr left
      resolveExpr right
  | ⟨.index operand indices, _⟩ => do
      resolveExpr operand
      resolveExprs indices
  | ⟨.composite (some type) _, _⟩ => do
      let _ ← resolveType type
  | ⟨.func params results ⟨body, _, _⟩, _⟩ => do
      openBlock
      declareParams params
      resolveResults results
      resolveStmts body
      closeBlock
  | _ => return

def resolveExprs : List Expr → Resolve Unit
  | [] => return
  | expr :: exprs => do
      resolveExpr expr
      resolveExprs exprs

/-- Defines the names on the left of `:=`; other expressions are uses. -/
def defineExprs : List Expr → List (Option Ty) → Resolve Unit
  | [], _ => return
  | _, [] => return
  | expr :: exprs, type :: types => do
      match expr.ident? with
      | some ident => defineIdent ident type
      | none => resolveExpr expr
      defineExprs exprs types

def resolveStmt : Stmt → Resolve Unit
  | ⟨kind, _⟩ => resolveKind kind

def resolveKind : StmtKind → Resolve Unit
  | .expr value => resolveExpr value
  | .spawn call => resolveExpr call
  | .defer call => resolveExpr call
  | .assign left op right => do
      resolveExprs right
      match op with
      | .assign => resolveExprs left
      | .define => do
          let types := definedTypes (← get).info left right
          defineExprs left types
  | .ret results => resolveExprs results
  | .cond init test ⟨body, _, _⟩ alternative => do
      openBlock
      match init with
      | some stmt => resolveStmt stmt
      | none => pure ()
      resolveExpr test
      openBlock
      resolveStmts body
      closeBlock
      match alternative with
      | some stmt => resolveStmt stmt
      | none => pure ()
      closeBlock
  | .loop header ⟨body, _, _⟩ => do
      openBlock
      resolveHeader header
      openBlock
      resolveStmts body
      closeBlock
      closeBlock
  | .switch _ clauses _ => resolveClauses clauses
  | .select clauses _ => resolveClauses clauses
  | .block ⟨body, _, _⟩ => do
      openBlock
      resolveStmts body
      closeBlock
  | .labeled _ stmt => resolveStmt stmt
  | .decl ⟨_, specs⟩ => resolveSpecs specs
  | .verbatim _ => return

def resolveHeader : LoopHeader → Resolve Unit
  | .infinite => return
  | .cond test => resolveExpr test
  | .clauses _ => return
  | .range key value op operand => do
      resolveExpr operand
      match key with
      | some key => resolveTarget op key
      | none => pure ()
      match value with
      | some value => resolveTarget op value
      | none => pure ()

/-- What a range clause assigns to. -/
def resolveTarget (op : Option AssignOp) : Expr → Resolve Unit
  | ⟨.ident ident, _⟩ =>
      if op == some .define then declareLocal ident .variable none else useIdent ident
  | expr => resolveExpr expr

def resolveStmts : List Stmt → Resolve Unit
  | [] => return
  | stmt :: stmts => do
      resolveStmt stmt
      resolveStmts stmts

def resolveClauses : List Clause → Resolve Unit
  | [] => return
  | ⟨_, body, _, _⟩ :: clauses => do
      openBlock
      resolveStmts body
      closeBlock
      resolveClauses clauses

def resolveSpecs : List Spec → Resolve Unit
  | [] => return
  | .value names type values constant :: specs => do
      resolveExprs values
      declareValues names type values constant
      resolveSpecs specs
  | .type name _ _ :: specs => do
      declareTypeName name
      resolveSpecs specs

end

/-! ## Declarations of a package -/

def addMember (object : Object) : Resolve Nat := do
  let id ← addObject object
  modifyInfo (·.addMember object.package object.name id)
  return id

def declareFunc (decl : FuncDecl) : Resolve Unit := do
  let signature ← signature decl.params decl.results
  let package := (← get).package
  match decl.receiverType? with
  | some receiver =>
      match decl.receiverField? with
      | some field =>
          let _ ← resolveType field.type
      | none => pure ()
      modifyInfo (·.modifyType package receiver (·.addMethod decl.name.name signature))
  | none =>
      let id ← addMember
        { kind := .func, name := decl.name.name, package, type := some (.func signature) }
      modifyInfo (·.addUse decl.name id)

/-- What a type declaration adds to what is known of the type. -/
def typeDeclOf (name : String) (isAlias : Bool) (definition : TypeDef) (decl : TypeDecl) :
    Resolve TypeDecl := do
  match definition with
  | .struct fields =>
      let fields ← fields.mapM fun field => do
        return (field.name, ← resolveType field.type)
      return { decl with fields := decl.fields ++ fields }
  | .interface embeds methods =>
      let embeds ← embeds.mapM resolveType
      let decl := { decl with interface := true, embeds := decl.embeds ++ embeds }
      methods.foldlM (fun decl method => do
        return decl.addMethod method.name (← signature method.params method.results)) decl
  | .other type =>
      let underlying ← resolveType type
      let resolver ← get
      if isAlias then
        match (resolver.info.packages.get? resolver.package).bind (·.members.get? name) with
        | some id => modifyInfo (·.setObjectType id (some underlying))
        | none => pure ()
      let interface := resolver.info.isInterface underlying
      if isAlias || interface then
        return { decl with interface, embeds := decl.embeds ++ [underlying] }
      else return decl

def declareSpec (spec : Spec) : Resolve Unit := do
  let package := (← get).package
  match spec with
  | .type name isAlias definition =>
      let decl := ((← get).info.types.get? (package, name)).getD {}
      let decl ← typeDeclOf name isAlias definition decl
      modifyInfo (·.modifyType package name fun _ => decl)
  | .value names type _ constant =>
      let type ← type.mapM resolveType
      let kind := if constant then .constant else .variable
      (names.filter (!·.isBlank)).forM fun name => do
        let id ← addMember { kind, name := name.name, package, type }
        modifyInfo (·.addUse name id)

def declareFile (file : File) : Resolve Unit :=
  file.decls.forM fun decl =>
    match decl.kind with
    | .func func => declareFunc func
    | .gen gen => gen.specs.forM declareSpec
    | _ => return

/-! ## Bodies -/

def resolveFunc (decl : FuncDecl) : Resolve Unit := do
  match decl.body with
  | none => return
  | some body =>
      openBlock
      match decl.receiver with
      | some receiver => declareParams receiver
      | none => pure ()
      declareParams decl.params
      resolveResults decl.results
      resolveStmts body.stmts
      closeBlock

/-- Resolves the values of package variables, which give untyped ones their types. -/
def resolveSpec (spec : Spec) : Resolve Unit := do
  match spec with
  | .type _ _ _ => return
  | .value names type values _ =>
      resolveExprs values
      if type.isNone && values.length == names.length then
        (names.zip values).forM fun (name, value) => do
          let info := (← get).info
          match info.objectId? name with
          | some id => modifyInfo (·.setObjectType id (info.typeOf? value))
          | none => return

def resolveFile (file : File) : Resolve Unit :=
  file.decls.forM fun decl =>
    match decl.kind with
    | .func func => resolveFunc func
    | .gen gen => gen.specs.forM resolveSpec
    | _ => return

end Resolver

namespace Info

/-- Declares the type names of a package. -/
def declareTypeNames (info : Info) (source : PackageSource) : Info :=
  let specs := source.files.flatMap fun file => file.decls.flatMap fun decl =>
    match decl.kind with
    | .gen gen => gen.specs
    | _ => []
  specs.foldl (fun info spec =>
    match spec with
    | .type name _ _ =>
        let (info, id) := info.addObject
          { kind := .type, name, package := source.path, type := some (.named source.path name) }
        (info.addMember source.path name id).modifyType source.path name fun decl => decl
    | .value _ _ _ _ => info) info

/-- Runs a step on every file of the packages. -/
def forFiles (info : Info) (sources : List PackageSource) (step : File → Resolve Unit) : Info :=
  sources.foldl (fun info source =>
    source.files.foldl (fun info file =>
      ((step file).run (Resolver.forFile info source.path file)).2.info) info) info

/-- Resolves packages: their declarations first, then the bodies of their functions. -/
def check (info : Info) (sources : List PackageSource) : Info :=
  let info := sources.foldl (fun info source =>
    info.modifyPackage source.path fun package => { package with name := source.name }) info
  let info := sources.foldl declareTypeNames info
  let info := info.forFiles sources Resolver.declareFile
  info.forFiles sources Resolver.resolveFile

/-! ## Predeclared names and known packages -/

def addPredeclared (info : Info) (kind : ObjectKind) (name : String) (type : Option Ty) : Info :=
  let (info, id) := info.addObject { kind, name, package := "", type }
  { info with predeclared := info.predeclared.insert name id }

def constantType (name : String) : Option Ty :=
  if name == "true" || name == "false" then some (.named "" "bool")
  else if name == "iota" then some (.named "" "int")
  else none

def predeclaredNames : Info :=
  let info := Known.typeNames.foldl (fun info name =>
    info.addPredeclared .type name (some (.named "" name))) ({} : Info)
  let info := Known.functionNames.foldl (fun info name =>
    info.addPredeclared .func name none) info
  let info := Known.constantNames.foldl (fun info name =>
    info.addPredeclared .constant name (constantType name)) info
  info.modifyType "" "error" fun _ =>
    { methods := [("Error", { results := [.named "" "string"] })], interface := true }

/-- Reads the known packages and numbers their identifiers. -/
def knownSources : StateT Nat Option (List PackageSource) :=
  Known.packages.mapM fun (path, text) => do
    let file ← File.read? text
    return { path, name := file.package, files := [file] }

/-- The predeclared names with all that known packages declare, if these can be read. -/
def withKnown : Option (List PackageSource × Nat) → Info × Nat
  | some (sources, next) => (predeclaredNames.check sources, next)
  | none => (predeclaredNames, 1)

/-- Everything known before any application, and the next free number. -/
def known : Info × Nat := withKnown (knownSources.run 1)

end Info

end TraceWeave.Types
