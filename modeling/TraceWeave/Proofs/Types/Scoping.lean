import TraceWeave.Types.Resolve

/-!
Lexical scoping.

Reading a body is a row of events: blocks are entered and left, names are declared and used.
`eventsOfStmt` puts them in the order in which they count, so that the right side of a
definition stands in front of its names, and parameters stand in the block of the body.
`Scopes` says which declarations can be seen behind a row of events: those of the blocks that
are still open.  A use refers to the latest one of its name in the innermost block that has
one (`Scopes.find?`).
-/

namespace TraceWeave.Types

open TraceWeave.Syntax

/-! ## Events -/

/-- What happens to names while a body is read. -/
inductive Event where
  | enter
  | leave
  | use (ident : Ident)
  | declare (ident : Ident) (kind : ObjectKind)
  /-- A name on the left of `:=`. -/
  | define (ident : Ident)
  | declareType (name : String)

namespace Event

def ident? : Event → Option Ident
  | .use ident => some ident
  | .declare ident _ => some ident
  | .define ident => some ident
  | _ => none

end Event

/-- The identifiers of events, in order. -/
def identsOf (events : List Event) : List Ident := events.filterMap Event.ident?

mutual

/-- A type holds names where it names types; the rest of it is text. -/
def eventsOfType : Expr → List Event
  | ⟨.ident ident, _⟩ => [.use ident]
  | ⟨.selector operand _, _⟩ => operand.ident?.toList.map .use
  | ⟨.star operand, _⟩ => eventsOfType operand
  | ⟨.paren inner, _⟩ => eventsOfType inner
  | ⟨.index operand indices, _⟩ => eventsOfTypes indices ++ eventsOfType operand
  | _ => []

def eventsOfTypes : List Expr → List Event
  | [] => []
  | type :: types => eventsOfType type ++ eventsOfTypes types

end

def eventsOfParams (params : FieldList) : List Event :=
  params.fields.flatMap fun field =>
    eventsOfType field.type ++ field.names.map (.declare · .variable)

/-- Results are kept as text together with their types, so that no name of theirs is declared. -/
def eventsOfResults (results : Option Results) : List Event :=
  ((results.map (·.types)).getD []).flatMap eventsOfType

/-- The names of a `var` or `const` declaration stand behind its values and its type. -/
def eventsOfNames (names : List Ident) (type : Option Expr) (constant : Bool) : List Event :=
  type.toList.flatMap eventsOfType ++
    names.map (.declare · (if constant then .constant else .variable))

mutual

def eventsOfExpr : Expr → List Event
  | ⟨.ident ident, _⟩ => [.use ident]
  | ⟨.selector operand _, _⟩ => eventsOfExpr operand
  | ⟨.call ⟨callee, args, _, _⟩, _⟩ => eventsOfExpr callee ++ eventsOfExprs args
  | ⟨.star operand, _⟩ => eventsOfExpr operand
  | ⟨.unary _ operand, _⟩ => eventsOfExpr operand
  | ⟨.paren inner, _⟩ => eventsOfExpr inner
  | ⟨.binary left _ right, _⟩ => eventsOfExpr left ++ eventsOfExpr right
  | ⟨.index operand indices, _⟩ => eventsOfExpr operand ++ eventsOfExprs indices
  | ⟨.composite (some type) _, _⟩ => eventsOfType type
  | ⟨.func params results ⟨body, _, _⟩, _⟩ =>
      .enter :: (eventsOfParams params ++ (eventsOfResults results ++
        (eventsOfStmts body ++ [.leave])))
  | _ => []

def eventsOfExprs : List Expr → List Event
  | [] => []
  | expr :: exprs => eventsOfExpr expr ++ eventsOfExprs exprs

/-- The left side of a definition. -/
def eventsOfDefined : List Expr → List Event
  | [] => []
  | expr :: exprs =>
      (match expr.ident? with
        | some ident => [.define ident]
        | none => eventsOfExpr expr) ++ eventsOfDefined exprs

def eventsOfStmt : Stmt → List Event
  | ⟨kind, _⟩ => eventsOfKind kind

def eventsOfKind : StmtKind → List Event
  | .expr value => eventsOfExpr value
  | .spawn call => eventsOfExpr call
  | .defer call => eventsOfExpr call
  | .assign left .assign right => eventsOfExprs right ++ eventsOfExprs left
  | .assign left .define right => eventsOfExprs right ++ eventsOfDefined left
  | .ret results => eventsOfExprs results
  -- the branches stand in the block of the condition
  | .cond init test ⟨body, _, _⟩ alternative =>
      .enter :: (eventsOfOptional init ++ (eventsOfExpr test ++
        (.enter :: (eventsOfStmts body ++ (.leave :: (eventsOfOptional alternative ++ [.leave]))))))
  | .loop header ⟨body, _, _⟩ =>
      .enter :: (eventsOfHeader header ++ (.enter :: (eventsOfStmts body ++ [.leave, .leave])))
  | .switch _ clauses _ => eventsOfClauses clauses
  | .select clauses _ => eventsOfClauses clauses
  | .block ⟨body, _, _⟩ => .enter :: (eventsOfStmts body ++ [.leave])
  | .labeled _ stmt => eventsOfStmt stmt
  | .decl ⟨_, specs⟩ => eventsOfSpecs specs
  | .verbatim _ => []

def eventsOfOptional : Option Stmt → List Event
  | none => []
  | some stmt => eventsOfStmt stmt

def eventsOfHeader : LoopHeader → List Event
  | .infinite => []
  | .cond test => eventsOfExpr test
  | .clauses _ => []
  | .range key value op operand =>
      eventsOfExpr operand ++ (eventsOfTarget op key ++ eventsOfTarget op value)

/-- What a range clause assigns to. -/
def eventsOfTarget (op : Option AssignOp) : Option Expr → List Event
  | none => []
  | some ⟨.ident ident, _⟩ =>
      [if op == some .define then .declare ident .variable else .use ident]
  | some expr => eventsOfExpr expr

def eventsOfStmts : List Stmt → List Event
  | [] => []
  | stmt :: stmts => eventsOfStmt stmt ++ eventsOfStmts stmts

def eventsOfClauses : List Clause → List Event
  | [] => []
  | ⟨_, body, _, _⟩ :: clauses =>
      .enter :: (eventsOfStmts body ++ (.leave :: eventsOfClauses clauses))

def eventsOfSpecs : List Spec → List Event
  | [] => []
  | .value names type values constant :: specs =>
      eventsOfExprs values ++ (eventsOfNames names type constant ++ eventsOfSpecs specs)
  | .type name _ _ :: specs => .declareType name :: eventsOfSpecs specs

end

/-- The receiver, the parameters and the body share one block. -/
def eventsOfFunc (decl : FuncDecl) : List Event :=
  match decl.body with
  | none => []
  | some body =>
      .enter :: ((decl.receiver.map eventsOfParams).getD [] ++ (eventsOfParams decl.params ++
        (eventsOfResults decl.results ++ (eventsOfStmts body.stmts ++ [.leave]))))

/-- Of package variables the values are read together with the bodies. -/
def eventsOfValues : Spec → List Event
  | .value _ _ values _ => eventsOfExprs values
  | .type _ _ _ => []

def eventsOfDecl (decl : Decl) : List Event :=
  match decl.kind with
  | .func func => eventsOfFunc func
  | .gen gen => gen.specs.flatMap eventsOfValues
  | _ => []

def eventsOfFile (file : File) : List Event := file.decls.flatMap eventsOfDecl

/-! ## Balanced events -/

/-- Every block that is entered is left, and no other one is. -/
inductive Balanced : List Event → Prop where
  | nil : Balanced []
  | use (ident : Ident) : Balanced [.use ident]
  | declare (ident : Ident) (kind : ObjectKind) : Balanced [.declare ident kind]
  | define (ident : Ident) : Balanced [.define ident]
  | declareType (name : String) : Balanced [.declareType name]
  | block {events : List Event} : Balanced events → Balanced (.enter :: (events ++ [.leave]))
  | append {first second : List Event} : Balanced first → Balanced second →
      Balanced (first ++ second)

namespace Balanced

theorem enclosed {events rest : List Event} (h : Balanced events) (hrest : Balanced rest) :
    Balanced (.enter :: (events ++ (.leave :: rest))) := by
  have hblock := h.block.append hrest
  simpa using hblock

theorem flatMap {α : Type} {events : α → List Event} {list : List α}
    (h : ∀ a ∈ list, Balanced (events a)) : Balanced (list.flatMap events) := by
  induction list with
  | nil => exact .nil
  | cons a list ih =>
      obtain ⟨hfirst, hlist⟩ := List.forall_mem_cons.1 h
      exact hfirst.append (ih hlist)

theorem map {α : Type} {event : α → Event} (h : ∀ a, Balanced [event a]) (list : List α) :
    Balanced (list.map event) := by
  rw [List.map_eq_flatMap]
  exact flatMap fun a _ => h a

end Balanced

mutual

theorem balanced_eventsOfType : ∀ type : Expr, Balanced (eventsOfType type)
  | ⟨.ident ident, decs⟩ => by
      rw [eventsOfType]
      exact .use ident
  | ⟨.selector operand member, decs⟩ => by
      rw [eventsOfType]
      exact .map .use _
  | ⟨.star operand, decs⟩ => by
      rw [eventsOfType]
      exact balanced_eventsOfType operand
  | ⟨.paren inner, decs⟩ => by
      rw [eventsOfType]
      exact balanced_eventsOfType inner
  | ⟨.index operand indices, decs⟩ => by
      rw [eventsOfType]
      exact (balanced_eventsOfTypes indices).append (balanced_eventsOfType operand)
  | ⟨.literal text, decs⟩ => .nil
  | ⟨.call call, decs⟩ => .nil
  | ⟨.unary op operand, decs⟩ => .nil
  | ⟨.binary left op right, decs⟩ => .nil
  | ⟨.composite type body, decs⟩ => .nil
  | ⟨.func params results body, decs⟩ => .nil
  | ⟨.verbatim text, decs⟩ => .nil

theorem balanced_eventsOfTypes : ∀ types : List Expr, Balanced (eventsOfTypes types)
  | [] => .nil
  | type :: types => by
      rw [eventsOfTypes]
      exact (balanced_eventsOfType type).append (balanced_eventsOfTypes types)

end

theorem balanced_eventsOfParams (params : FieldList) : Balanced (eventsOfParams params) :=
  .flatMap fun field _ => (balanced_eventsOfType field.type).append (.map (.declare · _) _)

theorem balanced_eventsOfResults (results : Option Results) : Balanced (eventsOfResults results) :=
  .flatMap fun type _ => balanced_eventsOfType type

theorem balanced_eventsOfNames (names : List Ident) (type : Option Expr) (constant : Bool) :
    Balanced (eventsOfNames names type constant) :=
  (Balanced.flatMap fun type _ => balanced_eventsOfType type).append (.map (.declare · _) _)

mutual

theorem balanced_eventsOfExpr : ∀ expr : Expr, Balanced (eventsOfExpr expr)
  | ⟨.ident ident, decs⟩ => by
      rw [eventsOfExpr]
      exact .use ident
  | ⟨.selector operand member, decs⟩ => by
      rw [eventsOfExpr]
      exact balanced_eventsOfExpr operand
  | ⟨.call ⟨callee, args, spread, closesLine⟩, decs⟩ => by
      rw [eventsOfExpr]
      exact (balanced_eventsOfExpr callee).append (balanced_eventsOfExprs args)
  | ⟨.star operand, decs⟩ => by
      rw [eventsOfExpr]
      exact balanced_eventsOfExpr operand
  | ⟨.unary op operand, decs⟩ => by
      rw [eventsOfExpr]
      exact balanced_eventsOfExpr operand
  | ⟨.paren inner, decs⟩ => by
      rw [eventsOfExpr]
      exact balanced_eventsOfExpr inner
  | ⟨.binary left op right, decs⟩ => by
      rw [eventsOfExpr]
      exact (balanced_eventsOfExpr left).append (balanced_eventsOfExpr right)
  | ⟨.index operand indices, decs⟩ => by
      rw [eventsOfExpr]
      exact (balanced_eventsOfExpr operand).append (balanced_eventsOfExprs indices)
  | ⟨.composite (some type) body, decs⟩ => by
      rw [eventsOfExpr]
      exact balanced_eventsOfType type
  | ⟨.composite none body, decs⟩ => .nil
  | ⟨.func params results ⟨body, trailing, inline⟩, decs⟩ => by
      rw [eventsOfExpr]
      have hbody := ((balanced_eventsOfParams params).append
        ((balanced_eventsOfResults results).append (balanced_eventsOfStmts body))).block
      simpa using hbody
  | ⟨.literal text, decs⟩ => .nil
  | ⟨.verbatim text, decs⟩ => .nil

theorem balanced_eventsOfExprs : ∀ exprs : List Expr, Balanced (eventsOfExprs exprs)
  | [] => .nil
  | expr :: exprs => by
      rw [eventsOfExprs]
      exact (balanced_eventsOfExpr expr).append (balanced_eventsOfExprs exprs)

theorem balanced_eventsOfDefined : ∀ exprs : List Expr, Balanced (eventsOfDefined exprs)
  | [] => .nil
  | expr :: exprs => by
      rw [eventsOfDefined]
      split
      · exact (Balanced.define _).append (balanced_eventsOfDefined exprs)
      · exact (balanced_eventsOfExpr expr).append (balanced_eventsOfDefined exprs)

theorem balanced_eventsOfStmt : ∀ stmt : Stmt, Balanced (eventsOfStmt stmt)
  | ⟨kind, decs⟩ => by
      rw [eventsOfStmt]
      exact balanced_eventsOfKind kind

theorem balanced_eventsOfKind : ∀ kind : StmtKind, Balanced (eventsOfKind kind)
  | .expr value => by
      rw [eventsOfKind]
      exact balanced_eventsOfExpr value
  | .spawn call => by
      rw [eventsOfKind]
      exact balanced_eventsOfExpr call
  | .defer call => by
      rw [eventsOfKind]
      exact balanced_eventsOfExpr call
  | .assign left .assign right => by
      rw [eventsOfKind]
      exact (balanced_eventsOfExprs right).append (balanced_eventsOfExprs left)
  | .assign left .define right => by
      rw [eventsOfKind]
      exact (balanced_eventsOfExprs right).append (balanced_eventsOfDefined left)
  | .ret results => by
      rw [eventsOfKind]
      exact balanced_eventsOfExprs results
  | .cond init test ⟨body, trailing, inline⟩ alternative => by
      rw [eventsOfKind]
      have hall := ((balanced_eventsOfOptional init).append ((balanced_eventsOfExpr test).append
        ((balanced_eventsOfStmts body).enclosed (balanced_eventsOfOptional alternative)))).block
      simpa using hall
  | .loop header ⟨body, trailing, inline⟩ => by
      rw [eventsOfKind]
      have hall := ((balanced_eventsOfHeader header).append (balanced_eventsOfStmts body).block).block
      simpa using hall
  | .switch header clauses trailing => by
      rw [eventsOfKind]
      exact balanced_eventsOfClauses clauses
  | .select clauses trailing => by
      rw [eventsOfKind]
      exact balanced_eventsOfClauses clauses
  | .block ⟨body, trailing, inline⟩ => by
      rw [eventsOfKind]
      exact (balanced_eventsOfStmts body).block
  | .labeled label stmt => by
      rw [eventsOfKind]
      exact balanced_eventsOfStmt stmt
  | .decl ⟨text, specs⟩ => by
      rw [eventsOfKind]
      exact balanced_eventsOfSpecs specs
  | .verbatim text => by
      rw [eventsOfKind]
      exact .nil

theorem balanced_eventsOfOptional : ∀ stmt : Option Stmt, Balanced (eventsOfOptional stmt)
  | none => .nil
  | some stmt => by
      rw [eventsOfOptional]
      exact balanced_eventsOfStmt stmt

theorem balanced_eventsOfHeader : ∀ header : LoopHeader, Balanced (eventsOfHeader header)
  | .infinite => .nil
  | .cond test => by
      rw [eventsOfHeader]
      exact balanced_eventsOfExpr test
  | .clauses text => .nil
  | .range key value op operand => by
      rw [eventsOfHeader]
      exact (balanced_eventsOfExpr operand).append
        ((balanced_eventsOfTarget op key).append (balanced_eventsOfTarget op value))

theorem balanced_eventsOfTarget (op : Option AssignOp) :
    ∀ target : Option Expr, Balanced (eventsOfTarget op target)
  | none => .nil
  | some expr => by
      rw [eventsOfTarget.eq_def]
      split
      · contradiction
      · split
        · exact .declare _ _
        · exact .use _
      · next expr' heq =>
        obtain rfl := Option.some.inj heq
        exact balanced_eventsOfExpr expr

theorem balanced_eventsOfStmts : ∀ stmts : List Stmt, Balanced (eventsOfStmts stmts)
  | [] => .nil
  | stmt :: stmts => by
      rw [eventsOfStmts]
      exact (balanced_eventsOfStmt stmt).append (balanced_eventsOfStmts stmts)

theorem balanced_eventsOfClauses : ∀ clauses : List Clause, Balanced (eventsOfClauses clauses)
  | [] => .nil
  | ⟨head, body, trailing, decs⟩ :: clauses => by
      rw [eventsOfClauses]
      exact (balanced_eventsOfStmts body).enclosed (balanced_eventsOfClauses clauses)

theorem balanced_eventsOfSpecs : ∀ specs : List Spec, Balanced (eventsOfSpecs specs)
  | [] => .nil
  | .value names type values constant :: specs => by
      rw [eventsOfSpecs]
      exact (balanced_eventsOfExprs values).append
        ((balanced_eventsOfNames names type constant).append (balanced_eventsOfSpecs specs))
  | .type name isAlias definition :: specs => by
      rw [eventsOfSpecs]
      exact (Balanced.declareType name).append (balanced_eventsOfSpecs specs)

end

theorem balanced_eventsOfDecl (decl : Decl) : Balanced (eventsOfDecl decl) := by
  obtain ⟨kind, decs⟩ := decl
  cases kind with
  | func func =>
      change Balanced (eventsOfFunc func)
      unfold eventsOfFunc
      split
      · exact .nil
      · next body hbody =>
        have hreceiver : Balanced ((func.receiver.map eventsOfParams).getD []) := by
          cases func.receiver with
          | none => exact .nil
          | some receiver => exact balanced_eventsOfParams receiver
        have hblock := (hreceiver.append ((balanced_eventsOfParams func.params).append
          ((balanced_eventsOfResults func.results).append (balanced_eventsOfStmts body.stmts)))).block
        simpa using hblock
  | gen gen =>
      refine .flatMap fun spec _ => ?_
      cases spec with
      | type name isAlias definition => exact .nil
      | value names type values constant => exact balanced_eventsOfExprs values
  | imports specs => exact .nil
  | verbatim text => exact .nil

/-! ## Scopes -/

/-- The declarations that can be seen behind a row of events. -/
structure Scopes where
  /--
  The open blocks, the innermost one first, each with the names that it declares, the latest
  one first.  A declaration is told by its number among all declarations of the row.
  -/
  blocks : List (List (String × Nat)) := []
  /-- All declarations of the row, the earliest one first. -/
  declared : List (ObjectKind × String) := []

namespace Scopes

/-- The latest declaration of a name in the innermost open block that has one. -/
def find? (scopes : Scopes) (name : String) : Option Nat :=
  scopes.blocks.findSome? (·.lookup name)

/-- The latest declaration of a name in the innermost open block. -/
def here? (scopes : Scopes) (name : String) : Option Nat :=
  scopes.blocks.head?.bind (·.lookup name)

/-- Declares a name in the innermost open block. -/
def declare (scopes : Scopes) (kind : ObjectKind) (name : String) : Scopes where
  blocks := scopes.blocks.modifyHead ((name, scopes.declared.length) :: ·)
  declared := scopes.declared ++ [(kind, name)]

/-- The blank identifier declares nothing, and neither do generated ones. -/
def declareIdent (scopes : Scopes) (kind : ObjectKind) (ident : Ident) : Scopes :=
  if ident.isBlank || ident.isGenerated then scopes else scopes.declare kind ident.name

/-- A `:=` declares the names that its block does not have yet. -/
def step (scopes : Scopes) : Event → Scopes
  | .enter => { scopes with blocks := [] :: scopes.blocks }
  | .leave => { scopes with blocks := scopes.blocks.tail }
  | .use _ => scopes
  | .declare ident kind => scopes.declareIdent kind ident
  | .define ident =>
      match scopes.here? ident.name with
      | some _ => scopes
      | none => scopes.declareIdent .variable ident
  | .declareType name => scopes.declare .type name

/-- The declaration that the identifier of an event stands for. -/
def target? (scopes : Scopes) : Event → Option Nat
  | .use ident => scopes.find? ident.name
  | .declare _ _ => some scopes.declared.length
  | .define ident => some ((scopes.here? ident.name).getD scopes.declared.length)
  | _ => none

end Scopes

def scopesBehind (events : List Event) : Scopes := events.foldl Scopes.step {}

end TraceWeave.Types
