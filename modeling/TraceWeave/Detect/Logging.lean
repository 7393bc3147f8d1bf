import TraceWeave.Agent.Integration
import TraceWeave.Detect.Calls
import TraceWeave.Syntax.Cursor
import TraceWeave.Tracing.Frame

/-!
Handlers of `log/slog`, which go through the agent's wrapper.
-/

namespace TraceWeave.Detect

open TraceWeave.Agent TraceWeave.Syntax TraceWeave.Tracing TraceWeave.Types

def makesHandler (info : Info) (expr : Expr) : Bool :=
  expr.call?.any (callsFunc info Path.logSlog ["NewTextHandler", "NewJSONHandler"])

/-- A new logger whose handler is made in place. -/
def makesLogger (info : Info) (call : Call) : Bool :=
  callsFunc info Path.logSlog ["New"] call && call.args.head?.any (makesHandler info)

/-- Wraps the handler that is the first argument of a call. -/
def wrapFirstArg (agent : Expr) (call : Call) : Call :=
  match call.args with
  | [] => call
  | handler :: args =>
      { call with args := { wrapLogHandler agent (bare handler) with decs := handler.decs } :: args }

/-- Wraps handlers in place. -/
def wrapInPlace (info : Info) (cursor : Cursor) : Trace Cursor := do
  match ← Trace.application with
  | none => return cursor
  | some agent =>
      Trace.needImport Path.nrslog
      return cursor.modify (mapOwnCalls false fun call =>
        if makesLogger info call then wrapFirstArg agent call else call)

/-- Renames an identifier in statements. -/
def renameIn (name target : String) (stmts : List Stmt) : List Stmt :=
  Id.run (editStmts (Edits.idents fun ident =>
    pure (if ident.name == name then { ident with name := target } else ident)) stmts)

/-- Wraps a handler that has just been bound; later statements use the wrapped one. -/
def wrapBound (handler : String) (cursor : Cursor) : Trace Cursor := do
  match ← Trace.application with
  | none => return cursor
  | some agent =>
      let target :=
        if (← get).isDeclared logHandlerVariable then
          logHandlerVariable ++ toString cursor.index
        else logHandlerVariable
      let wrap ← modifyGet (Frame.bind · target (wrapLogHandler agent (.ident handler)))
      let wrap := { wrap with decs := { wrap.decs with after := cursor.current.decs.after } }
      Trace.needImport Path.nrslog
      let cursor := cursor.modify fun stmt => { stmt with decs := stmt.decs.withoutAfter }
      return ({ cursor with rest := renameIn handler target cursor.rest }).insertAfter wrap

def wrapHandlers (cursor : Cursor) : Trace Cursor := do
  let info ← Trace.types
  if anyOwnCall (makesLogger info) cursor.current then wrapInPlace info cursor
  else
    match cursor.current.kind with
    | .assign [target] _ [value] =>
        match target.ident?.filter (!·.isBlank) with
        | none => return cursor
        | some handler =>
            let wrapped := cursor.rest.head?.any fun stmt =>
              stmt.ownExprs.any fun expr => (expr.parts false).any isLogHandlerWrapper
            if !makesHandler info value || wrapped then return cursor
            wrapBound handler.name cursor
    | _ => return cursor

end TraceWeave.Detect
