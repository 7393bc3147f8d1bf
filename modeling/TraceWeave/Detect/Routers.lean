import TraceWeave.Agent.Integration
import TraceWeave.Detect.Calls
import TraceWeave.Syntax.Cursor
import TraceWeave.Tracing.Frame

/-!
Routers that the agent has middleware for.
-/

namespace TraceWeave.Detect

open TraceWeave.Agent TraceWeave.Syntax TraceWeave.Tracing TraceWeave.Types

/-- Functions that make a router: package, name, and the package of the middleware. -/
def routers : List (String × String × String) :=
  [(Path.gin, "Default", Path.nrgin), (Path.gin, "New", Path.nrgin),
   (Path.gorillaMux, "NewRouter", Path.nrgorilla)]

/-- The package of the middleware for the router that a call makes. -/
def middlewareFor? (info : Info) (call : Call) : Option String :=
  (info.callee? call).bind fun callee =>
    routers.findSome? fun (package, name, middleware) =>
      if callee.isFunc package name then some middleware else none

/-- Installs the middleware on a router that has just been made. -/
def installMiddleware (cursor : Cursor) : Trace Cursor := do
  match cursor.current.kind with
  | .assign [router] _ [value] =>
      match value.call?.bind (middlewareFor? (← Trace.types)) with
      | none => return cursor
      | some path =>
          let name := packageName path
          if router.ident?.all (·.isBlank) || cursor.rest.any (isMiddlewareUse name) then
            return cursor
          match ← Trace.application with
          | none => return cursor
          | some agent =>
              let use := useMiddleware (bare router) name agent
              let use := { use with decs := { use.decs with after := cursor.current.decs.after } }
              Trace.needImport path
              return (cursor.modify fun stmt =>
                { stmt with decs := stmt.decs.withoutAfter }).insertAfter use
  | _ => return cursor

end TraceWeave.Detect
