import TraceWeave.Syntax.Tree

/-!
Moving the room and the comments around statements that gain neighbours.
-/

namespace TraceWeave.Agent

open TraceWeave.Syntax

/--
Puts a statement between two new ones.  The first one takes over the band above
it, the last one the room behind it.
-/
def surround (first stmt last : Stmt) : Stmt × Stmt × Stmt :=
  ({ first with decs := { first.decs with
      before := stmt.decs.before, lead := stmt.decs.lead ++ first.decs.lead } },
   { stmt with decs := stmt.decs.withoutLead.withoutAfter },
   { last with decs := { last.decs with after := stmt.decs.after } })

/-- One statement to a line, and a blank line behind the last one. -/
def paragraph : List Stmt → List Stmt
  | [] => []
  | [stmt] => [{ stmt with decs := { onOwnLine stmt.decs with after := .blankLine } }]
  | stmt :: stmts => { stmt with decs := onOwnLine stmt.decs } :: paragraph stmts
where
  onOwnLine (decs : Decorations) : Decorations :=
    { decs with
      before := if decs.before == .blankLine then .blankLine else .newLine
      after := .sameLine }

end TraceWeave.Agent
