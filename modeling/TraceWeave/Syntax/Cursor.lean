import TraceWeave.Syntax.Build

/-!
Walking along a list of statements and inserting into it.

Statements inserted before or after the current one are not visited; statements
inserted later on are visited when the walk reaches them.
-/

namespace TraceWeave.Syntax

structure Cursor where
  /-- The statements in front, the nearest one first. -/
  before : List Stmt
  current : Stmt
  rest : List Stmt
  /-- Statements to stand right behind the current one, in order. -/
  after : List Stmt := []

namespace Cursor

def index (cursor : Cursor) : Nat := cursor.before.length

/-- The statement in front of the current one, inserted ones included. -/
def previous? (cursor : Cursor) : Option Stmt := cursor.before.head?

def insertBefore (cursor : Cursor) (stmt : Stmt) : Cursor :=
  { cursor with before := stmt :: cursor.before }

def insertAfter (cursor : Cursor) (stmt : Stmt) : Cursor :=
  { cursor with after := cursor.after ++ [stmt] }

/-- Inserts behind the statement of the rest at the offset, or at the end. -/
def insertLater (cursor : Cursor) (offset : Nat) (stmt : Stmt) : Cursor :=
  { cursor with rest := cursor.rest.take (offset + 1) ++ stmt :: cursor.rest.drop (offset + 1) }

def replace (cursor : Cursor) (stmt : Stmt) : Cursor := { cursor with current := stmt }

def modify (f : Stmt → Stmt) (cursor : Cursor) : Cursor :=
  { cursor with current := f cursor.current }

/-- The list in front of the next visit, the nearest statement first. -/
def passed (cursor : Cursor) : List Stmt :=
  cursor.after.reverse ++ cursor.current :: cursor.before

/-- The whole list. -/
def toList (cursor : Cursor) : List Stmt := cursor.passed.reverse ++ cursor.rest

end Cursor

/-- Visits at most `limit` statements behind those already passed. -/
def walkFrom {m : Type → Type} [Monad m] (visit : Cursor → m Cursor) :
    Nat → List Stmt → List Stmt → m (List Stmt)
  | _, passed, [] => pure passed.reverse
  | 0, passed, rest => pure (passed.reverse ++ rest)
  | limit + 1, passed, current :: rest => do
      let cursor ← visit { before := passed, current, rest }
      walkFrom visit limit cursor.passed cursor.rest

/-- Visits the statements of a list in order, at most `limit` of them. -/
def walkList {m : Type → Type} [Monad m] (limit : Nat) (visit : Cursor → m Cursor)
    (stmts : List Stmt) : m (List Stmt) :=
  walkFrom visit limit [] stmts

end TraceWeave.Syntax
