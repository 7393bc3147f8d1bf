import TraceWeave.Tracing.Frame
import TraceWeave.Syntax.Cursor

/-!
Errors inside traced functions.

An error that a call yields is reported where the next statement, or the
conditional itself, finds that there is one.  Checks that cannot be followed
get an advisory.
-/

namespace TraceWeave.Detect

open TraceWeave.Agent TraceWeave.Syntax TraceWeave.Tracing TraceWeave.Types

/-! ## Where a call leaves its error -/

/--
The targets of an assignment that receive an error: told by the result types, or
by the usual name where these do not match the targets.
-/
def errorTargets (info : Info) (stmt : Stmt) : List Expr :=
  match stmt.kind with
  | .assign left _ [value] =>
      match value.call? with
      | none => []
      | some call =>
          let results := info.resultsOf call
          if results.length == left.length then
            (left.zip results).filterMap fun (target, type) =>
              if type.isError then some target else none
          else left.filter (·.isIdent "err")
  | _ => []

inductive CaughtError where
  /-- All errors go to the blank name. -/
  | discarded
  | bound (err : Expr)

def caughtError? (info : Info) (stmt : Stmt) : Option CaughtError :=
  let targets := (errorTargets info stmt).filter (·.ident?.isSome)
  match targets.find? fun target => !target.isIdent "_" with
  | some target => some (.bound (bare target))
  | none => if targets.isEmpty then none else some .discarded

/-! ## How an error is checked -/

/-- `err != nil` -/
def isErrorCheck (test err : Expr) : Bool :=
  match test.unparen.kind with
  | .binary left op right => op == "!=" && left.same err && right.isNil
  | _ => false

/-- `err == …`, `err != …` but not against `nil`, `errors.Is(err, …)`, and negations of these. -/
def isExpectedCheck (err : Expr) : Expr → Bool
  | ⟨.paren inner, _⟩ => isExpectedCheck err inner
  | ⟨.unary op operand, _⟩ => op == "!" && isExpectedCheck err operand
  | ⟨.binary left op right, _⟩ =>
      (op == "==" || op == "!=") && left.same err && (op == "==" || !right.isNil)
  | ⟨.call call, _⟩ =>
      isQualified call.callee "errors" "Is" && call.args.head?.any (·.same err)
  | _ => false

/-- Letters, digits and underscores of ASCII, where a digit does not start a word. -/
def wordsFrom : List Char → List Char → List String
  | word, [] => flush word
  | [], c :: cs => if c.isAlpha || c == '_' then wordsFrom [c] cs else wordsFrom [] cs
  | word, c :: cs =>
      if c.isAlphanum || c == '_' then wordsFrom (c :: word) cs
      else flush word ++ wordsFrom [] cs
where
  flush (word : List Char) : List String :=
    if word.isEmpty then [] else [String.ofList word.reverse]

/-- The text has the name as a word of its own. -/
def hasWord (text name : String) : Bool := (wordsFrom [] text.toList).contains name

/-! ## Reporting -/

/-- Reports the error at the start of a branch, unless the branch does so. -/
def noticeInBranch (err : Expr) (body : Block) : Trace Block := do
  if callsNoticeError body.stmts then return body
  match ← Trace.transaction with
  | none => return body
  | some txn => return { body with stmts := noticeError err txn :: body.stmts, inline := false }

/-- Looks for the check of an error in the statement behind the call. -/
def noticeInNext (err : Expr) (stmt : Stmt) : Trace Stmt := do
  match stmt.kind with
  | .cond none test body alternative =>
      if isErrorCheck test err then
        let body ← noticeInBranch err body
        return { stmt with kind := .cond none test body alternative }
      else if isExpectedCheck err test then Trace.attach .expectedError stmt
      else return stmt
  | .switch (some header) _ _ =>
      if hasWord header err.text then Trace.attach .unknownError stmt else return stmt
  | _ => return stmt

def noticeErrors (cursor : Cursor) : Trace Cursor := do
  let info ← Trace.types
  match cursor.current.kind with
  | .cond init test body alternative =>
      match init.bind (caughtError? info) with
      | some (.bound err) =>
          if isErrorCheck test err then
            let body ← noticeInBranch err body
            return cursor.modify fun stmt => { stmt with kind := .cond init test body alternative }
          else return cursor
      | _ => return cursor
  | _ =>
      match caughtError? info cursor.current with
      | none => return cursor
      | some .discarded => return cursor.replace (← Trace.attach .uncheckedError cursor.current)
      | some (.bound err) =>
          match cursor.rest with
          | [] => return cursor
          | next :: rest => return { cursor with rest := (← noticeInNext err next) :: rest }

end TraceWeave.Detect
