import TraceWeave.Program.Fact

/-!
Why a run fails, and how it says so.
-/

namespace TraceWeave.Program

/-- Why a file cannot be parsed. -/
inductive ParseError where
  | syntaxError (line column : Nat)
  | noTree
  deriving DecidableEq, Repr

def ParseError.message : ParseError → String
  | .syntaxError line column =>
      "syntax error at line " ++ toString line ++ ", column " ++ toString column
  | .noTree => "the parser produced no syntax tree"

inductive Failure where
  | notADirectory (path : String)
  | noEntryPoint
  | facts (errors : List FactError)
  /-- The reason is absent if all that is known is that the file is no program text. -/
  | parse (path : String) (reason : Option ParseError)
  | read (path detail : String)
  | write (detail : String)
  | walk (detail : String)
  | moduleResolver (command detail : String)
  | combined (failures : List Failure)

instance : Inhabited Failure := ⟨.noEntryPoint⟩

namespace Failure

mutual

def message : Failure → String
  | .notADirectory path => "application path " ++ path ++ " does not exist or is not a directory"
  | .noEntryPoint =>
      "no main function found in the application; cannot decide where to start tracing"
  | .facts errors => "fact discovery failed: " ++ "; ".intercalate (errors.map FactError.message)
  | .parse path reason =>
      "failed to parse " ++ path ++
        (match reason with
          | some reason => ": " ++ reason.message
          | none => "")
  | .read path detail => "failed to read " ++ path ++ ": " ++ detail
  | .write detail => "failed to write patch: " ++ detail
  | .walk detail => "failed to walk application sources: " ++ detail
  | .moduleResolver command detail => "\x60" ++ command ++ "\x60 failed: " ++ detail
  | .combined failures => "; ".intercalate (messages failures)

def messages : List Failure → List String
  | [] => []
  | failure :: failures => failure.message :: messages failures

end

/-- What lies behind a failure, for those that wrap another one. -/
def cause? : Failure → Option String
  | .parse _ reason => reason.map ParseError.message
  | .read _ detail => some detail
  | .write detail => some detail
  | .walk detail => some detail
  | _ => none

/-- The message, followed by the cause. -/
def fullMessage (failure : Failure) : String :=
  match failure.cause? with
  | some cause => failure.message ++ ": " ++ cause
  | none => failure.message

/-- Joins failures; a single one stays as it is. -/
def combine? : List Failure → Option Failure
  | [] => none
  | [failure] => some failure
  | failures => some (.combined failures)

end Failure

end TraceWeave.Program
