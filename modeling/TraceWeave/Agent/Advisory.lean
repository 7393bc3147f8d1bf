import TraceWeave.Syntax.Tree

/-!
Advisories: comments above statements that cannot be instrumented safely.
-/

namespace TraceWeave.Agent

open TraceWeave.Syntax

inductive AdvisoryLevel where
  | warning
  | info
  deriving DecidableEq, Repr

/-- The mark that an advisory of the level starts with. -/
def AdvisoryLevel.mark : AdvisoryLevel → String
  | .warning => "NR-WARNING"
  | .info => "NR-INFO"

structure Advisory where
  level : AdvisoryLevel
  message : String
  /-- Where the reader finds more. -/
  url : String
  deriving DecidableEq, Repr

namespace Advisory

/-- The comment lines: the marked message, then the link. -/
def lines (advisory : Advisory) : List String :=
  ["// " ++ advisory.level.mark ++ ": " ++ advisory.message, "// " ++ advisory.url]

/-! ## The advisories -/

def transactionsUrl : String :=
  "https://docs.newrelic.com/docs/apm/agents/go-agent/instrumentation/instrument-go-transactions/"

def goroutinesUrl : String := transactionsUrl ++ "#goroutines"

def errorsUrl : String :=
  "https://docs.newrelic.com/docs/apm/agents/go-agent/instrumentation/instrument-go-errors/"

def externalSegmentsUrl : String :=
  "https://docs.newrelic.com/docs/apm/agents/go-agent/instrumentation/" ++
    "instrument-go-segments/#external-segments"

def uncheckedError : Advisory where
  level := .warning
  message := "The error returned here is discarded, so it will not be reported to New Relic."
  url := errorsUrl

def expectedError : Advisory where
  level := .warning
  message := "This check may treat an expected error as success; " ++
    "report unexpected values with txn.NoticeError."
  url := errorsUrl

def unknownError : Advisory where
  level := .warning
  message := "Errors handled by this switch are not captured automatically; " ++
    "call txn.NoticeError in the relevant cases."
  url := errorsUrl

def goroutineInMain : Advisory where
  level := .info
  message := "Goroutines started in main are not instrumented automatically; " ++
    "pass them a transaction with txn.NewGoroutine()."
  url := goroutinesUrl

def anonymousHandler : Advisory where
  level := .info
  message := "The body of this anonymous handler is not traced; " ++
    "move it into a named function to instrument it."
  url := transactionsUrl

def contextWrapped : Advisory where
  level := .info
  message := "This context did not carry the current transaction, so it was wrapped with one."
  url := transactionsUrl

/-- For requests that no request value stands for, so that the agent cannot observe them. -/
def httpHelper : Advisory where
  level := .warning
  message := "Requests sent with net/http helper functions cannot be instrumented; " ++
    "build one with http.NewRequest and send it with a client's Do method."
  url := externalSegmentsUrl

end Advisory

/-! ## Attaching -/

/--
Puts lines above the comments of a node, with a bare `//` in front of older
comments.  There is nothing to do when the first line is attached already.
-/
def attachLines? (lines : List String) (decs : Decorations) : Option Decorations :=
  match lines with
  | [] => none
  | first :: _ =>
      if decs.lead.contains first then none
      else
        let separator := if decs.lead.isEmpty then [] else ["//"]
        some { decs with lead := lines ++ separator ++ decs.lead }

def Advisory.attach? (advisory : Advisory) (stmt : Stmt) : Option Stmt :=
  (attachLines? advisory.lines stmt.decs).map fun decs => { stmt with decs }

end TraceWeave.Agent
