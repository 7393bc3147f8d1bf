/-!
Names that instrumented code is written with: import paths, package names and
variables.
-/

namespace TraceWeave.Agent

/-! ## Variables -/

/-- The variable of the agent application, if the user chooses no other. -/
def defaultAgentVariable : String := "NewRelicAgent"

def transactionVariable : String := "nrTxn"

def externalSegmentVariable : String := "externalSegment"

def contextVariable : String := "ctx"

def logHandlerVariable : String := "nrHandler"

/-- The file that a patch goes to, if the user chooses no other. -/
def defaultPatchFile : String := "new-relic-instrumentation.diff"

/-! ## Import paths -/

namespace Path

def newrelic : String := "github.com/newrelic/go-agent/v3/newrelic"

def nrgin : String := "github.com/newrelic/go-agent/v3/integrations/nrgin"

def nrgorilla : String := "github.com/newrelic/go-agent/v3/integrations/nrgorilla"

def nrgrpc : String := "github.com/newrelic/go-agent/v3/integrations/nrgrpc"

def nrslog : String := "github.com/newrelic/go-agent/v3/integrations/logcontext-v2/nrslog"

def context : String := "context"

def time : String := "time"

def netHttp : String := "net/http"

def databaseSql : String := "database/sql"

def logSlog : String := "log/slog"

def gin : String := "github.com/gin-gonic/gin"

def gorillaMux : String := "github.com/gorilla/mux"

def grpc : String := "google.golang.org/grpc"

end Path

/-- The packages that instrumented code refers to, each with its name. -/
def packageNames : List (String × String) :=
  [(Path.newrelic, "newrelic"), (Path.nrgin, "nrgin"), (Path.nrgorilla, "nrgorilla"),
   (Path.nrgrpc, "nrgrpc"), (Path.nrslog, "nrslog"), (Path.context, "context"),
   (Path.time, "time")]

/-- The name that instrumented code uses for an import path; an unknown path stands for itself. -/
def packageName (path : String) : String := (packageNames.lookup path).getD path

end TraceWeave.Agent
