/-!
Messages for the user, kept until the end of a run.
-/

namespace TraceWeave.Program

structure Console where
  messages : List String := []
  deriving DecidableEq, Repr, Inhabited

namespace Console

def info (console : Console) (text : String) : Console :=
  ⟨console.messages ++ ["[INFO] " ++ text]⟩

def warn (console : Console) (text : String) : Console :=
  ⟨console.messages ++ ["[WARN] " ++ text]⟩

/-- All messages, one to a line; they are gone afterwards. -/
def flush (console : Console) : String × Console :=
  (String.join (console.messages.map (· ++ "\n")), {})

end Console

end TraceWeave.Program
