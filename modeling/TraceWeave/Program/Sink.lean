import TraceWeave.Program.Failure

/-!
Where patches are written to.
-/

namespace TraceWeave.Program

/-- A text that is not taken whole. -/
structure Refusal where
  /-- The start of the text that was taken all the same. -/
  part : String
  detail : String

/-- A sink may decide by all that it has taken before. -/
structure Sink where
  refuse? : (taken : List String) → (text : String) → Option Refusal
  /-- Why what was taken cannot be kept. -/
  flush? : (taken : List String) → Option String

namespace Sink

/-- The sink that takes everything. -/
def unlimited : Sink where
  refuse? _ _ := none
  flush? _ := none

/-- Writes texts up to a first failure; yields what the sink has taken then. -/
def write (sink : Sink) (taken : List String) : List String → List String × Option Failure
  | [] => (taken, (sink.flush? taken).map .write)
  | text :: texts =>
      match sink.refuse? taken text with
      | some refusal => (taken ++ [refusal.part], some (.write refusal.detail))
      | none => sink.write (taken ++ [text]) texts

end Sink

end TraceWeave.Program
