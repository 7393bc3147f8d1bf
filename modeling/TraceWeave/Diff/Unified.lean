import TraceWeave.Diff.Compact
import TraceWeave.Diff.Lines

/-!
Unified diffs.
-/

namespace TraceWeave.Diff

/-! ## Changes -/

/-- Kept lines, or old lines that give way to new ones. -/
inductive Change where
  | keep (old new len : Nat)
  | replace (old oldLen new newLen : Nat)
  deriving DecidableEq, Repr

namespace Change

def oldSpan : Change → Span
  | .keep old _ len => ⟨old, old + len⟩
  | .replace old oldLen _ _ => ⟨old, old + oldLen⟩

def newSpan : Change → Span
  | .keep _ new len => ⟨new, new + len⟩
  | .replace _ _ new newLen => ⟨new, new + newLen⟩

end Change

/-- Deletions and insertions that no kept lines divide yet. -/
structure Pending where
  /-- The first old line, their number, and the new line in front of which they stood. -/
  deleted : Option (Nat × Nat × Nat) := none
  /-- The old line in front of which they stand, the first new line and their number. -/
  inserted : Option (Nat × Nat × Nat) := none

namespace Pending

def changes (pending : Pending) : List Change :=
  match pending.deleted, pending.inserted with
  | some (old, oldLen, _), some (_, new, newLen) => [.replace old oldLen new newLen]
  | some (old, oldLen, new), none => [.replace old oldLen new 0]
  | none, some (old, new, newLen) => [.replace old 0 new newLen]
  | none, none => []

def delete (pending : Pending) (old len new : Nat) : Pending :=
  match pending.deleted with
  | some (old, len', new) => { pending with deleted := some (old, len' + len, new) }
  | none => { pending with deleted := some (old, len, new) }

def insert (pending : Pending) (old new len : Nat) : Pending :=
  match pending.inserted with
  | some (old, new, len') => { pending with inserted := some (old, new, len' + len) }
  | none => { pending with inserted := some (old, new, len) }

end Pending

/-- Joins edits between kept lines, and kept lines that nothing divides. -/
def changesFrom (pending : Pending) : List Edit → List Change
  | [] => pending.changes
  | .delete old len new :: edits => changesFrom (pending.delete old len new) edits
  | .insert old new len :: edits => changesFrom (pending.insert old new len) edits
  | .keep old new len :: edits =>
      pending.changes ++
        match changesFrom {} edits with
        | .keep _ _ len' :: changes => .keep old new (len + len') :: changes
        | changes => .keep old new len :: changes

/-! ## Hunks -/

/-- The number of kept lines around a change. -/
def contextLines : Nat := 3

/-- Keeps the last lines of context in front of the first change. -/
def trimStart : List Change → List Change
  | .keep old new len :: changes =>
      .keep (old + (len - contextLines)) (new + (len - contextLines)) (min len contextLines) ::
        changes
  | changes => changes

/-- Keeps the first lines of context behind the last change. -/
def trimEnd : List Change → List Change
  | [] => []
  | [.keep old new len] => [.keep old new (min len contextLines)]
  | change :: changes => change :: trimEnd changes

/-- Parts changes where many lines are kept. -/
def hunksFrom (hunk : List Change) : List Change → List (List Change)
  | [] => [hunk]
  | .keep old new len :: changes =>
      if 2 * contextLines < len then
        (hunk ++ [.keep old new contextLines]) ::
          hunksFrom [.keep (old + (len - contextLines)) (new + (len - contextLines)) contextLines]
            changes
      else hunksFrom (hunk ++ [.keep old new len]) changes
  | change :: changes => hunksFrom (hunk ++ [change]) changes

/-- The hunk changes something. -/
def isProper : List Change → Bool
  | [] => false
  | [.keep _ _ _] => false
  | _ => true

def hunks (changes : List Change) : List (List Change) :=
  let parts := hunksFrom [] (trimEnd (trimStart changes))
  parts.dropLast ++ (parts.getLast?.toList.filter isProper)

/-! ## Text -/

/-- A range of lines; one line is its number, and no lines stand behind the one in front. -/
def Span.text (span : Span) : String :=
  if span.length == 1 then toString (span.start + 1)
  else if span.length == 0 then toString span.start ++ ",0"
  else toString (span.start + 1) ++ "," ++ toString span.length

def hunkHeader (hunk : List Change) : String :=
  match hunk.head?, hunk.getLast? with
  | some first, some last =>
      let old : Span := ⟨first.oldSpan.start, last.oldSpan.stop⟩
      let new : Span := ⟨first.newSpan.start, last.newSpan.stop⟩
      "@@ -" ++ old.text ++ " +" ++ new.text ++ " @@\n"
  | _, _ => ""

/-- A marked line, with a remark if no line break ends it. -/
def lineText (mark line : String) : String :=
  mark ++ line ++ if endsLine line then "" else "\n\\ No newline at end of file\n"

/-- The lines of a range. -/
def Span.lines (span : Span) (lines : Array String) : List String :=
  (lines.extract span.start span.stop).toList

def changeText (texts : Texts) : Change → String
  | .keep old new len =>
      String.join (((Change.keep old new len).oldSpan.lines texts.old).map (lineText " "))
  | .replace old oldLen new newLen =>
      let change := Change.replace old oldLen new newLen
      String.join ((change.oldSpan.lines texts.old).map (lineText "-")) ++
        String.join ((change.newSpan.lines texts.new).map (lineText "+"))

def hunkText (texts : Texts) (hunk : List Change) : String :=
  hunkHeader hunk ++ String.join (hunk.map (changeText texts))

/-- The unified diff between two texts under a name; nothing if they agree. -/
def unified (name old new : String) : String :=
  let texts : Texts := { old := (lines old).toArray, new := (lines new).toArray }
  let hunks := hunks (changesFrom {} (compact texts (script texts)))
  if hunks.isEmpty then ""
  else
    "--- a/" ++ name ++ "\n+++ b/" ++ name ++ "\n" ++
      String.join (hunks.map (hunkText texts))

end TraceWeave.Diff
