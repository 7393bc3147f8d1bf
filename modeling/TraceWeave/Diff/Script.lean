/-!
Edit scripts between two sequences of lines.

`script` finds a shortest script by divide and conquer: it takes the common ends
off, finds a point on a shortest path through the edit graph by searching from
both corners at once, and goes on to both sides of that point.
-/

namespace TraceWeave.Diff

/-- Part of an edit script.  Positions count from zero. -/
inductive Edit where
  | keep (old new len : Nat)
  | delete (old len new : Nat)
  | insert (old new len : Nat)
  deriving DecidableEq, Repr, Inhabited

/-- A range of positions, without its end. -/
structure Span where
  start : Nat
  stop : Nat
  deriving DecidableEq, Repr

namespace Span

def length (span : Span) : Nat := span.stop - span.start

def isEmpty (span : Span) : Bool := span.stop ≤ span.start

end Span

/-- The two sequences. -/
structure Texts where
  old : Array String
  new : Array String

namespace Texts

/-- The two lines are there and equal. -/
def agree (texts : Texts) (old new : Nat) : Bool :=
  match texts.old[old]?, texts.new[new]? with
  | some first, some second => first == second
  | _, _ => false

/-- How many lines agree from two positions on, looking at most at `limit`. -/
def commonFrom (texts : Texts) (old new : Nat) : (limit : Nat) → Nat
  | 0 => 0
  | limit + 1 => if texts.agree old new then texts.commonFrom (old + 1) (new + 1) limit + 1 else 0

/-- How many lines agree in front of two positions, looking at most at `limit`. -/
def commonBefore (texts : Texts) (old new : Nat) : (limit : Nat) → Nat
  | 0 => 0
  | limit + 1 =>
      if 0 < old && 0 < new && texts.agree (old - 1) (new - 1) then
        texts.commonBefore (old - 1) (new - 1) limit + 1
      else 0

def commonStart (texts : Texts) (old new : Span) : Nat :=
  texts.commonFrom old.start new.start (min old.length new.length)

def commonEnd (texts : Texts) (old new : Span) : Nat :=
  texts.commonBefore old.stop new.stop (min old.length new.length)

end Texts

/-! ## The search from both corners -/

/-- The furthest positions on the diagonals of the edit graph. -/
structure Frontier where
  offset : Nat
  reach : Array Nat

namespace Frontier

def ofLimit (limit : Nat) : Frontier := { offset := limit, reach := .replicate (2 * limit + 2) 0 }

def get (frontier : Frontier) (diagonal : Int) : Nat :=
  frontier.reach.getD (diagonal + frontier.offset).toNat 0

def set (frontier : Frontier) (diagonal : Int) (position : Nat) : Frontier :=
  { frontier with
    reach := frontier.reach.setIfInBounds (diagonal + frontier.offset).toNat position }

/-- Where the paths with `steps` edits reach a diagonal, before they follow it. -/
def step (frontier : Frontier) (steps : Nat) (diagonal : Int) : Nat :=
  if diagonal == -steps ||
      (diagonal != steps && frontier.get (diagonal - 1) < frontier.get (diagonal + 1)) then
    frontier.get (diagonal + 1)
  else frontier.get (diagonal - 1) + 1

end Frontier

/-- The diagonals that paths with a number of edits end on, the highest first. -/
def diagonals (steps : Nat) : List Int :=
  (List.range (steps + 1)).map fun (index : Nat) => (steps : Int) - 2 * (index : Int)

/-- More edits than this are not needed from either corner. -/
def stepLimit (old new : Nat) : Nat := (old + new + 1) / 2 + 1

structure Search where
  forward : Frontier
  backward : Frontier

/-- Extends the paths from the start; yields a point where a path from the end is met. -/
def searchForward (texts : Texts) (old new : Span) (steps : Nat) :
    List Int → Search → Except (Nat × Nat) Search
  | [], search => .ok search
  | diagonal :: rest, search =>
      let delta : Int := (old.length : Int) - new.length
      let x := search.forward.step steps diagonal
      let y := ((x : Int) - diagonal).toNat
      let advance :=
        texts.commonFrom (old.start + x) (new.start + y) (min (old.length - x) (new.length - y))
      let forward := search.forward.set diagonal (x + advance)
      let meets :=
        delta % 2 != 0 && (diagonal - delta).natAbs + 1 ≤ steps &&
          old.length ≤ x + advance + search.backward.get (delta - diagonal)
      if meets then .error (old.start + x, new.start + y)
      else searchForward texts old new steps rest { search with forward }

/-- Extends the paths from the end; yields a point where a path from the start is met. -/
def searchBackward (texts : Texts) (old new : Span) (steps : Nat) :
    List Int → Search → Except (Nat × Nat) Search
  | [], search => .ok search
  | diagonal :: rest, search =>
      let delta : Int := (old.length : Int) - new.length
      let x := search.backward.step steps diagonal
      let y := ((x : Int) - diagonal).toNat
      let advance :=
        texts.commonBefore (old.stop - x) (new.stop - y) (min (old.length - x) (new.length - y))
      let backward := search.backward.set diagonal (x + advance)
      let meets :=
        delta % 2 == 0 && (diagonal - delta).natAbs ≤ steps &&
          old.length ≤ x + advance + search.forward.get (delta - diagonal)
      if meets then .error (old.stop - (x + advance), new.stop - (y + advance))
      else searchBackward texts old new steps rest { search with backward }

/-- Searches with more and more edits until the paths meet. -/
def searchFrom (texts : Texts) (old new : Span) : (rounds steps : Nat) → Search →
    Option (Nat × Nat)
  | 0, _, _ => none
  | rounds + 1, steps, search =>
      let round := do
        let search ← searchForward texts old new steps (diagonals steps) search
        searchBackward texts old new steps (diagonals steps) search
      match round with
      | .error point => some point
      | .ok search => searchFrom texts old new rounds (steps + 1) search

/-- A point in the middle of a shortest path. -/
def middle? (texts : Texts) (old new : Span) : Option (Nat × Nat) :=
  let limit := stepLimit old.length new.length
  let frontier := Frontier.ofLimit limit
  searchFrom texts old new limit 0 { forward := frontier, backward := frontier }

/-! ## Scripts -/

/-- Takes the common ends off, and puts them around the script of what is left. -/
def withinEnds (texts : Texts) (inner : Span → Span → List Edit) (old new : Span) : List Edit :=
  let start := texts.commonStart old new
  let head := if start == 0 then [] else [Edit.keep old.start new.start start]
  let old : Span := { old with start := old.start + start }
  let new : Span := { new with start := new.start + start }
  let stop := texts.commonEnd old new
  let tail := if stop == 0 then [] else [Edit.keep (old.stop - stop) (new.stop - stop) stop]
  head ++ inner { old with stop := old.stop - stop } { new with stop := new.stop - stop } ++ tail

/-- The script between two ranges, unless both have lines. -/
def unlessBoth (inner : Span → Span → List Edit) (old new : Span) : List Edit :=
  if old.isEmpty && new.isEmpty then []
  else if new.isEmpty then [.delete old.start old.length new.start]
  else if old.isEmpty then [.insert old.start new.start new.length]
  else inner old new

def replaceAll (old new : Span) : List Edit :=
  [.delete old.start old.length new.start, .insert old.start new.start new.length]

/-- Goes on to both sides of a point in the middle. -/
def divide (texts : Texts) (part : Span → Span → List Edit) (old new : Span) : List Edit :=
  match middle? texts old new with
  | some (x, y) =>
      part { old with stop := x } { new with stop := y } ++
        part { old with start := x } { new with start := y }
  | none => replaceAll old new

/-- The script between two ranges; `limit` bounds how often they are divided. -/
def scriptBetween (texts : Texts) : (limit : Nat) → Span → Span → List Edit
  | 0 => withinEnds texts (unlessBoth replaceAll)
  | limit + 1 => withinEnds texts (unlessBoth (divide texts (scriptBetween texts limit)))

def script (texts : Texts) : List Edit :=
  scriptBetween texts (texts.old.size + texts.new.size)
    { start := 0, stop := texts.old.size } { start := 0, stop := texts.new.size }

end TraceWeave.Diff
