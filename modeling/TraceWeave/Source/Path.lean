/-!
Paths of files, as lists of their components.

Paths are ordered by their components, so that a directory comes before what has
a longer name of the same start.
-/

namespace TraceWeave.Source

structure Path where
  absolute : Bool := false
  parts : List String
  deriving DecidableEq, Ord, Inhabited, Repr

namespace Path

/-- The directory that all relative paths start from. -/
def here : Path := { parts := [] }

/-- Drops what is no component: nothing between two slashes, and dots behind the first place. -/
def ofText (text : String) : Path :=
  let parts := (text.splitOn "/").filter (!·.isEmpty)
  let absolute := text.startsWith "/"
  match parts with
  | first :: rest =>
      let rest := rest.filter (· != ".")
      if first == "." && absolute then { absolute, parts := rest }
      else { absolute, parts := first :: rest }
  | [] => { absolute, parts }

def text (path : Path) : String :=
  (if path.absolute then "/" else "") ++ "/".intercalate path.parts

def child (path : Path) (name : String) : Path := { path with parts := path.parts ++ [name] }

/-- The other path, seen from this one. -/
def join (path other : Path) : Path :=
  if other.absolute then other
  else { path with parts := path.parts ++ other.parts.filter (· != ".") }

def parent (path : Path) : Path := { path with parts := path.parts.dropLast }

def name? (path : Path) : Option String := path.parts.getLast?

/-- The components that lead from a directory to a target, once the common start is gone. -/
def stepsBetween : (target base : List String) → Bool → Option (List String)
  | [], [], _ => some []
  | target, [], _ => some target
  | [], _ :: base, _ => (stepsBetween [] base false).map (".." :: ·)
  | first :: target, up :: base, common =>
      if common && first == up then stepsBetween target base true
      else if up == "." then (stepsBetween target base false).map (first :: ·)
      else if up == ".." then none
      else some (".." :: base.map (fun _ => "..") ++ first :: target)

/-- The way from a directory to the path, if it can be told from the texts alone. -/
def relativeTo? (path base : Path) : Option Path :=
  if path.absolute == base.absolute then
    (stepsBetween path.parts base.parts true).map fun parts => { parts }
  else if path.absolute then some path
  else none

/-! ## Order -/

theorem compare_eq : (compare : Path → Path → Ordering) =
    compareLex (compareOn (·.absolute)) (compareOn (·.parts)) := by
  funext path other
  obtain ⟨absolute, parts⟩ := path
  obtain ⟨absolute', parts'⟩ := other
  show (compare absolute absolute').then ((compare parts parts').then .eq) = _
  rw [Ordering.then_eq]
  rfl

instance : Std.TransOrd Path := by
  unfold Std.TransOrd
  rw [compare_eq]
  infer_instance

instance : Std.LawfulEqOrd Path where
  eq_of_compare {path other} h := by
    rw [compare_eq, compareLex, Ordering.then_eq_eq] at h
    cases path
    cases other
    simpa [compareOn] using h

end Path

end TraceWeave.Source
