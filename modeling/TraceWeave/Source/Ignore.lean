import TraceWeave.Source.Folder
import TraceWeave.Source.Glob
import TraceWeave.Text.Blank

/-!
Files that a walk through folders leaves out.

`.ignore` files always count; `.gitignore` files and the list of exclusions of a
repository count inside a repository.  A rule of a nearer folder wins, and of two
rules of one file the later one.
-/

namespace TraceWeave.Source

/-! ## Rules -/

structure IgnoreRule where
  glob : Glob
  /-- Keeps what it covers. -/
  keeps : Bool
  foldersOnly : Bool

/-- Takes the end of a rule for folders off. -/
def splitFolderMark (cs : List Char) : Bool × List Char :=
  match cs.reverse with
  | '/' :: '\\' :: cs => (true, cs.reverse)
  | '/' :: cs => (true, cs.reverse)
  | _ => (false, cs)

/-- A pattern without a slash covers names in all folders. -/
def anchorPattern (anchored : Bool) (pattern : String) : String :=
  if anchored || pattern.toList.contains '/' || pattern.startsWith "**/" || pattern == "**" then
    pattern
  else "**/" ++ pattern

/-- Reads a line of a list of rules; blank lines, comments and faulty patterns are no rules. -/
def IgnoreRule.ofLine? (line : String) : Option IgnoreRule :=
  if line.startsWith "#" then none
  else
    let cs := (if line.endsWith "\\ " then line else Text.trimEnd line).toList
    if cs.isEmpty then none
    else
      let (keeps, anchored, cs) : Bool × Bool × List Char :=
        match cs with
        | '\\' :: '!' :: cs => (false, false, '!' :: cs)
        | '\\' :: '#' :: cs => (false, false, '#' :: cs)
        | '!' :: '/' :: cs => (true, true, cs)
        | '!' :: cs => (true, false, cs)
        | '/' :: cs => (false, true, cs)
        | cs => (false, false, cs)
      let (foldersOnly, cs) := splitFolderMark cs
      let pattern := anchorPattern anchored (String.ofList cs)
      let pattern := if pattern.endsWith "/**" then pattern ++ "/*" else pattern
      (Glob.ofText? pattern).map fun glob => { glob, keeps, foldersOnly }

/-- The lines of a list of rules. -/
def ruleLines (text : String) : List String :=
  ((text.splitOn "\n").map fun line =>
    if line.endsWith "\r" then String.ofList line.toList.dropLast else line)

def readRules (text : String) : List IgnoreRule := (ruleLines text).filterMap IgnoreRule.ofLine?

/-- What rules say of a path: whether it is left out, if they cover it. -/
def verdict? (rules : List IgnoreRule) (path : String) (isFolder : Bool) : Option Bool :=
  (rules.reverse.find? fun rule => (!rule.foldersOnly || isFolder) && rule.glob.covers path).map
    fun rule => !rule.keeps

/-! ## Folders -/

/-- The rules that a folder adds. -/
structure IgnoreLevel where
  /-- The names that lead to the folder. -/
  parts : List String
  plain : List IgnoreRule
  git : List IgnoreRule
  gitExclude : List IgnoreRule
  /-- The folder is the top of a repository. -/
  isRepository : Bool

def IgnoreLevel.ofFolder (parts : List String) (node : Node) : IgnoreLevel :=
  let rules (names : List String) : List IgnoreRule :=
    ((node.textAt? { parts := names }).map readRules).getD []
  { parts
    plain := rules [".ignore"]
    git := rules [".gitignore"]
    gitExclude := rules [".git", "info", "exclude"]
    isRepository := (node.child? ".git").isSome }

/-- The levels up to the top of the repository, nearest first. -/
def repositoryLevels : List IgnoreLevel → List IgnoreLevel
  | [] => []
  | level :: levels => if level.isRepository then [level] else level :: repositoryLevels levels

/-- The first verdict of the levels, nearest first. -/
def levelVerdict? (rules : IgnoreLevel → List IgnoreRule) (levels : List IgnoreLevel)
    (parts : List String) (isFolder : Bool) : Option Bool :=
  levels.findSome? fun level =>
    verdict? (rules level) ("/".intercalate (parts.drop level.parts.length)) isFolder

/-- The rules leave the path out, or it is hidden and no rule keeps it. -/
def isIgnored (levels : List IgnoreLevel) (parts : List String) (isFolder : Bool) : Bool :=
  let inRepository :=
    if levels.any (·.isRepository) then repositoryLevels levels else []
  let verdict :=
    (levelVerdict? (·.plain) levels parts isFolder).or
      ((levelVerdict? (·.git) inRepository parts isFolder).or
        (levelVerdict? (·.gitExclude) inRepository parts isFolder))
  verdict.getD (parts.getLast?.any (·.startsWith "."))

end TraceWeave.Source
