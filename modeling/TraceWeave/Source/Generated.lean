import TraceWeave.Text.Blank

/-!
Marks in the texts of an application: the module path, and generated code.
-/

namespace TraceWeave.Source

open TraceWeave.Text

/-- The ends of a text that start a line. -/
def lineStarts : List Char → List (List Char)
  | [] => []
  | '\n' :: cs => cs :: lineStarts cs
  | _ :: cs => lineStarts cs

/-- The path behind `module` at the start of a text; quotes may enclose it. -/
def moduleClause? (cs : List Char) : Option String :=
  if "module".toList.isPrefixOf cs then
    let behind := cs.drop "module".length
    let path := behind.dropWhile isBlank
    let path := if path.head? == some '\x22' then path.drop 1 else path
    let name := path.takeWhile fun c => !isBlank c && c != '\x22'
    if behind.head?.any isBlank && !name.isEmpty then some (String.ofList name) else none
  else none

/-- The module path that a module file declares. -/
def declaredModule? (text : String) : Option String :=
  (text.toList :: lineStarts text.toList).findSome? moduleClause?

/-- Lines may stand above the package clause: blank ones and those of comments. -/
def isHeaderLine (line : String) : Bool :=
  let line := trim line
  line.isEmpty || line.startsWith "//" || line.startsWith "/*" || line.startsWith "*"

/-- `// Code generated … DO NOT EDIT.`, with at least nothing between two blanks. -/
def isGeneratedMark (line : String) : Bool :=
  let head := "// Code generated "
  let tail := " DO NOT EDIT."
  let line := trimEnd line
  line.startsWith head && line.endsWith tail && head.length + tail.length ≤ line.length

/-- A mark of generated code stands above the package clause. -/
def isGenerated (text : String) : Bool :=
  ((text.splitOn "\n").takeWhile isHeaderLine).any isGeneratedMark

end TraceWeave.Source
