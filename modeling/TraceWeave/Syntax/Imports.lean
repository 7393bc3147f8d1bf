import TraceWeave.Text.Alphanumeric
import TraceWeave.Syntax.File

/-!
Import paths and the import table of a file.
-/

namespace TraceWeave.Syntax

open TraceWeave.Text

/-! ## Paths -/

/-- Paths of the standard library have no dot in their first element. -/
def isStandardPath (path : String) : Bool :=
  !(path.toList.takeWhile (· != '/')).contains '.'

/-- An element such as `v2`. -/
def isMajorVersion (element : List Char) : Bool :=
  match element with
  | 'v' :: digit :: digits => (digit :: digits).all Char.isDigit
  | _ => false

/-- What stands in front of the first `.v` and behind it. -/
def splitVersion : List Char → List Char × Option (List Char)
  | [] => ([], none)
  | '.' :: 'v' :: rest => ([], some rest)
  | c :: rest =>
      let (base, version) := splitVersion rest
      (c :: base, version)

/-- Cuts an element at its first `.v`, if only digits follow it. -/
def beforeVersion (element : List Char) : List Char :=
  match splitVersion element with
  | (base, some version) => if version.all Char.isDigit then base else element
  | _ => element

def dropFront (front element : List Char) : List Char :=
  if front.isPrefixOf element then element.drop front.length else element

def dropBack (back element : List Char) : List Char :=
  if back.isSuffixOf element then element.take (element.length - back.length) else element

/--
The name that a package goes by when the importing file gives none and its own
clause is unknown: the last element of its path without version and affixes.
-/
def defaultPackageName (path : String) : String :=
  let elements := ((path.splitOn "/").filter (!·.isEmpty)).map String.toList
  let elements :=
    if elements.length > 1 && elements.getLast?.any isMajorVersion then elements.dropLast
    else elements
  let last := elements.getLast?.getD path.toList
  let last := dropBack "-go".toList (dropFront "go-".toList (beforeVersion last))
  String.ofList (last.map fun c => if isAlphanumeric c || c == '_' then c else '_')

/-! ## Groups of imports -/

/-- Splits specifications at blank lines; only the first group can be empty. -/
def importGroups : List ImportSpec → List (List ImportSpec)
  | [] => []
  | spec :: specs =>
      match importGroups specs with
      | [] => [[spec]]
      | group :: groups =>
          match group with
          | next :: _ =>
              if next.decs.before == .blankLine then [spec] :: group :: groups
              else (spec :: group) :: groups
          | [] => [spec] :: groups

/-- A group is standard when its first path is. -/
def isStandardGroup (group : List ImportSpec) : Bool :=
  group.head?.any fun spec => isStandardPath spec.path

namespace ImportSpec

def withGap (spec : ImportSpec) (gap : Gap) : ImportSpec :=
  { spec with decs := { spec.decs with before := gap } }

end ImportSpec

/-- Puts a path in front of the first greater one; a new head takes over the room of the old. -/
def insertSorted (path : String) (group : List ImportSpec) : List ImportSpec :=
  let (smaller, greater) := group.span fun spec => !(path < spec.path)
  match smaller, greater with
  | [], first :: rest =>
      ({ path : ImportSpec }.withGap first.decs.before) :: first.withGap .newLine :: rest
  | _, _ => smaller ++ { path } :: greater

/-- Changes the first element that passes a test. -/
def modifyFirst {α : Type} (test : α → Bool) (f : α → α) : List α → List α
  | [] => []
  | item :: items => if test item then f item :: items else item :: modifyFirst test f items

/-- The specifications of a declaration with one more path. -/
def addToSpecs (path : String) (specs : List ImportSpec) : List ImportSpec :=
  let groups := importGroups specs
  if isStandardPath path then
    if groups.any isStandardGroup then
      (modifyFirst isStandardGroup (insertSorted path) groups).flatten
    else
      match specs with
      | [] => [{ path }]
      | first :: rest => { path } :: first.withGap .blankLine :: rest
  else if groups.any (!isStandardGroup ·) then
    (modifyFirst (!isStandardGroup ·) (insertSorted path) groups.reverse).reverse.flatten
  else if specs.isEmpty then [{ path }]
  else specs ++ [{ path : ImportSpec }.withGap .blankLine]

/-- A declaration with one more path, between parentheses. -/
def ImportDecl.add (path : String) (decl : ImportDecl) : ImportDecl :=
  let specs := if decl.grouped then decl.specs else decl.specs.map (·.withGap .newLine)
  { decl with grouped := true, specs := addToSpecs path specs }

/-- Adds a path to the first import declaration, if there is one. -/
def addToDecls (path : String) : List Decl → Option (List Decl)
  | [] => none
  | decl :: decls =>
      match decl.kind with
      | .imports imports => some ({ decl with kind := .imports (imports.add path) } :: decls)
      | _ => (addToDecls path decls).map (decl :: ·)

/-- Imports a path unless the file already does. -/
def File.addImport (path : String) (file : File) : File :=
  if file.hasImport path then file
  else
    match addToDecls path file.decls with
    | some decls => { file with decls }
    | none =>
        let spec := { path : ImportSpec }.withGap .sameLine
        let decl : ImportDecl := { specs := [spec], grouped := false, trailing := [] }
        { file with decls := { kind := .imports decl, decs := { before := .blankLine } } :: file.decls }

end TraceWeave.Syntax
