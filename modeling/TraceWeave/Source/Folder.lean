import TraceWeave.Source.Path

/-!
Folders and files, as far as a run sees them.
-/

namespace TraceWeave.Source

mutual

inductive Node where
  | file (contents : ByteArray)
  | folder (entries : List Entry)

structure Entry where
  name : String
  node : Node

end

instance : Inhabited Node := ⟨.folder []⟩

namespace Node

def isFolder : Node → Bool
  | .folder _ => true
  | .file _ => false

def entries : Node → List Entry
  | .folder entries => entries
  | .file _ => []

def child? (node : Node) (name : String) : Option Node :=
  (node.entries.find? (·.name == name)).map (·.node)

/-- The node that a list of names leads to. -/
def find? (node : Node) : List String → Option Node
  | [] => some node
  | name :: names => (node.child? name).bind (·.find? names)

/-- The node at a path. -/
def at? (node : Node) (path : Path) : Option Node := node.find? path.parts

def isFolderAt (node : Node) (path : Path) : Bool := (node.at? path).any isFolder

/-- The contents of the file at a path, if there is a file that holds text. -/
def textAt? (node : Node) (path : Path) : Option String :=
  match node.at? path with
  | some (.file contents) => String.fromUTF8? contents
  | _ => none

/-- Puts an entry into a folder, in place of an entry of the same name. -/
def putEntry (name : String) (node : Node) : List Entry → List Entry
  | [] => [{ name, node }]
  | entry :: entries =>
      if entry.name == name then { name, node } :: entries
      else entry :: putEntry name node entries

/-- Puts a node at a place; missing folders on the way are made. -/
def put (target : Node) : List String → Node → Node
  | [], _ => target
  | name :: names, node =>
      let child := (node.child? name).getD (.folder [])
      .folder (putEntry name (put target names child) node.entries)

/-- Writes a file; missing folders on the way are made. -/
def write (node : Node) (path : Path) (contents : ByteArray) : Node :=
  put (.file contents) path.parts node

/-- Makes an empty folder, unless there is something already. -/
def makeFolder (node : Node) (path : Path) : Node :=
  if (node.at? path).isSome then node else put (.folder []) path.parts node

end Node

end TraceWeave.Source
