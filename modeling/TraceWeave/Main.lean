import TraceWeave.Command

/-!
The program: reads the folder of an application, runs the command and writes the
patch.
-/

namespace TraceWeave

open TraceWeave.Source

/-- Files whose contents matter to a run. -/
def isConsulted (name : String) : Bool :=
  name.endsWith ".go" || [ "go.mod", ".ignore", ".gitignore", "exclude"].contains name

/-- Reads what an entry of a folder stands for; links to folders are not followed. -/
partial def readEntry (entry : IO.FS.DirEntry) : IO (List Entry) := do
  let path := entry.path
  match (← path.symlinkMetadata).type with
  | .dir =>
      let entries ← (← path.readDir).toList.mapM readEntry
      return [⟨entry.fileName, .folder entries.flatten⟩]
  | _ =>
      if ← path.isDir then return []
      let contents ← if isConsulted entry.fileName then IO.FS.readBinFile path else pure .empty
      return [⟨entry.fileName, .file contents⟩]

/-- The entry at a path that starts from the current directory. -/
def entryAt (path : Path) : IO IO.FS.DirEntry :=
  return { root := ← IO.currentDir, fileName := path.text }

/-- Reads as much of the disk as the command looks at. -/
def readDisk (command : Command) : IO Node := do
  let root := command.options.root
  let entry ← entryAt root
  let disk : Node ←
    if ← entry.path.pathExists then
      match ← readEntry entry with
      | ⟨_, node⟩ :: _ => pure (Node.put node root.parts (.folder []))
      | [] => pure (.folder [])
    else pure (.folder [])
  let folder := command.patchFile.parent
  if ← (← entryAt folder).path.isDir then return disk.makeFolder folder else return disk

def runCommand (command : Command) : IO UInt32 := do
  let execution := command.run (← readDisk command)
  match execution.disk.textAt? command.patchFile with
  | some patch => IO.FS.writeFile (← entryAt command.patchFile).path patch
  | none => pure ()
  if command.debug then IO.eprint execution.console.flush.1
  match execution.result with
  | .ok report =>
      IO.eprintln (report.summary command.patchFile)
      return 0
  | .error message =>
      IO.eprintln ("Error: " ++ message)
      return 1

end TraceWeave

def main (arguments : List String) : IO UInt32 :=
  match TraceWeave.Command.ofArguments arguments with
  | .ok command => TraceWeave.runCommand command
  | .error error => do
      IO.eprintln error.message
      return 2
