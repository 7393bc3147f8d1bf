import TraceWeave.Syntax.Concrete
import TraceWeave.Syntax.Tree

/-!
Attaching comments to their neighbours.

`attach` walks over sibling nodes.  A comment on the line on which the node in
front of it ends becomes a trailing comment of that node, unless other comments
already wait between the two.  Every other comment waits for the next node and
leads it; comments that no node follows are left over.  A blank line between
waiting comments, or between them and their node, is kept as an empty line.
-/

namespace TraceWeave.Syntax

open TraceWeave.Text

/-! ## Source texts -/

structure Source where
  chars : Array Char

namespace Source

def ofString (text : String) : Source := { chars := text.toList.toArray }

/-- The characters from one offset up to another. -/
def slice (source : Source) (start stop : Nat) : String :=
  String.ofList (source.chars.extract start stop).toList

def text (source : Source) (tree : Concrete) : String :=
  source.slice tree.span.start tree.span.stop

end Source

/-! ## Attachment -/

def rowGap (previous row : Nat) : Gap :=
  match row - previous with
  | 0 => .sameLine
  | 1 => .newLine
  | _ => .blankLine

structure Attached where
  items : List (Concrete × Decorations)
  /-- Comment lines that no node follows. -/
  trailing : List String

/-- The state between two siblings. -/
structure Attaching where
  /-- Nodes so far, the latest first. -/
  done : List (Concrete × Decorations) := []
  /-- Comment lines that wait for a node. -/
  waiting : List String := []
  /-- The room in front of the first waiting comment. -/
  room : Gap := .sameLine
  /-- The row on which the last sibling ends. -/
  row : Nat

namespace Attaching

/-- The blanks in front of a trailing comment, and one blank where there are none. -/
def padding (between : String) : String :=
  let pad := blankEnd between
  if pad.isEmpty then " " else pad

def addComment (source : Source) (state : Attaching) (comment : Concrete) : Attaching :=
  let text := trimEnd (source.text comment)
  let row := comment.span.stopRow
  let wait : Attaching :=
    let gap := rowGap state.row comment.span.startRow
    if state.waiting.isEmpty then { state with waiting := [text], room := gap, row }
    else if gap == .blankLine then { state with waiting := state.waiting ++ ["", text], row }
    else { state with waiting := state.waiting ++ [text], row }
  match state.done with
  | [] => wait
  | (last, decs) :: done =>
      if state.waiting.isEmpty && last.span.stopRow == comment.span.startRow then
        let pad := padding (source.slice last.span.stop comment.span.start)
        { state with done := (last, { decs with trail := decs.trail ++ [pad ++ text] }) :: done, row }
      else wait

def addNode (state : Attaching) (node : Concrete) : Attaching :=
  let gap := rowGap state.row node.span.startRow
  let decs : Decorations :=
    if state.waiting.isEmpty then { before := gap }
    else
      { before := state.room
        lead := if gap == .blankLine then state.waiting ++ [""] else state.waiting }
  { state with done := (node, decs) :: state.done, waiting := [], row := node.span.stopRow }

def add (source : Source) (state : Attaching) (tree : Concrete) : Attaching :=
  if tree.isComment then state.addComment source tree else state.addNode tree

def finish (state : Attaching) : Attached :=
  { items := state.done.reverse
    trailing :=
      if state.waiting.isEmpty then []
      else if state.room == .blankLine then "" :: state.waiting
      else state.waiting }

end Attaching

/-- Attaches the comments among sibling nodes that follow an opening on the given row. -/
def attach (source : Source) (openingRow : Nat) (trees : List Concrete) : Attached :=
  (trees.foldl (Attaching.add source) { row := openingRow }).finish

end TraceWeave.Syntax
