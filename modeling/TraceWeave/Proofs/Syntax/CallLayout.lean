import TraceWeave.Proofs.Syntax.Attachment
import TraceWeave.Syntax.Printer

/-!
What a call is written of.

The pieces of a call are code, the comments of its arguments, and line breaks; written one
after the other they are the call (`Call.write_pieces`).  A line comment must not hide code that
follows on its line (`Harmless`).  A call whose arguments stand on lines of their own shows
every comment once and hides nothing (`Call.ownLines_pieces`).
-/

namespace TraceWeave.Syntax

open Printer TraceWeave.Text

/-! ## Comments of a node -/

namespace Decorations

/-- The comments above a node, without the blank lines between them. -/
def leadComments (decs : Decorations) : List String := decs.lead.filter isLine

def comments (decs : Decorations) : List String := decs.leadComments ++ decs.trail

end Decorations

/-- The comment goes up to the end of its line. -/
def isLineComment (text : String) : Bool := ['/', '/'].isPrefixOf (trimStart text).toList

/-! ## Pieces -/

inductive Piece where
  /-- Code, whose width may depend on the column where it starts. -/
  | code (write : String → String)
  | comment (text : String)
  /-- A line break and the tabs behind it. -/
  | lineBreak (indent : Nat)

namespace Piece

def text (text : String) : Piece := .code (· ++ text)

def write : Piece → String → String
  | .code write, out => write out
  | .comment text, out => out ++ text
  | .lineBreak indent, out => newLine indent out

def comment? : Piece → Option String
  | .comment text => some text
  | _ => none

end Piece

def writePieces (pieces : List Piece) (out : String) : String :=
  pieces.foldl (fun out piece => piece.write out) out

def commentsIn (pieces : List Piece) : List String := pieces.filterMap Piece.comment?

/-- No code follows on the line. -/
def EndsLine : List Piece → Prop
  | [] => True
  | .code _ :: _ => False
  | .comment _ :: rest => EndsLine rest
  | .lineBreak _ :: _ => True

/-- No code follows a line comment on its line. -/
def Harmless : List Piece → Prop
  | [] => True
  | .comment text :: rest => (isLineComment text = true → EndsLine rest) ∧ Harmless rest
  | _ :: rest => Harmless rest

section

variable (piece : Piece) (pieces front back : List Piece) (write : String → String)
  (text out : String) (texts : List String) (indent : Nat)

@[simp]
theorem writePieces_nil : writePieces [] out = out := rfl

@[simp]
theorem writePieces_cons :
    writePieces (piece :: pieces) out = writePieces pieces (piece.write out) := rfl

@[simp]
theorem writePieces_append :
    writePieces (front ++ back) out = writePieces back (writePieces front out) :=
  List.foldl_append

@[simp]
theorem writePieces_comments (decs : Decorations) :
    writePieces (decs.trail.map .comment) out = trail decs out := by
  rw [writePieces, List.foldl_map]
  rfl

@[simp]
theorem commentsIn_nil : commentsIn [] = [] := rfl

@[simp]
theorem commentsIn_append : commentsIn (front ++ back) = commentsIn front ++ commentsIn back :=
  List.filterMap_append

@[simp]
theorem commentsIn_code : commentsIn (.code write :: pieces) = commentsIn pieces := rfl

@[simp]
theorem commentsIn_text : commentsIn (.text text :: pieces) = commentsIn pieces := rfl

@[simp]
theorem commentsIn_lineBreak : commentsIn (.lineBreak indent :: pieces) = commentsIn pieces := rfl

@[simp]
theorem commentsIn_comments : commentsIn (texts.map .comment) = texts := by
  induction texts with
  | nil => rfl
  | cons text texts ih => exact congrArg (text :: ·) ih

@[simp]
theorem harmless_code : Harmless (.code write :: pieces) ↔ Harmless pieces := Iff.rfl

@[simp]
theorem harmless_text : Harmless (.text text :: pieces) ↔ Harmless pieces := Iff.rfl

@[simp]
theorem harmless_lineBreak : Harmless (.lineBreak indent :: pieces) ↔ Harmless pieces := Iff.rfl

theorem endsLine_comments_append :
    EndsLine (texts.map .comment ++ pieces) ↔ EndsLine pieces := by
  induction texts with
  | nil => rfl
  | cons text texts ih => exact ih

/-- Comments in a row hide code behind them if one of them goes up to the end of the line. -/
@[simp]
theorem harmless_comments_append :
    Harmless (texts.map .comment ++ pieces) ↔
      ((∃ text ∈ texts, isLineComment text = true) → EndsLine pieces) ∧ Harmless pieces := by
  induction texts with
  | nil => simp
  | cons text texts ih =>
      simp only [List.map_cons, List.cons_append, Harmless, endsLine_comments_append, ih,
        List.exists_mem_cons_iff, or_imp, and_assoc]

end

/-! ## Comment lines above an argument -/

def leadPieces (indent : Nat) : List String → List Piece
  | [] => [.lineBreak indent]
  | line :: lines =>
      .lineBreak indent :: ((if isLine line then [.comment line] else []) ++
        leadPieces indent lines)

theorem writePieces_lead (indent : Nat) (lines : List String) (out : String) :
    writePieces (leadPieces indent lines) out = leadBreaks lines indent out := by
  induction lines generalizing out with
  | nil => rfl
  | cons line lines ih =>
      have hline : writePieces (if isLine line then [.comment line] else []) (newLine indent out) =
          newLine indent out ++ line := by
        cases hempty : line.isEmpty with
        | true => simp [isLine, String.isEmpty_iff.1 hempty]
        | false => simp [isLine, hempty, Piece.write]
      simp only [leadPieces, writePieces_cons, writePieces_append, Piece.write, hline, ih]
      rfl

theorem commentsIn_lead (indent : Nat) (lines : List String) :
    commentsIn (leadPieces indent lines) = lines.filter isLine := by
  induction lines with
  | nil => rfl
  | cons line lines ih =>
      rw [leadPieces, commentsIn_lineBreak, commentsIn_append, ih, List.filter_cons]
      split <;> rfl

/-- Every comment line is followed by a line break. -/
theorem harmless_lead_append (indent : Nat) (lines : List String) (pieces : List Piece) :
    Harmless (leadPieces indent lines ++ pieces) ↔ Harmless pieces := by
  induction lines with
  | nil => rfl
  | cons line lines ih =>
      have hends : EndsLine (leadPieces indent lines ++ pieces) := by
        cases lines <;> exact trivial
      cases hline : isLine line with
      | true => simpa [leadPieces, hline, Harmless, hends] using ih
      | false => simpa [leadPieces, hline] using ih

/-! ## Calls -/

/-- The layout of an argument list. -/
structure ArgsLayout where
  indent : Nat
  depth : Nat
  multiline : Bool
  spread : Bool
  closesLine : Bool

namespace ArgsLayout

/-- Room in front of an argument. -/
def opening (layout : ArgsLayout) (first : Bool) (decs : Decorations) : List Piece :=
  if layout.multiline && decs.before.isBreak then
    (if !first && decs.before == .blankLine then [.lineBreak 0] else []) ++
      leadPieces (layout.indent + 1) decs.lead
  else if first then []
  else [.text " "]

/-- What stands behind an argument: its comments behind the comma or in front of it. -/
def closing (layout : ArgsLayout) (last : Bool) (decs : Decorations) : List Piece :=
  let trailing := decs.trail.map Piece.comment
  (if last && layout.spread then [.text "..."] else []) ++
    if layout.multiline then (if !last || layout.closesLine then [.text ","] else []) ++ trailing
    else trailing ++ if last then [] else [.text ","]

/-- The pieces of arguments, `body` saying of what an argument itself is written. -/
def pieces (layout : ArgsLayout) (body : ExprKind → List Piece) (first : Bool) :
    List Expr → List Piece
  | [] => []
  | ⟨kind, decs⟩ :: args =>
      layout.opening first decs ++ (body kind ++
        (layout.closing args.isEmpty decs ++ layout.pieces body false args))

theorem write_opening (layout : ArgsLayout) (first : Bool) (decs : Decorations) (out : String) :
    writePieces (layout.opening first decs) out =
      if layout.multiline && decs.before.isBreak then
        leadBreaks decs.lead (layout.indent + 1)
          (if !first && decs.before == .blankLine then out.push '\n' else out)
      else if first then out
      else out ++ " " := by
  unfold opening
  split
  · rw [writePieces_append, writePieces_lead]
    split <;> rfl
  · split <;> rfl

theorem write_closing (layout : ArgsLayout) (last : Bool) (decs : Decorations) (out : String) :
    writePieces (layout.closing last decs) out =
      let out := if last && layout.spread then out ++ "..." else out
      if layout.multiline then
        trail decs (if !last || layout.closesLine then out ++ "," else out)
      else if last then trail decs out
      else trail decs out ++ "," := by
  have hspread : writePieces (if last && layout.spread then [.text "..."] else []) out =
      if last && layout.spread then out ++ "..." else out := by
    split <;> rfl
  unfold closing
  rw [writePieces_append, hspread]
  dsimp only
  split
  · rw [writePieces_append, writePieces_comments]
    split <;> rfl
  · rw [writePieces_append, writePieces_comments]
    split <;> rfl

theorem commentsIn_closing (layout : ArgsLayout) (last : Bool) (decs : Decorations) :
    commentsIn (layout.closing last decs) = decs.trail := by
  obtain ⟨indent, depth, multiline, spread, closesLine⟩ := layout
  cases multiline <;> cases spread <;> cases closesLine <;> cases last <;> simp [closing]

theorem write_pieces (layout : ArgsLayout) {body : ExprKind → List Piece}
    (hbody : ∀ kind out, writePieces (body kind) out =
      kind.write (if layout.multiline then layout.indent + 1 else layout.indent) 0 layout.depth out)
    (first : Bool) (args : List Expr) (out : String) :
    writePieces (layout.pieces body first args) out =
      writeArgs layout.indent layout.depth layout.multiline layout.spread layout.closesLine first
        args out := by
  induction args generalizing first out with
  | nil => rfl
  | cons arg args ih =>
      obtain ⟨kind, decs⟩ := arg
      simp only [pieces, writePieces_append, write_opening, hbody, write_closing, ih, writeArgs]

end ArgsLayout

namespace Call

def layout (call : Call) (indent depth : Nat) : ArgsLayout :=
  { indent
    depth := if call.args.length > 1 then depth + 1 else depth
    multiline := call.isMultiline
    spread := call.spread
    closesLine := call.closesLine }

/-- The level at which arguments are written. -/
def argIndent (call : Call) (indent : Nat) : Nat :=
  if call.isMultiline then indent + 1 else indent

/-- The pieces of a call, `body` saying of what an argument at a level is written. -/
def pieces (call : Call) (body : Nat → Nat → ExprKind → List Piece) (indent depth : Nat) :
    List Piece :=
  let layout := call.layout indent depth
  .code (call.callee.write indent operandPrecedence layout.depth) :: .text "(" ::
    (layout.pieces (body (call.argIndent indent) layout.depth) true call.args ++
      ((if call.isMultiline && call.closesLine then [.lineBreak indent] else []) ++
        [.text ")"]))

theorem write_pieces (call : Call) {body : Nat → Nat → ExprKind → List Piece}
    (hbody : ∀ indent depth kind out,
      writePieces (body indent depth kind) out = kind.write indent 0 depth out)
    (indent level depth : Nat) (out : String) :
    writePieces (call.pieces body indent depth) out =
      (ExprKind.call call).write indent level depth out := by
  have hargs (out : String) := (call.layout indent depth).write_pieces
    (hbody (call.argIndent indent) _) true call.args out
  have hclosing : ∀ (closes : Bool) (out : String),
      writePieces (if closes then [.lineBreak indent] else []) out =
        if closes then newLine indent out else out := by
    intro closes out
    split <;> rfl
  simp only [pieces, writePieces_cons, writePieces_append, hargs, hclosing]
  cases call
  rfl

end Call

/-- An expression as code. -/
def ExprKind.asCode (indent depth : Nat) (kind : ExprKind) : List Piece :=
  [.code (kind.write indent 0 depth)]

/-- An expression as code, or a call as its pieces. -/
def ExprKind.asCall (indent depth : Nat) : ExprKind → List Piece
  | .call inner => inner.pieces ExprKind.asCode indent depth
  | kind => kind.asCode indent depth

theorem ExprKind.write_asCode (indent depth : Nat) (kind : ExprKind) (out : String) :
    writePieces (kind.asCode indent depth) out = kind.write indent 0 depth out := rfl

theorem ExprKind.write_asCall (indent depth : Nat) (kind : ExprKind) (out : String) :
    writePieces (kind.asCall indent depth) out = kind.write indent 0 depth out := by
  cases kind with
  | call call => exact call.write_pieces ExprKind.write_asCode indent 0 depth out
  | _ => rfl

/-! ## Calls on one line -/

namespace ArgsLayout

variable {layout : ArgsLayout} {indent depth : Nat}

theorem opening_of_oneLine (honeLine : layout.multiline = false) (first : Bool)
    (decs : Decorations) :
    layout.opening first decs = if first then [] else [.text " "] := by
  simp [opening, honeLine]

theorem closing_of_oneLine (honeLine : layout.multiline = false) (last : Bool)
    (decs : Decorations) :
    layout.closing last decs = (if last && layout.spread then [.text "..."] else []) ++
      (decs.trail.map .comment ++ if last then [] else [.text ","]) := by
  simp [closing, honeLine]

/-- On one line the comments above the arguments are lost. -/
theorem commentsIn_of_oneLine (honeLine : layout.multiline = false) (first : Bool)
    (args : List Expr) :
    commentsIn (layout.pieces (ExprKind.asCode indent depth) first args) =
      args.flatMap (·.decs.trail) := by
  induction args generalizing first with
  | nil => rfl
  | cons arg args ih =>
      obtain ⟨kind, decs⟩ := arg
      have hopening : commentsIn (layout.opening first decs) = [] := by
        rw [opening_of_oneLine honeLine]
        cases first <;> rfl
      simp [pieces, hopening, commentsIn_closing, ih, ExprKind.asCode]

theorem harmless_closing_of_oneLine (honeLine : layout.multiline = false) (last : Bool)
    (decs : Decorations) {rest : List Piece} (hrest : last = true → ¬ EndsLine rest) :
    Harmless (layout.closing last decs ++ rest) ↔
      (∀ text ∈ decs.trail, isLineComment text = false) ∧ Harmless rest := by
  have hnone : ¬ (∃ text ∈ decs.trail, isLineComment text = true) ↔
      ∀ text ∈ decs.trail, isLineComment text = false := by simp
  rw [closing_of_oneLine honeLine]
  cases last with
  | true =>
      have htrail : Harmless (decs.trail.map .comment ++ rest) ↔
          (∀ text ∈ decs.trail, isLineComment text = false) ∧ Harmless rest := by
        rw [harmless_comments_append, ← hnone, iff_false_intro (hrest rfl)]
      cases layout.spread <;> simpa using htrail
  | false =>
      have htrail : Harmless (decs.trail.map .comment ++ .text "," :: rest) ↔
          (∀ text ∈ decs.trail, isLineComment text = false) ∧ Harmless rest := by
        rw [harmless_comments_append, ← hnone]
        rfl
      simpa using htrail

/-- On one line code stands behind every argument. -/
theorem harmless_of_oneLine (honeLine : layout.multiline = false) (first : Bool)
    (args : List Expr) {rest : List Piece} (hrest : ¬ EndsLine rest) :
    Harmless (layout.pieces (ExprKind.asCode indent depth) first args ++ rest) ↔
      (∀ arg ∈ args, ∀ text ∈ arg.decs.trail, isLineComment text = false) ∧ Harmless rest := by
  induction args generalizing first with
  | nil => simp [pieces]
  | cons arg args ih =>
      obtain ⟨kind, decs⟩ := arg
      -- Behind the last argument stands no comma, so that what follows the list must be code.
      have hlast : args.isEmpty = true →
          ¬ EndsLine (layout.pieces (ExprKind.asCode indent depth) false args ++ rest) := by
        intro hempty
        rw [List.isEmpty_iff.1 hempty]
        exact hrest
      have hopening (tail : List Piece) :
          Harmless (layout.opening first decs ++ tail) ↔ Harmless tail := by
        rw [opening_of_oneLine honeLine]
        cases first <;> rfl
      simp only [pieces, List.append_assoc, hopening]
      rw [ExprKind.asCode, List.cons_append, List.nil_append, harmless_code,
        harmless_closing_of_oneLine honeLine _ _ hlast, ih, List.forall_mem_cons, and_assoc]

end ArgsLayout

namespace Call

variable {call : Call}

theorem commentsIn_of_oneLine (honeLine : call.isMultiline = false) (indent depth : Nat) :
    commentsIn (call.pieces ExprKind.asCode indent depth) = call.args.flatMap (·.decs.trail) := by
  have hlayout : (call.layout indent depth).multiline = false := honeLine
  simp [pieces, honeLine, ArgsLayout.commentsIn_of_oneLine hlayout]

theorem harmless_of_oneLine (honeLine : call.isMultiline = false) (indent depth : Nat)
    (rest : List Piece) :
    Harmless (call.pieces ExprKind.asCode indent depth ++ rest) ↔
      (∀ arg ∈ call.args, ∀ text ∈ arg.decs.trail, isLineComment text = false) ∧
        Harmless rest := by
  have hlayout : (call.layout indent depth).multiline = false := honeLine
  have hparen : ¬ EndsLine (.text ")" :: rest) := id
  simp [pieces, honeLine, ArgsLayout.harmless_of_oneLine hlayout true _ hparen]

end Call

/-! ## Arguments on lines of their own -/

namespace ArgsLayout

variable {layout : ArgsLayout} {indent depth : Nat}

theorem opening_of_break (hlines : layout.multiline = true) (first : Bool) {decs : Decorations}
    (hbreak : decs.before.isBreak = true) :
    layout.opening first decs =
      (if !first && decs.before == .blankLine then [.lineBreak 0] else []) ++
        leadPieces (layout.indent + 1) decs.lead := by
  simp [opening, hlines, hbreak]

theorem commentsIn_opening_of_break (hlines : layout.multiline = true) (first : Bool)
    {decs : Decorations} (hbreak : decs.before.isBreak = true) :
    commentsIn (layout.opening first decs) = decs.leadComments := by
  rw [opening_of_break hlines first hbreak, commentsIn_append, commentsIn_lead]
  split <;> rfl

theorem harmless_opening_of_break (hlines : layout.multiline = true) (first : Bool)
    {decs : Decorations} (hbreak : decs.before.isBreak = true) (rest : List Piece) :
    Harmless (layout.opening first decs ++ rest) ↔ Harmless rest := by
  rw [opening_of_break hlines first hbreak, List.append_assoc]
  split
  · exact harmless_lead_append _ _ _
  · exact harmless_lead_append _ _ _

theorem harmless_closing_of_lines (hlines : layout.multiline = true) (last : Bool)
    (decs : Decorations) {rest : List Piece} (hrest : EndsLine rest) :
    Harmless (layout.closing last decs ++ rest) ↔ Harmless rest := by
  have htrail : Harmless (decs.trail.map .comment ++ rest) ↔ Harmless rest := by
    rw [harmless_comments_append]
    exact and_iff_right fun _ => hrest
  obtain ⟨indent, depth, multiline, spread, closesLine⟩ := layout
  obtain rfl : multiline = true := hlines
  cases spread <;> cases closesLine <;> cases last <;> simpa [closing] using htrail

theorem commentsIn_of_ownLines (hlines : layout.multiline = true) (first : Bool)
    {args : List Expr} (hbreaks : ∀ arg ∈ args, arg.breaks = true) :
    commentsIn (layout.pieces (ExprKind.asCode indent depth) first args) =
      args.flatMap (·.decs.comments) := by
  induction args generalizing first with
  | nil => rfl
  | cons arg args ih =>
      obtain ⟨kind, decs⟩ := arg
      obtain ⟨hbreak, hbreaks⟩ := List.forall_mem_cons.1 hbreaks
      simp [pieces, commentsIn_opening_of_break hlines first hbreak, commentsIn_closing,
        ih false hbreaks, ExprKind.asCode, Decorations.comments]

theorem endsLine_of_ownLines (hlines : layout.multiline = true) {body : ExprKind → List Piece}
    {args : List Expr} (hbreaks : ∀ arg ∈ args, arg.breaks = true) {rest : List Piece}
    (hrest : EndsLine rest) : EndsLine (layout.pieces body false args ++ rest) := by
  cases args with
  | nil => exact hrest
  | cons arg args =>
      obtain ⟨kind, decs⟩ := arg
      have hbreak : decs.before.isBreak = true := hbreaks _ List.mem_cons_self
      rw [pieces, opening_of_break hlines false hbreak]
      cases decs.before == .blankLine with
      | true => exact trivial
      | false => cases decs.lead <;> exact trivial

theorem harmless_of_ownLines (hlines : layout.multiline = true) (first : Bool)
    {args : List Expr} (hbreaks : ∀ arg ∈ args, arg.breaks = true) {rest : List Piece}
    (hrest : EndsLine rest) :
    Harmless (layout.pieces (ExprKind.asCode indent depth) first args ++ rest) ↔
      Harmless rest := by
  induction args generalizing first with
  | nil => rfl
  | cons arg args ih =>
      obtain ⟨kind, decs⟩ := arg
      obtain ⟨hbreak, hbreaks⟩ := List.forall_mem_cons.1 hbreaks
      have hends : EndsLine (layout.pieces (ExprKind.asCode indent depth) false args ++ rest) :=
        endsLine_of_ownLines hlines hbreaks hrest
      simp only [pieces, List.append_assoc, harmless_opening_of_break hlines first hbreak]
      rw [ExprKind.asCode, List.cons_append, List.nil_append, harmless_code,
        harmless_closing_of_lines hlines _ _ hends, ih false hbreaks]

end ArgsLayout

/-- A call whose arguments and closing parenthesis stand on lines of their own shows every comment
once and hides no code. -/
theorem Call.ownLines_pieces {call : Call} (hargs : call.args ≠ [])
    (hbreaks : ∀ arg ∈ call.args, arg.breaks = true) (hcloses : call.closesLine = true)
    (indent depth : Nat) :
    commentsIn (call.pieces ExprKind.asCode indent depth) = call.args.flatMap (·.decs.comments) ∧
      Harmless (call.pieces ExprKind.asCode indent depth) := by
  obtain ⟨arg, harg⟩ := List.exists_mem_of_ne_nil _ hargs
  have hlines : call.isMultiline = true := List.any_eq_true.2 ⟨arg, harg, hbreaks arg harg⟩
  have hlayout : (call.layout indent depth).multiline = true := hlines
  have hends : EndsLine [.lineBreak indent, .text ")"] := trivial
  have hharmless : Harmless ((call.layout indent depth).pieces
      (ExprKind.asCode (call.argIndent indent) (call.layout indent depth).depth) true call.args ++
        [.lineBreak indent, .text ")"]) :=
    (ArgsLayout.harmless_of_ownLines hlayout true hbreaks hends).2 trivial
  constructor
  · simp [pieces, hlines, hcloses, ArgsLayout.commentsIn_of_ownLines hlayout true hbreaks]
  · simpa [pieces, hlines, hcloses] using hharmless

/-! ## A single argument -/

theorem ArgsLayout.harmless_closing {layout : ArgsLayout} {decs : Decorations}
    (hnone : ∀ text ∈ decs.trail, isLineComment text = false) (last : Bool) (rest : List Piece) :
    Harmless (layout.closing last decs ++ rest) ↔ Harmless rest := by
  have htrail (rest : List Piece) :
      Harmless (decs.trail.map .comment ++ rest) ↔ Harmless rest := by
    rw [harmless_comments_append]
    refine and_iff_right fun ⟨text, hmem, hline⟩ => ?_
    exact absurd ((hnone text hmem).symm.trans hline) Bool.false_ne_true
  obtain ⟨indent, depth, multiline, spread, closesLine⟩ := layout
  cases multiline <;> cases spread <;> cases closesLine <;> cases last <;>
    simp [closing, htrail]

namespace Call

variable (call : Call) (arg : Expr) (body : Nat → Nat → ExprKind → List Piece)
  (indent depth : Nat)

/-- What a single argument is written of. -/
def single : List Piece := body (if arg.breaks then indent + 1 else indent) depth arg.kind

theorem pieces_single :
    pieces { call with args := [arg] } body indent depth =
      .code (call.callee.write indent operandPrecedence depth) :: .text "(" ::
        ((if arg.breaks then leadPieces (indent + 1) arg.decs.lead else []) ++
          (single arg body indent depth ++
            ((layout { call with args := [arg] } indent depth).closing true arg.decs ++
              ((if arg.breaks && call.closesLine then [.lineBreak indent] else []) ++
                [.text ")"])))) := by
  have hopening : (layout { call with args := [arg] } indent depth).opening true arg.decs =
      if arg.breaks then leadPieces (indent + 1) arg.decs.lead else [] := by
    have hlines : (layout { call with args := [arg] } indent depth).multiline = arg.breaks := by
      simp [layout, isMultiline]
    rw [ArgsLayout.opening, hlines, ← Expr.breaks, Bool.and_self]
    rfl
  rw [← hopening]
  obtain ⟨kind, decs⟩ := arg
  simp [pieces, ArgsLayout.pieces, single, argIndent, layout, isMultiline]

/-- Comments above a single argument are written if it stands on a line of its own. -/
theorem commentsIn_single :
    commentsIn (pieces { call with args := [arg] } body indent depth) =
      (if arg.breaks then arg.decs.leadComments else []) ++
        (commentsIn (single arg body indent depth) ++ arg.decs.trail) := by
  have hlead : commentsIn (if arg.breaks then leadPieces (indent + 1) arg.decs.lead else []) =
      if arg.breaks then arg.decs.leadComments else [] := by
    split
    · exact commentsIn_lead _ _
    · rfl
  have hbreak : commentsIn (if arg.breaks && call.closesLine then [.lineBreak indent] else []) =
      [] := by
    split <;> rfl
  rw [pieces_single, commentsIn_code, commentsIn_text]
  simp only [commentsIn_append, hlead, hbreak, ArgsLayout.commentsIn_closing, commentsIn_text,
    commentsIn_nil, List.append_nil]

/-- A call is as harmless as its single argument if that has no line comment behind it. -/
theorem harmless_single {P : Prop}
    (hbody : ∀ rest, Harmless (single arg body indent depth ++ rest) ↔ P ∧ Harmless rest)
    (htrail : P → ∀ text ∈ arg.decs.trail, isLineComment text = false) :
    Harmless (pieces { call with args := [arg] } body indent depth) ↔ P := by
  have hopening (rest : List Piece) :
      Harmless ((if arg.breaks then leadPieces (indent + 1) arg.decs.lead else []) ++ rest) ↔
        Harmless rest := by
    split
    · exact harmless_lead_append _ _ _
    · rfl
  have hparen : Harmless ((if arg.breaks && call.closesLine then [.lineBreak indent] else []) ++
      [.text ")"]) := by
    split <;> exact trivial
  rw [pieces_single, harmless_code, harmless_text, hopening, hbody]
  refine and_iff_left_of_imp fun h => ?_
  exact (ArgsLayout.harmless_closing (htrail h) true _).2 hparen

end Call

end TraceWeave.Syntax
