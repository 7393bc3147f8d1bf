import TraceWeave.Proofs.Syntax.CallLayout

/-!
The comments that the printer shows.

The comments of a tree stand in the bands of its nodes and at the ends of blocks.  For each of
them a `Remark` says whether the printer has room for it: above an argument or a parameter there
is room only if that starts a line of its own.  Every remark that has room is shown, in the order
of the tree (`print_showsRemarks`).
-/

namespace TraceWeave.Syntax

open Printer
open scoped List

/-! ## Texts in a row -/

/-- The texts stand in the whole one in their order, none inside of another one. -/
inductive Contains : List String → String → Prop where
  | nil (whole : String) : Contains [] whole
  | cons {texts : List String} {rest : String} (front text : String) :
      Contains texts rest → Contains (text :: texts) (front ++ (text ++ rest))

namespace Contains

variable {texts texts' : List String} {whole whole' : String}

theorem before (front : String) (h : Contains texts whole) : Contains texts (front ++ whole) := by
  cases h with
  | nil => exact .nil _
  | cons front' text hrest =>
      rw [← String.append_assoc]
      exact .cons _ text hrest

theorem behind (h : Contains texts whole) (back : String) : Contains texts (whole ++ back) := by
  induction h with
  | nil => exact .nil _
  | cons front text _ ih =>
      rw [String.append_assoc, String.append_assoc]
      exact .cons front text ih

theorem append (h : Contains texts whole) (h' : Contains texts' whole') :
    Contains (texts ++ texts') (whole ++ whole') := by
  induction h with
  | nil => exact h'.before _
  | cons front text _ ih =>
      rw [String.append_assoc, String.append_assoc]
      exact .cons front text ih

/-- A part in front of others that are joined. -/
theorem join {sep part : String} {parts : List String} (h : Contains texts part)
    (h' : Contains texts' (sep.intercalate parts)) :
    Contains (texts ++ texts') (sep.intercalate (part :: parts)) := by
  cases parts with
  | nil =>
      have hall := h.append h'
      rwa [String.intercalate_nil, String.append_empty] at hall
  | cons next parts =>
      rw [String.intercalate_cons_cons, String.append_assoc]
      exact h.append (h'.before sep)

theorem sublist (hsublist : texts <+ texts') (h : Contains texts' whole) : Contains texts whole := by
  induction hsublist generalizing whole with
  | slnil => exact .nil _
  | cons text _ ih =>
      cases h with
      | cons front _ hrest =>
          rw [← String.append_assoc]
          exact (ih hrest).before _
  | cons_cons text _ ih =>
      cases h with
      | cons front _ hrest => exact .cons front text (ih hrest)

end Contains

/-- What the writer appends contains the texts. -/
def Writes (texts : List String) (write : String → String) : Prop :=
  ∀ out, ∃ added, write out = out ++ added ∧ Contains texts added

namespace Writes

variable {texts texts' : List String} {write write' : String → String}

theorem keep : Writes [] id := fun _ => ⟨"", String.append_empty.symm, .nil _⟩

theorem text (text : String) : Writes [] (· ++ text) := fun _ => ⟨text, rfl, .nil _⟩

theorem push (c : Char) : Writes [] (·.push c) := fun _ =>
  ⟨String.singleton c, String.push_eq_append c, .nil _⟩

theorem comment (text : String) : Writes [text] (· ++ text) := by
  refine fun out => ⟨text, rfl, ?_⟩
  have hcontains := Contains.cons "" text (.nil "")
  rwa [String.append_empty, String.empty_append] at hcontains

theorem andThen (h : Writes texts write) (h' : Writes texts' write') :
    Writes (texts ++ texts') fun out => write' (write out) := by
  intro out
  obtain ⟨added, hwrite, hadded⟩ := h out
  obtain ⟨added', hwrite', hadded'⟩ := h' (write out)
  refine ⟨added ++ added', hwrite'.trans ?_, hadded.append hadded'⟩
  rw [hwrite, String.append_assoc]

/-- Code behind the writer. -/
theorem closed (h : Writes texts write) (h' : Writes [] write') :
    Writes texts fun out => write' (write out) := by
  have hall := h.andThen h'
  rwa [List.append_nil] at hall

theorem sublist (hsublist : texts <+ texts') (h : Writes texts' write) : Writes texts write := by
  intro out
  obtain ⟨added, hwrite, hadded⟩ := h out
  exact ⟨added, hwrite, hadded.sublist hsublist⟩

theorem ite (c : Prop) [Decidable c] (h : Writes texts write) (h' : Writes texts write') :
    Writes texts fun out => if c then write out else write' out := by
  intro out
  dsimp only
  split
  · exact h out
  · exact h' out

theorem foldl {α : Type} {textsOf : α → List String} {write : String → α → String} {list : List α}
    (h : ∀ a ∈ list, Writes (textsOf a) (write · a)) :
    Writes (list.flatMap textsOf) (list.foldl write ·) := by
  induction list with
  | nil => exact keep
  | cons a list ih =>
      obtain ⟨hfirst, hlist⟩ := List.forall_mem_cons.1 h
      exact hfirst.andThen (ih hlist)

end Writes

/-! ## Bands -/

theorem writes_tabs (count : Nat) : Writes [] (tabs count) := by
  unfold tabs
  induction count with
  | zero => exact .keep
  | succ count ih => exact ih.closed (.push '\t')

theorem writes_newLine (indent : Nat) : Writes [] (newLine indent) :=
  (Writes.push '\n').closed (writes_tabs indent)

theorem writes_trail (decs : Decorations) : Writes decs.trail (trail decs) := by
  have hall := Writes.foldl fun text (_ : text ∈ decs.trail) => Writes.comment text
  rwa [List.flatMap_singleton'] at hall

theorem writes_lines {write : String → String → String} (lines : List String)
    (h : ∀ line, Writes [line] (write · line)) :
    Writes (lines.filter isLine) (lines.foldl write ·) := by
  have hall := Writes.foldl fun line (_ : line ∈ lines) => h line
  rw [List.flatMap_singleton'] at hall
  exact hall.sublist List.filter_sublist

theorem writes_commentLines (lines : List String) (indent : Nat) :
    Writes (lines.filter isLine) (commentLines lines indent) := by
  refine writes_lines lines fun line => ?_
  have hline : Writes [line] fun out => if line.isEmpty then out else tabs indent out ++ line := by
    cases hempty : line.isEmpty with
    | true =>
        rw [String.isEmpty_iff.1 hempty]
        simpa using Writes.comment ""
    | false => exact (writes_tabs indent).andThen (.comment line)
  exact hline.closed (.push '\n')

theorem writes_leadBreaks (lines : List String) (indent : Nat) :
    Writes (lines.filter isLine) (leadBreaks lines indent) := by
  unfold leadBreaks
  refine Writes.closed (writes_lines lines fun line => ?_) (writes_newLine indent)
  exact (writes_newLine indent).andThen (.comment line)

/-! ## Remarks -/

/-- A comment of a tree. -/
structure Remark where
  text : String
  /-- The printer has room for it where it stands. -/
  roomy : Bool

/-- The comments of a band. -/
def band (roomy : Bool) (texts : List String) : List Remark := texts.map ({ text := ·, roomy })

/-- Those that have room. -/
def shown (all : List Remark) : List String :=
  all.filterMap fun remark => if remark.roomy then some remark.text else none

@[simp] theorem shown_nil : shown [] = [] := rfl

@[simp] theorem shown_append (first second : List Remark) :
    shown (first ++ second) = shown first ++ shown second :=
  List.filterMap_append

@[simp] theorem shown_roomy (texts : List String) : shown (band true texts) = texts := by
  simp [shown, band, List.filterMap_map]

@[simp] theorem shown_crowded (texts : List String) : shown (band false texts) = [] := by
  simp [shown, band, List.filterMap_map]

mutual

/-- No room is left for comments around an expression that is no argument. -/
def Expr.remarks : Expr → List Remark
  | ⟨kind, decs⟩ => band false decs.comments ++ kind.remarks

def ExprKind.remarks : ExprKind → List Remark
  | .selector operand _ => operand.remarks
  | .star operand => operand.remarks
  | .unary _ operand => operand.remarks
  | .paren inner => inner.remarks
  | .binary left _ right => left.remarks ++ right.remarks
  | .call ⟨callee, args, _, _⟩ => callee.remarks ++ remarksOfArgs args
  | .index operand indices => operand.remarks ++ remarksOfExprs indices
  | .composite (some type) _ => type.remarks
  | .func params _ body => params.remarks ++ body.remarksOfBody
  | _ => []

/-- Above an argument there is room if it starts a line. -/
def remarksOfArgs : List Expr → List Remark
  | [] => []
  | ⟨kind, decs⟩ :: args =>
      band decs.before.isBreak decs.leadComments ++
        (kind.remarks ++ (band true decs.trail ++ remarksOfArgs args))

def remarksOfExprs : List Expr → List Remark
  | [] => []
  | expr :: exprs => expr.remarks ++ remarksOfExprs exprs

def FieldList.remarks : FieldList → List Remark
  | ⟨fields, _⟩ => remarksOfFields fields

def remarksOfFields : List Field → List Remark
  | [] => []
  | ⟨_, type, _, decs⟩ :: fields =>
      band decs.before.isBreak decs.leadComments ++
        (type.remarks ++ (band true decs.trail ++ remarksOfFields fields))

def Block.remarks : Block → List Remark
  | ⟨stmts, trailing, _⟩ => remarksOfStmts stmts ++ band true (trailing.filter isLine)

/-- The body of a function has no room at its end if it may stand on one line. -/
def Block.remarksOfBody : Block → List Remark
  | ⟨stmts, trailing, inline⟩ =>
      remarksOfStmts stmts ++ band (!inline || stmts.isEmpty) (trailing.filter isLine)

def remarksOfStmts : List Stmt → List Remark
  | [] => []
  | ⟨kind, decs⟩ :: stmts =>
      band true decs.leadComments ++
        (kind.remarks true ++ (band true decs.trail ++ remarksOfStmts stmts))

/-- A label leaves room behind its statement where the statement has a line of its own. -/
def StmtKind.remarks (ownLine : Bool) : StmtKind → List Remark
  | .expr value => value.remarks
  | .spawn call => call.remarks
  | .defer call => call.remarks
  | .assign left _ right => remarksOfExprs left ++ remarksOfExprs right
  | .ret results => remarksOfExprs results
  | .cond init test body alternative =>
      remarksOfOptional init ++ (test.remarks ++ (body.remarks ++ remarksOfOptional alternative))
  | .loop header body => header.remarks ++ body.remarks
  | .switch _ clauses trailing =>
      remarksOfClauses clauses ++ band true (trailing.filter isLine)
  | .select clauses trailing =>
      remarksOfClauses clauses ++ band true (trailing.filter isLine)
  | .block body => body.remarks
  | .labeled _ ⟨kind, decs⟩ =>
      band false decs.leadComments ++
        (kind.remarks false ++ band ownLine decs.trail)
  | _ => []

def remarksOfOptional : Option Stmt → List Remark
  | none => []
  | some ⟨kind, decs⟩ =>
      band false decs.leadComments ++
        (kind.remarks false ++ band false decs.trail)

def LoopHeader.remarks : LoopHeader → List Remark
  | .cond test => test.remarks
  | .range (some key) value _ operand =>
      key.remarks ++ (remarksOfOptionalExpr value ++ operand.remarks)
  | .range none _ _ operand => operand.remarks
  | _ => []

def remarksOfOptionalExpr : Option Expr → List Remark
  | none => []
  | some expr => expr.remarks

def remarksOfClauses : List Clause → List Remark
  | [] => []
  | ⟨_, body, trailing, decs⟩ :: clauses =>
      band true decs.comments ++ (remarksOfStmts body ++
        (band true (trailing.filter isLine) ++ remarksOfClauses clauses))

end

/-! ## Writing -/

/-- What stands in front of a writer. -/
theorem Writes.opened {texts : List String} {write : String → String} (text : String)
    (h : Writes texts write) : Writes texts fun out => write (out ++ text) :=
  (Writes.text text).andThen h

/-- What starts a line shows the comments above it. -/
theorem writes_lead (roomy : Bool) (lines : List String) (indent : Nat)
    {breaks inRow : String → String} (hbreaks : Writes [] breaks) (hinRow : Writes [] inRow) :
    Writes (shown (band roomy (lines.filter isLine))) fun out =>
      if roomy then leadBreaks lines indent (breaks out) else inRow out := by
  cases roomy with
  | false =>
      rw [shown_crowded]
      exact hinRow
  | true =>
      rw [shown_roomy]
      exact hbreaks.andThen (writes_leadBreaks lines indent)

/-- What stands between braces; nothing is left out where nothing stands there. -/
theorem writes_braces {texts trailing : List String} {body bare : String → String} {empty : Bool}
    (indent inner : Nat) (opening closing : String) (hbody : Writes texts body)
    (hempty : empty = true → texts = []) (hbare : Writes [] bare) :
    Writes (texts ++ trailing.filter isLine) fun out =>
      if empty && trailing.isEmpty then bare out
      else tabs indent (commentLines trailing inner (body (out ++ opening))) ++ closing := by
  intro out
  dsimp only
  split
  · next hnone =>
    obtain ⟨hnone, htrailing⟩ := Bool.and_eq_true_iff.1 hnone
    rw [hempty hnone, List.isEmpty_iff.1 htrailing]
    exact hbare out
  · have hinside := (hbody.opened opening).andThen (writes_commentLines trailing inner)
    exact (hinside.closed (writes_tabs indent)).closed (.text closing) out

theorem writes_block {texts trailing : List String} {body : String → String} {empty : Bool}
    (indent : Nat) (inline : Bool) (hbody : Writes texts body) (hempty : empty = true → texts = []) :
    Writes (texts ++ trailing.filter isLine) (Printer.block indent empty inline trailing body) :=
  writes_braces indent (indent + 1) _ _ hbody hempty
    (.ite (inline = true) (.text _) (((Writes.text _).closed (writes_newLine indent)).closed (.text _)))

theorem shown_sublist (roomy : Bool) (texts : List String) : shown (band roomy texts) <+ texts := by
  cases roomy <;> simp

theorem StmtKind.remarks_congr {kind : StmtKind} (h : kind.isLabeled = false) (ownLine other : Bool) :
    kind.remarks ownLine = kind.remarks other := by
  cases kind with
  | labeled label stmt => contradiction
  | _ => rfl

theorem shown_noStmts {stmts : List Stmt} (h : stmts.isEmpty = true) :
    shown (remarksOfStmts stmts) = [] := by
  rw [List.isEmpty_iff.1 h]
  rfl

theorem shown_noClauses {clauses : List Clause} (h : clauses.isEmpty = true) :
    shown (remarksOfClauses clauses) = [] := by
  rw [List.isEmpty_iff.1 h]
  rfl

mutual

theorem Expr.writes : ∀ (expr : Expr) (indent level depth : Nat),
    Writes (shown expr.remarks) (expr.write indent level depth)
  | ⟨kind, decs⟩, indent, level, depth => by
      change Writes (shown (_ ++ kind.remarks)) _
      rw [shown_append, shown_crowded]
      exact kind.writes indent level depth

theorem ExprKind.writes : ∀ (kind : ExprKind) (indent level depth : Nat),
    Writes (shown kind.remarks) (kind.write indent level depth)
  | .ident ident, indent, level, depth => Writes.text _
  | .literal text, indent, level, depth => Writes.text _
  | .verbatim text, indent, level, depth => Writes.text _
  | .selector operand member, indent, level, depth => by
      exact ((operand.writes indent _ _).closed (.text ".")).closed (.text _)
  | .call ⟨callee, args, spread, closesLine⟩, indent, level, depth => by
      change Writes (shown (callee.remarks ++ remarksOfArgs args)) _
      rw [shown_append]
      have hargs := args_write args indent (if args.length > 1 then depth + 1 else depth)
        (args.any Expr.breaks) spread closesLine true fun arg hmem hbreaks =>
          List.any_eq_true.2 ⟨arg, hmem, hbreaks⟩
      have hopened := ((callee.writes indent operandPrecedence
        (if args.length > 1 then depth + 1 else depth)).closed (.text "(")).andThen hargs
      exact (hopened.closed (.ite _ (writes_newLine indent) .keep)).closed (.text ")")
  | .star operand, indent, level, depth => by
      have hoperand := operand.writes indent 0 1
      exact .ite _ ((hoperand.opened "(*").closed (.text ")")) (hoperand.opened "*")
  | .unary op operand, indent, level, depth => by
      exact .ite _ ((((operand.writes indent _ _).opened op).opened "(").closed (.text ")"))
        ((operand.writes indent _ _).opened op)
  | .binary left op right, indent, level, depth => by
      change Writes (shown (left.remarks ++ right.remarks)) _
      rw [shown_append]
      have hleft (depth : Nat) (blank : String) :=
        (((Writes.ite (decide (precedence op < level) = true) (.text "(") .keep).andThen
          (left.writes indent (precedence op) depth)).closed (.text blank)).closed
            ((Writes.text op).closed (.text blank))
      exact ((hleft _ _).andThen (right.writes indent (precedence op + 1) _)).closed
        (.ite _ (.text ")") .keep)
  | .paren inner, indent, level, depth => by
      have hinner := inner.writes indent 0
      obtain ⟨kind, decs⟩ := inner
      cases kind with
      | paren innermost => exact hinner depth
      | _ => exact ((hinner _).opened "(").closed (.text ")")
  | .index operand indices, indent, level, depth => by
      change Writes (shown (operand.remarks ++ remarksOfExprs indices)) _
      rw [shown_append]
      have hopened := ((operand.writes indent operandPrecedence 1).closed (.text "[")).andThen
        (exprs_write indices indent (depth + 1) true)
      exact hopened.closed (.text "]")
  | .composite none body, indent, level, depth => Writes.text _
  | .composite (some type) body, indent, level, depth => by
      exact (type.writes indent _ _).closed (.text body)
  | .func params results body, indent, level, depth => by
      change Writes (shown (params.remarks ++ body.remarksOfBody)) _
      rw [shown_append]
      have hparams := (params.writes indent).opened "func"
      have hbody := (body.writesBody indent).opened " "
      cases results with
      | none => exact hparams.andThen hbody
      | some results =>
          obtain ⟨text, types⟩ := results
          exact ((hparams.closed (.text " ")).closed (.text text)).andThen hbody

theorem exprs_write : ∀ (exprs : List Expr) (indent depth : Nat) (first : Bool),
    Writes (shown (remarksOfExprs exprs)) (writeExprs indent depth first exprs)
  | [], indent, depth, first => Writes.keep
  | expr :: exprs, indent, depth, first => by
      rw [remarksOfExprs, shown_append]
      have hopening := Writes.ite (first = true) .keep (.text ", ")
      exact (hopening.andThen (expr.writes indent 0 depth)).andThen (exprs_write exprs indent depth false)

theorem args_write : ∀ (args : List Expr) (indent depth : Nat)
    (multiline spread closesLine first : Bool),
    (∀ arg ∈ args, arg.breaks = true → multiline = true) →
    Writes (shown (remarksOfArgs args)) (writeArgs indent depth multiline spread closesLine first args)
  | [], indent, depth, multiline, spread, closesLine, first, _ => Writes.keep
  | ⟨kind, decs⟩ :: args, indent, depth, multiline, spread, closesLine, first, hbreaks => by
      obtain ⟨hfirst, hargs⟩ := List.forall_mem_cons.1 hbreaks
      have hroomy : (multiline && decs.before.isBreak) = decs.before.isBreak :=
        Bool.and_eq_right_iff_imp.2 hfirst
      have hlead := writes_lead (multiline && decs.before.isBreak) decs.lead (indent + 1)
        (.ite ((!first && decs.before == .blankLine) = true) (.push '\n') .keep)
        (.ite (first = true) .keep (.text " "))
      have hkind := kind.writes (if multiline then indent + 1 else indent) 0 depth
      have hspread := Writes.ite ((args.isEmpty && spread) = true) (.text "...") .keep
      have htrail := Writes.ite (multiline = true)
        ((Writes.ite ((!args.isEmpty || closesLine) = true) (.text ",") .keep).andThen (writes_trail decs))
        ((writes_trail decs).closed (.ite (args.isEmpty = true) .keep (.text ",")))
      have hrest := args_write args indent depth multiline spread closesLine false hargs
      rw [remarksOfArgs, shown_append, shown_append, shown_append, shown_roomy, ← hroomy]
      exact hlead.andThen ((hkind.closed hspread).andThen (htrail.andThen hrest))

theorem FieldList.writes : ∀ (list : FieldList) (indent : Nat),
    Writes (shown list.remarks) (list.write indent)
  | ⟨fields, closesLine⟩, indent => by
      have hfields := (fields_write fields indent (fields.any Field.breaks && closesLine) true).opened "("
      exact (hfields.closed (.ite _ (writes_newLine indent) .keep)).closed (.text ")")

theorem fields_write : ∀ (fields : List Field) (indent : Nat) (closed first : Bool),
    Writes (shown (remarksOfFields fields)) (writeFields indent closed first fields)
  | [], indent, closed, first => Writes.keep
  | ⟨names, type, variadic, decs⟩ :: fields, indent, closed, first => by
      have hlead := writes_lead decs.before.isBreak decs.lead (indent + 1) .keep
        (.ite (first = true) .keep (.text " "))
      have hnames := ((hlead.closed (.text (", ".intercalate (names.map (·.name))))).closed
        (.ite (names.isEmpty = true) .keep (.text " "))).closed
          (.ite (variadic = true) (.text "...") .keep)
      have htype := (type.writes indent 0 1).closed
        (.ite ((!fields.isEmpty || closed) = true) (.text ",") .keep)
      have hrest := (writes_trail decs).andThen (fields_write fields indent closed false)
      rw [remarksOfFields, shown_append, shown_append, shown_append, shown_roomy]
      exact hnames.andThen (htype.andThen hrest)

theorem Block.writes : ∀ (block : Block) (indent : Nat),
    Writes (shown block.remarks) (block.write indent)
  | ⟨stmts, trailing, inline⟩, indent => by
      rw [Block.remarks, shown_append, shown_roomy]
      exact writes_block indent inline (stmts_write stmts (indent + 1) none) shown_noStmts

theorem Block.writesBody : ∀ (block : Block) (indent : Nat),
    Writes (shown block.remarksOfBody) (block.writeBody indent)
  | ⟨stmts, trailing, inline⟩, indent => by
      have hstmts := stmts_write stmts (indent + 1) none
      have hparts := @parts_contain stmts
      rw [Block.remarksOfBody, shown_append]
      intro out
      rw [Block.writeBody]
      split
      · next line hline =>
        obtain ⟨hinline, hline⟩ := Option.ite_none_right_eq_some.1 hline
        obtain ⟨parts, hwritten, hline⟩ := Option.bind_eq_some_iff.1 hline
        obtain ⟨-, hline⟩ := Option.ite_none_right_eq_some.1 hline
        obtain rfl := Option.some.inj hline
        have hcrowded : (!inline || stmts.isEmpty) = false := by simpa using hinline
        rw [hcrowded, shown_crowded, List.append_nil]
        exact ⟨_, rfl, ((hparts hwritten).before _).behind _⟩
      · have hblock : Writes (shown (remarksOfStmts stmts) ++ trailing.filter isLine) _ :=
          writes_block indent inline hstmts shown_noStmts
        exact hblock.sublist ((shown_sublist _ _).append_left _) out

/-- Statements on one line have comments inside of them only. -/
theorem parts_contain : ∀ (stmts : List Stmt) {parts : List String}, writeParts stmts = some parts →
    Contains (shown (remarksOfStmts stmts)) ("; ".intercalate parts)
  | [], parts, hparts => .nil _
  | ⟨kind, decs⟩ :: stmts, parts, hparts => by
      obtain ⟨added, hwrite, hadded⟩ := kind.writes 0 false ""
      have hrest := @parts_contain stmts
      rw [writeParts] at hparts
      obtain ⟨hplain, hparts⟩ := Option.ite_none_right_eq_some.1 hparts
      obtain ⟨rest, hwritten, rfl⟩ := Option.map_eq_some_iff.1 hparts
      simp only [Stmt.isPlain, Bool.and_eq_true, List.isEmpty_iff, Bool.not_eq_true'] at hplain
      obtain ⟨⟨⟨⟨-, hlead⟩, htrail⟩, hlabeled⟩, -⟩ := hplain
      rw [remarksOfStmts, shown_append, shown_append, shown_append, shown_roomy, shown_roomy,
        Decorations.leadComments, hlead, htrail, StmtKind.remarks_congr hlabeled true false, hwrite,
        String.empty_append]
      exact hadded.join (hrest hwritten)

theorem stmts_write : ∀ (stmts : List Stmt) (indent : Nat) (after : Option Gap),
    Writes (shown (remarksOfStmts stmts)) (writeStmts indent after stmts)
  | [], indent, after => Writes.keep
  | ⟨kind, decs⟩ :: stmts, indent, after => by
      have hlead (apart : Bool) := (Writes.ite (apart = true) (.push '\n') .keep).andThen
        (writes_commentLines decs.lead indent)
      have hrest := ((writes_trail decs).closed (.push '\n')).andThen
        (stmts_write stmts indent (some decs.after))
      rw [remarksOfStmts, shown_append, shown_append, shown_append, shown_roomy, shown_roomy]
      exact ((hlead _).closed (writes_tabs _)).andThen ((kind.writes indent true).andThen hrest)

theorem StmtKind.writes : ∀ (kind : StmtKind) (indent : Nat) (ownLine : Bool),
    Writes (shown (kind.remarks ownLine)) (kind.write indent ownLine)
  | .expr value, indent, ownLine => by
      exact value.writes indent 0 1
  | .assign left op right, indent, ownLine => by
      change Writes (shown (remarksOfExprs left ++ remarksOfExprs right)) _
      rw [shown_append]
      have hleft (depth : Nat) := (exprs_write left indent depth true).closed (.text (assignSign op))
      exact (hleft _).andThen (exprs_write right indent _ true)
  | .spawn call, indent, ownLine => by
      exact (call.writes indent 0 1).opened "go "
  | .defer call, indent, ownLine => by
      exact (call.writes indent 0 1).opened "defer "
  | .ret results, indent, ownLine => by
      have hresults := exprs_write results indent 1 true
      cases results with
      | nil => exact .text _
      | cons expr exprs => exact hresults.opened "return "
  | .cond init test body alternative, indent, ownLine => by
      have hinit := @optional_write init indent
      have halternative := @optional_write alternative indent
      have hbranch := ((test.writesStripped indent).closed (.text " ")).andThen (body.writes indent)
      change Writes (shown (remarksOfOptional init ++
        (test.remarks ++ (body.remarks ++ remarksOfOptional alternative)))) _
      rw [shown_append, shown_append, shown_append, ← List.append_assoc (shown test.remarks)]
      cases init with
      | none =>
          cases alternative with
          | none => exact (hbranch.andThen .keep).opened "if "
          | some stmt =>
              obtain ⟨kind, decs⟩ := stmt
              exact (hbranch.andThen ((halternative rfl).opened " else ")).opened "if "
      | some stmt =>
          obtain ⟨kind, decs⟩ := stmt
          have hopened := ((hinit rfl).closed (.text "; ")).opened "if "
          cases alternative with
          | none => exact hopened.andThen (hbranch.andThen .keep)
          | some other =>
              obtain ⟨otherKind, otherDecs⟩ := other
              exact hopened.andThen (hbranch.andThen ((halternative rfl).opened " else "))
  | .loop header body, indent, ownLine => by
      change Writes (shown (header.remarks ++ body.remarks)) _
      rw [shown_append]
      exact ((header.writes indent).opened "for ").andThen (body.writes indent)
  | .switch header clauses trailing, indent, ownLine => by
      have hclauses := clauses_write clauses indent
      change Writes (shown (remarksOfClauses clauses ++ band true _)) _
      rw [shown_append, shown_roomy]
      cases header with
      | none =>
          exact .opened "switch " (writes_braces indent indent _ _ hclauses shown_noClauses (.text _))
      | some header =>
          exact .opened "switch " (.opened header (.opened " "
            (writes_braces indent indent _ _ hclauses shown_noClauses (.text _))))
  | .select clauses trailing, indent, ownLine => by
      have hclauses := clauses_write clauses indent
      change Writes (shown (remarksOfClauses clauses ++ band true _)) _
      rw [shown_append, shown_roomy]
      exact .opened "select " (writes_braces indent indent _ _ hclauses shown_noClauses (.text _))
  | .block block, indent, ownLine => by
      exact block.writes indent
  | .labeled label ⟨kind, decs⟩, indent, ownLine => by
      have hkind := kind.writes indent false
      change Writes (shown (band false _ ++ (kind.remarks false ++ band ownLine decs.trail))) _
      rw [shown_append, shown_append, shown_crowded]
      cases ownLine with
      | true =>
          have hlabel := ((Writes.text label).closed (.text ":")).closed (writes_newLine indent)
          rw [shown_roomy]
          exact hlabel.andThen (hkind.andThen (writes_trail decs))
      | false =>
          rw [shown_crowded, List.append_nil]
          exact (hkind.opened ": ").opened label
  | .decl ⟨text, specs⟩, indent, ownLine => Writes.text text
  | .verbatim text, indent, ownLine => Writes.text text

theorem optional_write : ∀ (optional : Option Stmt) (indent : Nat) {stmt : Stmt}, optional = some stmt →
    Writes (shown (remarksOfOptional optional)) (stmt.kind.write indent false)
  | none, indent, stmt, hsome => by contradiction
  | some ⟨kind, decs⟩, indent, _, rfl => by
      rw [remarksOfOptional, shown_append, shown_append, shown_crowded, shown_crowded,
        List.nil_append, List.append_nil]
      exact kind.writes indent false

theorem LoopHeader.writes : ∀ (header : LoopHeader) (indent : Nat),
    Writes (shown header.remarks) (header.write indent)
  | .infinite, indent => Writes.keep
  | .cond test, indent => by
      exact (test.writesStripped indent).closed (.text " ")
  | .clauses text, indent => (Writes.text text).closed (.text " ")
  | .range none value op operand, indent => by
      exact ((operand.writesStripped indent).opened "range ").closed (.text " ")
  | .range (some key) value op operand, indent => by
      have hkey := key.writes indent 0 1
      have hvalue := @optionalExpr_write value indent
      have hoperand := (((operand.writesStripped indent).opened "range ").closed (.text " ")).opened
        (assignSign (op.getD .define))
      change Writes (shown (key.remarks ++ (remarksOfOptionalExpr value ++ operand.remarks))) _
      rw [shown_append, shown_append]
      cases value with
      | none => exact hkey.andThen hoperand
      | some value => exact hkey.andThen (((hvalue rfl).opened ", ").andThen hoperand)

theorem optionalExpr_write : ∀ (optional : Option Expr) (indent : Nat) {expr : Expr},
    optional = some expr →
    Writes (shown (remarksOfOptionalExpr optional)) (expr.write indent 0 1)
  | none, indent, expr, hsome => by contradiction
  | some expr, indent, _, rfl => by
      exact expr.writes indent 0 1

theorem clauses_write : ∀ (clauses : List Clause) (indent : Nat),
    Writes (shown (remarksOfClauses clauses)) (writeClauses indent clauses)
  | [], indent => Writes.keep
  | ⟨head, body, trailing, decs⟩ :: clauses, indent => by
      have hlead := (Writes.ite ((decs.before == .blankLine) = true) (.push '\n') .keep).andThen
        (writes_commentLines decs.lead indent)
      have hhead := (((hlead.closed (writes_tabs indent)).closed (.text head)).andThen
        (writes_trail decs)).closed (.push '\n')
      have hrest := (writes_commentLines trailing (indent + 1)).andThen (clauses_write clauses indent)
      rw [remarksOfClauses, shown_append, shown_append, shown_append, shown_roomy, shown_roomy]
      exact hhead.andThen ((stmts_write body (indent + 1) none).andThen hrest)

/-- The parentheses around a condition have no comments of their own. -/
theorem Expr.writesStripped : ∀ (expr : Expr) (indent : Nat),
    Writes (shown expr.remarks) (expr.writeStripped indent)
  | ⟨kind, decs⟩, indent => by
      have hkind := kind.writes indent 0 1
      change Writes (shown (_ ++ kind.remarks)) _
      rw [shown_append, shown_crowded]
      cases kind with
      | paren inner =>
          have hinner := inner.writes indent 0
          have hstripped := inner.writesStripped indent
          refine .ite _ ?_ hstripped
          obtain ⟨innerKind, innerDecs⟩ := inner
          cases innerKind with
          | paren innermost => exact hinner 1
          | _ => exact ((hinner _).opened "(").closed (.text ")")
      | _ => exact hkind

end

/-! ## Files -/

/-- Above an import there is room between the parentheses of a group. -/
def ImportSpec.remarks (roomy : Bool) (spec : ImportSpec) : List Remark :=
  band roomy spec.decs.leadComments ++ band true spec.decs.trail

/-- Of imports without parentheses only the first one is written. -/
def ImportDecl.remarks (decl : ImportDecl) : List Remark :=
  if decl.grouped then
    decl.specs.flatMap (·.remarks true) ++ band true (decl.trailing.filter isLine)
  else
    (decl.specs.take 1).flatMap (·.remarks false) ++
      band false ((decl.specs.drop 1).flatMap (·.decs.comments) ++
        decl.trailing.filter isLine)

def FuncDecl.remarks (decl : FuncDecl) : List Remark :=
  decl.receiver.toList.flatMap FieldList.remarks ++
    (decl.params.remarks ++ decl.body.toList.flatMap Block.remarksOfBody)

def DeclKind.remarks : DeclKind → List Remark
  | .imports decl => decl.remarks
  | .func decl => decl.remarks
  | _ => []

def Decl.remarks (decl : Decl) : List Remark :=
  band true decl.decs.leadComments ++
    (decl.kind.remarks ++ band true decl.decs.trail)

/-- The comments of a file, in the order of its tree. -/
def File.remarks (file : File) : List Remark :=
  band true file.packageDecs.comments ++
    (file.decls.flatMap Decl.remarks ++ band true (file.trailing.filter isLine))

theorem shown_flatMap {α : Type} (remarksOf : α → List Remark) (list : List α) :
    shown (list.flatMap remarksOf) = list.flatMap fun a => shown (remarksOf a) :=
  List.filterMap_flatMap

theorem ImportSpec.writes (spec : ImportSpec) : Writes spec.decs.trail spec.write := by
  have hpath := ((Writes.text "\"").closed (.text spec.path)).closed (.text "\"")
  have hspec := hpath.andThen (writes_trail spec.decs)
  unfold ImportSpec.write
  cases spec.name with
  | none => exact hspec
  | some name => exact (hspec.opened " ").opened name

theorem ImportSpec.writesLine (first : Bool) (spec : ImportSpec) :
    Writes (shown (spec.remarks true)) (spec.writeLine first) := by
  have hbreak := (Writes.push '\n').closed
    (.ite ((!first && spec.decs.before == .blankLine) = true) (.push '\n') .keep)
  have hlead := (hbreak.andThen (writes_commentLines spec.decs.lead 1)).closed (writes_tabs 1)
  rw [ImportSpec.remarks, shown_append, shown_roomy, shown_roomy]
  exact hlead.andThen spec.writes

theorem ImportDecl.writes (decl : ImportDecl) : Writes (shown decl.remarks) decl.write := by
  obtain ⟨specs, grouped, trailing⟩ := decl
  cases grouped with
  | true =>
      have hend := ((Writes.push '\n').andThen (writes_commentLines trailing 1)).closed (.text ")")
      change Writes (shown (specs.flatMap (·.remarks true) ++ band true _)) _
      rw [shown_append, shown_flatMap, shown_roomy]
      cases specs with
      | nil => exact .opened "import " (.opened "(" hend)
      | cons first rest =>
          have hrest := Writes.foldl fun spec (_ : spec ∈ rest) => spec.writesLine false
          exact ((((first.writesLine true).opened "(").andThen hrest).opened "import ").andThen hend
  | false =>
      change Writes (shown ((specs.take 1).flatMap (·.remarks false) ++ band false _)) _
      rw [shown_append, shown_flatMap, shown_crowded, List.append_nil]
      cases specs with
      | nil => exact .text "import "
      | cons spec rest =>
          simp only [List.take_succ_cons, List.take_zero, List.flatMap_cons, List.flatMap_nil,
            List.append_nil, ImportSpec.remarks, shown_append, shown_crowded, shown_roomy,
            List.nil_append]
          exact spec.writes.opened "import "

theorem writes_receiver (receiver : Option FieldList) :
    Writes (receiver.toList.flatMap fun list => shown list.remarks) fun out =>
      match receiver with
      | some receiver => receiver.write 0 out ++ " "
      | none => out := by
  cases receiver with
  | none => exact .keep
  | some receiver =>
      rw [Option.toList_some, List.flatMap_singleton]
      exact (receiver.writes 0).closed (.text " ")

theorem writes_results (results : Option Results) :
    Writes [] fun out =>
      match results with
      | some results => out ++ " " ++ results.text
      | none => out := by
  cases results with
  | none => exact .keep
  | some results => exact (Writes.text " ").closed (.text results.text)

theorem writes_body (body : Option Block) :
    Writes (body.toList.flatMap fun block => shown block.remarksOfBody) fun out =>
      match body with
      | some body => body.writeBody 0 (out ++ " ")
      | none => out := by
  cases body with
  | none => exact .keep
  | some body =>
      rw [Option.toList_some, List.flatMap_singleton]
      exact (body.writesBody 0).opened " "

theorem FuncDecl.writes (decl : FuncDecl) : Writes (shown decl.remarks) decl.write := by
  have hparams := ((decl.params.writes 0).opened (decl.typeParams.getD "")).opened decl.name.name
  have hall := hparams.closed (writes_results decl.results)
  rw [FuncDecl.remarks, shown_append, shown_append, shown_flatMap, shown_flatMap]
  exact ((writes_receiver decl.receiver).opened "func ").andThen
    (hall.andThen (writes_body decl.body))

theorem Decl.writes (decl : Decl) : Writes (shown decl.remarks) decl.write := by
  have hkind : Writes (shown decl.kind.remarks) decl.kind.write := by
    cases decl.kind with
    | imports decl => exact decl.writes
    | func decl => exact decl.writes
    | gen decl => exact .text decl.text
    | verbatim text => exact .text text
  have hlead := (Writes.ite ((decl.decs.before == .blankLine) = true) (.push '\n') .keep).andThen
    (writes_commentLines decl.decs.lead 0)
  rw [Decl.remarks, shown_append, shown_append, shown_roomy, shown_roomy]
  exact hlead.andThen (hkind.andThen ((writes_trail decl.decs).closed (.push '\n')))

/--
The printer shows the comments of a file in the order of its tree, each one for itself.  Left out
are those alone that stand where it has no room for them: above an argument or a parameter that
does not start a line, or where reading a source puts none.
-/
theorem print_showsRemarks (file : File) : Contains (shown file.remarks) file.print := by
  have hpackage := ((((writes_commentLines file.packageDecs.lead 0).closed (.text "package ")).closed
    (.text file.package)).andThen (writes_trail file.packageDecs)).closed (.push '\n')
  have hdecls := Writes.foldl fun decl (_ : decl ∈ file.decls) => decl.writes
  obtain ⟨added, hprint, hadded⟩ :=
    hpackage.andThen (hdecls.andThen (writes_commentLines file.trailing 0)) ""
  rw [File.remarks, shown_append, shown_append, shown_flatMap, shown_roomy, shown_roomy]
  rw [String.empty_append] at hprint
  have hfile : file.print = added := hprint
  rw [hfile]
  exact hadded

/-- A call whose argument stands behind a comment. -/
def unitCall (before : Gap) : Call where
  callee := { kind := .ident { name := "g" } }
  args := [{ kind := .ident { name := "a" }, decs := { before, lead := ["/* unit */"] } }]

example :
    (ExprKind.call (unitCall .newLine)).write 0 0 1 "" = "g(\n\t/* unit */\n\ta)" ∧
      (ExprKind.call (unitCall .sameLine)).write 0 0 1 "" = "g(a)" := by
  decide +kernel

end TraceWeave.Syntax
