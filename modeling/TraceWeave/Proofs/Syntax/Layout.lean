import TraceWeave.Proofs.Syntax.Spacing

/-!
Statements on lines of their own and the marks that they are written with.

A plain statement is made of formulas, of blocks, and of conditionals and loops around them;
it carries no comments.  Its marks start every statement of a block with the line breaks in
front of it, whose number is the room that the statement asks for.
-/

namespace TraceWeave.Syntax

open TraceWeave.Text

/-! ## What is written for each kind of statement -/

namespace StmtKind

variable (indent : Nat) (ownLine : Bool) (out : String)

theorem write_expr (value : Expr) :
    (expr value).write indent ownLine out = value.write indent 0 1 out := rfl

theorem write_assign (left : List Expr) (op : AssignOp) (right : List Expr) :
    (assign left op right).write indent ownLine out =
      writeExprs indent (if left.length > 1 && right.length > 1 then 2 else 1) true right
        (writeExprs indent (if left.length > 1 && right.length > 1 then 2 else 1) true left out ++
          Printer.assignSign op) := rfl

theorem write_spawn (call : Expr) :
    (spawn call).write indent ownLine out = call.write indent 0 1 (out ++ "go ") := rfl

theorem write_defer (call : Expr) :
    (defer call).write indent ownLine out = call.write indent 0 1 (out ++ "defer ") := rfl

theorem write_ret (results : List Expr) :
    (ret results).write indent ownLine out =
      if results.isEmpty then out ++ "return"
      else writeExprs indent 1 true results (out ++ "return ") := rfl

theorem write_cond (test : Expr) (body : Block) :
    (cond none test body none).write indent ownLine out =
      body.write indent (test.writeStripped indent (out ++ "if ") ++ " ") := rfl

theorem write_cond_else (test : Expr) (body : Block) (kind : StmtKind) (decs : Decorations) :
    (cond none test body (some ⟨kind, decs⟩)).write indent ownLine out =
      kind.write indent false
        (body.write indent (test.writeStripped indent (out ++ "if ") ++ " ") ++ " else ") := rfl

theorem write_forever (body : Block) :
    (loop .infinite body).write indent ownLine out = body.write indent (out ++ "for ") := rfl

theorem write_loop (test : Expr) (body : Block) :
    (loop (.cond test) body).write indent ownLine out =
      body.write indent (test.writeStripped indent (out ++ "for ") ++ " ") := rfl

theorem write_block (body : Block) :
    (block body).write indent ownLine out = body.write indent out := rfl

end StmtKind

/-! ## Plain statements -/

/-- The number of line breaks that make a gap. -/
def Gap.rows : Gap → Nat
  | .sameLine => 0
  | .newLine => 1
  | .blankLine => 2

theorem Gap.rows_eq_succ {gap : Gap} (h : gap.isBreak = true) : ∃ count, gap.rows = count + 1 := by
  cases gap with
  | sameLine => contradiction
  | newLine => exact ⟨0, rfl⟩
  | blankLine => exact ⟨1, rfl⟩

/-- Decorations that consist of room alone. -/
def Decorations.isRoom (decs : Decorations) : Bool := decs == { before := decs.before }

/-- Statements on lines of their own, the first one on the line behind the brace. -/
structure Block.Laid (block : Block) : Prop where
  trailing : block.trailing = []
  inline : block.inline = true → block.stmts = []
  first : ∀ stmt ∈ block.stmts.head?, stmt.decs.before = .newLine
  room : ∀ stmt ∈ block.stmts, stmt.decs.isRoom = true ∧ stmt.decs.before.isBreak = true

/-- A statement that may stand behind an `else`. -/
def StmtKind.isAlternative : StmtKind → Bool
  | .block _ => true
  | .cond _ _ _ _ => true
  | _ => false

inductive Plain : StmtKind → Prop where
  | expr {value : Expr} : Formula 1 value → Plain (.expr value)
  | assign {left : List Expr} {op : AssignOp} {right : List Expr} : left ≠ [] → right ≠ [] →
      (∀ expr ∈ left, Formula 1 expr) → (∀ expr ∈ right, Formula 1 expr) →
      Plain (.assign left op right)
  | spawn {call : Expr} : Formula 1 call → Plain (.spawn call)
  | defer {call : Expr} : Formula 1 call → Plain (.defer call)
  | ret {results : List Expr} : (∀ expr ∈ results, Formula 1 expr) → Plain (.ret results)
  | block {block : Block} :
      block.Laid → (∀ stmt ∈ block.stmts, Plain stmt.kind) → Plain (.block block)
  | cond {test : Expr} {body : Block} : Formula 1 test → (∀ inner, test.kind ≠ .paren inner) →
      body.Laid → (∀ stmt ∈ body.stmts, Plain stmt.kind) → Plain (.cond none test body none)
  | condElse {test : Expr} {body : Block} {alternative : StmtKind} :
      Formula 1 test → (∀ inner, test.kind ≠ .paren inner) → body.Laid →
      (∀ stmt ∈ body.stmts, Plain stmt.kind) → alternative.isAlternative → Plain alternative →
      Plain (.cond none test body (some ⟨alternative, {}⟩))
  | forever {body : Block} :
      body.Laid → (∀ stmt ∈ body.stmts, Plain stmt.kind) → Plain (.loop .infinite body)
  | loop {test : Expr} {body : Block} : Formula 1 test → (∀ inner, test.kind ≠ .paren inner) →
      body.Laid → (∀ stmt ∈ body.stmts, Plain stmt.kind) → Plain (.loop (.cond test) body)

/-! ## Marks -/

def tabMarks (count : Nat) : List Mark := List.replicate count (.blank '\t')

def AssignOp.symbol : AssignOp → String
  | .define => ":="
  | .assign => "="

mutual

def StmtKind.marks (indent : Nat) : StmtKind → List Mark
  | .expr value => value.marks 1
  | .assign left op right =>
      let depth := if left.length > 1 && right.length > 1 then 2 else 1
      marksOfArgs depth left ++ .blank ' ' :: .symbol op.symbol :: .blank ' ' ::
        marksOfArgs depth right
  | .spawn call => .word "go" :: .blank ' ' :: call.marks 1
  | .defer call => .word "defer" :: .blank ' ' :: call.marks 1
  | .ret [] => [.word "return"]
  | .ret results => .word "return" :: .blank ' ' :: marksOfArgs 1 results
  | .block block => block.marks indent
  | .cond _ test body none =>
      .word "if" :: .blank ' ' :: test.marks 1 ++ .blank ' ' :: body.marks indent
  | .cond _ test body (some ⟨alternative, _⟩) =>
      .word "if" :: .blank ' ' :: test.marks 1 ++ .blank ' ' :: body.marks indent ++
        .blank ' ' :: .word "else" :: .blank ' ' :: alternative.marks indent
  | .loop .infinite body => .word "for" :: .blank ' ' :: body.marks indent
  | .loop (.cond test) body =>
      .word "for" :: .blank ' ' :: test.marks 1 ++ .blank ' ' :: body.marks indent
  | _ => []

/-- The closing brace of a block that is not inline stands on a line of its own. -/
def Block.marks (indent : Nat) : Block → List Mark
  | ⟨stmts, _, inline⟩ =>
      .symbol "\x7b" :: marksOfStmts (indent + 1) stmts ++
        (if inline then [] else .breaks 1 :: tabMarks indent) ++ [.symbol "\x7d"]

def marksOfStmts (indent : Nat) : List Stmt → List Mark
  | [] => []
  | ⟨kind, decs⟩ :: stmts =>
      .breaks decs.before.rows :: tabMarks indent ++ kind.marks indent ++
        marksOfStmts indent stmts

end

/-! ## Writing -/

@[simp]
theorem render_tabMarks (count : Nat) : render (tabMarks count) = List.replicate count '\t' := by
  induction count with
  | zero => rfl
  | succ count ih =>
      rw [tabMarks, List.replicate_succ, render_cons, ← tabMarks, ih]
      rfl

@[simp]
theorem toList_tabs (count : Nat) (out : String) :
    (Printer.tabs count out).toList = out.toList ++ List.replicate count '\t' := by
  unfold Printer.tabs
  induction count generalizing out with
  | zero => simp [Nat.repeat]
  | succ count ih => simp [Nat.repeat, ih, List.replicate_succ']

theorem toList_writeExprs {indent depth : Nat} {exprs : List Expr}
    (hformula : ∀ expr ∈ exprs, Formula 1 expr) (first : Bool) (out : String) :
    (writeExprs indent depth first exprs out).toList =
      out.toList ++ (if first || exprs.isEmpty then [] else [',', ' ']) ++
        render (marksOfArgs depth exprs) := by
  induction exprs generalizing first out with
  | nil => simp [writeExprs, marksOfArgs]
  | cons expr exprs ih =>
      have hexpr := (hformula expr List.mem_cons_self).toList_write (Nat.zero_le 1) indent depth
      have hrest := ih fun expr hmem => hformula expr (List.mem_cons_of_mem _ hmem)
      simp only [writeExprs, marksOfArgs]
      cases first <;> cases exprs <;> simp [hrest, hexpr, Mark.chars]

/-- A condition without parentheses around it is written as it is. -/
theorem Formula.toList_writeStripped {test : Expr} (h : Formula 1 test)
    (hparen : ∀ inner, test.kind ≠ .paren inner) (indent : Nat) (out : String) :
    (test.writeStripped indent out).toList = out.toList ++ render (test.marks 1) := by
  have hwrite := h.toList_write (Nat.zero_le 1) indent 1 out
  rw [← hwrite]
  obtain ⟨kind, decs⟩ := test
  cases kind <;> first | rfl | exact absurd rfl (hparen _)

theorem Plain.isLabeled {kind : StmtKind} (h : Plain kind) : kind.isLabeled = false := by
  cases h <;> rfl

/-- Statements that are laid out on lines of their own, behind a line break. -/
theorem toList_writeStmts {indent : Nat} {stmts : List Stmt}
    (hroom : ∀ stmt ∈ stmts, stmt.decs.isRoom = true ∧ stmt.decs.before.isBreak = true)
    (hplain : ∀ stmt ∈ stmts, Plain stmt.kind)
    (hwrite : ∀ stmt ∈ stmts, ∀ out,
      (stmt.kind.write indent true out).toList = out.toList ++ render (stmt.kind.marks indent))
    {after : Option Gap}
    (hafter : after = some .sameLine ∨
      after = none ∧ ∀ stmt ∈ stmts.head?, stmt.decs.before = .newLine)
    (out : String) :
    (writeStmts indent after stmts (out.push '\n')).toList =
      out.toList ++ render (marksOfStmts indent stmts) ++ ['\n'] := by
  induction stmts generalizing after out with
  | nil => simp [writeStmts, marksOfStmts]
  | cons stmt stmts ih =>
      obtain ⟨kind, decs⟩ := stmt
      have hrest := fun out => ih (fun stmt hmem => hroom stmt (List.mem_cons_of_mem _ hmem))
        (fun stmt hmem => hplain stmt (List.mem_cons_of_mem _ hmem))
        (fun stmt hmem => hwrite stmt (List.mem_cons_of_mem _ hmem)) (.inl rfl) out
      obtain ⟨hdecs, hbreak⟩ := hroom _ List.mem_cons_self
      have hlabel := (hplain _ List.mem_cons_self).isLabeled
      have hkind := hwrite _ List.mem_cons_self
      obtain ⟨gap, rfl⟩ : ∃ gap, decs = { before := gap } := ⟨_, eq_of_beq hdecs⟩
      have hgap : gap = .newLine ∨ after = some .sameLine ∧ gap = .blankLine := by
        obtain hsome | ⟨-, hfirst⟩ := hafter
        · cases gap with
          | sameLine => contradiction
          | newLine => exact .inl rfl
          | blankLine => exact .inr ⟨hsome, rfl⟩
        · exact .inl (hfirst _ rfl)
      simp only at hkind hlabel
      obtain rfl | ⟨rfl, rfl⟩ := hgap
      · obtain rfl | ⟨rfl, -⟩ := hafter <;>
          simp [writeStmts, marksOfStmts, Printer.commentLines, Printer.trail, hlabel, hkind, hrest,
            Gap.rows, Mark.chars]
      · simp [writeStmts, marksOfStmts, Printer.commentLines, Printer.trail, hlabel, hkind, hrest,
          Gap.rows, Mark.chars]

/-- A block whose statements are written as their marks. -/
theorem Block.Laid.toList_write {block : Block} (h : block.Laid)
    (hplain : ∀ stmt ∈ block.stmts, Plain stmt.kind) {indent : Nat}
    (hwrite : ∀ stmt ∈ block.stmts, ∀ out, (stmt.kind.write (indent + 1) true out).toList =
      out.toList ++ render (stmt.kind.marks (indent + 1))) (out : String) :
    (block.write indent out).toList = out.toList ++ render (block.marks indent) := by
  obtain ⟨stmts, trailing, inline⟩ := block
  obtain rfl : trailing = [] := h.trailing
  have hlines := fun out => toList_writeStmts h.room hplain hwrite (.inr ⟨rfl, h.first⟩) out
  have hopening : ∀ out : String, out ++ "\x7b\n" = (out ++ "\x7b").push '\n' := by
    intro out
    refine String.toList_injective ?_
    simp
  cases stmts with
  | nil =>
      cases inline <;> simp [Block.write, Block.marks, Printer.block, Printer.newLine, marksOfStmts, Mark.chars]
  | cons stmt stmts =>
      have hinline : inline = false := by
        cases inline with
        | false => rfl
        | true => exact absurd (h.inline rfl) (List.cons_ne_nil _ _)
      subst hinline
      have hbody := hlines (out ++ "\x7b")
      simp [Block.write, Block.marks, Printer.block, Printer.commentLines, hopening, hbody, Mark.chars]

/-- The printer writes a plain statement as its marks. -/
theorem Plain.toList_write {kind : StmtKind} (h : Plain kind) (indent : Nat) (ownLine : Bool)
    (out : String) :
    (kind.write indent ownLine out).toList = out.toList ++ render (kind.marks indent) := by
  induction h generalizing indent ownLine out with
  | expr hvalue =>
      rw [StmtKind.write_expr, StmtKind.marks]
      exact hvalue.toList_write (Nat.zero_le 1) indent 1 out
  | @assign left op right _ _ hleft hright =>
      have hsign : (Printer.assignSign op).toList = ' ' :: op.symbol.toList ++ [' '] := by
        cases op <;> rfl
      rw [StmtKind.write_assign, StmtKind.marks]
      simp [toList_writeExprs hleft, toList_writeExprs hright, hsign, Mark.chars]
  | spawn hcall =>
      rw [StmtKind.write_spawn, StmtKind.marks]
      simp [hcall.toList_write (Nat.zero_le 1), Mark.chars]
  | defer hcall =>
      rw [StmtKind.write_defer, StmtKind.marks]
      simp [hcall.toList_write (Nat.zero_le 1), Mark.chars]
  | @ret results hresults =>
      rw [StmtKind.write_ret]
      cases results with
      | nil => simp [StmtKind.marks, Mark.chars]
      | cons result results => simp [StmtKind.marks, toList_writeExprs hresults, Mark.chars]
  | block hlaid hplain ih =>
      rw [StmtKind.write_block, StmtKind.marks]
      exact hlaid.toList_write hplain (fun stmt hmem => ih stmt hmem _ _) out
  | cond htest hparen hlaid hplain ih =>
      have hbody := hlaid.toList_write hplain fun stmt hmem => ih stmt hmem (indent + 1) true
      rw [StmtKind.write_cond, StmtKind.marks]
      simp [htest.toList_writeStripped hparen, hbody, Mark.chars]
  | condElse htest hparen hlaid hplain _ _ ih ihalternative =>
      have hbody := hlaid.toList_write hplain fun stmt hmem => ih stmt hmem (indent + 1) true
      rw [StmtKind.write_cond_else, StmtKind.marks]
      simp [htest.toList_writeStripped hparen, hbody, ihalternative, Mark.chars]
  | forever hlaid hplain ih =>
      have hbody := hlaid.toList_write hplain fun stmt hmem => ih stmt hmem (indent + 1) true
      rw [StmtKind.write_forever, StmtKind.marks]
      simp [hbody, Mark.chars]
  | loop htest hparen hlaid hplain ih =>
      have hbody := hlaid.toList_write hplain fun stmt hmem => ih stmt hmem (indent + 1) true
      rw [StmtKind.write_loop, StmtKind.marks]
      simp [htest.toList_writeStripped hparen, hbody, Mark.chars]

/-! ## Marks of statements stand apart -/

theorem Apart.tabs {marks : List Mark} (h : Apart marks) (count : Nat) :
    Apart (tabMarks count ++ marks) := by
  induction count with
  | zero => exact h
  | succ count ih => exact .blank (.inr rfl) ih

theorem Apart.space {marks : List Mark} (h : Apart marks) : Apart (.blank ' ' :: marks) :=
  .blank (.inl rfl) h

/-- A blank and a line break end a word. -/
theorem head_blank {c : Char} (hc : c = ' ' ∨ c = '\n') (rest : List Char) :
    ∀ first ∈ (c :: rest).head?, isWordRest first = false := by
  have hnone : isWordRest ' ' = false ∧ isWordRest '\n' = false := by decide +kernel
  intro first hfirst
  obtain rfl := Option.some.inj hfirst
  obtain rfl | rfl := hc
  · exact hnone.1
  · exact hnone.2

/-- A keyword of the language behind which a blank stands. -/
theorem Apart.keyword {text : String} (htext : text ∈ keywords) {marks : List Mark}
    (h : Apart marks) : Apart (.word text :: .blank ' ' :: marks) := by
  have hwords : ∀ text ∈ keywords, isWordChars text.toList = true := by decide +kernel
  exact .word (hwords text htext) (head_blank (.inl rfl) _) h.space

theorem apart_formulas {exprs : List Expr} (h : ∀ expr ∈ exprs, Formula 1 expr) (depth : Nat)
    {tail : List Mark} (htail : Apart tail) (hhead : ∀ c ∈ (render tail).head?, isWordRest c = false) :
    Apart (marksOfArgs depth exprs ++ tail) :=
  apart_marksOfArgs depth htail hhead fun expr hmem _ htail hhead =>
    (h expr hmem).apart depth htail hhead

theorem apart_marksOfStmts {indent : Nat} {stmts : List Stmt}
    (hbreak : ∀ stmt ∈ stmts, stmt.decs.before.isBreak = true)
    (hstmts : ∀ stmt ∈ stmts, ∀ {tail : List Mark}, Apart tail →
      (∀ c ∈ (render tail).head?, isWordRest c = false) →
        Apart (stmt.kind.marks (indent + 1) ++ tail))
    {tail : List Mark} (htail : Apart tail) (hhead : ∀ c ∈ (render tail).head?, isWordRest c = false) :
    Apart (marksOfStmts (indent + 1) stmts ++ tail) ∧
      ∀ c ∈ (render (marksOfStmts (indent + 1) stmts ++ tail)).head?, isWordRest c = false := by
  induction stmts with
  | nil => exact ⟨htail, hhead⟩
  | cons stmt stmts ih =>
      obtain ⟨kind, decs⟩ := stmt
      obtain ⟨hrest, hresthead⟩ := ih (fun stmt hmem => hbreak stmt (List.mem_cons_of_mem _ hmem))
        fun stmt hmem => hstmts stmt (List.mem_cons_of_mem _ hmem)
      have hkind := hstmts _ List.mem_cons_self hrest hresthead
      obtain ⟨count, hrows⟩ := Gap.rows_eq_succ (hbreak _ List.mem_cons_self)
      simp only [marksOfStmts, hrows, List.append_assoc, List.cons_append]
      constructor
      · refine .breaks (Nat.succ_pos _) (fun c hc => ?_) (hkind.tabs (indent + 1))
        obtain rfl : '\t' = c := by
          simpa [List.replicate_succ] using hc
        decide
      · exact head_blank (.inr rfl) _

theorem Block.Laid.apart {block : Block} (h : block.Laid) {indent : Nat}
    (hstmts : ∀ stmt ∈ block.stmts, ∀ {tail : List Mark}, Apart tail →
      (∀ c ∈ (render tail).head?, isWordRest c = false) →
        Apart (stmt.kind.marks (indent + 1) ++ tail))
    {tail : List Mark} (htail : Apart tail) : Apart (block.marks indent ++ tail) := by
  obtain ⟨stmts, trailing, inline⟩ := block
  have hclosing : Apart (.symbol "\x7d" :: tail) := .closed (by decide) htail
  have hbreak := fun stmt hmem => (h.room stmt hmem).2
  cases inline with
  | true =>
      obtain rfl : stmts = [] := h.inline rfl
      exact .closed (by decide) hclosing
  | false =>
      have hline : Apart (.breaks 1 :: tabMarks indent ++ .symbol "\x7d" :: tail) := by
        refine .breaks (by decide) (fun c hc => ?_) (hclosing.tabs indent)
        cases indent with
        | zero =>
            obtain rfl : '\x7d' = c := by simpa [Mark.chars] using hc
            decide
        | succ indent =>
            obtain rfl : '\t' = c := by simpa [List.replicate_succ] using hc
            decide
      obtain ⟨hbody, -⟩ := apart_marksOfStmts hbreak hstmts hline (head_blank (.inr rfl) _)
      rw [Block.marks]
      simp only [Bool.false_eq_true, if_false, List.append_assoc, List.cons_append, List.nil_append]
      exact .closed (by decide) (by simpa using hbody)

/-- The marks of a plain statement stand apart in front of a mark that does not make a word go on. -/
theorem Plain.apart {kind : StmtKind} (h : Plain kind) (indent : Nat) {tail : List Mark}
    (htail : Apart tail) (hhead : ∀ c ∈ (render tail).head?, isWordRest c = false) :
    Apart (kind.marks indent ++ tail) := by
  induction h generalizing indent tail with
  | expr hvalue =>
      rw [StmtKind.marks]
      exact hvalue.apart 1 htail hhead
  | @assign left op right _ _ hleft hright =>
      have hop : op.symbol ∈ symbols ∧ clings op.symbol ' ' = false := by
        cases op <;> decide +kernel
      rw [StmtKind.marks]
      simp only [List.append_assoc, List.cons_append]
      generalize (if left.length > 1 && right.length > 1 then 2 else 1) = depth
      have hbehind : Apart (.symbol op.symbol :: .blank ' ' :: (marksOfArgs depth right ++ tail)) := by
        refine .symbol hop.1 (fun c hc => ?_) (apart_formulas hright depth htail hhead).space
        obtain rfl : ' ' = c := by simpa [Mark.chars] using hc
        exact hop.2
      exact apart_formulas hleft depth hbehind.space (head_blank (.inl rfl) _)
  | spawn hcall =>
      rw [StmtKind.marks]
      exact .keyword (by decide) (hcall.apart 1 htail hhead)
  | defer hcall =>
      rw [StmtKind.marks]
      exact .keyword (by decide) (hcall.apart 1 htail hhead)
  | @ret results hresults =>
      cases results with
      | nil =>
          rw [StmtKind.marks]
          exact .word (by decide +kernel) hhead htail
      | cons result results =>
          rw [StmtKind.marks]
          · exact .keyword (by decide) (apart_formulas hresults 1 htail hhead)
          · exact List.cons_ne_nil _ _
  | block hlaid _ ih =>
      rw [StmtKind.marks]
      exact hlaid.apart (fun stmt hmem _ => ih stmt hmem _) htail
  | cond htest _ hlaid _ ih =>
      have hbody := hlaid.apart (fun stmt hmem _ => ih stmt hmem (indent + 1)) htail
      rw [StmtKind.marks]
      simp only [List.append_assoc, List.cons_append]
      exact .keyword (by decide) (htest.apart 1 hbody.space (head_blank (.inl rfl) _))
  | condElse htest _ hlaid _ _ _ ih ihalternative =>
      have helse := Apart.keyword (show "else" ∈ keywords by decide) (ihalternative indent htail hhead)
      have hbody := hlaid.apart (fun stmt hmem _ => ih stmt hmem (indent + 1)) helse.space
      rw [StmtKind.marks]
      simp only [List.append_assoc, List.cons_append]
      exact .keyword (by decide) (htest.apart 1 hbody.space (head_blank (.inl rfl) _))
  | forever hlaid _ ih =>
      have hbody := hlaid.apart (fun stmt hmem _ => ih stmt hmem (indent + 1)) htail
      rw [StmtKind.marks]
      exact .keyword (by decide) hbody
  | loop htest _ hlaid _ ih =>
      have hbody := hlaid.apart (fun stmt hmem _ => ih stmt hmem (indent + 1)) htail
      rw [StmtKind.marks]
      simp only [List.append_assoc, List.cons_append]
      exact .keyword (by decide) (htest.apart 1 hbody.space (head_blank (.inl rfl) _))

end TraceWeave.Syntax
