import TraceWeave.Proofs.Syntax.Reparsing

/-!
Plain files and the marks that they are written with.

A plain file declares functions without parameters over plain statements.  Its text is scanned
into the lexemes of its marks, and each of them stands in the text where its span says.
-/

namespace TraceWeave.Syntax

open TraceWeave.Text

/-! ## Plain files -/

inductive PlainDecl : Decl → Prop where
  | func {name : Ident} {body : Block} {decs : Decorations} :
      isWordChars name.name.toList = true → body.Laid → (∀ stmt ∈ body.stmts, Plain stmt.kind) →
      decs.isRoom = true → decs.before.isBreak = true →
      PlainDecl ⟨.func ⟨none, name, none, ⟨[], false⟩, none, some body⟩, decs⟩

structure File.Plain (file : File) : Prop where
  package : isWordChars file.package.toList = true
  decs : file.packageDecs = {}
  decls : ∀ decl ∈ file.decls, PlainDecl decl
  trailing : file.trailing = []

/-! ## Marks -/

def marksOfFunc (name : Ident) (body : Block) : List Mark :=
  .word "func" :: .blank ' ' :: .word name.name :: .symbol "(" :: .symbol ")" :: .blank ' ' ::
    body.marks 0

/-- The line breaks in front of a function and the function. -/
def Decl.marks : Decl → List Mark
  | ⟨.func ⟨_, name, _, _, _, some body⟩, decs⟩ => .breaks decs.before.rows :: marksOfFunc name body
  | _ => []

def File.marks (file : File) : List Mark :=
  .word "package" :: .blank ' ' :: .word file.package :: file.decls.flatMap Decl.marks ++ [.breaks 1]

/-! ## Writing -/

/-- A block on lines of its own is written as a body in the same way. -/
theorem Block.Laid.writeBody_eq {body : Block} (h : body.Laid) (indent : Nat) (out : String) :
    body.writeBody indent out = body.write indent out := by
  obtain ⟨stmts, trailing, inline⟩ := body
  cases inline with
  | false => rfl
  | true =>
      obtain rfl : stmts = [] := h.inline rfl
      rfl

/-- A declaration ends its line, as what stands in front of it does. -/
theorem PlainDecl.write_eq {decl : Decl} (h : PlainDecl decl) (out : String) :
    ∃ text : String, decl.write (out.push '\n') = text.push '\n' ∧
      text.toList = out.toList ++ render decl.marks := by
  cases h with
  | @func name body decs _ hlaid hplain hroom hbreak =>
      have hbody := fun out => hlaid.toList_write hplain
        (fun stmt hmem => (hplain stmt hmem).toList_write (0 + 1) true) out
      obtain ⟨gap, rfl⟩ : ∃ gap, decs = { before := gap } := ⟨_, eq_of_beq hroom⟩
      refine ⟨_, rfl, ?_⟩
      cases gap with
      | sameLine => contradiction
      | _ =>
          simp [Printer.commentLines, FieldList.write, writeFields, hlaid.writeBody_eq, hbody,
            Decl.marks, marksOfFunc, Gap.rows, Mark.chars]

theorem write_decls {decls : List Decl} (h : ∀ decl ∈ decls, PlainDecl decl) (out : String) :
    (decls.foldl (fun out decl => decl.write out) (out.push '\n')).toList =
      out.toList ++ render (decls.flatMap Decl.marks) ++ ['\n'] := by
  induction decls generalizing out with
  | nil => simp
  | cons decl decls ih =>
      obtain ⟨text, hwrite, htext⟩ := (h decl List.mem_cons_self).write_eq out
      rw [List.foldl_cons, hwrite, ih (fun decl hmem => h decl (List.mem_cons_of_mem _ hmem)), htext]
      simp

/-- The printer writes a plain file as its marks. -/
theorem File.Plain.toList_print {file : File} (h : file.Plain) :
    file.print.toList = render file.marks := by
  have hdecls := write_decls h.decls ("package " ++ file.package)
  have hprint : file.print = file.decls.foldl (fun out decl => decl.write out)
      (("package " ++ file.package).push '\n') := by
    rw [File.print, h.decs, h.trailing]
    simp [Printer.commentLines, Printer.trail]
  rw [hprint, hdecls]
  simp [File.marks, Mark.chars]

/-! ## Scanning -/

theorem PlainDecl.apart {decl : Decl} (h : PlainDecl decl) {tail : List Mark} (htail : Apart tail) :
    Apart (decl.marks ++ tail) ∧ ∀ c ∈ (render (decl.marks ++ tail)).head?, isWordRest c = false := by
  cases h with
  | @func name body decs hname hlaid hplain _ hbreak =>
      have hbody : Apart (body.marks 0 ++ tail) :=
        hlaid.apart (fun stmt hmem _ => (hplain stmt hmem).apart 1) htail
      have hlist : Apart (.symbol "(" :: .symbol ")" :: .blank ' ' :: (body.marks 0 ++ tail)) :=
        .closed (by decide) (.closed (by decide) hbody.space)
      have hfunc : Apart (marksOfFunc name body ++ tail) :=
        .keyword (by decide) (.word hname (head_symbol (by decide) _) hlist)
      obtain ⟨count, hcount⟩ := Gap.rows_eq_succ hbreak
      rw [Decl.marks, hcount]
      constructor
      · refine .breaks (Nat.succ_pos _) (fun c hc => ?_) hfunc
        obtain rfl : 'f' = c := by simpa [marksOfFunc, Mark.chars] using hc
        decide
      · exact head_blank (.inr rfl) _

theorem apart_decls {decls : List Decl} (h : ∀ decl ∈ decls, PlainDecl decl) :
    Apart (decls.flatMap Decl.marks ++ [.breaks 1]) ∧
      ∀ c ∈ (render (decls.flatMap Decl.marks ++ [.breaks 1])).head?, isWordRest c = false := by
  induction decls with
  | nil => exact ⟨.breaks (by decide) (by simp) .nil, head_blank (.inr rfl) _⟩
  | cons decl decls ih =>
      obtain ⟨hrest, -⟩ := ih fun decl hmem => h decl (List.mem_cons_of_mem _ hmem)
      rw [List.flatMap_cons, List.append_assoc]
      exact (h decl List.mem_cons_self).apart hrest

theorem File.Plain.apart {file : File} (h : file.Plain) : Apart file.marks := by
  obtain ⟨hdecls, hhead⟩ := apart_decls h.decls
  exact .keyword (by decide) (.word h.package hhead hdecls)

/-- Every lexeme that is found stands in the text where its span says. -/
theorem holds_of_scanFrom {source : Source} {cs : List Char} {offset row : Nat}
    {found lexemes : List Lexeme} (h : scanFrom cs offset row found = some lexemes)
    {front : List Char} (hchars : source.chars.toList = front ++ cs) (hoffset : offset = front.length)
    (hfound : ∀ lexeme ∈ found, source.Holds lexeme) :
    ∀ lexeme ∈ lexemes, source.Holds lexeme := by
  fun_induction scanFrom cs offset row found generalizing front with
  | case1 offset row found =>
      obtain rfl := Option.some.inj h
      simpa using hfound
  | case2 offset row found c rest hblank ih =>
      have hsplit : source.chars.toList = front ++ [c] ++ rest := by simpa using hchars
      exact ih h hsplit (by simp [hoffset]) hfound
  | case3 offset row found c rest hblank kind hmunch => contradiction
  | case4 offset row found c rest _ kind count _ _ taken lastRow lexeme =>
      rename_i ih
      have hsplit : source.chars.toList = front ++ taken ++ (c :: rest).drop count := by
        rw [hchars, List.append_assoc, List.take_append_drop]
      refine ih h hsplit (by simp [hoffset]) fun other hmem => ?_
      obtain rfl | hmem := List.mem_cons.1 hmem
      · exact ⟨front, (c :: rest).drop count, by simpa [lexeme] using hsplit, hoffset,
          by simp [lexeme, hoffset]⟩
      · exact hfound other hmem

/-- A comment is none of the lexemes of marks. -/
theorem Lexed.isComment {row : Nat} {lexemes : List Lexeme} {marks : List Mark}
    (h : Lexed row lexemes marks) : ∀ lexeme ∈ lexemes, (lexeme.kind == .comment) = false := by
  induction h with
  | nil => simp
  | blank _ ih => exact ih
  | breaks hkind _ ih => simpa [hkind] using ih
  | word his _ ih => simpa [his.kind_eq] using ih
  | symbol his _ ih => simpa [his.kind_eq] using ih
  | sign his _ ih => simpa [his.kind_eq] using ih
  | signs _ _ _ his _ ih => simpa [his.kind_eq] using ih

/-! ## No label among the marks -/

/-- The marks that are a colon. -/
def Mark.colons : Mark → Nat
  | .symbol text => if text = ":" then 1 else 0
  | .sign text => if text = ":" then 1 else 0
  | _ => 0

theorem Overlooks.colons : Overlooks Mark.colons :=
  ⟨fun _ => rfl, fun _ => rfl, by decide, by decide⟩

theorem Lexed.colonless {row : Nat} {lexemes : List Lexeme} {marks : List Mark}
    (h : Lexed row lexemes marks) (hmarks : total Mark.colons marks = 0) : Colonless lexemes := by
  have hfused : ∀ text ∈ fusedSigns, text ≠ ":" := by decide
  induction h with
  | nil => simp [Colonless]
  | blank _ ih => exact ih (by simpa [Mark.colons] using hmarks)
  | breaks hkind _ ih =>
      simpa [Colonless, isSymbol_breaks hkind] using ih (by simpa [Mark.colons] using hmarks)
  | word his _ ih =>
      simpa [Colonless, his.isSymbol_word] using ih (by simpa [Mark.colons] using hmarks)
  | symbol his _ ih =>
      simp only [total_cons, Mark.colons, Nat.add_eq_zero_iff, ite_eq_right_iff, Nat.one_ne_zero,
        imp_false] at hmarks
      simpa [Colonless, his.isSymbol, hmarks.1] using ih hmarks.2
  | sign his _ ih =>
      simp only [total_cons, Mark.colons, Nat.add_eq_zero_iff, ite_eq_right_iff, Nat.one_ne_zero,
        imp_false] at hmarks
      simpa [Colonless, his.isSymbol, hmarks.1] using ih hmarks.2
  | signs _ _ hmem his _ ih =>
      simp only [total_cons, Nat.add_eq_zero_iff] at hmarks
      simpa [Colonless, his.isSymbol, hfused _ hmem] using ih hmarks.2.2

theorem colons_marksOfStmts {indent : Nat} {stmts : List Stmt}
    (h : ∀ stmt ∈ stmts, total Mark.colons (stmt.kind.marks indent) = 0) :
    total Mark.colons (marksOfStmts indent stmts) = 0 := by
  induction stmts with
  | nil => rfl
  | cons stmt stmts ih =>
      obtain ⟨kind, decs⟩ := stmt
      have hstmt := h _ List.mem_cons_self
      have hstmts := ih fun stmt hmem => h stmt (List.mem_cons_of_mem _ hmem)
      simp_all [marksOfStmts, Mark.colons]

theorem Block.colons_marks {block : Block} {indent : Nat}
    (h : ∀ stmt ∈ block.stmts, total Mark.colons (stmt.kind.marks (indent + 1)) = 0) :
    total Mark.colons (block.marks indent) = 0 := by
  obtain ⟨stmts, trailing, inline⟩ := block
  have hstmts := colons_marksOfStmts h
  cases inline <;> simp_all [Block.marks, Mark.colons]

theorem Plain.colons_marks {kind : StmtKind} (h : Plain kind) (indent : Nat) :
    total Mark.colons (kind.marks indent) = 0 := by
  have hexpr : ∀ {expr : Expr}, Formula 1 expr → total Mark.colons (expr.marks 1) = 0 :=
    fun h => h.total_marks .colons 1
  have hbody : ∀ {body : Block} {indent : Nat},
      (∀ stmt ∈ body.stmts, ∀ indent, total Mark.colons (stmt.kind.marks indent) = 0) →
      total Mark.colons (body.marks indent) = 0 :=
    fun h => Block.colons_marks fun stmt hmem => h stmt hmem _
  induction h generalizing indent with
  | expr hvalue => simp [StmtKind.marks, hexpr hvalue]
  | @assign _ op _ _ _ hleft hright =>
      have hop : Mark.colons (.symbol op.symbol) = 0 := by cases op <;> decide
      simp [StmtKind.marks, hop, Overlooks.colons.total_formulas hleft,
        Overlooks.colons.total_formulas hright, Overlooks.colons.blank]
  | spawn hcall => simp [StmtKind.marks, hexpr hcall, Mark.colons]
  | defer hcall => simp [StmtKind.marks, hexpr hcall, Mark.colons]
  | @ret results hresults =>
      have hlist := Overlooks.colons.total_formulas hresults 1
      cases results <;> simp [StmtKind.marks, hlist, Mark.colons]
  | block _ _ ih => simp [StmtKind.marks, hbody ih]
  | cond htest _ _ _ ih => simp [StmtKind.marks, hexpr htest, hbody ih, Mark.colons]
  | condElse htest _ _ _ _ _ ih ihalternative =>
      simp [StmtKind.marks, hexpr htest, hbody ih, ihalternative, Mark.colons]
  | forever _ _ ih => simp [StmtKind.marks, hbody ih, Mark.colons]
  | loop htest _ _ _ ih => simp [StmtKind.marks, hexpr htest, hbody ih, Mark.colons]

theorem File.Plain.colons_marks {file : File} (h : file.Plain) : total Mark.colons file.marks = 0 := by
  have hdecls : ∀ decls : List Decl, (∀ decl ∈ decls, PlainDecl decl) →
      total Mark.colons (decls.flatMap Decl.marks) = 0 := by
    intro decls hdecls
    induction decls with
    | nil => rfl
    | cons decl decls ih =>
        have hrest := ih fun decl hmem => hdecls decl (List.mem_cons_of_mem _ hmem)
        cases hdecls decl List.mem_cons_self with
        | @func name body _ _ _ hplain =>
            have hbody : total Mark.colons (body.marks 0) = 0 :=
              Block.colons_marks fun stmt hmem => (hplain stmt hmem).colons_marks 1
            simp [Decl.marks, marksOfFunc, hrest, hbody, Mark.colons]
  simp [File.marks, hdecls file.decls h.decls, Mark.colons]

end TraceWeave.Syntax
