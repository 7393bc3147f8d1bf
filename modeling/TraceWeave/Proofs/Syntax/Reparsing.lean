import TraceWeave.Proofs.Syntax.StmtRuns

/-!
Plain statements are parsed as they were written.

The lexemes of a statement, with a line break behind them, give a tree that stands for it.
-/

namespace TraceWeave.Syntax

open TraceWeave.Syntax.Parser TraceWeave.Syntax.Grammar

variable {source : Source}

/-- No label stands among the lexemes. -/
def Colonless (lexemes : List Lexeme) : Prop := ∀ lexeme ∈ lexemes, lexeme.isSymbol ":" = false

theorem Colonless.right {front back : List Lexeme} (h : Colonless (front ++ back)) :
    Colonless back := fun lexeme hmem => h lexeme (List.mem_append_right _ hmem)

theorem Colonless.tail {lexeme : Lexeme} {lexemes : List Lexeme} (h : Colonless (lexeme :: lexemes)) :
    Colonless lexemes := fun other hmem => h other (List.mem_cons_of_mem _ hmem)

/-- The lexeme is the first one of a statement. -/
structure Leads (lexeme : Lexeme) : Prop where
  isTrivia : lexeme.isTrivia = false
  isBrace : lexeme.isSymbol "\x7d" = false
  isCase : lexeme.isWord "case" = false
  isDefault : lexeme.isWord "default" = false

theorem Leads.of_word {lexeme : Lexeme} {row : Nat} {text : String}
    (his : lexeme.Is row .word text) (hcase : text ≠ "case") (hdefault : text ≠ "default") :
    Leads lexeme where
  isTrivia := his.isTrivia_word
  isBrace := his.isSymbol_word _
  isCase := by simp [his.isWord, hcase]
  isDefault := by simp [his.isWord, hdefault]

theorem Starts.leads {lexeme : Lexeme} (h : Starts lexeme) : Leads lexeme where
  isTrivia := h.isTrivia
  isBrace := h.isSymbol (by decide)
  isCase := h.isWord (by decide)
  isDefault := h.isWord (by decide)

theorem Leads.of_brace {lexeme : Lexeme} {row : Nat} (his : lexeme.Is row .symbol "\x7b") :
    Leads lexeme where
  isTrivia := his.isTrivia_symbol
  isBrace := by simp [his.isSymbol]
  isCase := his.isWord_symbol _
  isDefault := his.isWord_symbol _

/-- Whatever lexemes the statement is scanned as, they are parsed as a tree that stands for it. -/
def RereadStmt (source : Source) (kind : StmtKind) : Prop :=
  ∀ {row : Nat} (indent : Nat) {lexemes : List Lexeme}, Lexed row lexemes (kind.marks indent) →
    (∀ lexeme ∈ lexemes, source.Holds lexeme) →
    ∃ tree, StandsStmt source row (row + total Mark.rows (kind.marks indent)) kind tree ∧
      (∃ first more, lexemes = first :: more ∧ Leads first) ∧
      ∀ {n : Nat} {lexeme : Lexeme} {rest : List Lexeme},
        total Mark.weight (kind.marks indent) + 2 < n → lexeme.kind = .breaks →
        Colonless (lexemes ++ lexeme :: rest) →
        read n .stmt (lexemes ++ lexeme :: rest) = some (tree, lexeme :: rest)

def RereadBlock (source : Source) (block : Block) : Prop :=
  ∀ {row : Nat} (indent : Nat) {lexemes : List Lexeme}, Lexed row lexemes (block.marks indent) →
    (∀ lexeme ∈ lexemes, source.Holds lexeme) →
    ∃ tree, StandsBlock source row (row + total Mark.rows (block.marks indent)) block tree ∧
      (∃ first more, lexemes = first :: more ∧ first.Is row .symbol "\x7b") ∧
      ∀ {n : Nat} {rest : List Lexeme}, total Mark.weight (block.marks indent) + 1 < n →
        Colonless (lexemes ++ rest) → read n .block (lexemes ++ rest) = some (tree, rest)

/-! ## Statements of a block -/

theorem run_atListEnd (input : List Lexeme) :
    atListEnd input = some ((front false input).all fun lexeme =>
      lexeme.isSymbol "\x7d" || lexeme.isWord "case" || lexeme.isWord "default", input) := by
  rw [atListEnd, run_bind (run_upcoming _ _)]
  cases front false input <;> rfl

theorem run_stmtList_end {rules : Rules} {closing : Lexeme} {row : Nat}
    (hclosing : closing.Is row .symbol "\x7d") (limit : Nat) (rest : List Lexeme) :
    stmtList rules limit (closing :: rest) = some ([], closing :: rest) := by
  cases limit with
  | zero => rfl
  | succ limit =>
      rw [stmtList, run_bind (run_atListEnd _), front_cons hclosing.isTrivia_symbol]
      simp [hclosing.isSymbol]
      rfl

theorem run_statementEnd {lexeme : Lexeme} (hkind : lexeme.kind = .breaks) (rest : List Lexeme) :
    statementEnd (lexeme :: rest) = some ([.token lexeme], rest) := by
  have hdrop : (lexeme :: rest).dropWhile (·.kind == .comment) = lexeme :: rest := by
    simp [hkind]
  rw [statementEnd, run_bind (run_get _), hdrop]
  simp [hkind]
  rfl

theorem run_stmtList_cons {rules : Rules} {first lexeme : Lexeme} {input middle rest : List Lexeme}
    {tree : Concrete} {items : List Concrete} {limit : Nat} (hleads : Leads first)
    (hstmt : rules .stmt (first :: input) = some (tree, lexeme :: middle))
    (hkind : lexeme.kind = .breaks)
    (hrest : stmtList rules limit middle = some (items, rest)) :
    stmtList rules (limit + 1) (first :: input) = some (tree :: .token lexeme :: items, rest) := by
  rw [stmtList, run_bind (run_atListEnd _), front_cons hleads.isTrivia]
  simp only [Option.all_some, hleads.isBrace, hleads.isCase, hleads.isDefault, Bool.or_self,
    Bool.false_eq_true, if_false]
  rw [run_bind hstmt, run_bind (run_maybe (run_statementEnd hkind middle))]
  dsimp only
  rw [run_bind hrest]
  rfl

theorem Lexed.tabs_inv {row count : Nat} {lexemes : List Lexeme} {marks : List Mark}
    (h : Lexed row lexemes (tabMarks count ++ marks)) : Lexed row lexemes marks := by
  induction count with
  | zero => exact h
  | succ count ih => exact ih h.blank_inv

theorem Lexed.breaks_inv {row count : Nat} {lexemes : List Lexeme} {marks : List Mark}
    (h : Lexed row lexemes (.breaks count :: marks)) :
    ∃ lexeme rest, lexemes = lexeme :: rest ∧ lexeme.kind = .breaks ∧
      Lexed (row + count) rest marks := by
  cases h with
  | breaks hkind hrest => exact ⟨_, _, rfl, hkind, hrest⟩

@[simp]
theorem total_tabMarks (measure : Mark → Nat) (count : Nat) :
    total measure (tabMarks count) = count * measure (.blank '\t') := by
  induction count with
  | zero => simp [tabMarks]
  | succ count ih =>
      rw [tabMarks, List.replicate_succ, total_cons, ← tabMarks, ih, Nat.succ_mul, Nat.add_comm]

/-- Statements and what stands behind them start with a line break. -/
theorem marksOfStmts_append (indent : Nat) (stmts : List Stmt) (tail : List Mark) :
    ∃ count marks, marksOfStmts indent stmts ++ .breaks 1 :: tail = .breaks count :: marks := by
  cases stmts with
  | nil => exact ⟨_, _, rfl⟩
  | cons stmt stmts =>
      obtain ⟨kind, decs⟩ := stmt
      exact ⟨_, _, rfl⟩

/--
The statements of a block and the brace behind them.  The line break in front of the first
statement stands apart, since every other line break ends a statement.
-/
theorem reread_stmts {stmts : List Stmt} {indent : Nat}
    (hroom : ∀ stmt ∈ stmts, stmt.decs.isRoom = true)
    (hreread : ∀ stmt ∈ stmts, RereadStmt source stmt.kind) {row : Nat} {lexeme : Lexeme}
    {input : List Lexeme}
    (hlexed : Lexed row (lexeme :: input)
      (marksOfStmts (indent + 1) stmts ++ .breaks 1 :: tabMarks indent ++ [.symbol "\x7d"]))
    (hholds : ∀ lexeme ∈ input, source.Holds lexeme) :
    lexeme.kind = .breaks ∧ ∃ (items trees : List Concrete) (closing : Lexeme),
      StandsStmts source row stmts trees ∧ Reading.listItems items = trees ∧
      closing.Is (row + total Mark.rows (marksOfStmts (indent + 1) stmts) + 1) .symbol "\x7d" ∧
      ∀ {n limit : Nat} (rest : List Lexeme),
        total Mark.weight (marksOfStmts (indent + 1) stmts) + 2 < n → input.length ≤ limit →
        Colonless (input ++ rest) →
        stmtList (read n) limit (input ++ rest) = some (items, closing :: rest) := by
  induction stmts generalizing row lexeme input with
  | nil =>
      obtain ⟨_, _, hcons, hkind, hrest⟩ := hlexed.breaks_inv
      obtain ⟨rfl, rfl⟩ := List.cons.inj hcons
      obtain ⟨closing, rest, rfl, hclosing, hnil⟩ := hrest.tabs_inv.symbol_inv
      cases hnil
      refine ⟨hkind, [], [], closing, .nil, rfl, by simpa [marksOfStmts] using hclosing,
        fun rest _ _ _ => run_stmtList_end hclosing _ rest⟩
  | cons stmt stmts ih =>
      obtain ⟨kind, decs⟩ := stmt
      simp only [marksOfStmts, List.append_assoc, List.cons_append] at hlexed
      obtain ⟨_, _, hcons, hkind, hrest⟩ := hlexed.breaks_inv
      obtain ⟨rfl, rfl⟩ := List.cons.inj hcons
      obtain ⟨count, marks, hmarks⟩ :=
        marksOfStmts_append (indent + 1) stmts (tabMarks indent ++ [.symbol "\x7d"])
      have hlines := hrest.tabs_inv
      rw [hmarks] at hlines
      obtain ⟨first, second, rfl, hfirst, hsecond⟩ := hlines.append rfl
      obtain ⟨brk, input, rfl, hbrk, -⟩ := hsecond.breaks_inv
      rw [← hmarks] at hsecond
      obtain ⟨tree, hstands, ⟨head, more, rfl, hleads⟩, hrun⟩ :=
        hreread _ List.mem_cons_self (indent + 1) hfirst fun lexeme hmem => hholds lexeme (by simp [hmem])
      obtain ⟨-, items, trees, closing, htrees, hitems, hclosing, hruns⟩ := ih
        (fun stmt hmem => hroom stmt (List.mem_cons_of_mem _ hmem))
        (fun stmt hmem => hreread stmt (List.mem_cons_of_mem _ hmem))
        (by simpa using hsecond) fun lexeme hmem => hholds lexeme (by simp [hmem])
      refine ⟨hkind, tree :: .token brk :: items, tree :: trees, closing,
        .cons (hroom _ List.mem_cons_self) hstands htrees, ?_, ?_,
        fun {n limit} rest hdepth hlimit hcolon => ?_⟩
      · have htree : (tree.isNamed && tree.kind != .emptyStmt) = true := by
          rw [hstands.isNamed, bne, hstands.kind_ne (by decide)]
          rfl
        rw [Reading.listItems] at hitems ⊢
        simp [htree, hitems]
      · simpa [marksOfStmts, Mark.rows, Nat.add_assoc] using hclosing
      · simp only [marksOfStmts, total_append, total_cons, Mark.weight] at hdepth
        simp only [List.length_append, List.length_cons] at hlimit
        obtain ⟨limit, rfl⟩ := Nat.exists_eq_succ_of_ne_zero (show limit ≠ 0 by omega)
        simp only [List.append_assoc, List.cons_append] at hcolon ⊢
        have hstmt := hrun (show total Mark.weight (kind.marks (indent + 1)) + 2 < n by omega) hbrk
          hcolon
        have hsplit : head :: (more ++ brk :: (input ++ rest)) =
            (head :: more ++ [brk]) ++ (input ++ rest) := by simp
        rw [hsplit] at hcolon
        exact run_stmtList_cons hleads hstmt hbrk (hruns rest (by omega) (by omega) hcolon.right)

/-- A line break behind the opening brace does not matter to the rest of the block. -/
theorem skips_body (n limit : Nat) (opening : Concrete) :
    Skips (stmtList (read n) (limit + 1) >>= fun body =>
      symbol "\x7d" >>= fun closing =>
        (pure (.node .block (opening :: body ++ [closing])) : Parser Concrete)) := by
  rw [stmtList, bind_assoc]
  refine looks_atListEnd.bind fun ended => ?_
  cases ended with
  | true =>
      rw [if_pos rfl, pure_bind]
      exact (skips_symbol _).bind
  | false => exact (skips_read n .stmt).bind.bind

theorem Block.Laid.reread {block : Block} (h : block.Laid)
    (hreread : ∀ stmt ∈ block.stmts, RereadStmt source stmt.kind) : RereadBlock source block := by
  intro row indent lexemes hlexed hholds
  obtain ⟨stmts, trailing, inline⟩ := block
  obtain rfl : trailing = [] := h.trailing
  have hroom : ∀ stmt ∈ stmts, stmt.decs.isRoom = true := fun stmt hmem => (h.room stmt hmem).1
  have hreread : ∀ stmt ∈ stmts, RereadStmt source stmt.kind := hreread
  rw [Block.marks] at hlexed ⊢
  simp only [List.append_assoc, List.cons_append] at hlexed ⊢
  obtain ⟨opening, rest, rfl, hopening, hrest⟩ := hlexed.symbol_inv
  cases inline with
  | true =>
      obtain rfl : stmts = [] := h.inline rfl
      obtain ⟨closing, rest, rfl, hclosing, hnil⟩ := hrest.symbol_inv
      cases hnil
      have hblock : StandsBlock source row row ⟨[], [], true⟩
          (.node .block (.token opening :: [] ++ [.token closing])) :=
        .of_stmts .nil rfl hopening hclosing (by simp)
      refine ⟨_, hblock, ⟨opening, [closing], rfl, hopening⟩, fun {n rest} hdepth _ => ?_⟩
      obtain ⟨n, rfl⟩ := Nat.exists_eq_succ_of_ne_zero (show n ≠ 0 by omega)
      have hstmts : Grammar.stmts (read n) (closing :: rest) = some ([], closing :: rest) := by
        rw [Grammar.stmts, run_bind (run_get _)]
        exact run_stmtList_end hclosing _ rest
      show blockRule (read n) (opening :: closing :: rest) = _
      rw [blockRule, run_bind (hopening.run_symbol _), run_bind hstmts, run_bind (hclosing.run_symbol _)]
      rfl
  | false =>
      have hmarks : marksOfStmts (indent + 1) stmts ++
          ((if false = true then [] else Mark.breaks 1 :: tabMarks indent) ++ [Mark.symbol "\x7d"]) =
          marksOfStmts (indent + 1) stmts ++ .breaks 1 :: tabMarks indent ++ [.symbol "\x7d"] := by
        simp
      rw [hmarks] at hrest ⊢
      obtain ⟨brk, input, rfl⟩ : ∃ brk input, rest = brk :: input := by
        obtain ⟨count, marks, hfront⟩ :=
          marksOfStmts_append (indent + 1) stmts (tabMarks indent ++ [.symbol "\x7d"])
        rw [List.append_assoc, List.cons_append, hfront] at hrest
        obtain ⟨brk, input, rfl, -⟩ := hrest.breaks_inv
        exact ⟨brk, input, rfl⟩
      obtain ⟨hbrk, items, trees, closing, htrees, hitems, hclosing, hruns⟩ :=
        reread_stmts hroom hreread hrest fun lexeme hmem => hholds lexeme (by simp [hmem])
      have hlast : row + total Mark.rows (.symbol "\x7b" :: (marksOfStmts (indent + 1) stmts ++
          .breaks 1 :: tabMarks indent ++ [.symbol "\x7d"])) =
          row + total Mark.rows (marksOfStmts (indent + 1) stmts) + 1 := by
        simp [Mark.rows, Nat.add_assoc]
      rw [hlast]
      refine ⟨_, .of_stmts htrees hitems hopening hclosing ?_, ⟨opening, _, rfl, hopening⟩,
        fun {n rest} hdepth hcolon => ?_⟩
      · exact (beq_eq_false_iff_ne.2 (by omega)).symm
      · simp only [total_cons, total_append, Mark.weight] at hdepth
        obtain ⟨n, rfl⟩ := Nat.exists_eq_succ_of_ne_zero (show n ≠ 0 by omega)
        have htrivia : brk.isTrivia = true := by simp [Lexeme.isTrivia, hbrk]
        have hskip := skips_body n (input ++ rest).length (.token opening) brk (input ++ rest) htrivia
        have hcolon' : Colonless ([opening, brk] ++ (input ++ rest)) := hcolon
        have hlimit : input.length ≤ (input ++ rest).length + 1 := by
          rw [List.length_append]
          omega
        have hlist := hruns rest (show _ < n by omega) hlimit hcolon'.right
        show blockRule (read n) (opening :: brk :: (input ++ rest)) = _
        rw [blockRule, run_bind (hopening.run_symbol _)]
        refine Eq.trans ?_ (hskip.trans ?_)
        · rfl
        · rw [run_bind hlist, run_bind (hclosing.run_symbol _)]
          rfl

/-! ## Simple statements -/

theorem Overlooks.total_formulas {measure : Mark → Nat} (hmeasure : Overlooks measure)
    {exprs : List Expr} (h : ∀ expr ∈ exprs, Formula 1 expr) (depth : Nat) :
    total measure (marksOfArgs depth exprs) = 0 :=
  hmeasure.total_marksOfArgs fun expr hmem => (h expr hmem).total_marks hmeasure depth

theorem rows_formulas {exprs : List Expr} (h : ∀ expr ∈ exprs, Formula 1 expr) (depth : Nat) :
    total Mark.rows (marksOfArgs depth exprs) = 0 := Overlooks.rows.total_formulas h depth

theorem marksOfArgs_singleton (depth : Nat) (expr : Expr) :
    marksOfArgs depth [expr] = expr.marks depth := by
  simp [marksOfArgs]

/-- A line break is none of the symbols that go on with a list or a statement. -/
theorem isSymbol_breaks {lexeme : Lexeme} (hkind : lexeme.kind = .breaks) (text : String) :
    lexeme.isSymbol text = false := by
  simp [Lexeme.isSymbol, hkind]

theorem comma_breaks {lexeme : Lexeme} (hkind : lexeme.kind = .breaks) (rest : List Lexeme) :
    (front true (lexeme :: rest)).any (·.isSymbol ",") = false := by
  simp [front, hkind, isSymbol_breaks hkind]

theorem front_breaks {lexeme : Lexeme} (hkind : lexeme.kind = .breaks) (rest : List Lexeme) :
    front true (lexeme :: rest) = some lexeme := by
  simp [front, hkind]

/-- A value at the start of a statement or in a header. -/
theorem reread_value {value : Expr} (h : Formula 1 value) (ctx : ExprContext) {row : Nat}
    {lexemes : List Lexeme} (hlexed : Lexed row lexemes (value.marks 1))
    (hholds : ∀ lexeme ∈ lexemes, source.Holds lexeme) :
    ∃ (list tree : Concrete) (first : Lexeme) (more : List Lexeme), lexemes = first :: more ∧
      Starts first ∧ StandsList source row [value] list ∧ list.children = [tree] ∧
      tree.role = .plain ∧ Stands source row value tree ∧
      ∀ {n : Nat} {lexeme : Lexeme} {rest : List Lexeme}, total Mark.weight (value.marks 1) + 1 < n →
        Closes ctx 1 (lexeme :: rest) → front ctx.breaks (lexeme :: rest) = some lexeme →
        (∀ text ∈ "," :: stmtSymbols, lexeme.isSymbol text = false) →
        exprList (read n) ctx (lexemes ++ lexeme :: rest) = some (list, lexeme :: rest) ∧
          simpleStmt (read n) ctx (lexemes ++ lexeme :: rest) =
            some (.node .exprStmt [tree], lexeme :: rest) := by
  have hformula : ∀ expr ∈ [value], Formula 1 expr := by simpa using h
  have hmarks := marksOfArgs_singleton 1 value
  have hwhole : Lexed row lexemes (value.marks 1 ++ []) := by
    rw [List.append_nil]
    exact hlexed
  obtain ⟨first, more, hfirst, hstarts⟩ := h.starts hwhole
  rw [← hmarks] at hlexed
  obtain ⟨list, hlist, hrun⟩ := reread_list (List.cons_ne_nil _ _) hformula ctx hlexed hholds
  obtain ⟨tree, htree, hrole, hstands⟩ := hlist.single value rfl
  refine ⟨list, tree, first, more, hfirst, hstarts, hlist, htree, hrole, hstands,
    fun {n lexeme rest} hdepth hcloses hfront hsymbols => ?_⟩
  have hcomma : (front ctx.breaks (lexeme :: rest)).any (·.isSymbol ",") = false := by
    rw [hfront]
    exact hsymbols "," List.mem_cons_self
  have hread := hrun (hmarks ▸ hdepth) hcloses hcomma
  refine ⟨hread, run_simpleStmt_expr hread htree fun found hfound text htext => ?_⟩
  obtain rfl : lexeme = found := Option.some.inj (hfront.symm.trans hfound)
  exact hsymbols text (List.mem_cons_of_mem _ htext)

theorem RereadStmt.expr {value : Expr} (h : Formula 1 value) : RereadStmt source (.expr value) := by
  intro row indent lexemes hlexed hholds
  rw [StmtKind.marks] at hlexed ⊢
  obtain ⟨list, tree, first, more, rfl, hstarts, hlist, htree, -, -, hruns⟩ :=
    reread_value h .statement hlexed hholds
  rw [h.rows_marks]
  refine ⟨_, .expr hlist htree, ⟨first, more, rfl, hstarts.leads⟩,
    fun {n lexeme rest} hdepth hkind hcolon => ?_⟩
  obtain ⟨n, rfl⟩ := Nat.exists_eq_succ_of_ne_zero (show n ≠ 0 by omega)
  obtain ⟨-, hrun⟩ := hruns (show _ < n by omega) (.of_breaks hkind rfl 1 rest)
    (front_breaks hkind rest) fun text _ => isSymbol_breaks hkind text
  have hrest : ∀ other ∈ more ++ lexeme :: rest, other.isSymbol ":" = false :=
    fun other hmem => hcolon other (List.mem_cons_of_mem _ hmem)
  exact (run_stmtRule_simple hstarts hrest).trans hrun

theorem RereadStmt.assign {left right : List Expr} (op : AssignOp) (hleftne : left ≠ [])
    (hrightne : right ≠ []) (hleft : ∀ expr ∈ left, Formula 1 expr)
    (hright : ∀ expr ∈ right, Formula 1 expr) : RereadStmt source (.assign left op right) := by
  intro row indent lexemes hlexed hholds
  rw [StmtKind.marks] at hlexed ⊢
  generalize (if left.length > 1 && right.length > 1 then 2 else 1) = depth at hlexed ⊢
  obtain ⟨front, back, rfl, hfront, hback⟩ := hlexed.append rfl
  rw [rows_formulas hleft, Nat.add_zero] at hback
  obtain ⟨sign, back, rfl, hsign, hback⟩ := hback.blank_inv.symbol_inv
  obtain ⟨first, hfirst, hrunleft⟩ := reread_list hleftne hleft .statement hfront
    fun lexeme hmem => hholds lexeme (by simp [hmem])
  obtain ⟨second, hsecond, hrunright⟩ := reread_list hrightne hright
    ExprContext.statement.right hback.blank_inv fun lexeme hmem => hholds lexeme (by simp [hmem])
  have hrows : row + total Mark.rows (marksOfArgs depth left ++ .blank ' ' :: .symbol op.symbol ::
      .blank ' ' :: marksOfArgs depth right) = row := by
    simp [Mark.rows, rows_formulas hleft, rows_formulas hright]
  rw [hrows]
  obtain ⟨head, more, rfl, hstarts⟩ : ∃ head more, front = head :: more ∧ Starts head := by
    cases left with
    | nil => contradiction
    | cons expr left =>
        rw [marksOfArgs_cons] at hfront
        exact (hleft expr List.mem_cons_self).starts hfront
  refine ⟨_, .assign hfirst hsecond hsign, ⟨head, _, rfl, hstarts.leads⟩,
    fun {n lexeme rest} hdepth hkind hcolon => ?_⟩
  simp only [total_append, total_cons, Mark.weight] at hdepth
  obtain ⟨n, rfl⟩ := Nat.exists_eq_succ_of_ne_zero (show n ≠ 0 by omega)
  have hop : op.symbol ∉ [".", "(", "["] ∧ op.symbol ≠ "\x7b" ∧ op.symbol ∉ ["++", "--", "<-"] ∧
      precedence op.symbol < 1 ∧ op.symbol ≠ "," := by
    cases op <;> decide
  have hcloses : Closes .statement 1 (sign :: (back ++ lexeme :: rest)) :=
    .of_symbol hsign hop.1 (fun _ => hop.2.1) hop.2.2.1 hop.2.2.2.1 _
  have hcomma : (Parser.front true (sign :: (back ++ lexeme :: rest))).any (·.isSymbol ",") = false := by
    rw [front_cons hsign.isTrivia_symbol]
    simp [hsign.isSymbol, hop.2.2.2.2]
  have hleftrun := hrunleft (show _ < n by omega) hcloses hcomma
  have hrightrun := hrunright (show _ < n by omega) (.of_breaks hkind rfl 1 rest)
    (comma_breaks hkind rest)
  have hrest : ∀ other ∈ more ++ sign :: (back ++ lexeme :: rest), other.isSymbol ":" = false := by
    intro other hmem
    exact hcolon other (List.mem_cons_of_mem _ (by simpa using hmem))
  have hrun := (run_stmtRule_simple hstarts hrest).trans
    (run_simpleStmt_assign hsign hleftrun hrightrun)
  rw [List.append_assoc]
  exact hrun

/-! ## Statements behind a keyword -/

/-- The keyword, what it stands in front of, and the row of both. -/
theorem Lexed.keyword_inv {row : Nat} {lexemes : List Lexeme} {text : String} {marks : List Mark}
    (h : Lexed row lexemes (.word text :: .blank ' ' :: marks)) :
    ∃ word rest, lexemes = word :: rest ∧ word.Is row .word text ∧ Lexed row rest marks := by
  obtain ⟨word, rest, rfl, hword, hrest⟩ := h.word_inv
  exact ⟨word, rest, rfl, hword, hrest.blank_inv⟩

theorem RereadStmt.launch {call : Expr} (h : Formula 1 call) :
    RereadStmt source (.spawn call) ∧ RereadStmt source (.defer call) := by
  have hvalue : ∀ {row : Nat} {lexemes : List Lexeme}, Lexed row lexemes (call.marks 1) →
      (∀ lexeme ∈ lexemes, source.Holds lexeme) → ∃ tree, Stands source row call tree ∧
        ∀ {n : Nat} {lexeme : Lexeme} {rest : List Lexeme}, total Mark.weight (call.marks 1) + 1 < n →
          lexeme.kind = .breaks →
          read n (.expr .value 1) (lexemes ++ lexeme :: rest) = some (tree, lexeme :: rest) := by
    intro row lexemes hlexed hholds
    obtain ⟨tree, -, hstands, hparsed⟩ := h.reread source 1 hlexed hholds
    exact ⟨tree, hstands, fun {n lexeme rest} hdepth hkind =>
      hparsed.read_expr hdepth (h.le_rank (by decide)) (.of_breaks hkind rfl 1 rest)⟩
  constructor
  all_goals
    intro row indent lexemes hlexed hholds
    rw [StmtKind.marks] at hlexed ⊢
    obtain ⟨word, rest, rfl, hword, hrest⟩ := hlexed.keyword_inv
    obtain ⟨tree, hstands, hread⟩ := hvalue hrest fun lexeme hmem => hholds lexeme (by simp [hmem])
    simp only [total_cons, Mark.rows, Mark.weight, h.rows_marks, Nat.add_zero]
  · refine ⟨_, (StandsStmt.launch hstands hword).1, ⟨word, rest, rfl, .of_word hword (by decide) (by decide)⟩,
      fun {n lexeme behind} hdepth hkind _ => ?_⟩
    obtain ⟨n, rfl⟩ := Nat.exists_eq_succ_of_ne_zero (show n ≠ 0 by omega)
    exact (run_stmtRule_launch (hread (by omega) hkind)).1 hword
  · refine ⟨_, (StandsStmt.launch hstands hword).2, ⟨word, rest, rfl, .of_word hword (by decide) (by decide)⟩,
      fun {n lexeme behind} hdepth hkind _ => ?_⟩
    obtain ⟨n, rfl⟩ := Nat.exists_eq_succ_of_ne_zero (show n ≠ 0 by omega)
    exact (run_stmtRule_launch (hread (by omega) hkind)).2 hword

theorem RereadStmt.ret {results : List Expr} (h : ∀ expr ∈ results, Formula 1 expr) :
    RereadStmt source (.ret results) := by
  intro row indent lexemes hlexed hholds
  cases results with
  | nil =>
      rw [StmtKind.marks] at hlexed ⊢
      obtain ⟨word, rest, rfl, hword, hnil⟩ := hlexed.word_inv
      cases hnil
      refine ⟨_, .ret_nil hword, ⟨word, [], rfl, .of_word hword (by decide) (by decide)⟩,
        fun {n lexeme behind} hdepth hkind _ => ?_⟩
      obtain ⟨n, rfl⟩ := Nat.exists_eq_succ_of_ne_zero (show n ≠ 0 by omega)
      exact ((run_stmtRule_keyword _).1 hword).trans (run_returnStmt_nil hword hkind behind)
  | cons result results =>
      have hmarks : (StmtKind.ret (result :: results)).marks indent =
          .word "return" :: .blank ' ' :: marksOfArgs 1 (result :: results) :=
        StmtKind.marks.eq_6 _ _ (List.cons_ne_nil _ _)
      rw [hmarks] at hlexed ⊢
      obtain ⟨word, rest, rfl, hword, hrest⟩ := hlexed.keyword_inv
      obtain ⟨list, hlist, hrun⟩ := reread_list (List.cons_ne_nil _ _) h .value hrest
        fun lexeme hmem => hholds lexeme (by simp [hmem])
      obtain ⟨first, more, rfl, hstarts⟩ : ∃ first more, rest = first :: more ∧ Starts first := by
        rw [marksOfArgs_cons] at hrest
        exact (h result List.mem_cons_self).starts hrest
      simp only [total_cons, Mark.rows, Mark.weight, rows_formulas h, Nat.add_zero]
      refine ⟨_, .ret hlist hword, ⟨word, _, rfl, .of_word hword (by decide) (by decide)⟩,
        fun {n lexeme behind} hdepth hkind _ => ?_⟩
      obtain ⟨n, rfl⟩ := Nat.exists_eq_succ_of_ne_zero (show n ≠ 0 by omega)
      have hread := hrun (show _ < n by omega) (.of_breaks hkind rfl 1 behind) (comma_breaks hkind behind)
      exact ((run_stmtRule_keyword _).1 hword).trans (run_returnStmt hword hstarts hread)

/-! ## Statements with a body -/

theorem RereadStmt.block {block : Block} (h : RereadBlock source block) :
    RereadStmt source (.block block) := by
  intro row indent lexemes hlexed hholds
  rw [StmtKind.marks] at hlexed ⊢
  obtain ⟨tree, hstands, ⟨opening, more, rfl, hopening⟩, hrun⟩ := h indent hlexed hholds
  refine ⟨tree, hstands.stmt, ⟨opening, more, rfl, .of_brace hopening⟩,
    fun {n lexeme rest} hdepth _ hcolon => ?_⟩
  obtain ⟨n, rfl⟩ := Nat.exists_eq_succ_of_ne_zero (show n ≠ 0 by omega)
  exact (run_stmtRule_block hopening _).trans (hrun (by omega) hcolon)

/-- The condition of a header in front of the body. -/
theorem reread_test {test : Expr} (h : Formula 1 test) {row : Nat} {lexemes : List Lexeme}
    (hlexed : Lexed row lexemes (test.marks 1)) (hholds : ∀ lexeme ∈ lexemes, source.Holds lexeme) :
    ∃ (list tree : Concrete) (first : Lexeme) (more : List Lexeme), lexemes = first :: more ∧
      Starts first ∧ tree.role = .plain ∧ Stands source row test tree ∧
      ∀ {n row' : Nat} {opening : Lexeme} (rest : List Lexeme),
        total Mark.weight (test.marks 1) + 1 < n → opening.Is row' .symbol "\x7b" →
        exprList (read n) .header (lexemes ++ opening :: rest) = some (list, opening :: rest) ∧
          simpleStmt (read n) .header (lexemes ++ opening :: rest) =
            some (.node .exprStmt [tree], opening :: rest) := by
  obtain ⟨list, tree, first, more, rfl, hstarts, -, -, hrole, hstands, hruns⟩ :=
    reread_value h .header hlexed hholds
  refine ⟨list, tree, first, more, rfl, hstarts, hrole, hstands,
    fun {n row' opening} rest hdepth hopening => hruns hdepth ?_ ?_ fun text hmem => ?_⟩
  · exact .of_symbol hopening (by decide) (fun hbodies => absurd hbodies (by decide)) (by decide)
      (by decide) rest
  · exact front_cons hopening.isTrivia_symbol _ _
  · have hnot : ∀ text ∈ "," :: stmtSymbols, "\x7b" ≠ text := by decide
    rw [hopening.isSymbol, beq_eq_false_iff_ne]
    exact hnot text hmem

/-- The header rules take a condition and a body from the input. -/
def TakesHeader (n : Nat) (input rest : List Lexeme) (list value body : Concrete) : Prop :=
  ∃ (row : Nat) (opening : Lexeme) (middle : List Lexeme), opening.Is row .symbol "\x7b" ∧
    exprList (read n) .header input = some (list, opening :: middle) ∧
    simpleStmt (read n) .header input = some (.node .exprStmt [value], opening :: middle) ∧
    read n .block (opening :: middle) = some (body, rest)

/-- A condition, the body behind it, and the lexemes of what follows the two. -/
theorem reread_headed {test : Expr} {body : Block} (h : Formula 1 test)
    (hbody : RereadBlock source body) {row indent : Nat} {lexemes : List Lexeme} {tail : List Mark}
    (hlexed : Lexed row lexemes (test.marks 1 ++ .blank ' ' :: (body.marks indent ++ tail)))
    (htail : tail.head?.all (!·.isSign) = true) (hholds : ∀ lexeme ∈ lexemes, source.Holds lexeme) :
    ∃ (front back : List Lexeme) (list value tree : Concrete), lexemes = front ++ back ∧
      Lexed (row + total Mark.rows (body.marks indent)) back tail ∧
      (∃ first more, front = first :: more ∧ Starts first) ∧ value.role = .plain ∧
      Stands source row test value ∧
      StandsBlock source row (row + total Mark.rows (body.marks indent)) body tree ∧
      ∀ {n : Nat} {rest : List Lexeme},
        total Mark.weight (test.marks 1) + total Mark.weight (body.marks indent) + 1 < n →
        Colonless (front ++ rest) → TakesHeader n (front ++ rest) rest list value tree := by
  obtain ⟨front, behind, rfl, hfront, hbehind⟩ := h.cut hlexed rfl
  obtain ⟨middle, back, rfl, hmiddle, hback⟩ := hbehind.blank_inv.append htail
  obtain ⟨list, value, first, more, rfl, hstarts, hrole, hvalue, htest⟩ :=
    reread_test h hfront fun lexeme hmem => hholds lexeme (by simp [hmem])
  obtain ⟨tree, htree, ⟨opening, inner, rfl, hopening⟩, hrun⟩ :=
    hbody indent hmiddle fun lexeme hmem => hholds lexeme (by simp [hmem])
  refine ⟨first :: more ++ opening :: inner, back, list, value, tree, by simp, hback,
    ⟨first, _, rfl, hstarts⟩, hrole, hvalue, htree, fun {n rest} hdepth hcolon => ?_⟩
  rw [List.append_assoc] at hcolon ⊢
  obtain ⟨hlist, hsimple⟩ := htest (inner ++ rest) (show _ < n by omega) hopening
  exact ⟨row, opening, inner ++ rest, hopening, hlist, hsimple, hrun (by omega) hcolon.right⟩

theorem RereadStmt.cond {test : Expr} {body : Block} (h : Formula 1 test)
    (hbody : RereadBlock source body) : RereadStmt source (.cond none test body none) := by
  intro row indent lexemes hlexed hholds
  rw [StmtKind.marks] at hlexed ⊢
  simp only [List.cons_append] at hlexed ⊢
  obtain ⟨word, rest, rfl, hword, hrest⟩ := hlexed.keyword_inv
  rw [← List.append_nil (body.marks indent)] at hrest
  obtain ⟨front, back, list, value, tree, rfl, hnil, -, -, hvalue, htree, hruns⟩ :=
    reread_headed h hbody hrest rfl fun lexeme hmem => hholds lexeme (List.mem_cons_of_mem _ hmem)
  cases hnil
  simp only [total_append, total_cons, Mark.rows, Mark.weight, h.rows_marks, Nat.zero_add]
  refine ⟨_, .cond hword hvalue htree, ⟨word, _, rfl, .of_word hword (by decide) (by decide)⟩,
    fun {n lexeme behind} hdepth hkind hcolon => ?_⟩
  obtain ⟨n, rfl⟩ := Nat.exists_eq_succ_of_ne_zero (show n ≠ 0 by omega)
  rw [List.append_nil, List.cons_append] at hcolon ⊢
  obtain ⟨row, opening, middle, hopening, -, hsimple, hblock⟩ :=
    hruns (show _ < n by omega) hcolon.tail
  exact ((run_stmtRule_keyword _).2.1 hword).trans (run_ifStmt hword hsimple hopening hblock hkind)

theorem RereadStmt.forever {body : Block} (hbody : RereadBlock source body) :
    RereadStmt source (.loop .infinite body) := by
  intro row indent lexemes hlexed hholds
  rw [StmtKind.marks] at hlexed ⊢
  obtain ⟨word, rest, rfl, hword, hrest⟩ := hlexed.keyword_inv
  obtain ⟨tree, htree, ⟨opening, inner, rfl, hopening⟩, hrun⟩ :=
    hbody indent hrest fun lexeme hmem => hholds lexeme (List.mem_cons_of_mem _ hmem)
  simp only [total_cons, Mark.rows, Mark.weight, Nat.zero_add]
  refine ⟨_, .forever hword htree, ⟨word, _, rfl, .of_word hword (by decide) (by decide)⟩,
    fun {n lexeme behind} hdepth hkind hcolon => ?_⟩
  obtain ⟨n, rfl⟩ := Nat.exists_eq_succ_of_ne_zero (show n ≠ 0 by omega)
  rw [List.cons_append] at hcolon ⊢
  have hblock := hrun (show _ < n by omega) hcolon.tail
  exact ((run_stmtRule_keyword _).2.2 hword).trans (run_forStmt_forever hword hopening hblock)

theorem RereadStmt.loop {test : Expr} {body : Block} (h : Formula 1 test)
    (hbody : RereadBlock source body) : RereadStmt source (.loop (.cond test) body) := by
  intro row indent lexemes hlexed hholds
  rw [StmtKind.marks] at hlexed ⊢
  simp only [List.cons_append] at hlexed ⊢
  obtain ⟨word, rest, rfl, hword, hrest⟩ := hlexed.keyword_inv
  rw [← List.append_nil (body.marks indent)] at hrest
  obtain ⟨front, back, list, value, tree, rfl, hnil, ⟨first, more, rfl, hstarts⟩, hrole, hvalue, htree,
    hruns⟩ :=
    reread_headed h hbody hrest rfl fun lexeme hmem => hholds lexeme (List.mem_cons_of_mem _ hmem)
  cases hnil
  simp only [total_append, total_cons, Mark.rows, Mark.weight, h.rows_marks, Nat.zero_add]
  refine ⟨_, .loop hword hrole hvalue htree, ⟨word, _, rfl, .of_word hword (by decide) (by decide)⟩,
    fun {n lexeme behind} hdepth hkind hcolon => ?_⟩
  obtain ⟨n, rfl⟩ := Nat.exists_eq_succ_of_ne_zero (show n ≠ 0 by omega)
  rw [List.append_nil, List.cons_append] at hcolon ⊢
  obtain ⟨row, opening, middle, hopening, hlist, hsimple, hblock⟩ :=
    hruns (show _ < n by omega) hcolon.tail
  exact ((run_stmtRule_keyword _).2.2 hword).trans
    (run_forStmt_cond hword hopening hstarts hlist hsimple hblock)

/-- The rule for what stands behind an `else` is told by its first lexeme. -/
theorem RereadStmt.alternative {kind : StmtKind} (h : RereadStmt source kind)
    (hkind : kind.isAlternative = true) {row indent : Nat} {lexemes : List Lexeme}
    (hlexed : Lexed row lexemes (kind.marks indent))
    (hholds : ∀ lexeme ∈ lexemes, source.Holds lexeme) :
    ∃ tree first more, lexemes = first :: more ∧ first.isTrivia = false ∧
      StandsStmt source row (row + total Mark.rows (kind.marks indent)) kind tree ∧
      ∀ {n : Nat} {lexeme : Lexeme} {rest : List Lexeme},
        total Mark.weight (kind.marks indent) + 2 < n → lexeme.kind = .breaks →
        Colonless (lexemes ++ lexeme :: rest) →
        read n (if first.isWord "if" then .stmt else .block) (lexemes ++ lexeme :: rest) =
          some (tree, lexeme :: rest) := by
  obtain ⟨tree, hstands, ⟨first, more, rfl, hleads⟩, hrun⟩ := h indent hlexed hholds
  refine ⟨tree, first, more, rfl, hleads.isTrivia, hstands, fun {n lexeme rest} hdepth hbreaks hcolon => ?_⟩
  cases kind with
  | block block =>
      obtain ⟨stmts, trailing, inline⟩ := block
      rw [StmtKind.marks, Block.marks] at hlexed
      obtain ⟨opening, inner, hcons, hopening, -⟩ := hlexed.symbol_inv
      obtain ⟨rfl, rfl⟩ := List.cons.inj hcons
      rw [hopening.isWord_symbol, if_neg Bool.false_ne_true]
      -- The rule of statements passes a brace on to the rule of blocks.
      have hstmt := hrun (show _ < n + 1 by omega) hbreaks hcolon
      exact (run_stmtRule_block hopening _).symm.trans hstmt
  | cond init test body alternative =>
      have hword : ∃ marks, (StmtKind.cond init test body alternative).marks indent =
          .word "if" :: .blank ' ' :: marks := by
        obtain _ | ⟨kind, decs⟩ := alternative
        all_goals
          rw [StmtKind.marks]
          exact ⟨_, rfl⟩
      obtain ⟨marks, hmarks⟩ := hword
      rw [hmarks] at hlexed
      obtain ⟨word, rest, hcons, hword, -⟩ := hlexed.keyword_inv
      obtain ⟨rfl, rfl⟩ := List.cons.inj hcons
      have hif : first.isWord "if" = true := by simp [hword.isWord]
      rw [hif, if_pos rfl]
      exact hrun hdepth hbreaks hcolon
  | _ => contradiction

theorem RereadStmt.condElse {test : Expr} {body : Block} {kind : StmtKind} (h : Formula 1 test)
    (hbody : RereadBlock source body) (halternative : RereadStmt source kind)
    (hkind : kind.isAlternative = true) :
    RereadStmt source (.cond none test body (some ⟨kind, {}⟩)) := by
  intro row indent lexemes hlexed hholds
  rw [StmtKind.marks] at hlexed ⊢
  simp only [List.cons_append, List.append_assoc] at hlexed ⊢
  obtain ⟨word, rest, rfl, hword, hrest⟩ := hlexed.keyword_inv
  obtain ⟨front, back, list, value, tree, rfl, hback, -, -, hvalue, htree, hruns⟩ :=
    reread_headed h hbody hrest rfl fun lexeme hmem => hholds lexeme (List.mem_cons_of_mem _ hmem)
  obtain ⟨otherwise, rest, rfl, hotherwise, hlast⟩ := hback.blank_inv.keyword_inv
  obtain ⟨other, next, more, rfl, hnext, hother, hrun⟩ := halternative.alternative hkind hlast
    fun lexeme hmem => hholds lexeme (by simp only [List.mem_cons, List.mem_append]; tauto)
  simp only [total_append, total_cons, Mark.rows, Mark.weight, h.rows_marks, Nat.zero_add,
    ← Nat.add_assoc]
  have hstands : StandsStmt source row _ (.cond none test body (some ⟨kind, {}⟩))
      (.node .ifStmt [.token word, value.as .condition, tree.as .body, .token otherwise,
        other.as .alternative]) := .condElse hword hvalue htree hother
  refine ⟨_, hstands, ⟨word, _, rfl, .of_word hword (by decide) (by decide)⟩,
    fun {n lexeme behind} hdepth hbreaks hcolon => ?_⟩
  obtain ⟨n, rfl⟩ := Nat.exists_eq_succ_of_ne_zero (show n ≠ 0 by omega)
  simp only [List.cons_append, List.append_assoc] at hcolon ⊢
  have hwhole : Colonless (front ++ otherwise :: next :: (more ++ lexeme :: behind)) :=
    hcolon.tail
  obtain ⟨row', opening, middle, hopening, -, hsimple, hblock⟩ := hruns (show _ < n by omega) hwhole
  have hread := hrun (show _ < n by omega) hbreaks hwhole.right.tail
  exact ((run_stmtRule_keyword _).2.1 hword).trans
    (run_ifStmt_else hword hsimple hopening hblock hotherwise hnext rfl hread)

/-- Every plain statement is parsed as it was written. -/
theorem Plain.reread {kind : StmtKind} (h : Plain kind) (source : Source) :
    RereadStmt source kind := by
  induction h with
  | expr hvalue => exact RereadStmt.expr hvalue
  | assign hleftne hrightne hleft hright => exact RereadStmt.assign _ hleftne hrightne hleft hright
  | spawn hcall => exact (RereadStmt.launch hcall).1
  | defer hcall => exact (RereadStmt.launch hcall).2
  | ret hresults => exact RereadStmt.ret hresults
  | block hlaid _ ih => exact RereadStmt.block (hlaid.reread ih)
  | cond htest _ hlaid _ ih => exact RereadStmt.cond htest (hlaid.reread ih)
  | condElse htest _ hlaid _ hkind _ ih ihalternative =>
      exact RereadStmt.condElse htest (hlaid.reread ih) ihalternative hkind
  | forever hlaid _ ih => exact RereadStmt.forever (hlaid.reread ih)
  | loop htest _ hlaid _ ih => exact RereadStmt.loop htest (hlaid.reread ih)

end TraceWeave.Syntax
