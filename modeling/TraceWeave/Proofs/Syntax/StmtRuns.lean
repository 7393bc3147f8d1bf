import TraceWeave.Proofs.Syntax.Rereading
import TraceWeave.Proofs.Syntax.Statements
import TraceWeave.Proofs.Syntax.Trivia

/-!
Runs of the grammar of statements.

What the rule of statements does with the lexemes at the front of its input, given what the
rules of expressions and blocks do with theirs.
-/

namespace TraceWeave.Syntax

open TraceWeave.Syntax.Parser TraceWeave.Syntax.Grammar

variable {source : Source}

/-! ## Lists of expressions -/

/-- An expression behind a comma. -/
def nextExpr (rules : Rules) (ctx : ExprContext) : Parser (List Concrete) := do
  if ← nextIs ctx.breaks "," then
    let comma ← symbol ","
    return [comma, ← rules (.expr ctx 1)]
  else failure

theorem items_list (ctx : ExprContext) :
    Items ctx (fun n => nextExpr (read n) ctx) (Closes ctx 1) where
  closes h := h
  comma rest his := .of_symbol his (by decide) (fun _ => by decide) (by decide) (by decide) rest
  run {n lexeme row input tree rest} his hread _ := by
    have hcomma : (front ctx.breaks (lexeme :: input)).any (·.isSymbol ",") = true := by
      rw [front_cons his.isTrivia_symbol]
      simp [his.isSymbol]
    rw [nextExpr, run_bind (run_nextIs _ _ _), hcomma, if_pos rfl, run_bind (his.run_symbol _),
      run_bind hread]
    rfl

/-- A list of expressions in front of something that neither of them takes in. -/
theorem reread_list {exprs : List Expr} (hne : exprs ≠ []) (hformula : ∀ expr ∈ exprs, Formula 1 expr)
    (ctx : ExprContext) {row depth : Nat} {lexemes : List Lexeme}
    (hlexed : Lexed row lexemes (marksOfArgs depth exprs))
    (hholds : ∀ lexeme ∈ lexemes, source.Holds lexeme) :
    ∃ tree, StandsList source row exprs tree ∧ ∀ {n : Nat} {rest : List Lexeme},
      total Mark.weight (marksOfArgs depth exprs) + 1 < n → Closes ctx 1 rest →
        (front ctx.breaks rest).any (·.isSymbol ",") = false →
          exprList (read n) ctx (lexemes ++ rest) = some (tree, rest) := by
  cases exprs with
  | nil => contradiction
  | cons expr exprs =>
      have hexpr := hformula expr List.mem_cons_self
      have hrest : ∀ expr ∈ exprs, Formula 1 expr := fun expr hmem =>
        hformula expr (List.mem_cons_of_mem _ hmem)
      rw [marksOfArgs_cons] at hlexed ⊢
      have hback : (marksOfMore depth exprs).head?.all (!·.isSign) = true := by
        cases exprs <;> rfl
      obtain ⟨first, second, rfl, hfirst, hsecond⟩ := hexpr.cut hlexed hback
      obtain ⟨tree, hrole, hstands, hparsed⟩ := hexpr.reread source depth hfirst
        fun lexeme hmem => hholds lexeme (by simp [hmem])
      obtain ⟨parts, trees, hlength, htrees, hnamed, hplain, hruns⟩ := reread_more (items_list ctx) hrest
        (fun expr hmem => (hrest expr hmem).reread source) hsecond
        fun lexeme hmem => hholds lexeme (by simp [hmem])
      have hnil : exprs = [] → parts.flatten = [] := by
        rintro rfl
        rw [List.eq_nil_of_length_eq_zero hlength, List.flatten_nil]
      refine ⟨_, stands_list hstands hrole htrees hnamed (fun item hmem => (hplain item hmem).2) hnil,
        fun {n rest} hdepth hcloses hcomma => ?_⟩
      simp only [total_append] at hdepth
      have hnone : nextExpr (read n) ctx rest = none := by
        rw [nextExpr, run_bind (run_nextIs _ _ _), hcomma, if_neg Bool.false_ne_true]
        rfl
      obtain ⟨hmore, hrun⟩ := hruns (show _ < n by omega) hcloses hnone
      have hread : read n (.expr ctx 1) (first ++ (second ++ rest)) = some (tree, second ++ rest) :=
        hparsed.read_expr (by omega) (hexpr.le_rank (by decide)) hmore
      rw [List.append_assoc]
      show (read n (.expr ctx 1) >>= fun first => many (nextExpr (read n) ctx) >>= fun rest => _) _ = _
      rw [run_bind hread, run_bind hrun.run_many]
      rfl

/-! ## Simple statements -/

/-- The lexeme may be the first one of a formula. -/
def Starts (lexeme : Lexeme) : Prop :=
  (∃ row text, lexeme.Is row .word text ∧ isName text = true) ∨
    ∃ row text, lexeme.Is row .symbol text ∧ text ∈ "(" :: (unaryOperators ++ fusedSigns)

theorem Formula.starts {level : Nat} {expr : Expr} (h : Formula level expr) {row depth : Nat}
    {lexemes : List Lexeme} {tail : List Mark}
    (hlexed : Lexed row lexemes (expr.marks depth ++ tail)) :
    ∃ lexeme rest, lexemes = lexeme :: rest ∧ Starts lexeme := by
  obtain ⟨mark, marks, hmarks, hopens⟩ := h.opens depth
  rw [hmarks, List.cons_append] at hlexed
  obtain ⟨text, rfl, hname⟩ | rfl | ⟨sign, hunary, -, rfl⟩ := hopens
  · obtain ⟨lexeme, rest, rfl, his, -⟩ := hlexed.word_inv
    exact ⟨lexeme, rest, rfl, .inl ⟨row, text, his, hname⟩⟩
  · obtain ⟨lexeme, rest, rfl, his, -⟩ := hlexed.symbol_inv
    exact ⟨lexeme, rest, rfl, .inr ⟨row, "(", his, List.mem_cons_self⟩⟩
  · obtain ⟨lexeme, rest, rfl, his, -⟩ | ⟨next, more, lexeme, rest, -, rfl, -, -, hfused, his, -⟩ :=
      hlexed.sign_cases
    · exact ⟨lexeme, rest, rfl, .inr ⟨row, sign, his, by simp [hunary]⟩⟩
    · exact ⟨lexeme, rest, rfl, .inr ⟨row, _, his, by simp [hfused]⟩⟩

theorem Starts.isTrivia {lexeme : Lexeme} (h : Starts lexeme) : lexeme.isTrivia = false := by
  obtain ⟨row, text, his, -⟩ | ⟨row, text, his, -⟩ := h
  · exact his.isTrivia_word
  · exact his.isTrivia_symbol

theorem Starts.isSymbol {lexeme : Lexeme} (h : Starts lexeme) {text : String}
    (htext : text ∉ "(" :: (unaryOperators ++ fusedSigns)) : lexeme.isSymbol text = false := by
  obtain ⟨row, other, his, -⟩ | ⟨row, other, his, hmem⟩ := h
  · exact his.isSymbol_word text
  · rw [his.isSymbol, beq_eq_false_iff_ne]
    exact fun heq => htext (heq ▸ hmem)

theorem Starts.isWord {lexeme : Lexeme} (h : Starts lexeme) {text : String}
    (htext : text ∈ keywords) : lexeme.isWord text = false := by
  obtain ⟨row, other, his, hname⟩ | ⟨row, other, his, -⟩ := h
  · rw [his.isWord, beq_eq_false_iff_ne]
    rintro rfl
    simp [isName, htext] at hname
  · exact his.isWord_symbol text

theorem run_second? {lexeme : Lexeme} (h : lexeme.isTrivia = false) (rest : List Lexeme) :
    second? (lexeme :: rest) =
      some ((rest.dropWhile Lexeme.isTrivia).head?, lexeme :: rest) := by
  have hdrop : (lexeme :: rest).dropWhile Lexeme.isTrivia = lexeme :: rest := by simp [h]
  show some (((((lexeme :: rest).dropWhile Lexeme.isTrivia).drop 1).dropWhile
    Lexeme.isTrivia).head?, lexeme :: rest) = _
  rw [hdrop]
  rfl

/-- Two parsers do the same with an input. -/
def Agree (input : List Lexeme) (first second : Parser Concrete) : Prop :=
  first input = second input

/-- What starts with a formula is a simple statement, unless a colon makes it a label. -/
theorem run_stmtRule_simple {rules : Rules} {lexeme : Lexeme} {rest : List Lexeme}
    (hstarts : Starts lexeme) (hcolon : ∀ other ∈ rest, other.isSymbol ":" = false) :
    stmtRule rules (lexeme :: rest) = simpleStmt rules .statement (lexeme :: rest) := by
  have hsecond : (rest.dropWhile Lexeme.isTrivia).head?.any (·.isSymbol ":") = false := by
    cases hhead : (rest.dropWhile Lexeme.isTrivia).head? with
    | none => rfl
    | some other =>
        have hmem : other ∈ rest.dropWhile Lexeme.isTrivia := List.mem_of_head? hhead
        exact hcolon other ((List.dropWhile_sublist _).mem hmem)
  have hlabel : ∀ first second : Parser Concrete,
      (second? >>= fun next => if next.any (·.isSymbol ":") then first else second)
        (lexeme :: rest) = second (lexeme :: rest) := by
    intro first second
    rw [run_bind (run_second? hstarts.isTrivia rest), hsecond, if_neg Bool.false_ne_true]
  have hword : lexeme.kind = .word → lexeme.text ∉ keywords := by
    intro hkind hmem
    obtain ⟨row, text, his, hname⟩ | ⟨row, text, his, -⟩ := hstarts
    · rw [his.text_eq] at hmem
      simp [isName, hmem] at hname
    · rw [his.kind_eq] at hkind
      contradiction
  have hsymbol : ∀ text ∈ ["\x7b", ";"], lexeme.kind = .symbol → lexeme.text ≠ text := by
    intro text hmem hkind htext
    have hnot : ∀ text ∈ ["\x7b", ";"], text ∉ "(" :: (unaryOperators ++ fusedSigns) := by decide
    have hself := hstarts.isSymbol (hnot text hmem)
    simp [Lexeme.isSymbol, hkind, htext] at hself
  rw [stmtRule, run_bind (run_upcoming _ _), front_cons hstarts.isTrivia]
  dsimp only
  show Agree (lexeme :: rest) _ _
  split
  all_goals first
    | rfl
    | exact hlabel _ _
    | (next hkind htext => exact absurd (htext ▸ hword hkind) (by decide))
    | (next hkind htext => exact absurd htext (hsymbol _ (by decide) hkind))

/-- The symbols that make a statement of what stands in front of them. -/
def stmtSymbols : List String := [":=", "=", "++", "--", "<-"] ++ compoundAssignments

theorem run_simpleStmt_expr {rules : Rules} {ctx : ExprContext} {input rest : List Lexeme}
    {list value : Concrete} (hlist : exprList rules ctx input = some (list, rest))
    (hvalue : list.children = [value])
    (hrest : ∀ lexeme ∈ front ctx.breaks rest, ∀ text ∈ stmtSymbols, lexeme.isSymbol text = false) :
    simpleStmt rules ctx input = some (.node .exprStmt [value], rest) := by
  rw [simpleStmt, run_bind hlist]
  simp only [hvalue]
  rw [run_bind (run_upcoming _ _)]
  cases hfront : front ctx.breaks rest with
  | none => rfl
  | some lexeme =>
      have hnone := hrest lexeme hfront
      have hcompound : compoundAssignments.any lexeme.isSymbol = false :=
        List.any_eq_false.2 fun text hmem => by
          simp [hnone text (List.mem_append_right _ hmem)]
      have hdefine := hnone ":=" (by simp [stmtSymbols])
      have hassign := hnone "=" (by simp [stmtSymbols])
      have hup := hnone "++" (by simp [stmtSymbols])
      have hdown := hnone "--" (by simp [stmtSymbols])
      have harrow := hnone "<-" (by simp [stmtSymbols])
      simp only [hdefine, hassign, hcompound, hup, hdown, harrow, Bool.or_self, Bool.false_eq_true,
        if_false]
      rfl

theorem run_simpleStmt_assign {rules : Rules} {ctx : ExprContext} {lexeme : Lexeme} {row : Nat}
    {op : AssignOp} (his : lexeme.Is row .symbol op.symbol) {input middle rest : List Lexeme}
    {first second : Concrete} (hfirst : exprList rules ctx input = some (first, lexeme :: middle))
    (hsecond : exprList rules ctx.right middle = some (second, rest)) :
    simpleStmt rules ctx input =
      some (StandsStmt.assignTree op first lexeme second, rest) := by
  rw [simpleStmt, run_bind hfirst, run_bind (run_upcoming _ _), front_cons his.isTrivia_symbol]
  cases op with
  | define =>
      have hdefine : lexeme.isSymbol ":=" = true := by
        rw [his.isSymbol]
        rfl
      have htake : symbol ":=" (lexeme :: middle) = some (.token lexeme, middle) :=
        his.run_symbol middle
      simp only [hdefine, if_true]
      rw [run_bind htake, run_bind hsecond]
      rfl
  | assign =>
      have hdefine : lexeme.isSymbol ":=" = false := by
        rw [his.isSymbol]
        rfl
      have hassign : lexeme.isSymbol "=" = true := by
        rw [his.isSymbol]
        rfl
      have htake : takeOperator true (lexeme :: middle) =
          some ((Concrete.token lexeme).as .op, middle) := by
        rw [takeOperator, run_bind (run_take his.isTrivia_symbol (by simp [his.kind_eq]) _)]
        rfl
      simp only [hdefine, hassign, Bool.true_or, Bool.false_eq_true, if_false, if_true]
      rw [run_bind htake, run_bind hsecond]
      rfl

/-! ## Keywords -/

theorem run_stmtRule_launch {rules : Rules} {word : Lexeme} {row : Nat} {input rest : List Lexeme}
    {tree : Concrete} (hcall : rules (.expr .value 1) input = some (tree, rest)) :
    (word.Is row .word "go" →
      stmtRule rules (word :: input) = some (.node .spawnStmt [.token word, tree], rest)) ∧
    (word.Is row .word "defer" →
      stmtRule rules (word :: input) = some (.node .deferStmt [.token word, tree], rest)) := by
  constructor <;> intro his
  all_goals
    rw [stmtRule, run_bind (run_upcoming _ _), front_cons his.isTrivia_word]
    simp only [his.kind_eq, his.text_eq]
    rw [run_bind (his.run_keyword _), run_bind hcall]
    rfl

/-- Keywords with a rule of their own. -/
theorem run_stmtRule_keyword {rules : Rules} {word : Lexeme} {row : Nat} (input : List Lexeme) :
    (word.Is row .word "return" → stmtRule rules (word :: input) = returnStmt rules (word :: input)) ∧
    (word.Is row .word "if" → stmtRule rules (word :: input) = ifStmt rules (word :: input)) ∧
    (word.Is row .word "for" → stmtRule rules (word :: input) = forStmt rules (word :: input)) := by
  refine ⟨fun his => ?_, fun his => ?_, fun his => ?_⟩
  all_goals
    rw [stmtRule, run_bind (run_upcoming _ _), front_cons his.isTrivia_word]
    simp only [his.kind_eq, his.text_eq]

theorem run_returnStmt_nil {rules : Rules} {word lexeme : Lexeme} {row : Nat}
    (his : word.Is row .word "return") (hkind : lexeme.kind = .breaks) (rest : List Lexeme) :
    returnStmt rules (word :: lexeme :: rest) =
      some (.node .returnStmt [.token word], lexeme :: rest) := by
  have hfront : front true (lexeme :: rest) = some lexeme := by simp [front, hkind]
  rw [returnStmt, run_bind (his.run_keyword _), run_bind (run_upcoming _ _), hfront]
  simp [hkind]
  rfl

theorem run_returnStmt {rules : Rules} {word lexeme : Lexeme} {row : Nat}
    (his : word.Is row .word "return") (hstarts : Starts lexeme) {input rest : List Lexeme}
    {list : Concrete} (hlist : exprList rules .value (lexeme :: input) = some (list, rest)) :
    returnStmt rules (word :: lexeme :: input) =
      some (.node .returnStmt [.token word, list], rest) := by
  have hbreaks : (lexeme.kind == .breaks) = false := by
    have htrivia := hstarts.isTrivia
    rw [Lexeme.isTrivia, Bool.or_eq_false_iff] at htrivia
    exact htrivia.2
  have hsemicolon := hstarts.isSymbol (show ";" ∉ _ by decide)
  have hbrace := hstarts.isSymbol (show "\x7d" ∉ _ by decide)
  rw [returnStmt, run_bind (his.run_keyword _), run_bind (run_upcoming _ _),
    front_cons hstarts.isTrivia]
  simp only [hbreaks, hsemicolon, hbrace, Bool.or_self, Bool.false_eq_true, if_false]
  rw [run_bind hlist]
  rfl

theorem run_stmtRule_block {rules : Rules} {opening : Lexeme} {row : Nat}
    (his : opening.Is row .symbol "\x7b") (input : List Lexeme) :
    stmtRule rules (opening :: input) = rules .block (opening :: input) := by
  rw [stmtRule, run_bind (run_upcoming _ _), front_cons his.isTrivia_symbol]
  simp only [his.kind_eq, his.text_eq]

theorem run_nextIsWord (text : String) (input : List Lexeme) :
    nextIsWord text input = some ((front false input).any (·.isWord text), input) := by
  rw [nextIsWord, run_bind (run_upcoming _ _)]
  rfl

/-- A conditional up to the end of its body. -/
theorem run_ifStmt {rules : Rules} {word opening lexeme : Lexeme} {row row' : Nat}
    (his : word.Is row .word "if") {input middle rest : List Lexeme} {value body : Concrete}
    (htest : simpleStmt rules .header input = some (.node .exprStmt [value], opening :: middle))
    (hopening : opening.Is row' .symbol "\x7b")
    (hbody : rules .block (opening :: middle) = some (body, lexeme :: rest))
    (hkind : lexeme.kind = .breaks) :
    ifStmt rules (word :: input) = some
      (.node .ifStmt [.token word, value.as .condition, body.as .body], lexeme :: rest) := by
  have hfront : front true (lexeme :: rest) = some lexeme := by simp [front, hkind]
  have hword : lexeme.isWord "else" = false := by simp [Lexeme.isWord, hkind]
  have hbare : bareExpr (.node .exprStmt [value]) (opening :: middle) =
      some (value, opening :: middle) := rfl
  have hsemicolon := run_maybe_none (hopening.run_symbol_none (show "\x7b" ≠ ";" by decide) middle)
  rw [ifStmt, run_bind (his.run_keyword _), run_bind htest, run_bind hsemicolon]
  dsimp only
  rw [run_bind hbare, pure_bind, run_bind hbody, run_bind (run_upcoming true _), hfront]
  simp only [hword, Bool.false_eq_true, if_false]
  rfl

/-- A conditional with an alternative. -/
theorem run_ifStmt_else {rules : Rules} {word opening otherwise next : Lexeme} {row row' row'' : Nat}
    {goal : Goal} (his : word.Is row .word "if")
    {input middle more rest : List Lexeme} {value body alternative : Concrete}
    (htest : simpleStmt rules .header input = some (.node .exprStmt [value], opening :: middle))
    (hopening : opening.Is row' .symbol "\x7b")
    (hbody : rules .block (opening :: middle) = some (body, otherwise :: next :: more))
    (hotherwise : otherwise.Is row'' .word "else") (hnext : next.isTrivia = false)
    (hgoal : goal = if next.isWord "if" then .stmt else .block)
    (halternative : rules goal (next :: more) = some (alternative, rest)) :
    ifStmt rules (word :: input) = some
      (.node .ifStmt [.token word, value.as .condition, body.as .body, .token otherwise,
        alternative.as .alternative], rest) := by
  have hbare : bareExpr (.node .exprStmt [value]) (opening :: middle) =
      some (value, opening :: middle) := rfl
  have hsemicolon := run_maybe_none (hopening.run_symbol_none (show "\x7b" ≠ ";" by decide) middle)
  have hword : otherwise.isWord "else" = true := by simp [hotherwise.isWord]
  rw [ifStmt, run_bind (his.run_keyword _), run_bind htest, run_bind hsemicolon]
  dsimp only
  rw [run_bind hbare, pure_bind, run_bind hbody, run_bind (run_upcoming true _),
    front_cons hotherwise.isTrivia_word]
  simp only [hword, if_true]
  rw [run_bind (hotherwise.run_keyword _), run_bind (run_nextIsWord _ _), front_cons hnext]
  subst hgoal
  cases hif : next.isWord "if" with
  | true =>
      rw [hif, if_pos rfl] at halternative
      simp only [Option.any_some, hif, if_true]
      rw [run_bind halternative]
      rfl
  | false =>
      rw [hif, if_neg Bool.false_ne_true] at halternative
      simp only [Option.any_some, hif, Bool.false_eq_true, if_false]
      rw [run_bind halternative]
      rfl

/-- A loop without a header. -/
theorem run_forStmt_forever {rules : Rules} {word opening : Lexeme} {row row' : Nat}
    (his : word.Is row .word "for") (hopening : opening.Is row' .symbol "\x7b")
    {middle rest : List Lexeme} {body : Concrete}
    (hbody : rules .block (opening :: middle) = some (body, rest)) :
    forStmt rules (word :: opening :: middle) =
      some (.node .forStmt [.token word, body.as .body], rest) := by
  have hbrace : (front false (opening :: middle)).any (·.isSymbol "\x7b") = true := by
    rw [front_cons hopening.isTrivia_symbol]
    simp [hopening.isSymbol]
  have hheader : forHeader rules (opening :: middle) = some ([], opening :: middle) := by
    rw [forHeader, run_bind (run_nextIs _ _ _), hbrace, if_pos rfl]
    rfl
  rw [forStmt, run_bind (his.run_keyword _), run_bind hheader, run_bind hbody]
  rfl

/-- A loop with a condition. -/
theorem run_forStmt_cond {rules : Rules} {word lexeme opening : Lexeme} {row row' : Nat}
    (his : word.Is row .word "for") (hopening : opening.Is row' .symbol "\x7b")
    (hstarts : Starts lexeme) {input middle rest : List Lexeme} {list value body : Concrete}
    (hlist : exprList rules .header (lexeme :: input) = some (list, opening :: middle))
    (htest : simpleStmt rules .header (lexeme :: input) =
      some (.node .exprStmt [value], opening :: middle))
    (hbody : rules .block (opening :: middle) = some (body, rest)) :
    forStmt rules (word :: lexeme :: input) =
      some (.node .forStmt [.token word, value, body.as .body], rest) := by
  have hfirst : ∀ text ∈ ["\x7b", ";"],
      (front false (lexeme :: input)).any (·.isSymbol text) = false := by
    intro text hmem
    have hnot : ∀ text ∈ ["\x7b", ";"], text ∉ "(" :: (unaryOperators ++ fusedSigns) := by decide
    rw [front_cons hstarts.isTrivia]
    exact hstarts.isSymbol (hnot text hmem)
  have hrange : (front false (lexeme :: input)).any (·.isWord "range") = false := by
    rw [front_cons hstarts.isTrivia]
    exact hstarts.isWord (by decide)
  have hnone : rangeAssigning rules (lexeme :: input) = none := by
    have hdefine := hopening.run_symbol_none (show "\x7b" ≠ ":=" by decide) middle
    have hassign := hopening.run_symbol_none (show "\x7b" ≠ "=" by decide) middle
    rw [rangeAssigning, run_bind hlist]
    refine run_bind_none ?_
    show (symbol ":=" (opening :: middle)).orElse _ = none
    rw [hdefine]
    exact hassign
  have hsemicolon : (front false (opening :: middle)).any (·.isSymbol ";") = false := by
    rw [front_cons hopening.isTrivia_symbol]
    simp [hopening.isSymbol]
  have hbare : bareExpr (.node .exprStmt [value]) (opening :: middle) =
      some (value, opening :: middle) := rfl
  have hheader : forHeader rules (lexeme :: input) = some ([value], opening :: middle) := by
    rw [forHeader, run_bind (run_nextIs _ _ _), hfirst _ (by simp), if_neg Bool.false_ne_true,
      run_bind (run_nextIsWord _ _), hrange, if_neg Bool.false_ne_true,
      run_bind (run_nextIs _ _ _), hfirst _ (by simp), if_neg Bool.false_ne_true]
    have hmapped : (List.singleton <$> rangeAssigning rules) (lexeme :: input) = none := by
      show (rangeAssigning rules (lexeme :: input)).bind _ = none
      rw [hnone]
      rfl
    show ((List.singleton <$> rangeAssigning rules) (lexeme :: input)).orElse _ = _
    rw [hmapped]
    show (simpleStmt rules .header >>= fun first => _) (lexeme :: input) = _
    rw [run_bind htest, run_bind (run_nextIs _ _ _), hsemicolon, if_neg Bool.false_ne_true,
      run_bind hbare]
    rfl
  rw [forStmt, run_bind (his.run_keyword _), run_bind hheader, run_bind hbody]
  rfl

end TraceWeave.Syntax
