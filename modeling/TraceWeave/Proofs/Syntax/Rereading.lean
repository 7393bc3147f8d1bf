import TraceWeave.Proofs.Syntax.Parsing
import TraceWeave.Proofs.Syntax.Reading
import TraceWeave.Proofs.Syntax.Spacing

/-!
Formulas are parsed as they were written.

The lexemes of a formula give a tree that stands for it.  A formula is a primary, a sign
with its operand, or a binary operation; what may follow it depends on which it is, so
`Parsed` has a field for each of the three rules that may meet it.
-/

namespace TraceWeave.Syntax

open TraceWeave.Syntax.Parser TraceWeave.Syntax.Grammar

/-! ## Cutting lexemes along marks -/

def Mark.rows : Mark → Nat
  | .breaks count => count
  | _ => 0

/-- Blanks have no lexemes, and all other marks have at most one. -/
def Mark.weight : Mark → Nat
  | .blank _ => 0
  | _ => 1

def Mark.isSign : Mark → Bool
  | .sign _ => true
  | _ => false

def total (measure : Mark → Nat) (marks : List Mark) : Nat :=
  marks.foldr (fun mark sum => measure mark + sum) 0

section

variable (measure : Mark → Nat)

@[simp]
theorem total_nil : total measure [] = 0 := rfl

@[simp]
theorem total_cons (mark : Mark) (marks : List Mark) :
    total measure (mark :: marks) = measure mark + total measure marks := rfl

@[simp]
theorem total_append (front back : List Mark) :
    total measure (front ++ back) = total measure front + total measure back := by
  induction front with
  | nil => simp
  | cons mark front ih => simp [ih, Nat.add_assoc]

end

theorem Lexed.weight_le {row : Nat} {lexemes : List Lexeme} {marks : List Mark}
    (h : Lexed row lexemes marks) : total Mark.weight marks ≤ 2 * lexemes.length := by
  induction h with
  | nil => simp
  | _ => simp [Mark.weight]; omega

/-- A sign has a lexeme of its own or shares one with the sign behind it. -/
theorem Lexed.sign_cases {row : Nat} {lexemes : List Lexeme} {text : String} {marks : List Mark}
    (h : Lexed row lexemes (.sign text :: marks)) :
    (∃ lexeme rest, lexemes = lexeme :: rest ∧ lexeme.Is row .symbol text ∧ Lexed row rest marks) ∨
      ∃ next more lexeme rest, marks = .sign next :: more ∧ lexemes = lexeme :: rest ∧
        text ∈ unaryOperators ∧ next ∈ unaryOperators ∧ text ++ next ∈ fusedSigns ∧
        lexeme.Is row .symbol (text ++ next) ∧ Lexed row rest more := by
  cases h with
  | sign his hrest => exact .inl ⟨_, _, rfl, his, hrest⟩
  | signs hfirst hsecond hfused his hrest =>
      exact .inr ⟨_, _, _, _, rfl, rfl, hfirst, hsecond, hfused, his, hrest⟩

/-- Lexemes come apart where the marks behind do not start with a sign. -/
theorem Lexed.append {row : Nat} {lexemes : List Lexeme} {front back : List Mark}
    (h : Lexed row lexemes (front ++ back)) (hback : back.head?.all (!·.isSign) = true) :
    ∃ first second, lexemes = first ++ second ∧ Lexed row first front ∧
      Lexed (row + total Mark.rows front) second back := by
  induction hlength : front.length using Nat.strongRecOn generalizing row lexemes front with
  | ind length ih =>
  subst hlength
  match front, h with
  | [], h => exact ⟨[], lexemes, rfl, .nil, h⟩
  | .blank c :: front, .blank hrest =>
      obtain ⟨first, second, rfl, hfirst, hsecond⟩ := ih _ (by simp) hrest rfl
      exact ⟨first, second, rfl, .blank hfirst, by simpa [Mark.rows] using hsecond⟩
  | .breaks count :: front, .breaks hkind hrest =>
      obtain ⟨first, second, rfl, hfirst, hsecond⟩ := ih _ (by simp) hrest rfl
      exact ⟨_ :: first, second, rfl, .breaks hkind hfirst,
        by simpa [Mark.rows, Nat.add_assoc] using hsecond⟩
  | .word text :: front, .word his hrest =>
      obtain ⟨first, second, rfl, hfirst, hsecond⟩ := ih _ (by simp) hrest rfl
      exact ⟨_ :: first, second, rfl, .word his hfirst, by simpa [Mark.rows] using hsecond⟩
  | .symbol text :: front, .symbol his hrest =>
      obtain ⟨first, second, rfl, hfirst, hsecond⟩ := ih _ (by simp) hrest rfl
      exact ⟨_ :: first, second, rfl, .symbol his hfirst, by simpa [Mark.rows] using hsecond⟩
  | .sign text :: front, h =>
      obtain ⟨lexeme, rest, rfl, his, hrest⟩ |
        ⟨next, more, lexeme, rest, hmore, rfl, hfirst, hsecond, hfused, his, hrest⟩ := h.sign_cases
      · obtain ⟨first, second, rfl, hfirst, hsecond⟩ := ih _ (by simp) hrest rfl
        exact ⟨_ :: first, second, rfl, .sign his hfirst, by simpa [Mark.rows] using hsecond⟩
      · cases front with
        | nil =>
            obtain rfl : back = .sign next :: more := hmore
            contradiction
        | cons mark front =>
            obtain ⟨rfl, rfl⟩ := List.cons.inj hmore
            have hless : front.length < (Mark.sign text :: .sign next :: front).length := by
              simp only [List.length_cons]
              omega
            obtain ⟨first, second, rfl, hfirst', hsecond'⟩ := ih _ hless hrest rfl
            exact ⟨_ :: first, second, rfl, .signs hfirst hsecond hfused his hfirst',
              by simpa [Mark.rows] using hsecond'⟩

namespace Lexed

variable {row : Nat} {lexemes : List Lexeme} {marks : List Mark}

theorem blank_inv {c : Char} (h : Lexed row lexemes (.blank c :: marks)) :
    Lexed row lexemes marks := by
  cases h with
  | blank h => exact h

theorem word_inv {text : String} (h : Lexed row lexemes (.word text :: marks)) :
    ∃ lexeme rest, lexemes = lexeme :: rest ∧ lexeme.Is row .word text ∧ Lexed row rest marks := by
  cases h with
  | word his hrest => exact ⟨_, _, rfl, his, hrest⟩

theorem symbol_inv {text : String} (h : Lexed row lexemes (.symbol text :: marks)) :
    ∃ lexeme rest, lexemes = lexeme :: rest ∧ lexeme.Is row .symbol text ∧
      Lexed row rest marks := by
  cases h with
  | symbol his hrest => exact ⟨_, _, rfl, his, hrest⟩

end Lexed

/-! ## Formulas stand on one row and hold no labels -/

/-- The measure counts none of the marks that formulas are made of. -/
structure Overlooks (measure : Mark → Nat) : Prop where
  blank : ∀ c, measure (.blank c) = 0
  word : ∀ text, measure (.word text) = 0
  sign : ∀ text ∈ unaryOperators, measure (.sign text) = 0
  symbol : ∀ text ∈ ["(", ")", ",", "."] ++ binaryOperators, measure (.symbol text) = 0

theorem Overlooks.rows : Overlooks Mark.rows := ⟨fun _ => rfl, fun _ => rfl, fun _ _ => rfl, fun _ _ => rfl⟩

section

variable {measure : Mark → Nat} (hmeasure : Overlooks measure)

include hmeasure

theorem Overlooks.total_marksOfArgs {args : List Expr} {depth : Nat}
    (h : ∀ arg ∈ args, total measure (arg.marks depth) = 0) :
    total measure (marksOfArgs depth args) = 0 := by
  have hcomma := hmeasure.symbol "," (by decide)
  induction args with
  | nil => rfl
  | cons arg args ih =>
      have hargs := ih fun arg hmem => h arg (List.mem_cons_of_mem _ hmem)
      have harg := h arg List.mem_cons_self
      simp only [marksOfArgs, total_append, harg, hargs]
      split <;> simp [hmeasure.blank, hcomma]

theorem Formula.total_marks {level : Nat} {expr : Expr} (h : Formula level expr) (depth : Nat) :
    total measure (expr.marks depth) = 0 := by
  have hopening := hmeasure.symbol "(" (by decide)
  have hclosing := hmeasure.symbol ")" (by decide)
  have hpoint := hmeasure.symbol "." (by decide)
  have hstar := hmeasure.sign "*" (by decide)
  induction h generalizing depth with
  | name => simp [Expr.marks, ExprKind.marks, hmeasure.word]
  | selector _ _ ih => simp [Expr.marks, ExprKind.marks, hmeasure.word, hpoint, ih]
  | call _ _ ihcallee ihargs =>
      simp [Expr.marks, ExprKind.marks, hopening, hclosing, ihcallee,
        hmeasure.total_marksOfArgs fun arg hmem => ihargs arg hmem _]
  | paren _ _ ih => simp [Expr.marks, ExprKind.marks, hopening, hclosing, ih]
  | star _ _ ih => simp [Expr.marks, ExprKind.marks, hstar, ih]
  | unary _ hop _ _ ih => simp [Expr.marks, ExprKind.marks, hmeasure.sign _ hop, ih]
  | binary _ hop _ _ _ ihleft ihright =>
      have hsign := hmeasure.symbol _ (List.mem_append_right _ (mem_binaryOperators hop))
      simp only [Expr.marks, ExprKind.marks]
      split <;> simp [hmeasure.blank, hsign, ihleft, ihright]

end

namespace Formula

variable {level : Nat} {expr : Expr}

theorem rows_marks (h : Formula level expr) (depth : Nat) :
    total Mark.rows (expr.marks depth) = 0 := h.total_marks .rows depth

/-- The lexemes of a formula, and those of the marks behind it. -/
theorem cut (h : Formula level expr) {row depth : Nat} {lexemes : List Lexeme} {back : List Mark}
    (hlexed : Lexed row lexemes (expr.marks depth ++ back))
    (hback : back.head?.all (!·.isSign) = true) :
    ∃ first second, lexemes = first ++ second ∧ Lexed row first (expr.marks depth) ∧
      Lexed row second back := by
  obtain ⟨first, second, hparts, hfirst, hsecond⟩ := hlexed.append hback
  rw [h.rows_marks depth, Nat.add_zero] at hsecond
  exact ⟨first, second, hparts, hfirst, hsecond⟩

theorem rank_eq (h : Formula operandPrecedence expr) : expr.rank = operandPrecedence := by
  cases h with
  | star hle => exact absurd hle (by decide)
  | unary hle => exact absurd hle (by decide)
  | @binary _ _ op _ hle =>
      have hmost := precedence_le op
      simp only [operandPrecedence] at hle
      omega
  | _ => rfl

end Formula

/-! ## Inputs that end an expression -/

namespace Closes

variable {ctx : ExprContext} {level row : Nat} {lexeme : Lexeme} {text : String}

/-- A symbol in front of which the expression ends; a brace does so where no body may follow. -/
theorem of_symbol (his : lexeme.Is row .symbol text) (hsuffix : text ∉ [".", "(", "["])
    (hbody : ctx.bodies = true → text ≠ "\x7b") (hcut : text ∉ ["++", "--", "<-"])
    (hlevel : precedence text < level) (rest : List Lexeme) : Closes ctx level (lexeme :: rest) := by
  refine ⟨fun found hmem other hother => ?_, fun hbodies found hmem => ?_,
    fun found hmem op whole hop => ?_⟩
  all_goals
    rw [front_cons his.isTrivia_symbol] at hmem
    obtain rfl := Option.some.inj hmem
  · rw [his.isSymbol, beq_eq_false_iff_ne]
    exact fun heq => hsuffix (heq ▸ hother)
  · rw [his.isSymbol, beq_eq_false_iff_ne]
    exact hbody hbodies
  · obtain rfl : op = text := by
      simp only [binaryOperator?, his.kind_eq, his.text_eq] at hop
      grind
    exact hlevel

/-- A line break ends the expression where line breaks count. -/
theorem of_breaks (hkind : lexeme.kind = .breaks) (hbreaks : ctx.breaks = true) (level : Nat)
    (rest : List Lexeme) : Closes ctx level (lexeme :: rest) := by
  have hfront : front ctx.breaks (lexeme :: rest) = some lexeme := by
    simp [front, hbreaks, hkind]
  refine ⟨fun found hmem other _ => ?_, fun _ found hmem => ?_, fun found hmem op whole hop => ?_⟩
  all_goals
    rw [hfront] at hmem
    obtain rfl := Option.some.inj hmem
  · simp [Lexeme.isSymbol, hkind]
  · simp [Lexeme.isSymbol, hkind]
  · simp [binaryOperator?, hkind] at hop

end Closes

/-! ## Trees of formulas -/

/--
What the rules make of the lexemes of an expression of a rank.  A primary may go on behind its tree,
and so may an operation of a level, which is why both give the tree to what reads the rest.
-/
structure Parsed (rank size : Nat) (lexemes : List Lexeme) (tree : Concrete) : Prop where
  primary : rank = operandPrecedence → ∀ {depth : Nat} (ctx : ExprContext) (rest : List Lexeme),
    size ≤ depth → ∃ limit, rest.length ≤ limit ∧
      unaryRule (read depth) ctx (lexemes ++ rest) = suffixes (read depth) ctx limit tree rest
  unary : unaryPrecedence ≤ rank → ∀ {depth : Nat} {ctx : ExprContext} {level : Nat}
    {rest : List Lexeme}, size ≤ depth → Closes ctx level rest →
      unaryRule (read depth) ctx (lexemes ++ rest) = some (tree, rest)
  expr : ∀ {depth : Nat} {ctx : ExprContext} {level : Nat} {rest : List Lexeme}, size < depth →
    level ≤ rank → Closes ctx (rank + 1) rest → ∃ limit, rest.length ≤ limit ∧
      exprRule (read depth) ctx level (lexemes ++ rest) = binaries (read depth) ctx level limit tree rest

/-- Whatever lexemes the expression is scanned as, they are parsed as a tree that stands for it. -/
def Reread (source : Source) (expr : Expr) : Prop :=
  ∀ {row : Nat} (depth : Nat) {lexemes : List Lexeme}, Lexed row lexemes (expr.marks depth) →
    (∀ lexeme ∈ lexemes, source.Holds lexeme) →
    ∃ tree, tree.role = .plain ∧ Stands source row expr tree ∧
      Parsed expr.rank (total Mark.weight (expr.marks depth)) lexemes tree

namespace Parsed

variable {rank size : Nat} {lexemes : List Lexeme} {tree : Concrete}

/-- An expression that the rule of signs reads on its own is read by the rule of operations. -/
theorem of_unary
    (hprimary : rank = operandPrecedence → ∀ {depth : Nat} (ctx : ExprContext)
      (rest : List Lexeme), size ≤ depth → ∃ limit, rest.length ≤ limit ∧
        unaryRule (read depth) ctx (lexemes ++ rest) = suffixes (read depth) ctx limit tree rest)
    (hunary : ∀ {depth : Nat} {ctx : ExprContext} {level : Nat} {rest : List Lexeme},
      size ≤ depth → Closes ctx level rest →
        unaryRule (read depth) ctx (lexemes ++ rest) = some (tree, rest)) :
    Parsed rank size lexemes tree where
  primary := hprimary
  unary _ := hunary
  expr {depth ctx level rest} hdepth _ hcloses := by
    obtain ⟨depth, rfl⟩ := Nat.exists_eq_succ_of_ne_zero (show depth ≠ 0 by omega)
    have hread : read (depth + 1) (.unary ctx) (lexemes ++ rest) = some (tree, rest) :=
      hunary (by omega) hcloses
    refine ⟨rest.length, Nat.le_refl _, ?_⟩
    rw [exprRule, run_bind hread, run_bind (run_get _)]

theorem of_primary
    (hprimary : ∀ {depth : Nat} (ctx : ExprContext) (rest : List Lexeme), size ≤ depth →
      ∃ limit, rest.length ≤ limit ∧
        unaryRule (read depth) ctx (lexemes ++ rest) = suffixes (read depth) ctx limit tree rest) :
    Parsed rank size lexemes tree := by
  refine of_unary (fun _ => hprimary) fun {depth ctx level rest} hdepth hcloses => ?_
  obtain ⟨limit, -, hrun⟩ := hprimary ctx rest hdepth
  rw [hrun, hcloses.run_suffixes]

/-- The whole expression, where nothing behind it belongs to it. -/
theorem read_expr (h : Parsed rank size lexemes tree) {depth : Nat} {ctx : ExprContext}
    {level : Nat} {rest : List Lexeme} (hdepth : size + 1 < depth) (hlevel : level ≤ rank)
    (hcloses : Closes ctx level rest) :
    read depth (.expr ctx level) (lexemes ++ rest) = some (tree, rest) := by
  obtain ⟨depth, rfl⟩ := Nat.exists_eq_succ_of_ne_zero (show depth ≠ 0 by omega)
  obtain ⟨limit, -, hrun⟩ := h.expr (show size < depth by omega) hlevel (hcloses.mono (by omega))
  show exprRule (read depth) ctx level _ = _
  rw [hrun, hcloses.run_binaries]

end Parsed

/-! ## Primaries -/

section

variable {source : Source}

theorem unary_not_symbol {lexeme : Lexeme} {row : Nat} {text : String}
    (his : lexeme.Is row .word text) : ∀ other ∈ unaryOperators ++ fusedSigns,
      lexeme.isSymbol other = false :=
  fun other _ => his.isSymbol_word other

theorem Reread.name {ident : Ident} (hname : isName ident.name = true) :
    Reread source ⟨.ident ident, {}⟩ := by
  intro row depth lexemes hlexed hholds
  obtain ⟨lexeme, rest, rfl, his, hrest⟩ := hlexed.word_inv
  cases hrest
  refine ⟨_, rfl, .name his (hholds _ List.mem_cons_self), .of_primary fun _ rest _ => ?_⟩
  refine ⟨rest.length, Nat.le_refl _, ?_⟩
  exact run_unaryRule_operand his.isTrivia_word (unary_not_symbol his)
    (run_operand_name his hname rest)

theorem Reread.selector {operand : Expr} {member : Ident}
    (hformula : Formula operandPrecedence operand) (h : Reread source operand) :
    Reread source ⟨.selector operand member, {}⟩ := by
  intro row depth lexemes hlexed hholds
  obtain ⟨first, second, rfl, hfirst, hsecond⟩ := hformula.cut hlexed rfl
  obtain ⟨dot, rest, rfl, hdot, hrest⟩ := hsecond.symbol_inv
  obtain ⟨word, rest, rfl, hword, hrest⟩ := hrest.word_inv
  cases hrest
  obtain ⟨base, -, hstands, hparsed⟩ :=
    h depth hfirst fun lexeme hmem => hholds lexeme (List.mem_append_left _ hmem)
  refine ⟨_, rfl, hstands.selector dot hword (hholds word (by simp)), .of_primary fun {n} ctx rest hsize => ?_⟩
  have hweight : total Mark.weight (operand.marks depth) ≤ n := by
    simp only [Expr.marks, ExprKind.marks, total_append] at hsize
    omega
  obtain ⟨limit, hlimit, hrun⟩ :=
    hparsed.primary hformula.rank_eq ctx (dot :: word :: rest) hweight
  simp only [List.length_cons] at hlimit
  obtain ⟨limit, rfl⟩ := Nat.exists_eq_succ_of_ne_zero (show limit ≠ 0 by omega)
  refine ⟨limit, by omega, ?_⟩
  rw [List.append_assoc]
  exact hrun.trans (run_suffixes_member hdot hword limit base rest)

theorem Reread.paren {inner : Expr} (hformula : Formula 1 inner) (h : Reread source inner) :
    Reread source ⟨.paren inner, {}⟩ := by
  intro row depth lexemes hlexed hholds
  obtain ⟨opening, rest, rfl, hopening, hrest⟩ := hlexed.symbol_inv
  obtain ⟨first, second, rfl, hfirst, hsecond⟩ := hformula.cut hrest rfl
  obtain ⟨closing, rest, rfl, hclosing, hrest⟩ := hsecond.symbol_inv
  cases hrest
  obtain ⟨tree, -, hstands, hparsed⟩ := h _ hfirst fun lexeme hmem => hholds lexeme (by simp [hmem])
  refine ⟨_, rfl, hstands.paren hopening hclosing, .of_primary fun {n} ctx rest hsize => ?_⟩
  have hdepth : total Mark.weight (inner.marks (reduceDepth depth)) + 1 < n := by
    simp only [Expr.marks, ExprKind.marks, List.cons_append, total_cons, total_append, total_nil,
      Mark.weight] at hsize
    omega
  have hcloses : Closes .enclosed 1 (closing :: rest) :=
    .of_symbol hclosing (by decide) (fun _ => by decide) (by decide) (by decide) rest
  have hinner := hparsed.read_expr hdepth (hformula.le_rank (by decide)) hcloses
  have hparen : operand (read n) ctx (opening :: first ++ closing :: rest) = _ :=
    run_operand_paren hopening hclosing hinner
  refine ⟨rest.length, Nat.le_refl _, ?_⟩
  have hsign : ∀ text ∈ unaryOperators ++ fusedSigns, opening.isSymbol text = false := by
    intro text hmem
    rw [hopening.isSymbol, beq_eq_false_iff_ne]
    rintro rfl
    exact absurd hmem (by decide)
  have hrun := run_unaryRule_operand hopening.isTrivia_symbol hsign hparen
  simpa using hrun

/-! ## Signs and operators -/

/-- Fused signs are cut behind their first character. -/
theorem cut_fused : ∀ first ∈ unaryOperators, ∀ second ∈ unaryOperators,
    first ++ second ∈ fusedSigns → 1 ≤ (first ++ second).toList.length ∧
      String.ofList ((first ++ second).toList.take 1) = first ∧
      String.ofList ((first ++ second).toList.drop 1) = second := by
  decide

theorem reread_sign {operand : Expr} (h : Reread source operand)
    (hrank : unaryPrecedence ≤ operand.rank) {op : String} (hop : op ∈ unaryOperators)
    {row depth : Nat} {lexemes : List Lexeme}
    (hlexed : Lexed row lexemes (.sign op :: operand.marks depth))
    (hholds : ∀ lexeme ∈ lexemes, source.Holds lexeme) :
    ∃ tree, tree.role = .plain ∧
      Stands source row ⟨if op = "*" then .star operand else .unary op operand, {}⟩ tree ∧
      Parsed unaryPrecedence (total Mark.weight (.sign op :: operand.marks depth)) lexemes tree := by
  have hweight : total Mark.weight (.sign op :: operand.marks depth) =
      1 + total Mark.weight (operand.marks depth) := rfl
  have hprimary : unaryPrecedence ≠ operandPrecedence := by decide
  obtain ⟨lexeme, rest, rfl, his, hrest⟩ |
    ⟨next, more, lexeme, rest, hmarks, rfl, hfirst, hsecond, hfused, his, hmore⟩ := hlexed.sign_cases
  · obtain ⟨tree, -, hstands, hparsed⟩ :=
      h depth hrest fun other hmem => hholds other (List.mem_cons_of_mem _ hmem)
    refine ⟨_, rfl, hstands.sign his (hholds lexeme List.mem_cons_self),
      .of_unary (fun heq => absurd heq hprimary) fun {n ctx _ rest'} hsize hcloses => ?_⟩
    obtain ⟨n, rfl⟩ := Nat.exists_eq_succ_of_ne_zero (show n ≠ 0 by omega)
    exact run_unaryRule_sign his hop (hparsed.unary hrank (by omega) hcloses)
  · -- The second sign is put back, and the operand is read from there.
    obtain ⟨hlength, htake, hdrop⟩ := cut_fused op hfirst next hsecond hfused
    have hheld := (hholds lexeme List.mem_cons_self).split (his.text_eq ▸ hlength)
    have hone : (lexeme.split 1).1.Is row .symbol op :=
      ⟨his.kind_eq, by rw [← htake, ← his.text_eq]; rfl, his.startRow_eq, his.stopRow_eq⟩
    have htwo : (lexeme.split 1).2.Is row .symbol next :=
      ⟨his.kind_eq, by rw [← hdrop, ← his.text_eq]; rfl, his.startRow_eq, his.stopRow_eq⟩
    have hoperand : Lexed row ((lexeme.split 1).2 :: rest) (operand.marks depth) :=
      hmarks ▸ .sign htwo hmore
    obtain ⟨tree, -, hstands, hparsed⟩ := h depth hoperand fun other hmem => by
      obtain rfl | hmem := List.mem_cons.1 hmem
      · exact hheld.2
      · exact hholds other (List.mem_cons_of_mem _ hmem)
    refine ⟨_, rfl, hstands.sign hone hheld.1,
      .of_unary (fun heq => absurd heq hprimary) fun {n ctx _ rest'} hsize hcloses => ?_⟩
    obtain ⟨n, rfl⟩ := Nat.exists_eq_succ_of_ne_zero (show n ≠ 0 by omega)
    exact run_unaryRule_fused his hfused (hparsed.unary hrank (by omega) hcloses)

theorem Reread.star {operand : Expr} (h : Reread source operand)
    (hrank : unaryPrecedence ≤ operand.rank) : Reread source ⟨.star operand, {}⟩ := by
  intro row depth lexemes hlexed hholds
  obtain ⟨tree, hrole, hstands, hparsed⟩ := reread_sign h hrank (by decide) hlexed hholds
  rw [if_pos rfl] at hstands
  exact ⟨tree, hrole, hstands, hparsed⟩

theorem Reread.unary {operand : Expr} (h : Reread source operand)
    (hrank : unaryPrecedence ≤ operand.rank) {op : String} (hop : op ∈ unaryOperators)
    (hstar : op ≠ "*") : Reread source ⟨.unary op operand, {}⟩ := by
  intro row depth lexemes hlexed hholds
  obtain ⟨tree, hrole, hstands, hparsed⟩ := reread_sign h hrank hop hlexed hholds
  rw [if_neg hstar] at hstands
  exact ⟨tree, hrole, hstands, hparsed⟩

theorem suffix_free : ∀ op ∈ binaryOperators,
    op ∉ [".", "(", "["] ∧ op ≠ "\x7b" ∧ op ∉ ["++", "--", "<-"] := by
  decide

theorem Lexed.operator_inv {row : Nat} {lexemes : List Lexeme} {room marks : List Mark}
    {op : String} (hroom : room = [] ∨ room = [.blank ' '])
    (h : Lexed row lexemes (room ++ .symbol op :: room ++ marks)) :
    ∃ lexeme rest, lexemes = lexeme :: rest ∧ lexeme.Is row .symbol op ∧ Lexed row rest marks := by
  obtain rfl | rfl := hroom
  · exact h.symbol_inv
  · obtain ⟨lexeme, rest, hlexemes, his, hrest⟩ := h.blank_inv.symbol_inv
    exact ⟨lexeme, rest, hlexemes, his, hrest.blank_inv⟩

theorem Reread.binary {left right : Expr} {op : String} (hop : precedence op ≠ 0)
    (hleft : Formula (precedence op) left) (hright : Formula (precedence op + 1) right)
    (ihleft : Reread source left) (ihright : Reread source right) :
    Reread source ⟨.binary left op right, {}⟩ := by
  intro row depth lexemes hlexed hholds
  have hmost := precedence_le op
  have hunary : unaryPrecedence = 6 := rfl
  have hoperand : operandPrecedence = 7 := rfl
  have hlrank := hleft.le_rank (by omega)
  have hrrank := hright.le_rank (by omega)
  have hrank : Expr.rank ⟨.binary left op right, {}⟩ = precedence op := rfl
  obtain ⟨hsuffix, hbrace, hcut⟩ := suffix_free op (mem_binaryOperators hop)
  simp only [Expr.marks, ExprKind.marks] at hlexed ⊢
  generalize hroomdef : (if precedence op < (ExprKind.binary left op right).cutoff (max depth 1) then
    [Mark.blank ' '] else []) = room at hlexed ⊢
  have hroom : room = [] ∨ room = [.blank ' '] := by
    rw [← hroomdef]
    split <;> simp
  have hback : (room ++ .symbol op :: room ++ right.marks (max depth 1 + 1)).head?.all (!·.isSign) =
      true := by
    obtain rfl | rfl := hroom <;> rfl
  rw [List.append_assoc] at hlexed ⊢
  obtain ⟨first, second, rfl, hfirst, hsecond⟩ := hleft.cut hlexed hback
  obtain ⟨lexeme, second, rfl, his, hsecond⟩ := hsecond.operator_inv hroom
  obtain ⟨base, -, hbase, hleftparsed⟩ :=
    ihleft _ hfirst fun other hmem => hholds other (List.mem_append_left _ hmem)
  obtain ⟨tree, -, htree, hrightparsed⟩ := ihright _ hsecond fun other hmem => hholds other (by simp [hmem])
  refine ⟨_, rfl, hbase.binary htree his (hholds lexeme (by simp)), ?_⟩
  have hweights : ∀ front back, total Mark.weight front + total Mark.weight back + 1 ≤
      total Mark.weight (front ++ (room ++ .symbol op :: room ++ back)) := by
    intro front back
    simp only [total_append, total_cons, Mark.weight]
    omega
  specialize hweights (left.marks (max depth 1 + levelStep left (precedence op)))
    (right.marks (max depth 1 + 1))
  refine ⟨fun heq => ?_, fun hle => ?_, fun {n ctx level rest} hsize hlevel hcloses => ?_⟩
  · omega
  · omega
  · rw [hrank] at hlevel hcloses
    have hlexeme : Closes ctx (left.rank + 1) (lexeme :: (second ++ rest)) :=
      .of_symbol his hsuffix (fun _ => hbrace) hcut (by omega) _
    obtain ⟨limit, hlimit, hrun⟩ := hleftparsed.expr (show _ < n by omega)
      (show level ≤ left.rank by omega) hlexeme
    have hread := hrightparsed.read_expr (show _ < n by omega) hrrank hcloses
    simp only [List.length_cons, List.length_append] at hlimit
    obtain ⟨limit, rfl⟩ := Nat.exists_eq_succ_of_ne_zero (show limit ≠ 0 by omega)
    refine ⟨limit, by omega, ?_⟩
    rw [List.append_assoc]
    exact hrun.trans (run_binaries_operator his hop hlevel hread limit)

/-! ## Arguments -/

/-- The marks of the arguments behind the first one. -/
def marksOfMore (depth : Nat) (args : List Expr) : List Mark :=
  args.flatMap fun arg => .symbol "," :: .blank ' ' :: arg.marks depth

theorem marksOfArgs_cons (depth : Nat) (arg : Expr) (args : List Expr) :
    marksOfArgs depth (arg :: args) = arg.marks depth ++ marksOfMore depth args := by
  induction args generalizing arg with
  | nil => simp [marksOfArgs, marksOfMore]
  | cons next args ih =>
      rw [marksOfArgs, ih next]
      simp [marksOfMore]

theorem rows_marksOfMore {args : List Expr} (hargs : ∀ arg ∈ args, Formula 1 arg) (depth : Nat) :
    total Mark.rows (marksOfMore depth args) = 0 := by
  induction args with
  | nil => rfl
  | cons arg args ih =>
      have harg := (hargs arg List.mem_cons_self).rows_marks depth
      have hmore := ih fun arg hmem => hargs arg (List.mem_cons_of_mem _ hmem)
      simp only [marksOfMore, List.flatMap_cons] at hmore ⊢
      simp [Mark.rows, harg, hmore]

/--
A parser of list items behind commas.  `Behind` tells the inputs that may follow an item, to
which commas belong.
-/
structure Items (ctx : ExprContext) (next : Nat → Parser (List Concrete))
    (Behind : List Lexeme → Prop) : Prop where
  closes : ∀ {rest}, Behind rest → Closes ctx 1 rest
  comma : ∀ {lexeme row} rest, Lexeme.Is row .symbol "," lexeme → Behind (lexeme :: rest)
  run : ∀ {n lexeme row input tree rest}, Lexeme.Is row .symbol "," lexeme →
    read n (.expr ctx 1) input = some (tree, rest) → Behind rest →
    next n (lexeme :: input) = some ([.token lexeme, tree], rest)

/-- What stands in a list behind its first item. -/
theorem reread_more {ctx : ExprContext} {next : Nat → Parser (List Concrete)}
    {Behind : List Lexeme → Prop} (hitems : Items ctx next Behind) {args : List Expr}
    (hargs : ∀ arg ∈ args, Formula 1 arg) (hreread : ∀ arg ∈ args, Reread source arg)
    {row depth : Nat} {lexemes : List Lexeme} (hlexed : Lexed row lexemes (marksOfMore depth args))
    (hholds : ∀ lexeme ∈ lexemes, source.Holds lexeme) :
    ∃ (parts : List (List Concrete)) (trees : List Concrete),
      parts.length = args.length ∧ List.Forall₂ (Stands source row) args trees ∧
      parts.flatten.filter Concrete.isNamed = trees ∧
      (∀ item ∈ parts.flatten,
        (item.kind == .spreadArgument) = false ∧ item.span.stopRow = row) ∧
      ∀ {n : Nat} {rest : List Lexeme}, total Mark.weight (marksOfMore depth args) < n →
        Behind rest → next n rest = none →
          Behind (lexemes ++ rest) ∧ RunsMany (next n) (lexemes ++ rest) parts rest := by
  induction args generalizing lexemes with
  | nil =>
      cases hlexed
      exact ⟨[], [], rfl, .nil, rfl, by simp, fun _ hbehind hnone => ⟨hbehind, .nil hnone⟩⟩
  | cons arg args ih =>
      have hformula := hargs arg List.mem_cons_self
      have hmarks : marksOfMore depth (arg :: args) =
          .symbol "," :: .blank ' ' :: (arg.marks depth ++ marksOfMore depth args) := by
        simp [marksOfMore]
      rw [hmarks] at hlexed ⊢
      obtain ⟨comma, lexemes, rfl, hcomma, hlexed⟩ := hlexed.symbol_inv
      have hback : (marksOfMore depth args).head?.all (!·.isSign) = true := by
        cases args <;> rfl
      obtain ⟨first, second, rfl, hfirst, hsecond⟩ := hformula.cut hlexed.blank_inv hback
      obtain ⟨tree, -, hstands, hparsed⟩ := hreread arg List.mem_cons_self depth hfirst
        fun lexeme hmem => hholds lexeme (by simp [hmem])
      obtain ⟨parts, trees, hlength, htrees, hnamed, hplain, hruns⟩ := ih
        (fun arg hmem => hargs arg (List.mem_cons_of_mem _ hmem))
        (fun arg hmem => hreread arg (List.mem_cons_of_mem _ hmem)) hsecond
        fun lexeme hmem => hholds lexeme (by simp [hmem])
      refine ⟨[.token comma, tree] :: parts, tree :: trees, by simp [hlength],
        .cons hstands htrees, ?_, ?_,
        fun {n rest} hdepth hbehind hnone => ?_⟩
      · simp [hstands.isNamed, hnamed]
      · intro item hmem
        simp only [List.flatten_cons, List.mem_append, List.mem_cons, List.not_mem_nil, or_false] at hmem
        obtain (rfl | rfl) | hmem := hmem
        · exact ⟨rfl, hcomma.stopRow_eq⟩
        · exact ⟨hstands.isSpread, hstands.stopRow⟩
        · exact hplain item hmem
      · simp only [total_cons, total_append, Mark.weight] at hdepth
        obtain ⟨hmore, hrun⟩ := hruns (show _ < n by omega) hbehind hnone
        have hread : read n (.expr ctx 1) (first ++ (second ++ rest)) = some (tree, second ++ rest) :=
          hparsed.read_expr (by omega) (hformula.le_rank (by decide)) (hitems.closes hmore)
        refine ⟨hitems.comma _ hcomma, .cons ?_ ?_ hrun⟩
        · rw [List.cons_append, List.append_assoc]
          exact hitems.run hcomma hread hmore
        · simp only [List.length_cons, List.length_append]
          omega

/-! ## Calls -/

/-- Behind an argument stands the next comma or the closing parenthesis. -/
def BehindArgument (rest : List Lexeme) : Prop :=
  ∃ lexeme row text more, rest = lexeme :: more ∧ lexeme.Is row .symbol text ∧ text ∈ [",", ")"]

theorem BehindArgument.closes {rest : List Lexeme} (h : BehindArgument rest) :
    Closes .enclosed 1 rest := by
  obtain ⟨lexeme, row, text, more, rfl, his, htext⟩ := h
  have hplain : ∀ text ∈ [",", ")"], text ∉ [".", "(", "["] ∧ text ≠ "\x7b" ∧
      text ∉ ["++", "--", "<-"] ∧ precedence text < 1 := by decide
  obtain ⟨hsuffix, hbrace, hcut, hlevel⟩ := hplain text htext
  exact .of_symbol his hsuffix (fun _ => hbrace) hcut hlevel more

theorem BehindArgument.run {rest : List Lexeme} (h : BehindArgument rest) {n : Nat}
    {input : List Lexeme} {tree : Concrete}
    (hread : read n (.expr .enclosed 1) input = some (tree, rest)) :
    argument (read n) input = some (tree, rest) := by
  obtain ⟨lexeme, row, text, more, rfl, his, htext⟩ := h
  have hspread : text ≠ "..." := by
    rintro rfl
    exact absurd htext (by decide)
  exact run_argument hread (his.run_symbol_none hspread more)

theorem items_argument : Items .enclosed (fun n => nextArgument (read n)) BehindArgument where
  closes := BehindArgument.closes
  comma rest his := ⟨_, _, ",", rest, rfl, his, by simp⟩
  run his hread hbehind := run_nextArgument his (hbehind.run hread)

/-- The arguments of a call and the parenthesis behind them. -/
theorem reread_args {args : List Expr} (hargs : ∀ arg ∈ args, Formula 1 arg)
    (hreread : ∀ arg ∈ args, Reread source arg) {row depth : Nat} {lexemes : List Lexeme}
    (hlexed : Lexed row lexemes (marksOfArgs depth args ++ [.symbol ")"]))
    (hholds : ∀ lexeme ∈ lexemes, source.Holds lexeme) :
    ∃ (items trees : List Concrete) (closing : Lexeme), closing.Is row .symbol ")" ∧
      List.Forall₂ (Stands source row) args trees ∧ items.filter Concrete.isNamed = trees ∧
      (∀ item ∈ items, (item.kind == .spreadArgument) = false) ∧
      ∀ {n : Nat} (rest : List Lexeme), total Mark.weight (marksOfArgs depth args) + 1 < n →
        commaListMaybe (argument (read n)) (lexemes ++ rest) = some (items, closing :: rest) := by
  cases args with
  | nil =>
      obtain ⟨closing, lexemes, rfl, hclosing, hnil⟩ := hlexed.symbol_inv
      cases hnil
      refine ⟨[], [], closing, hclosing, .nil, rfl, by simp, fun {n} rest _ => ?_⟩
      have hnone : argument (read n) (closing :: rest) = none := by
        rw [argument, run_bind_none (read_expr_closing hclosing n _ _ rest)]
      exact run_commaListMaybe_nil hnone
  | cons arg args =>
      have hformula := hargs arg List.mem_cons_self
      rw [marksOfArgs_cons, List.append_assoc] at hlexed
      have hrest : ∀ arg ∈ args, Formula 1 arg := fun arg hmem =>
        hargs arg (List.mem_cons_of_mem _ hmem)
      have hback : (marksOfMore depth args ++ [Mark.symbol ")"]).head?.all (!·.isSign) = true := by
        cases args <;> rfl
      obtain ⟨first, second, rfl, hfirst, hsecond⟩ := hformula.cut hlexed hback
      obtain ⟨second, last, rfl, hmore, hlast⟩ := hsecond.append rfl
      rw [rows_marksOfMore hrest, Nat.add_zero] at hlast
      obtain ⟨closing, last, rfl, hclosing, hnil⟩ := hlast.symbol_inv
      cases hnil
      obtain ⟨tree, -, hstands, hparsed⟩ := hreread arg List.mem_cons_self depth hfirst
        fun lexeme hmem => hholds lexeme (by simp [hmem])
      obtain ⟨parts, trees, -, htrees, hnamed, hplain, hruns⟩ := reread_more items_argument hrest
        (fun arg hmem => hreread arg (List.mem_cons_of_mem _ hmem)) hmore
        fun lexeme hmem => hholds lexeme (by simp [hmem])
      refine ⟨tree :: parts.flatten, tree :: trees, closing, hclosing, .cons hstands htrees, ?_, ?_,
        fun {n} rest hdepth => ?_⟩
      · simp [hstands.isNamed, hnamed]
      · intro item hmem
        obtain rfl | hmem := List.mem_cons.1 hmem
        · exact hstands.isSpread
        · exact (hplain item hmem).1
      · simp only [marksOfArgs_cons, total_append] at hdepth
        have hnone : nextArgument (read n) (closing :: rest) = none := by
          rw [nextArgument, run_bind_none (hclosing.run_symbol_none (by decide) rest)]
        obtain ⟨hbehind, hrun⟩ := hruns (show _ < n by omega)
          ⟨closing, row, ")", rest, rfl, hclosing, by simp⟩ hnone
        have hargument : argument (read n) (first ++ (second ++ closing :: rest)) =
            some (tree, second ++ closing :: rest) :=
          hbehind.run (hparsed.read_expr (by omega) (hformula.le_rank (by decide)) hbehind.closes)
        have hlist := run_commaListMaybe hargument hrun (hclosing.run_symbol_none (by decide) rest)
        simpa using hlist

theorem Reread.call {callee : Expr} {args : List Expr} (hcallee : Formula operandPrecedence callee)
    (hargs : ∀ arg ∈ args, Formula 1 arg) (ihcallee : Reread source callee)
    (ihargs : ∀ arg ∈ args, Reread source arg) :
    Reread source ⟨.call ⟨callee, args, false, false⟩, {}⟩ := by
  intro row depth lexemes hlexed hholds
  simp only [Expr.marks, ExprKind.marks, List.append_assoc, List.cons_append] at hlexed ⊢
  generalize (if args.length > 1 then depth + 1 else depth) = depth at hlexed ⊢
  obtain ⟨first, second, rfl, hfirst, hsecond⟩ := hcallee.cut hlexed rfl
  obtain ⟨opening, second, rfl, hopening, hsecond⟩ := hsecond.symbol_inv
  obtain ⟨base, -, hbase, hparsed⟩ := ihcallee depth hfirst
    fun lexeme hmem => hholds lexeme (by simp [hmem])
  obtain ⟨items, trees, closing, hclosing, htrees, hnamed, hplain, hlist⟩ :=
    reread_args hargs ihargs hsecond fun lexeme hmem => hholds lexeme (by simp [hmem])
  have hdecs : ∀ arg ∈ args, arg.decs = {} := fun arg hmem => (hargs arg hmem).decs_eq
  refine ⟨_, rfl, hbase.call htrees hdecs hnamed hplain hopening hclosing,
    .of_primary fun {n} ctx rest hsize => ?_⟩
  simp only [total_append, total_cons, total_nil, Mark.weight] at hsize
  have harguments := run_argumentList hopening hclosing (hlist rest (show _ < n by omega))
  obtain ⟨limit, hlimit, hrun⟩ :=
    hparsed.primary hcallee.rank_eq ctx (opening :: (second ++ rest)) (show _ ≤ n by omega)
  simp only [List.length_cons, List.length_append] at hlimit
  obtain ⟨limit, rfl⟩ := Nat.exists_eq_succ_of_ne_zero (show limit ≠ 0 by omega)
  refine ⟨limit, by omega, ?_⟩
  rw [List.append_assoc]
  exact hrun.trans (run_suffixes_call hopening harguments hbase.isGeneric limit)

end

/-! ## Formulas -/

theorem Formula.reread {level : Nat} {expr : Expr} (h : Formula level expr) (source : Source) :
    Reread source expr := by
  induction h with
  | name hname => exact Reread.name hname
  | selector hoperand _ ih => exact Reread.selector hoperand ih
  | call hcallee hargs ihcallee ihargs => exact Reread.call hcallee hargs ihcallee ihargs
  | paren hinner _ ih => exact Reread.paren hinner ih
  | star _ hoperand ih => exact Reread.star ih (hoperand.le_rank (by decide))
  | unary _ hop hstar hoperand ih => exact Reread.unary ih (hoperand.le_rank (by decide)) hop hstar
  | binary _ hop hleft hright _ ihleft ihright =>
      exact Reread.binary hop hleft hright ihleft ihright

end TraceWeave.Syntax
