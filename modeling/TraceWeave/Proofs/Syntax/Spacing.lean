import TraceWeave.Proofs.Syntax.Scanning

/-!
The blanks that the printer leaves keep the marks of a formula apart.

A binary operator is written without blanks only from the cutoff on.  The cutoff is at
least four, and above an operator whose right operand is a sign that clashes with it.
-/

namespace TraceWeave.Syntax

open TraceWeave.Text

/-! ## Cutoffs -/

def binaryOperators : List String :=
  ["||", "&&", "==", "!=", "<", "<=", ">", ">=", "+", "-", "|", "^", "*", "/", "%", "<<", ">>", "&",
   "&^"]

theorem mem_binaryOperators {op : String} (h : precedence op ≠ 0) : op ∈ binaryOperators := by
  refine Decidable.byContradiction fun hnot => ?_
  simp only [binaryOperators, List.mem_cons, not_or] at hnot
  simp [precedence, hnot] at h

namespace OperatorMix

/-- The clash of a mix is a level that additive operators stay below, if there is one. -/
def Settled (mix : OperatorMix) : Prop := mix.clash = 0 ∨ 4 ≤ mix.clash

theorem Settled.join {first second : OperatorMix} (hfirst : first.Settled)
    (hsecond : second.Settled) : (first.join second).Settled := by
  unfold Settled at *
  simp only [OperatorMix.join]
  omega

theorem Settled.withUnary {mix : OperatorMix} (h : mix.Settled) (op : String) (right : ExprKind) :
    (mix.withUnary op right).Settled := by
  unfold OperatorMix.withUnary
  split
  · split
    · exact .inr (Nat.le_succ 4)
    · exact h
  · dsimp only
    split
    · exact .inr (Nat.le_succ 4)
    · split
      · exact .inr (Nat.le_max_right _ _)
      · exact h
  · exact h

end OperatorMix

namespace ExprKind

theorem settled_operatorMix (kind : ExprKind) : kind.operatorMix.Settled := by
  have hmix : ∀ additive multiplicative : Bool,
      OperatorMix.Settled { additive, multiplicative, clash := 0 } := fun _ _ => .inl rfl
  fun_induction ExprKind.operatorMix kind with
  | case1 _ _ _ _ _ _ mix _ _ _ _ ihright ihleft =>
      refine OperatorMix.Settled.join ?_ ihleft
      dsimp only [mix]
      split
      · split
        · exact (hmix _ _).join ihright
        · exact hmix _ _
      · exact hmix _ _
  | case2 _ _ _ _ _ _ mix _ _ _ _ ih =>
      dsimp only [mix]
      split
      · split
        · exact (hmix _ _).join ih
        · exact hmix _ _
      · exact hmix _ _
  | case3 _ _ _ _ _ _ _ mix _ ih =>
      refine OperatorMix.Settled.withUnary ?_ _ _
      dsimp only [mix]
      split
      · split
        · exact (hmix _ _).join ih
        · exact hmix _ _
      · exact hmix _ _
  | case4 => exact hmix _ _

/-- Comparisons and logical operators are spaced at every depth. -/
theorem four_le_cutoff (kind : ExprKind) (depth : Nat) : 4 ≤ kind.cutoff depth := by
  have hsettled := kind.settled_operatorMix
  unfold OperatorMix.Settled at hsettled
  unfold cutoff
  dsimp only
  repeat' split
  all_goals omega

theorem operatorMix_withUnary (left : Expr) (op : String) {right : Expr}
    (hright : ∀ left op right', right.kind ≠ .binary left op right') :
    ∃ mix : OperatorMix,
      (ExprKind.binary left op right).operatorMix = mix.withUnary op right.kind := by
  obtain ⟨left, _⟩ := left
  obtain ⟨right, _⟩ := right
  rw [operatorMix.eq_def]
  dsimp only
  split
  · exact absurd rfl (hright _ _ _)
  · exact ⟨_, rfl⟩

theorem lt_cutoff_of_le {kind : ExprKind} {level : Nat} (hpositive : 0 < kind.operatorMix.clash)
    (hle : level ≤ kind.operatorMix.clash) (depth : Nat) : level < kind.cutoff depth := by
  unfold cutoff
  simp only [hpositive, if_true]
  omega

/-- An operator is spaced from a sign that clashes with it. -/
theorem lt_cutoff_of_clashes (left : Expr) {op sign : String} {right operand : Expr}
    (hright : right.kind = .unary sign operand ∨ right.kind = .star operand ∧ sign = "*")
    (hsign : sign ∈ unaryOperators) (hclashes : clashes op sign = true) (depth : Nat) :
    precedence op < (ExprKind.binary left op right).cutoff depth := by
  by_cases hzero : precedence op = 0
  · have hcutoff := (ExprKind.binary left op right).four_le_cutoff depth
    omega
  have hop := mem_binaryOperators hzero
  have hnested : ∀ left op right', right.kind ≠ .binary left op right' := by
    intro left op right' hkind
    obtain hright | ⟨hright, -⟩ := hright <;> rw [hright] at hkind <;> contradiction
  obtain ⟨mix, hmix⟩ := operatorMix_withUnary left op hnested
  have hlevel : ∀ op ∈ binaryOperators, precedence op ≤ 5 := by decide
  have hadditive : ∀ op ∈ binaryOperators, ∀ sign ∈ unaryOperators,
      ["++", "--"].contains (op ++ sign) = true → precedence op ≤ 4 := by decide
  suffices h : 0 < (mix.withUnary op right.kind).clash ∧
      precedence op ≤ (mix.withUnary op right.kind).clash by
    rw [← hmix] at h
    exact lt_cutoff_of_le h.1 h.2 depth
  obtain hright | ⟨hright, rfl⟩ := hright
  · rw [hright]
    simp only [OperatorMix.withUnary]
    split
    · exact ⟨Nat.zero_lt_succ 4, hlevel op hop⟩
    · next hfive =>
      have hfour : ["++", "--"].contains (op ++ sign) = true := by
        simp only [clashes, List.contains_cons] at hclashes hfive ⊢
        grind
      rw [if_pos hfour]
      have hle := hadditive op hop sign hsign hfour
      exact ⟨Nat.lt_of_lt_of_le (Nat.zero_lt_succ 3) (Nat.le_max_right _ _),
        Nat.le_trans hle (Nat.le_max_right _ _)⟩
  · have hslash : ∀ op ∈ binaryOperators, clashes op "*" = true → op = "/" := by decide
    obtain rfl := hslash op hop hclashes
    rw [hright]
    exact ⟨Nat.zero_lt_succ 4, hlevel "/" hop⟩

end ExprKind

/-! ## First marks -/

theorem precedence_le (op : String) : precedence op ≤ 5 := by
  by_cases h : precedence op = 0
  · omega
  · have hlevels : ∀ op ∈ binaryOperators, precedence op ≤ 5 := by decide
    exact hlevels op (mem_binaryOperators h)

theorem Formula.firstSign?_eq_none {expr : Expr} (h : Formula operandPrecedence expr) :
    expr.firstSign? = none := by
  cases h with
  | star hle => contradiction
  | unary hle => contradiction
  | @binary _ left op right hle =>
      have hprecedence := precedence_le op
      unfold operandPrecedence at hle
      omega
  | _ => rfl

/-- The mark may be the first one of the expression. -/
def Opens (expr : Expr) (mark : Mark) : Prop :=
  (∃ text, mark = .word text ∧ isName text = true) ∨ mark = .symbol "(" ∨
    ∃ sign ∈ unaryOperators, expr.firstSign? = some sign ∧ mark = .sign sign

/-- The first mark of an expression opens every expression that starts with it. -/
theorem Opens.append {first expr : Expr} {front : List Mark}
    (h : ∃ mark marks, front = mark :: marks ∧ Opens first mark)
    (hsign : ∀ sign, first.firstSign? = some sign → expr.firstSign? = some sign)
    (back : List Mark) : ∃ mark marks, front ++ back = mark :: marks ∧ Opens expr mark := by
  obtain ⟨mark, marks, rfl, hopens⟩ := h
  refine ⟨mark, marks ++ back, rfl, ?_⟩
  obtain hword | hparen | ⟨sign, hmem, hfirst, hmark⟩ := hopens
  · exact .inl hword
  · exact .inr (.inl hparen)
  · exact .inr (.inr ⟨sign, hmem, hsign sign hfirst, hmark⟩)

theorem isWordChars_of_isName {text : String} (h : isName text = true) :
    isWordChars text.toList = true := by
  rw [isName, Bool.and_eq_true] at h
  exact h.1

theorem Formula.opens {level : Nat} {expr : Expr} (h : Formula level expr) (depth : Nat) :
    ∃ mark marks, expr.marks depth = mark :: marks ∧ Opens expr mark := by
  induction h generalizing depth with
  | name hname => exact ⟨_, _, rfl, .inl ⟨_, rfl, hname⟩⟩
  | selector hoperand _ ih =>
      refine Opens.append (ih depth) ?_ _
      simp [hoperand.firstSign?_eq_none]
  | call hcallee _ ih =>
      rw [Expr.marks, ExprKind.marks, List.append_assoc]
      refine Opens.append (ih _) ?_ _
      simp [hcallee.firstSign?_eq_none]
  | paren => exact ⟨_, _, rfl, .inr (.inl rfl)⟩
  | star => exact ⟨_, _, rfl, .inr (.inr ⟨"*", by decide, rfl, rfl⟩)⟩
  | unary _ hop => exact ⟨_, _, rfl, .inr (.inr ⟨_, hop, rfl, rfl⟩)⟩
  | binary _ _ _ _ _ ih _ =>
      rw [Expr.marks, ExprKind.marks, List.append_assoc]
      exact Opens.append (ih _) (fun _ h => h) _

/-! ## Marks of formulas -/

/-- Words, blanks and parentheses may touch a symbol. -/
theorem clings_eq_false {symbol : String} (hmem : symbol ∈ symbols) {c : Char}
    (hc : isWordStart c = true ∨ c = '(' ∨ c = ' ') : clings symbol c = false := by
  have hcontinue : ∀ symbol ∈ symbols, (continuations symbol).all
      (fun c => !isWordStart c && c != '(' && c != ' ') = true := by
    decide +kernel
  have hnone : c ∉ continuations symbol := by
    intro hmemc
    have hnot := List.all_eq_true.1 (hcontinue symbol hmem) c hmemc
    simp only [Bool.and_eq_true, Bool.not_eq_true', bne_iff_ne] at hnot
    obtain ⟨⟨hword, hparen⟩, hblank⟩ := hnot
    obtain hc | hc | hc := hc
    · simp [hc] at hword
    · exact hparen hc
    · exact hblank hc
  have hdigit : c.isDigit = false := by
    obtain hc | rfl | rfl := hc
    · exact isDigit_of_isWordStart hc
    · rfl
    · rfl
  have hslash : c ≠ '/' ∧ c ≠ '*' := by
    have hwords : isWordStart '/' = false ∧ isWordStart '*' = false := by decide +kernel
    constructor <;> rintro rfl <;> simp [hwords] at hc
  simp [clings, hnone, hdigit, hslash]

theorem clings_word {symbol : String} (hmem : symbol ∈ symbols) {text : String}
    (hword : isWordChars text.toList = true) (marks : List Mark) :
    ∀ c ∈ (render (.word text :: marks)).head?, clings symbol c = false := by
  intro c hc
  rw [render_cons, Mark.chars] at hc
  cases hlist : text.toList with
  | nil => simp [hlist, isWordChars] at hword
  | cons first rest =>
      rw [hlist, isWordChars, Bool.and_eq_true] at hword
      obtain rfl : first = c := by simpa [hlist] using hc
      exact clings_eq_false hmem (.inl hword.1)

/-- No symbol makes a word in front of it go on. -/
theorem head_symbol {symbol : String} (hmem : symbol ∈ symbols) (marks : List Mark) :
    ∀ c ∈ (render (.symbol symbol :: marks)).head?, isWordRest c = false := by
  have hheads : ∀ symbol ∈ symbols, symbol.toList.head?.any (!isWordRest ·) = true := by
    decide +kernel
  intro c hc
  have hhead := hheads symbol hmem
  rw [render_cons, Mark.chars] at hc
  cases hlist : symbol.toList with
  | nil => simp [hlist] at hhead
  | cons first rest =>
      obtain rfl : first = c := by simpa [hlist] using hc
      simpa [hlist] using hhead

/-- A symbol in front of an expression, unless a sign clings to it. -/
theorem Opens.clings {expr : Expr} {marks : List Mark}
    (h : ∃ mark more, marks = mark :: more ∧ Opens expr mark) {symbol : String}
    (hmem : symbol ∈ symbols)
    (hsign : ∀ sign ∈ unaryOperators, ∀ more, expr.firstSign? = some sign →
      marks = .sign sign :: more → ∀ c ∈ sign.toList.head?, Syntax.clings symbol c = false)
    (tail : List Mark) :
    ∀ c ∈ (render (marks ++ tail)).head?, Syntax.clings symbol c = false := by
  obtain ⟨mark, more, rfl, ⟨text, rfl, hname⟩ | rfl | ⟨sign, hunary, hfirst, rfl⟩⟩ := h
  · exact clings_word hmem (isWordChars_of_isName hname) _
  · intro c hc
    obtain rfl : '(' = c := by simpa [Mark.chars] using hc
    exact clings_eq_false hmem (.inr (.inl rfl))
  · intro c hc
    exact hsign sign hunary more hfirst rfl c (mem_head?_sign hunary hc)

/-- Symbols that nothing clings to. -/
def closedSymbols : List String := ["(", ")", ",", "\x7b", "\x7d"]

theorem clings_closed {symbol : String} (hmem : symbol ∈ closedSymbols) (c : Char) :
    clings symbol c = false := by
  have hclosed : ∀ symbol ∈ closedSymbols,
      continuations symbol = [] ∧ symbol ≠ "/" ∧ symbol ≠ "." := by
    decide +kernel
  obtain ⟨hnone, hslash, hpoint⟩ := hclosed symbol hmem
  simp [clings, hnone, hslash, hpoint]

theorem Apart.closed {symbol : String} (hmem : symbol ∈ closedSymbols) {marks : List Mark}
    (h : Apart marks) : Apart (.symbol symbol :: marks) := by
  have hsymbols : ∀ symbol ∈ closedSymbols, symbol ∈ symbols := by decide
  exact .symbol (hsymbols symbol hmem) (fun c _ => clings_closed hmem c) h

/-- A sign in front of an expression. -/
theorem Apart.sign_append {op : String} (hop : op ∈ unaryOperators) {expr : Expr}
    {marks : List Mark} (hopens : ∃ mark more, marks = mark :: more ∧ Opens expr mark)
    {tail : List Mark} (h : Apart (marks ++ tail)) : Apart (.sign op :: marks ++ tail) := by
  by_cases hsign : ∃ sign more, marks = .sign sign :: more
  · obtain ⟨sign, more, rfl⟩ := hsign
    exact .signs hop h
  · refine .sign hop (Opens.clings hopens (unaryOperators_symbols op hop) ?_ tail) h
    intro sign _ more _ hmarks
    exact absurd ⟨sign, more, hmarks⟩ hsign

/-- Marks of arguments stand apart if those of each argument do. -/
theorem apart_marksOfArgs {args : List Expr} (depth : Nat) {tail : List Mark} (htail : Apart tail)
    (hhead : ∀ c ∈ (render tail).head?, isWordRest c = false)
    (hargs : ∀ arg ∈ args, ∀ {tail : List Mark}, Apart tail →
      (∀ c ∈ (render tail).head?, isWordRest c = false) → Apart (arg.marks depth ++ tail)) :
    Apart (marksOfArgs depth args ++ tail) := by
  induction args with
  | nil => exact htail
  | cons arg args ih =>
      have hrest := ih fun arg hmem => hargs arg (List.mem_cons_of_mem _ hmem)
      have harg := @hargs arg List.mem_cons_self
      cases args with
      | nil => simpa [marksOfArgs] using harg htail hhead
      | cons next args =>
          rw [marksOfArgs]
          simp only [List.isEmpty_cons, Bool.false_eq_true, if_false, List.append_assoc]
          exact harg (.closed (by decide) (.blank (.inl rfl) hrest)) (head_symbol (by decide) _)

/-- An operand that starts with a sign is that sign and its operand. -/
theorem Formula.kind_of_firstSign {level : Nat} {expr : Expr} (h : Formula level expr)
    (hrank : unaryPrecedence ≤ expr.rank) {sign : String} (hsign : expr.firstSign? = some sign) :
    ∃ operand, expr.kind = .unary sign operand ∨ expr.kind = .star operand ∧ sign = "*" := by
  cases h with
  | @star _ operand => exact ⟨operand, .inr ⟨rfl, (Option.some.inj hsign).symm⟩⟩
  | @unary _ op operand =>
      obtain rfl := Option.some.inj hsign
      exact ⟨operand, .inl rfl⟩
  | @binary _ left op right =>
      have hlevel := precedence_le op
      have hle : unaryPrecedence ≤ precedence op := hrank
      unfold unaryPrecedence at hle
      omega
  | _ => contradiction

/-- An operator that is written without blanks touches signs that do not clash with it. -/
theorem clings_of_free : ∀ op ∈ binaryOperators, ∀ sign ∈ unaryOperators, 4 ≤ precedence op →
    clashes op sign = false → ∀ c ∈ sign.toList.head?, clings op c = false := by
  have hall : ∀ op ∈ binaryOperators, ∀ sign ∈ unaryOperators, 4 ≤ precedence op →
      clashes op sign = false → sign.toList.head?.all (fun c => !clings op c) = true := by
    decide +kernel
  intro op hop sign hsign hprecedence hclashes c hc
  simpa using (Option.all_eq_true _ _).1 (hall op hop sign hsign hprecedence hclashes) c hc

/-- The marks of a formula stand apart in front of a mark that does not make a word go on. -/
theorem Formula.apart {level : Nat} {expr : Expr} (h : Formula level expr) (depth : Nat)
    {tail : List Mark} (htail : Apart tail)
    (hhead : ∀ c ∈ (render tail).head?, isWordRest c = false) :
    Apart (expr.marks depth ++ tail) := by
  induction h generalizing depth tail with
  | name hname => exact .word (isWordChars_of_isName hname) hhead htail
  | selector _ hmember ih =>
      rw [Expr.marks, ExprKind.marks, List.append_assoc]
      exact ih depth (.symbol (by decide) (clings_word (by decide) hmember _)
        (.word hmember hhead htail)) (head_symbol (by decide) _)
  | call _ _ ihcallee ihargs =>
      rw [Expr.marks, ExprKind.marks]
      simp only [List.append_assoc, List.cons_append]
      have hclosing : Apart (.symbol ")" :: tail) := .closed (by decide) htail
      have hargs := fun depth => apart_marksOfArgs depth hclosing (head_symbol (by decide) _)
        fun arg hmem tail => ihargs arg hmem depth
      exact ihcallee _ (.closed (by decide) (hargs _)) (head_symbol (by decide) _)
  | paren _ _ ih =>
      rw [Expr.marks, ExprKind.marks, List.append_assoc]
      exact .closed (by decide) (ih _ (.closed (by decide) htail) (head_symbol (by decide) _))
  | star _ hoperand ih => exact .sign_append (by decide) (hoperand.opens 1) (ih 1 htail hhead)
  | unary _ hop _ hoperand ih =>
      exact .sign_append hop (hoperand.opens depth) (ih depth htail hhead)
  | @binary _ left op right _ hop hleft hright hclash ihleft ihright =>
      rw [Expr.marks, ExprKind.marks]
      have hmem : op ∈ symbols := by
        have hsymbols : ∀ op ∈ binaryOperators, op ∈ symbols := by decide
        exact hsymbols op (mem_binaryOperators hop)
      generalize max depth 1 = depth
      have happly := ihright (depth + 1) htail hhead
      simp only [List.append_assoc, List.cons_append]
      split
      · refine ihleft _ (.blank (.inl rfl) (.symbol hmem ?_ (.blank (.inl rfl) happly))) ?_
        · intro c hc
          obtain rfl : ' ' = c := by simpa [Mark.chars] using hc
          exact clings_eq_false hmem (.inr (.inr rfl))
        · intro c hc
          obtain rfl : ' ' = c := by simpa [Mark.chars] using hc
          decide +kernel
      · next htight =>
        refine ihleft _ (.symbol hmem (Opens.clings (hright.opens _) hmem ?_ _) happly)
          (head_symbol hmem _)
        intro sign hunary _ hsign _
        have hcutoff := (ExprKind.binary left op right).four_le_cutoff depth
        have hfree : clashes op sign = false := by
          refine Bool.eq_false_iff.2 fun hclashes => ?_
          by_cases hrank : right.rank < unaryPrecedence
          · rw [hclash hrank sign hsign] at hclashes
            contradiction
          · obtain ⟨operand, hkind⟩ := hright.kind_of_firstSign (Nat.le_of_not_lt hrank) hsign
            exact htight (ExprKind.lt_cutoff_of_clashes left hkind hunary hclashes depth)
        exact clings_of_free op (mem_binaryOperators hop) sign hunary (by omega) hfree

end TraceWeave.Syntax
