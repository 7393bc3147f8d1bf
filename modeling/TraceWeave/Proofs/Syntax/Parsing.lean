import TraceWeave.Proofs.Syntax.Scanning
import TraceWeave.Syntax.Grammar.Statements

/-!
Runs of the grammar.

What a parser does with the lexemes at the front of its input: each rule here says what a
step takes and what it leaves, so that longer runs are put together from them.
-/

namespace TraceWeave.Syntax

namespace Parser

variable {α β : Type}

theorem run_bind {parser : Parser α} {next : α → Parser β} {input rest : List Lexeme} {value : α}
    (h : parser input = some (value, rest)) : (parser >>= next) input = next value rest := by
  show (parser input).bind _ = _
  rw [h]
  rfl

theorem run_bind_none {parser : Parser α} {next : α → Parser β} {input : List Lexeme}
    (h : parser input = none) : (parser >>= next) input = none := by
  show (parser input).bind _ = _
  rw [h]
  rfl

theorem run_pure (value : α) (input : List Lexeme) :
    (pure value : Parser α) input = some (value, input) := rfl

theorem run_get (input : List Lexeme) : (get : Parser (List Lexeme)) input = some (input, input) :=
  rfl

theorem run_orElse {first second : Parser α} {input : List Lexeme} {result : α × List Lexeme}
    (h : first input = some result) : (first <|> second) input = some result := by
  show (first input).orElse _ = _
  rw [h]
  rfl

theorem run_maybe {parser : Parser α} {input rest : List Lexeme} {value : α}
    (h : parser input = some (value, rest)) : maybe parser input = some (some value, rest) := by
  refine run_orElse ?_
  show (parser input).bind _ = _
  rw [h]
  rfl

theorem run_maybe_none {parser : Parser α} {input : List Lexeme} (h : parser input = none) :
    maybe parser input = some (none, input) := by
  have hmapped : (some <$> parser) input = none := by
    show (parser input).bind _ = _
    rw [h]
    rfl
  show ((some <$> parser) input).orElse _ = _
  rw [hmapped]
  rfl

/-- The lexeme that a look at the input finds. -/
def front (breaks : Bool) (input : List Lexeme) : Option Lexeme :=
  if breaks then (input.dropWhile (·.kind == .comment)).head?
  else (input.dropWhile Lexeme.isTrivia).head?

theorem run_upcoming (breaks : Bool) (input : List Lexeme) :
    upcoming breaks input = some (front breaks input, input) := by
  cases breaks <;> rfl

theorem front_cons {lexeme : Lexeme} (h : lexeme.isTrivia = false) (breaks : Bool)
    (rest : List Lexeme) : front breaks (lexeme :: rest) = some lexeme := by
  have hcomment : (lexeme.kind == .comment) = false := (Bool.or_eq_false_iff.1 h).1
  cases breaks <;> simp [front, h, hcomment]

theorem run_take {test : Lexeme → Bool} {lexeme : Lexeme} (h : lexeme.isTrivia = false)
    (htest : test lexeme = true) (rest : List Lexeme) :
    take test (lexeme :: rest) = some (lexeme, rest) := by
  have hdrop : (lexeme :: rest).dropWhile Lexeme.isTrivia = lexeme :: rest := by simp [h]
  unfold take
  rw [run_bind (run_get _), hdrop]
  simp only [htest, if_true]
  rfl

theorem run_take_none {test : Lexeme → Bool} {lexeme : Lexeme} (h : lexeme.isTrivia = false)
    (htest : test lexeme = false) (rest : List Lexeme) : take test (lexeme :: rest) = none := by
  have hdrop : (lexeme :: rest).dropWhile Lexeme.isTrivia = lexeme :: rest := by simp [h]
  unfold take
  rw [run_bind (run_get _), hdrop]
  simp only [htest, Bool.false_eq_true, if_false]
  rfl

/-- A parser that succeeds on part after part of the input and then fails. -/
inductive RunsMany (parser : Parser α) : List Lexeme → List α → List Lexeme → Prop where
  | nil {input : List Lexeme} : parser input = none → RunsMany parser input [] input
  | cons {input middle rest : List Lexeme} {value : α} {values : List α} :
      parser input = some (value, middle) → middle.length < input.length →
      RunsMany parser middle values rest → RunsMany parser input (value :: values) rest

theorem RunsMany.run_repeated {parser : Parser α} {input rest : List Lexeme} {values : List α}
    (h : RunsMany parser input values rest) {limit : Nat} (hlimit : input.length ≤ limit) :
    repeated parser limit input = some (values, rest) := by
  induction h generalizing limit with
  | nil hnone =>
      cases limit with
      | zero => rfl
      | succ limit =>
          rw [repeated, run_bind (run_maybe_none hnone)]
          rfl
  | cons hvalue hlt _ ih =>
      obtain ⟨limit, rfl⟩ := Nat.exists_eq_succ_of_ne_zero (show limit ≠ 0 by omega)
      rw [repeated, run_bind (run_maybe hvalue)]
      dsimp only
      rw [run_bind (ih (show _ ≤ limit by omega))]
      rfl

theorem RunsMany.run_many {parser : Parser α} {input rest : List Lexeme} {values : List α}
    (h : RunsMany parser input values rest) : many parser input = some (values, rest) := by
  rw [many, run_bind (run_get _)]
  exact h.run_repeated (Nat.le_refl _)

end Parser

open TraceWeave.Syntax.Parser

/-! ## Single lexemes -/

namespace Lexeme.Is

variable {row : Nat} {text : String} {lexeme : Lexeme}

theorem isTrivia_word (h : lexeme.Is row .word text) : lexeme.isTrivia = false := by
  simp [isTrivia, h.kind_eq]

theorem isTrivia_symbol (h : lexeme.Is row .symbol text) : lexeme.isTrivia = false := by
  simp [isTrivia, h.kind_eq]

theorem isSymbol (h : lexeme.Is row .symbol text) (other : String) :
    lexeme.isSymbol other = (text == other) := by
  simp [Lexeme.isSymbol, h.kind_eq, h.text_eq]

theorem isSymbol_word (h : lexeme.Is row .word text) (other : String) :
    lexeme.isSymbol other = false := by
  simp [Lexeme.isSymbol, h.kind_eq]

theorem isWord (h : lexeme.Is row .word text) (other : String) :
    lexeme.isWord other = (text == other) := by
  simp [Lexeme.isWord, h.kind_eq, h.text_eq]

theorem isWord_symbol (h : lexeme.Is row .symbol text) (other : String) :
    lexeme.isWord other = false := by
  simp [Lexeme.isWord, h.kind_eq]

theorem run_symbol (h : lexeme.Is row .symbol text) (rest : List Lexeme) :
    symbol text (lexeme :: rest) = some (.token lexeme, rest) := by
  have htest : lexeme.isSymbol text = true := by simp [h.isSymbol]
  rw [symbol, run_bind (run_take h.isTrivia_symbol htest rest)]
  rfl

theorem run_symbol_none (h : lexeme.Is row .symbol text) {other : String} (hne : text ≠ other)
    (rest : List Lexeme) : symbol other (lexeme :: rest) = none := by
  have htest : lexeme.isSymbol other = false := by simp [h.isSymbol, hne]
  rw [symbol, run_bind_none (run_take_none h.isTrivia_symbol htest rest)]

theorem run_keyword (h : lexeme.Is row .word text) (rest : List Lexeme) :
    keyword text (lexeme :: rest) = some (.token lexeme, rest) := by
  have htest : lexeme.isWord text = true := by simp [h.isWord]
  rw [keyword, run_bind (run_take h.isTrivia_word htest rest)]
  rfl

theorem run_name (h : lexeme.Is row .word text) (rest : List Lexeme) :
    name (lexeme :: rest) = some (.leaf .identifier lexeme, rest) := by
  have htest : (lexeme.kind == .word) = true := by simp [h.kind_eq]
  rw [name, run_bind (run_take h.isTrivia_word htest rest)]
  rfl

end Lexeme.Is

/-! ## Where expressions end -/

open TraceWeave.Syntax.Grammar

/-- The input goes on with nothing that an expression of the level takes in. -/
structure Closes (ctx : ExprContext) (level : Nat) (rest : List Lexeme) : Prop where
  suffix : ∀ lexeme ∈ front ctx.breaks rest, ∀ text ∈ [".", "(", "["], lexeme.isSymbol text = false
  body : ctx.bodies = true → ∀ lexeme ∈ front ctx.breaks rest, lexeme.isSymbol "\x7b" = false
  operator : ∀ lexeme ∈ front ctx.breaks rest, ∀ op whole,
    binaryOperator? ctx lexeme = some (op, whole) → precedence op < level

namespace Closes

variable {ctx : ExprContext} {level : Nat} {rest : List Lexeme}

theorem mono (h : Closes ctx level rest) {level' : Nat} (hle : level ≤ level') :
    Closes ctx level' rest where
  suffix := h.suffix
  body := h.body
  operator lexeme hmem op whole hop := Nat.lt_of_lt_of_le (h.operator lexeme hmem op whole hop) hle

theorem run_suffixes (h : Closes ctx level rest) (rules : Rules) (limit : Nat) (tree : Concrete) :
    suffixes rules ctx limit tree rest = some (tree, rest) := by
  cases limit with
  | zero => rfl
  | succ limit =>
      rw [suffixes, run_bind (run_upcoming _ _)]
      cases hfront : front ctx.breaks rest with
      | none => rfl
      | some lexeme =>
          have hsuffix := h.suffix lexeme hfront
          have hdot := hsuffix "." (by simp)
          have hparen := hsuffix "(" (by simp)
          have hbracket := hsuffix "[" (by simp)
          have hbrace : (lexeme.isSymbol "\x7b" && ctx.bodies && isTypeName tree) = false := by
            cases hbodies : ctx.bodies with
            | false => simp
            | true => simp [h.body hbodies lexeme hfront]
          simp only [hdot, hparen, hbracket, hbrace, Bool.false_eq_true, if_false]
          rfl

theorem run_binaries (h : Closes ctx level rest) (rules : Rules) (limit : Nat) (tree : Concrete) :
    binaries rules ctx level limit tree rest = some (tree, rest) := by
  cases limit with
  | zero => rfl
  | succ limit =>
      rw [binaries, run_bind (run_upcoming _ _)]
      cases hfront : front ctx.breaks rest with
      | none => rfl
      | some lexeme =>
          cases hop : binaryOperator? ctx lexeme with
          | none => simp only [Option.bind_some, hop]; rfl
          | some found =>
              obtain ⟨op, whole⟩ := found
              have hlt := h.operator lexeme hfront op whole hop
              simp only [Option.bind_some, hop, hlt, if_true]
              rfl

end Closes

/-! ## Operands -/

theorem run_nextIs (breaks : Bool) (text : String) (input : List Lexeme) :
    nextIs breaks text input = some ((front breaks input).any (·.isSymbol text), input) := by
  rw [nextIs, run_bind (run_upcoming _ _)]
  rfl

/-- A lexeme that starts no operator leaves the rule of signs to the operand. -/
theorem run_unaryRule_operand {rules : Rules} {ctx : ExprContext} {lexeme : Lexeme}
    {input rest : List Lexeme} {base : Concrete} (htrivia : lexeme.isTrivia = false)
    (hsign : ∀ text ∈ unaryOperators ++ fusedSigns, lexeme.isSymbol text = false)
    (hoperand : operand rules ctx (lexeme :: input) = some (base, rest)) :
    unaryRule rules ctx (lexeme :: input) = suffixes rules ctx rest.length base rest := by
  have hnone : ∀ texts : List String, (∀ text ∈ texts, lexeme.isSymbol text = false) →
      (lexeme.kind == .symbol && texts.contains lexeme.text) = false := by
    intro texts htexts
    refine Bool.eq_false_iff.2 fun hsymbol => ?_
    rw [Bool.and_eq_true, List.contains_iff_mem] at hsymbol
    have hself := htexts lexeme.text hsymbol.2
    simp [Lexeme.isSymbol, hsymbol.1] at hself
  have hwhole := hnone unaryOperators fun text hmem => hsign text (List.mem_append_left _ hmem)
  have hcut := hnone fusedSigns fun text hmem => hsign text (List.mem_append_right _ hmem)
  rw [fusedSigns] at hcut
  rw [unaryRule, run_bind (run_upcoming _ _), front_cons htrivia]
  simp only [hwhole, hcut, Bool.or_self, Bool.false_eq_true, if_false]
  rw [run_bind hoperand, run_bind (run_get _)]

theorem run_operand_name {rules : Rules} {ctx : ExprContext} {lexeme : Lexeme} {row : Nat}
    {text : String} (his : lexeme.Is row .word text) (hname : isName text = true)
    (rest : List Lexeme) :
    operand rules ctx (lexeme :: rest) = some (.leaf .identifier lexeme, rest) := by
  have hnot : ∀ other ∈ keywords, text ≠ other := by
    rintro other hmem rfl
    simp [isName, hmem] at hname
  have hfunc := hnot "func" (by decide)
  have hstruct := hnot "struct" (by decide)
  have hmap := hnot "map" (by decide)
  have hchan := hnot "chan" (by decide)
  have hinterface := hnot "interface" (by decide)
  have hnew := hnot "new" (by decide)
  have hmake := hnot "make" (by decide)
  rw [operand, run_bind (run_upcoming _ _), front_cons his.isTrivia_word]
  simp only [his.kind_eq, his.text_eq]
  rw [run_bind (his.run_name rest), run_bind (run_nextIs _ _ _)]
  simp only [beq_eq_false_iff_ne.2 hnew, beq_eq_false_iff_ne.2 hmake, Bool.or_self,
    Bool.false_and, Bool.false_eq_true, if_false]
  rfl

theorem run_operand_paren {rules : Rules} {ctx : ExprContext} {opening closing : Lexeme} {row : Nat}
    (hopening : opening.Is row .symbol "(") (hclosing : closing.Is row .symbol ")")
    {input rest : List Lexeme} {inner : Concrete}
    (hinner : rules (.expr .enclosed 1) input = some (inner, closing :: rest)) :
    operand rules ctx (opening :: input) =
      some (.node .paren [.token opening, inner, .token closing], rest) := by
  rw [operand, run_bind (run_upcoming _ _), front_cons hopening.isTrivia_symbol]
  simp only [hopening.kind_eq, hopening.text_eq]
  refine run_orElse ?_
  rw [run_bind (hopening.run_symbol _), run_bind hinner, run_bind (hclosing.run_symbol _)]
  rfl

/-! ## Suffixes -/

theorem run_atGuard_word {dot lexeme : Lexeme} {row : Nat} {text : String}
    (hdot : dot.Is row .symbol ".") (his : lexeme.Is row .word text) (rest : List Lexeme) :
    atGuard (dot :: lexeme :: rest) = some (false, dot :: lexeme :: rest) := by
  have hfilter : (dot :: lexeme :: rest).filter (!·.isTrivia) =
      dot :: lexeme :: rest.filter (!·.isTrivia) := by
    simp [hdot.isTrivia_symbol, his.isTrivia_word]
  rw [atGuard, run_bind (run_get _), hfilter]
  cases rest.filter (!·.isTrivia) with
  | nil => rfl
  | cons word more =>
      simp only [his.isSymbol_word, Bool.and_false, Bool.false_and]
      rfl

theorem run_suffixes_member {rules : Rules} {ctx : ExprContext} {dot lexeme : Lexeme} {row : Nat}
    {text : String} (hdot : dot.Is row .symbol ".") (his : lexeme.Is row .word text) (limit : Nat)
    (base : Concrete) (rest : List Lexeme) :
    suffixes rules ctx (limit + 1) base (dot :: lexeme :: rest) =
      suffixes rules ctx limit (.node .selector
        [base.as .operand, .token dot, (Concrete.leaf .identifier lexeme).as .member]) rest := by
  have hdotted : dotted rules base (dot :: lexeme :: rest) = some (.node .selector
      [base.as .operand, .token dot, (Concrete.leaf .identifier lexeme).as .member], rest) := by
    rw [dotted, run_bind (hdot.run_symbol _), run_bind (run_nextIs _ _ _),
      front_cons his.isTrivia_word]
    simp only [Option.any_some, his.isSymbol_word, Bool.false_eq_true, if_false]
    rw [run_bind (his.run_name _)]
    rfl
  rw [suffixes, run_bind (run_upcoming _ _), front_cons hdot.isTrivia_symbol]
  simp only [hdot.isSymbol, beq_self_eq_true, if_true]
  rw [run_bind (run_atGuard_word hdot his rest)]
  simp only [Bool.and_false, Bool.false_eq_true, if_false]
  rw [run_bind hdotted]

theorem run_suffixes_call {rules : Rules} {ctx : ExprContext} {opening : Lexeme} {row : Nat}
    (hopening : opening.Is row .symbol "(") {base arguments : Concrete} {input rest : List Lexeme}
    (harguments : argumentList rules (opening :: input) = some (arguments, rest))
    (hgeneric : ∀ limit, isGenericType limit base = false) (limit : Nat) :
    suffixes rules ctx (limit + 1) base (opening :: input) =
      suffixes rules ctx limit (.node .call [base.as .callee, arguments.as .args]) rest := by
  have hcalled : called rules base (opening :: input) =
      some (.node .call [base.as .callee, arguments.as .args], rest) := by
    rw [called, run_bind harguments]
    simp only [hgeneric, Bool.and_false, Bool.false_and, Bool.false_eq_true, if_false]
    rfl
  rw [suffixes, run_bind (run_upcoming _ _), front_cons hopening.isTrivia_symbol]
  simp only [hopening.isSymbol]
  rw [if_neg (by decide), if_pos (by decide), run_bind hcalled]

/-! ## Arguments -/

/-- An argument of a call, which may be spread. -/
def argument (rules : Rules) : Parser Concrete := do
  let value ← rules (.expr .enclosed 1)
  match ← maybe (symbol "...") with
  | some dots => return .node .spreadArgument [value, dots]
  | none => return value

theorem run_argument {rules : Rules} {input rest : List Lexeme} {tree : Concrete}
    (hvalue : rules (.expr .enclosed 1) input = some (tree, rest))
    (hspread : symbol "..." rest = none) : argument rules input = some (tree, rest) := by
  rw [argument, run_bind hvalue, run_bind (run_maybe_none hspread)]
  rfl

/-- An argument behind a comma. -/
def nextArgument (rules : Rules) : Parser (List Concrete) := do
  let comma ← symbol ","
  return [comma, ← argument rules]

theorem run_nextArgument {rules : Rules} {comma : Lexeme} {row : Nat}
    (hcomma : comma.Is row .symbol ",") {input rest : List Lexeme} {tree : Concrete}
    (hargument : argument rules input = some (tree, rest)) :
    nextArgument rules (comma :: input) = some ([.token comma, tree], rest) := by
  rw [nextArgument, run_bind (hcomma.run_symbol _), run_bind hargument]
  rfl

theorem run_argumentList {rules : Rules} {opening closing : Lexeme} {row : Nat}
    (hopening : opening.Is row .symbol "(") (hclosing : closing.Is row .symbol ")")
    {input rest : List Lexeme} {items : List Concrete}
    (hitems : commaListMaybe (argument rules) input = some (items, closing :: rest)) :
    argumentList rules (opening :: input) =
      some (.node .argumentList (.token opening :: items ++ [.token closing]), rest) := by
  show (symbol "(" >>= fun opening => commaListMaybe (argument rules) >>= fun items => _) _ = _
  rw [run_bind (hopening.run_symbol _), run_bind hitems, run_bind (hclosing.run_symbol _)]
  rfl

theorem run_commaListMaybe {rules : Rules} {input middle rest : List Lexeme} {tree : Concrete}
    {parts : List (List Concrete)} (hfirst : argument rules input = some (tree, middle))
    (hmore : RunsMany (nextArgument rules) middle parts rest) (hcomma : symbol "," rest = none) :
    commaListMaybe (argument rules) input = some (tree :: parts.flatten, rest) := by
  have hlist : commaList (argument rules) input = some (tree :: parts.flatten, rest) := by
    show (argument rules >>= fun first => many (nextArgument rules) >>= fun rest => _) _ = _
    rw [run_bind hfirst, run_bind hmore.run_many]
    rfl
  have hopen : commaListOpen (argument rules) input = some (tree :: parts.flatten, rest) := by
    rw [commaListOpen, run_bind hlist, run_bind (run_maybe_none hcomma)]
    rfl
  rw [commaListMaybe, run_bind (run_maybe hopen)]
  rfl

theorem run_commaListMaybe_nil {rules : Rules} {input : List Lexeme}
    (hnone : argument rules input = none) :
    commaListMaybe (argument rules) input = some ([], input) := by
  have hlist : commaList (argument rules) input = none := by
    rw [commaList, run_bind_none hnone]
  have hopen : commaListOpen (argument rules) input = none := by
    rw [commaListOpen, run_bind_none hlist]
  rw [commaListMaybe, run_bind (run_maybe_none hopen)]
  rfl

/-- No expression starts with a closing parenthesis. -/
theorem read_expr_closing {closing : Lexeme} {row : Nat} (hclosing : closing.Is row .symbol ")")
    (depth : Nat) (ctx : ExprContext) (level : Nat) (rest : List Lexeme) :
    read depth (.expr ctx level) (closing :: rest) = none := by
  have hunary : ∀ depth, read depth (.unary ctx) (closing :: rest) = none := by
    intro depth
    cases depth with
    | zero => rfl
    | succ depth =>
        show unaryRule (read depth) ctx _ = none
        have hoperand : operand (read depth) ctx (closing :: rest) = none := by
          rw [operand, run_bind (run_upcoming _ _), front_cons hclosing.isTrivia_symbol]
          simp only [hclosing.kind_eq, hclosing.text_eq]
          rfl
        rw [unaryRule, run_bind (run_upcoming _ _), front_cons hclosing.isTrivia_symbol]
        simp only [hclosing.kind_eq, hclosing.text_eq]
        rw [if_neg (by decide), run_bind_none hoperand]
  cases depth with
  | zero => rfl
  | succ depth =>
      show exprRule (read depth) ctx level _ = none
      rw [exprRule, run_bind_none (hunary depth)]

/-! ## Operators -/

/-- A sign that has a lexeme of its own. -/
theorem run_unaryRule_sign {rules : Rules} {ctx : ExprContext} {lexeme : Lexeme} {row : Nat}
    {op : String} (his : lexeme.Is row .symbol op) (hop : op ∈ unaryOperators)
    {input rest : List Lexeme} {tree : Concrete}
    (hoperand : rules (.unary ctx) input = some (tree, rest)) :
    unaryRule rules ctx (lexeme :: input) =
      some (.node .unary [(Concrete.token lexeme).as .op, tree.as .operand], rest) := by
  have hwhole : (lexeme.kind == .symbol && unaryOperators.contains lexeme.text) = true := by
    simp [his.kind_eq, his.text_eq, hop]
  have htake : takeOperator true (lexeme :: input) =
      some ((Concrete.token lexeme).as .op, input) := by
    rw [takeOperator, run_bind (run_take his.isTrivia_symbol (by simp [his.kind_eq]) _)]
    rfl
  rw [unaryRule, run_bind (run_upcoming _ _), front_cons his.isTrivia_symbol]
  simp only [hwhole, Bool.true_or, if_true]
  rw [run_bind htake, run_bind hoperand]
  rfl

/-- A sign that shares its lexeme with the sign behind it, which is put back. -/
theorem run_unaryRule_fused {rules : Rules} {ctx : ExprContext} {lexeme : Lexeme} {row : Nat}
    {text : String} (his : lexeme.Is row .symbol text) (hfused : text ∈ fusedSigns)
    {input rest : List Lexeme} {tree : Concrete}
    (hoperand : rules (.unary ctx) ((lexeme.split 1).2 :: input) = some (tree, rest)) :
    unaryRule rules ctx (lexeme :: input) = some (.node .unary
      [(Concrete.token (lexeme.split 1).1).as .op, tree.as .operand], rest) := by
  have hwhole : (lexeme.kind == .symbol && unaryOperators.contains lexeme.text) = false := by
    have hnot : ∀ text ∈ fusedSigns, unaryOperators.contains text = false := by decide
    rw [his.kind_eq, his.text_eq, hnot text hfused, Bool.and_false]
  have hcut : (lexeme.kind == .symbol && ["++", "--", "&&", "&^"].contains lexeme.text) = true := by
    rw [his.kind_eq, his.text_eq, beq_self_eq_true, Bool.true_and, List.contains_iff_mem]
    exact hfused
  have htake : takeOperator false (lexeme :: input) =
      some ((Concrete.token (lexeme.split 1).1).as .op, (lexeme.split 1).2 :: input) := by
    rw [takeOperator, run_bind (run_take his.isTrivia_symbol (by simp [his.kind_eq]) _)]
    rfl
  rw [unaryRule, run_bind (run_upcoming _ _), front_cons his.isTrivia_symbol]
  simp only [hwhole, hcut, Bool.or_true, if_true]
  rw [run_bind htake, run_bind hoperand]
  rfl

/-- A binary operator with its right operand. -/
theorem run_binaries_operator {rules : Rules} {ctx : ExprContext} {lexeme : Lexeme} {row : Nat}
    {op : String} (his : lexeme.Is row .symbol op) (hop : precedence op ≠ 0) {level : Nat}
    (hlevel : level ≤ precedence op) {input rest : List Lexeme} {left right : Concrete}
    (hright : rules (.expr ctx (precedence op + 1)) input = some (right, rest)) (limit : Nat) :
    binaries rules ctx level (limit + 1) left (lexeme :: input) =
      binaries rules ctx level limit (.node .binary
        [left.as .left, (Concrete.token lexeme).as .op, right.as .right]) rest := by
  have hbinary : binaryOperator? ctx lexeme = some (op, true) := by
    simp [binaryOperator?, his.kind_eq, his.text_eq, hop]
  have htake : takeOperator true (lexeme :: input) =
      some ((Concrete.token lexeme).as .op, input) := by
    rw [takeOperator, run_bind (run_take his.isTrivia_symbol (by simp [his.kind_eq]) _)]
    rfl
  rw [binaries, run_bind (run_upcoming _ _), front_cons his.isTrivia_symbol]
  simp only [Option.bind_some, hbinary]
  rw [if_neg (Nat.not_lt.2 hlevel), run_bind htake, run_bind hright]

end TraceWeave.Syntax
