import TraceWeave.Proofs.Syntax.Parsing

/-!
Comments and line breaks in front of a rule.

Every rule of the grammar starts with a look at the next lexeme that counts or takes one, so
it does not see what stands in front of it.
-/

namespace TraceWeave.Syntax

open TraceWeave.Syntax.Parser TraceWeave.Syntax.Grammar

namespace Parser

variable {α β : Type}

/-- The parser does not see a comment or a line break in front of its input. -/
def Skips (parser : Parser α) : Prop :=
  ∀ lexeme input, lexeme.isTrivia = true → parser (lexeme :: input) = parser input

/-- The parser looks at its input only, and not at a comment or a line break in front of it. -/
def Looks (parser : Parser α) : Prop :=
  ∀ input, ∃ value, parser input = some (value, input) ∧
    ∀ lexeme : Lexeme, lexeme.isTrivia = true →
      parser (lexeme :: input) = some (value, lexeme :: input)

theorem Skips.bind {parser : Parser α} {next : α → Parser β} (h : Skips parser) :
    Skips (parser >>= next) := by
  intro lexeme input htrivia
  show (parser (lexeme :: input)).bind _ = (parser input).bind _
  rw [h lexeme input htrivia]

theorem Looks.bind {parser : Parser α} {next : α → Parser β} (h : Looks parser)
    (hnext : ∀ value, Skips (next value)) : Skips (parser >>= next) := by
  intro lexeme input htrivia
  obtain ⟨value, hbare, hbehind⟩ := h input
  rw [run_bind (hbehind lexeme htrivia), run_bind hbare]
  exact hnext value lexeme input htrivia

theorem Skips.orElse {first second : Parser α} (hfirst : Skips first) (hsecond : Skips second) :
    Skips (first <|> second) := by
  intro lexeme input htrivia
  show (first (lexeme :: input)).orElse _ = (first input).orElse _
  rw [hfirst lexeme input htrivia]
  cases first input with
  | none => exact hsecond lexeme input htrivia
  | some result => rfl

theorem skips_failure : Skips (failure : Parser α) := fun _ _ _ => rfl

theorem skips_take (test : Lexeme → Bool) : Skips (take test) := by
  intro lexeme input htrivia
  have hdrop : (lexeme :: input).dropWhile Lexeme.isTrivia = input.dropWhile Lexeme.isTrivia := by
    rw [List.dropWhile_cons, if_pos htrivia]
  unfold take
  rw [run_bind (run_get _), run_bind (run_get _), hdrop]
  cases input.dropWhile Lexeme.isTrivia with
  | nil => rfl
  | cons first rest =>
      dsimp only
      split <;> rfl

theorem skips_symbol (text : String) : Skips (symbol text) := (skips_take _).bind

theorem skips_keyword (text : String) : Skips (keyword text) := (skips_take _).bind

theorem skips_name : Skips name := (skips_take _).bind

theorem looks_upcoming : Looks (upcoming false) := by
  intro input
  refine ⟨_, run_upcoming false input, fun lexeme htrivia => ?_⟩
  rw [run_upcoming]
  simp [front, htrivia]

theorem looks_second? : Looks second? := by
  intro input
  refine ⟨_, rfl, fun lexeme htrivia => ?_⟩
  have hdrop : (lexeme :: input).dropWhile Lexeme.isTrivia = input.dropWhile Lexeme.isTrivia := by
    rw [List.dropWhile_cons, if_pos htrivia]
  show some (((((lexeme :: input).dropWhile Lexeme.isTrivia).drop 1).dropWhile
    Lexeme.isTrivia).head?, lexeme :: input) = _
  rw [hdrop]

/-- What is told from a look is a look itself. -/
theorem Looks.tell {parser : Parser α} (h : Looks parser) {next : α → Parser β}
    (hnext : ∀ value, ∃ result, next value = pure result) : Looks (parser >>= next) := by
  intro input
  obtain ⟨value, hbare, hbehind⟩ := h input
  obtain ⟨result, hresult⟩ := hnext value
  refine ⟨result, ?_, fun lexeme htrivia => ?_⟩
  · rw [run_bind hbare, hresult]
    rfl
  · rw [run_bind (hbehind lexeme htrivia), hresult]
    rfl

theorem looks_nextIs (text : String) : Looks (nextIs false text) :=
  looks_upcoming.tell fun _ => ⟨_, rfl⟩

theorem looks_atListEnd : Looks atListEnd :=
  looks_upcoming.tell fun next => by cases next <;> exact ⟨_, rfl⟩

end Parser

/-! ## Rules -/

section

variable {rules : Rules}

theorem skips_typeRule (breaks : Bool) : Skips (typeRule rules breaks) := by
  have hchannel : Skips (channelType rules breaks) := by
    refine (looks_nextIs _).bind fun arrow => ?_
    cases arrow
    · exact (skips_keyword _).bind
    · exact (skips_symbol _).bind
  have hname : Skips (typeName rules breaks) := skips_name.bind
  have hsequence : Skips (sequenceType rules breaks) := (skips_symbol _).bind
  refine looks_upcoming.bind fun next => ?_
  cases next with
  | none => exact skips_failure
  | some lexeme =>
      dsimp only
      split
      · exact (skips_keyword _).bind
      · exact (skips_keyword _).bind
      · exact (skips_keyword _).bind
      · exact (skips_keyword _).bind
      · exact hchannel
      · exact hname
      · exact hchannel
      · exact hsequence
      · exact (skips_symbol _).bind
      · exact (skips_symbol _).bind
      · exact (skips_symbol _).bind
      · exact skips_failure

theorem skips_operand (htype : Skips (rules (.type false))) (ctx : ExprContext) :
    Skips (operand rules ctx) := by
  have hoperand : ∀ bodies, Skips (typeOperand rules ctx bodies) := fun _ => htype.bind
  have hfunc : Skips (funcOperand rules) :=
    (skips_keyword _).bind.orElse ((skips_keyword _).bind.bind.orElse (skips_keyword _).bind)
  have hparen : Skips (parenOperand rules) := (skips_symbol _).bind.orElse (skips_symbol _).bind
  have hsequence : Skips (sequenceOperand rules ctx) := (skips_symbol _).bind.orElse (hoperand true)
  refine looks_upcoming.bind fun next => ?_
  cases next with
  | none => exact skips_failure
  | some lexeme =>
      dsimp only
      split
      · exact (skips_take _).bind
      · exact hfunc
      · exact hoperand true
      · exact hoperand true
      · exact hoperand false
      · exact hoperand false
      · exact skips_name.bind
      · exact hparen
      · exact hsequence
      · exact skips_failure

theorem skips_unaryRule (htype : Skips (rules (.type false))) (ctx : ExprContext) :
    Skips (unaryRule rules ctx) := by
  refine looks_upcoming.bind fun next => ?_
  cases next with
  | none => exact skips_failure
  | some lexeme =>
      dsimp only
      split
      · exact (skips_take _).bind.bind
      · exact (skips_operand htype ctx).bind

theorem skips_stmtRule (hexpr : ∀ ctx level, Skips (rules (.expr ctx level)))
    (hblock : Skips (rules .block)) : Skips (stmtRule rules) := by
  have hsimple : Skips (simpleStmt rules .statement) := (hexpr _ _).bind.bind
  refine looks_upcoming.bind fun next => ?_
  cases next with
  | none => exact skips_failure
  | some lexeme =>
      dsimp only
      split
      · exact (skips_keyword _).bind
      · exact (skips_keyword _).bind
      · exact (skips_keyword _).bind
      · exact (skips_keyword _).bind
      · exact (skips_keyword _).bind
      · exact (skips_keyword _).bind
      · exact (skips_keyword _).bind
      · exact (skips_keyword _).bind
      · exact (skips_keyword _).bind
      · exact (skips_keyword _).bind
      · exact (skips_keyword _).bind
      · exact (skips_keyword _).bind
      · exact (skips_keyword _).bind
      · exact (skips_keyword _).bind
      · refine looks_second?.bind fun second => ?_
        split
        · exact skips_name.bind
        · exact hsimple
      · exact hblock
      · exact (skips_symbol _).bind
      · exact hsimple

end

/-- No rule sees the comments and line breaks in front of its input. -/
theorem skips_read (depth : Nat) (goal : Goal) : Skips (read depth goal) := by
  induction depth generalizing goal with
  | zero => exact skips_failure
  | succ depth ih =>
      cases goal with
      | expr ctx level => exact (ih (.unary ctx)).bind
      | unary ctx => exact skips_unaryRule (ih (.type false)) ctx
      | type breaks => exact skips_typeRule breaks
      | literalValue => exact (skips_symbol _).bind
      | block => exact (skips_symbol _).bind
      | stmt => exact skips_stmtRule (fun ctx level => ih (.expr ctx level)) (ih .block)

end TraceWeave.Syntax
