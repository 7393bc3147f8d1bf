import TraceWeave.Proofs.Syntax.Spacing
import TraceWeave.Syntax.Build

/-!
Operator expressions of any shape are read back from their text.

The printer puts parentheses around an operation that binds less tightly than what stands
around it, and leaves blanks by a rule of its own.  A parser that knows the five levels of
Go, and that operators of a level associate to the left, reads the tree from the text
again, up to its parentheses (`OperatorTree.readsBack`).  The parser is independent of
the grammar in which files are read: it keeps a stack of what has been begun, and an
operator ends the operations on the stack that bind at least as tightly.
-/

namespace TraceWeave.Syntax

open TraceWeave.Text

/-! ## Trees -/

/-- An expression of names, members, calls on one line, parentheses and binary operators. -/
inductive OperatorTree : Expr → Prop where
  | name {ident : Ident} {decs : Decorations} :
      isWordChars ident.name.toList → OperatorTree ⟨.ident ident, decs⟩
  | selector {operand : Expr} {member : Ident} {decs : Decorations} :
      OperatorTree operand → isWordChars member.name.toList →
      OperatorTree ⟨.selector operand member, decs⟩
  | call {callee : Expr} {args : List Expr} {spread closesLine : Bool} {decs : Decorations} :
      OperatorTree callee → (∀ arg ∈ args, OperatorTree arg) →
      (∀ arg ∈ args, arg.breaks = false ∧ arg.decs.trail = []) → (spread → args ≠ []) →
      OperatorTree ⟨.call ⟨callee, args, spread, closesLine⟩, decs⟩
  | paren {inner : Expr} {decs : Decorations} :
      OperatorTree inner → OperatorTree ⟨.paren inner, decs⟩
  | binary {left : Expr} {op : String} {right : Expr} {decs : Decorations} :
      op ∈ binaryOperators → OperatorTree left → OperatorTree right →
      OperatorTree ⟨.binary left op right, decs⟩

mutual

/-- The tree without its parentheses, and without what is not part of its text. -/
def Expr.core : Expr → Expr
  | ⟨kind, _⟩ => kind.core

def ExprKind.core : ExprKind → Expr
  | .ident ident => ⟨.ident ⟨ident.name, 0⟩, {}⟩
  | .selector operand member => ⟨.selector operand.core ⟨member.name, 0⟩, {}⟩
  | .call ⟨callee, args, spread, _⟩ => ⟨.call ⟨callee.core, coreOfList args, spread, false⟩, {}⟩
  | .binary left op right => ⟨.binary left.core op right.core, {}⟩
  | .paren inner => inner.core
  | kind => ⟨kind, {}⟩

def coreOfList : List Expr → List Expr
  | [] => []
  | expr :: exprs => expr.core :: coreOfList exprs

end

theorem coreOfList_append (first second : List Expr) :
    coreOfList (first ++ second) = coreOfList first ++ coreOfList second := by
  induction first with
  | nil => rfl
  | cons expr first ih => simp [coreOfList, ih]

/-! ## Marks -/

/-- What stands on both sides of an operator. -/
def roomAround (op : String) (cutoff : Nat) : List Mark :=
  if precedence op < cutoff then [.blank ' '] else []

mutual

def Expr.pieces (level depth : Nat) : Expr → List Mark
  | ⟨kind, _⟩ => kind.pieces level depth

/-- The marks of an expression, with the parentheses of the printer's own. -/
def ExprKind.pieces (level depth : Nat) : ExprKind → List Mark
  | .ident ident => [.word ident.name]
  | .selector operand member =>
      operand.pieces operandPrecedence depth ++ [.symbol ".", .word member.name]
  | .call ⟨callee, args, spread, _⟩ =>
      let depth := if args.length > 1 then depth + 1 else depth
      callee.pieces operandPrecedence depth ++ .symbol "(" :: piecesOfArgs depth args ++
        ((if spread then [.symbol "..."] else []) ++ [.symbol ")"])
  | .binary left op right =>
      let own := precedence op
      let depth := if own < level then reduceDepth depth else max depth 1
      let room := roomAround op ((ExprKind.binary left op right).cutoff depth)
      let row := left.pieces own (depth + levelStep left own) ++ (room ++ .symbol op :: room) ++
        right.pieces (own + 1) (depth + 1)
      if own < level then .symbol "(" :: row ++ [.symbol ")"] else row
  | .paren inner =>
      match inner.kind with
      | .paren _ => inner.pieces 0 depth
      | _ => .symbol "(" :: inner.pieces 0 (reduceDepth depth) ++ [.symbol ")"]
  | _ => []

def piecesOfArgs (depth : Nat) : List Expr → List Mark
  | [] => []
  | arg :: args =>
      arg.pieces 0 depth ++ (if args.isEmpty then [] else [.symbol ",", .blank ' ']) ++
        piecesOfArgs depth args

end

theorem toList_writeArgs_pieces {indent depth : Nat} {args : List Expr} {closesLine : Bool}
    (hargs : ∀ arg ∈ args, arg.decs.trail = [] ∧ ∀ out,
      (arg.write indent 0 depth out).toList = out.toList ++ render (arg.pieces 0 depth))
    (spread first : Bool) (out : String) :
    (writeArgs indent depth false spread closesLine first args out).toList =
      out.toList ++ (if first || args.isEmpty then [] else [' ']) ++
        render (piecesOfArgs depth args ++
          if spread && !args.isEmpty then [.symbol "..."] else []) := by
  induction args generalizing first out with
  | nil => simp [writeArgs, piecesOfArgs]
  | cons arg args ih =>
      obtain ⟨kind, decs⟩ := arg
      obtain ⟨htrail, hwrite⟩ := hargs _ List.mem_cons_self
      have hrest := fun first out => ih (fun arg hmem => hargs arg (List.mem_cons_of_mem _ hmem))
        first out
      dsimp only at htrail
      have hkind : ∀ out, (kind.write indent 0 depth out).toList =
          out.toList ++ render (kind.pieces 0 depth) := hwrite
      simp only [writeArgs, piecesOfArgs, Expr.pieces]
      cases first <;> cases args <;> cases spread <;>
        simp [hrest, hkind, Printer.trail, htrail, Mark.chars, piecesOfArgs]

/-- The printer writes an operator tree as its marks. -/
theorem OperatorTree.toList_write {expr : Expr} (h : OperatorTree expr)
    (indent level depth : Nat) (out : String) :
    (expr.write indent level depth out).toList =
      out.toList ++ render (expr.pieces level depth) := by
  induction h generalizing indent level depth out with
  | name => simp [Expr.write, ExprKind.write, Expr.pieces, ExprKind.pieces, Mark.chars]
  | selector _ _ ih =>
      simp [Expr.write, ExprKind.write, Expr.pieces, ExprKind.pieces, Mark.chars, ih]
  | @call callee args spread closesLine _ _ _ hplain hspread ihcallee ihargs =>
      have hbreaks : args.any Expr.breaks = false :=
        List.any_eq_false.2 fun arg hmem => by simp [(hplain arg hmem).1]
      have hwritten := fun depth => @toList_writeArgs_pieces indent depth args closesLine
        fun arg hmem => ⟨(hplain arg hmem).2, ihargs arg hmem indent 0 depth⟩
      have hlast : (spread && !args.isEmpty) = spread := by
        cases spread
        · rfl
        · simpa using hspread rfl
      simp [Expr.write, ExprKind.write, Expr.pieces, ExprKind.pieces, hbreaks, hwritten, hlast,
        ihcallee, Mark.chars]
  | @paren inner _ _ ih =>
      simp only [Expr.write, ExprKind.write, Expr.pieces, ExprKind.pieces]
      split
      · next hinner => simp only [hinner, ih]
      · simp [ih, Mark.chars]
  | @binary left op right _ _ _ _ ihleft ihright =>
      simp only [Expr.write, ExprKind.write, Expr.pieces, ExprKind.pieces, decide_eq_true_eq]
      by_cases henclosed : precedence op < level
      · simp only [henclosed, if_true, roomAround]
        split <;> simp [ihleft, ihright, Mark.chars]
      · simp only [henclosed, if_false, roomAround]
        split <;> simp [ihleft, ihright, Mark.chars]

/-- An operator tree starts with a word or a parenthesis. -/
theorem OperatorTree.head_pieces {expr : Expr} (h : OperatorTree expr) (level depth : Nat)
    (tail : List Mark) :
    ∀ c ∈ (render (expr.pieces level depth ++ tail)).head?, isWordStart c = true ∨ c = '(' := by
  induction h generalizing level depth tail with
  | @name ident _ hname =>
      intro c hc
      cases hlist : ident.name.toList with
      | nil => simp [hlist, isWordChars] at hname
      | cons first rest =>
          rw [hlist, isWordChars, Bool.and_eq_true] at hname
          obtain rfl : first = c := by
            simpa [Expr.pieces, ExprKind.pieces, Mark.chars, hlist] using hc
          exact .inl hname.1
  | selector _ _ ih =>
      rw [Expr.pieces, ExprKind.pieces, List.append_assoc]
      exact ih _ _ _
  | call _ _ _ _ ih =>
      rw [Expr.pieces, ExprKind.pieces, List.append_assoc, List.append_assoc]
      exact ih _ _ _
  | paren _ ih =>
      rw [Expr.pieces, ExprKind.pieces]
      split
      · exact ih _ _ _
      · intro c hc
        exact .inr (by simpa [Mark.chars] using hc.symm)
  | binary _ _ _ ih _ =>
      rw [Expr.pieces, ExprKind.pieces]
      split
      · intro c hc
        exact .inr (by simpa [Mark.chars] using hc.symm)
      · rw [List.append_assoc, List.append_assoc]
        exact ih _ _ _

theorem apart_piecesOfArgs {args : List Expr} (depth : Nat) {tail : List Mark} (htail : Apart tail)
    (hhead : ∀ c ∈ (render tail).head?, isWordRest c = false)
    (hargs : ∀ arg ∈ args, ∀ {tail : List Mark}, Apart tail →
      (∀ c ∈ (render tail).head?, isWordRest c = false) → Apart (arg.pieces 0 depth ++ tail)) :
    Apart (piecesOfArgs depth args ++ tail) := by
  induction args with
  | nil => exact htail
  | cons arg args ih =>
      have hrest := ih fun arg hmem => hargs arg (List.mem_cons_of_mem _ hmem)
      have harg := @hargs arg List.mem_cons_self
      cases args with
      | nil => simpa [piecesOfArgs] using harg htail hhead
      | cons next args =>
          rw [piecesOfArgs]
          simp only [List.isEmpty_cons, Bool.false_eq_true, if_false, List.append_assoc]
          exact harg (.closed (by decide) (.blank (.inl rfl) hrest)) (head_symbol (by decide) _)

theorem binaryOperators_symbols : ∀ op ∈ binaryOperators, op ∈ symbols := by decide

/-- An operator stands apart from its operands, with blanks around it or without. -/
theorem Apart.operation {op : String} (hop : op ∈ binaryOperators) (cutoff : Nat)
    {back : List Mark} (hback : Apart back)
    (hhead : ∀ c ∈ (render back).head?, isWordStart c = true ∨ c = '(') :
    Apart (roomAround op cutoff ++ .symbol op :: (roomAround op cutoff ++ back)) ∧
      ∀ c ∈ (render (roomAround op cutoff ++ .symbol op :: (roomAround op cutoff ++ back))).head?,
        isWordRest c = false := by
  have hmem := binaryOperators_symbols op hop
  unfold roomAround
  split
  · have hblank : Apart (.blank ' ' :: back) := .blank (.inl rfl) hback
    refine ⟨.blank (.inl rfl) (.symbol hmem (fun c hc => ?_) hblank), fun c hc => ?_⟩
    · obtain rfl : ' ' = c := by simpa [Mark.chars] using hc
      exact clings_eq_false hmem (.inr (.inr rfl))
    · obtain rfl : ' ' = c := by simpa [Mark.chars] using hc
      decide +kernel
  · refine ⟨.symbol hmem (fun c hc => ?_) hback, head_symbol hmem _⟩
    exact clings_eq_false hmem ((hhead c hc).imp_right .inl)

/-- The marks of an operator tree stand apart in front of a mark that ends a word. -/
theorem OperatorTree.apart {expr : Expr} (h : OperatorTree expr) (level depth : Nat)
    {tail : List Mark} (htail : Apart tail)
    (hhead : ∀ c ∈ (render tail).head?, isWordRest c = false) :
    Apart (expr.pieces level depth ++ tail) := by
  induction h generalizing level depth tail with
  | name hname => exact .word hname hhead htail
  | selector _ hmember ih =>
      rw [Expr.pieces, ExprKind.pieces, List.append_assoc]
      exact ih _ _ (.symbol (by decide) (clings_word (by decide) hmember _)
        (.word hmember hhead htail)) (head_symbol (by decide) _)
  | @call _ args spread _ _ _ _ _ _ ihcallee ihargs =>
      rw [Expr.pieces, ExprKind.pieces]
      simp only [List.append_assoc, List.cons_append]
      have hclosing : Apart (.symbol ")" :: tail) := .closed (by decide) htail
      have hspread : Apart ((if spread then [.symbol "..."] else []) ++ .symbol ")" :: tail) ∧
          ∀ c ∈ (render ((if spread then [.symbol "..."] else []) ++ .symbol ")" :: tail)).head?,
            isWordRest c = false := by
        cases spread
        · exact ⟨hclosing, head_symbol (by decide) _⟩
        · refine ⟨.symbol (by decide) (fun c hc => ?_) hclosing, head_symbol (by decide) _⟩
          obtain rfl : ')' = c := by simpa [Mark.chars] using hc
          decide +kernel
      have hargs := fun depth => apart_piecesOfArgs depth hspread.1 hspread.2
        fun arg hmem tail => ihargs arg hmem 0 depth
      exact ihcallee _ _ (.closed (by decide) (hargs _)) (head_symbol (by decide) _)
  | paren _ ih =>
      rw [Expr.pieces, ExprKind.pieces]
      split
      · exact ih _ _ htail hhead
      · rw [List.cons_append, List.cons_append, List.append_assoc]
        exact .closed (by decide) (ih _ _ (.closed (by decide) htail) (head_symbol (by decide) _))
  | @binary left op right _ hop hleft hright ihleft ihright =>
      have hrow : ∀ depth' cutoff, ∀ {tail : List Mark}, Apart tail →
          (∀ c ∈ (render tail).head?, isWordRest c = false) →
          Apart (left.pieces (precedence op) (depth' + levelStep left (precedence op)) ++
            (roomAround op cutoff ++ .symbol op :: roomAround op cutoff) ++
            right.pieces (precedence op + 1) (depth' + 1) ++ tail) := by
        intro depth' cutoff tail htail hhead
        have hright' := ihright (precedence op + 1) (depth' + 1) htail hhead
        obtain ⟨hapart, hfirst⟩ := Apart.operation hop cutoff hright' (hright.head_pieces _ _ _)
        simp only [List.append_assoc, List.cons_append]
        exact ihleft _ _ hapart hfirst
      rw [Expr.pieces, ExprKind.pieces]
      split
      · rw [List.cons_append, List.cons_append, List.append_assoc]
        exact .closed (by decide) (hrow _ _ (.closed (by decide) htail) (head_symbol (by decide) _))
      · exact hrow _ _ htail hhead

/-- The mark is a lexeme by itself, or none at all. -/
def Mark.isPlain : Mark → Bool
  | .breaks _ => false
  | .sign _ => false
  | _ => true

theorem plain_piecesOfArgs {depth : Nat} {args : List Expr}
    (hargs : ∀ arg ∈ args, (arg.pieces 0 depth).all Mark.isPlain = true) :
    (piecesOfArgs depth args).all Mark.isPlain = true := by
  induction args with
  | nil => rfl
  | cons arg args ih =>
      have hrest := ih fun other hmem => hargs other (.tail _ hmem)
      have hfirst := hargs arg List.mem_cons_self
      rw [piecesOfArgs, List.all_append, List.all_append, hfirst, hrest]
      split <;> rfl

theorem OperatorTree.plain_pieces {expr : Expr} (h : OperatorTree expr) (level depth : Nat) :
    (expr.pieces level depth).all Mark.isPlain = true := by
  have hroom : ∀ op cutoff, (roomAround op cutoff).all Mark.isPlain = true := by
    intro op cutoff
    unfold roomAround
    split <;> rfl
  induction h generalizing level depth with
  | name => rfl
  | selector _ _ ih => simp [Expr.pieces, ExprKind.pieces, ih, Mark.isPlain]
  | @call _ _ spread _ _ _ _ _ _ ihcallee ihargs =>
      have hargs := fun depth => plain_piecesOfArgs fun arg hmem => ihargs arg hmem 0 depth
      cases spread <;>
        simp only [Expr.pieces, ExprKind.pieces, List.all_append, List.all_cons, ihcallee, hargs] <;>
        rfl
  | paren _ ih =>
      rw [Expr.pieces, ExprKind.pieces]
      split
      · exact ih _ _
      · simp only [List.cons_append, List.all_cons, List.all_append, ih]
        rfl
  | binary _ _ _ ihleft ihright =>
      rw [Expr.pieces, ExprKind.pieces]
      split <;>
        simp only [List.cons_append, List.all_cons, List.all_append, ihleft, ihright, hroom] <;> rfl

/-! ## A parser by precedence -/

namespace Precedence

/-- The binary operators of Go, from the loosest level to the tightest. -/
def levels : List (List String) :=
  [["||"], ["&&"], ["==", "!=", "<", "<=", ">", ">="], ["+", "-", "|", "^"],
    ["*", "/", "%", "<<", ">>", "&", "&^"]]

/-- The level of an operator, from one on, and zero for everything else. -/
def levelOf (op : String) : Nat :=
  match levels.findIdx? (·.contains op) with
  | some index => index + 1
  | none => 0

/-- What an operand may stand behind. -/
inductive Frame where
  | operation (left : Expr) (op : String)
  | paren
  | args (callee : Expr) (done : List Expr)

/-- What has been read last, or has to be read next. -/
inductive Focus where
  | awaits
  | found (operand : Expr)
  | member (operand : Expr)
  | close (callee : Expr) (args : List Expr)

structure State where
  stack : List Frame := []
  focus : Focus := .awaits

/-- Ends the operations that bind at least as tightly as the level. -/
def reduce (level : Nat) : List Frame → Expr → List Frame × Expr
  | .operation left op :: stack, right =>
      if level ≤ levelOf op then reduce level stack ⟨.binary left op right, {}⟩
      else (.operation left op :: stack, right)
  | stack, right => (stack, right)

/-- Goes on behind an operand. -/
def goOn (stack : List Frame) (operand : Expr) (symbol : String) : Option State :=
  if symbol = "." then some ⟨stack, .member operand⟩
  else if symbol = "(" then some ⟨.args operand [] :: stack, .awaits⟩
  else if symbol = ")" then
    match reduce 0 stack operand with
    | (.paren :: stack, inner) => some ⟨stack, .found ⟨.paren inner, {}⟩⟩
    | (.args callee done :: stack, arg) =>
        some ⟨stack, .found ⟨.call ⟨callee, done ++ [arg], false, false⟩, {}⟩⟩
    | _ => none
  else if symbol = "," then
    match reduce 0 stack operand with
    | (.args callee done :: stack, arg) => some ⟨.args callee (done ++ [arg]) :: stack, .awaits⟩
    | _ => none
  else if symbol = "..." then
    match reduce 0 stack operand with
    | (.args callee done :: stack, arg) => some ⟨stack, .close callee (done ++ [arg])⟩
    | _ => none
  else if levelOf symbol = 0 then none
  else
    let (stack, left) := reduce (levelOf symbol) stack operand
    some ⟨.operation left symbol :: stack, .awaits⟩

abbrev Token := LexemeKind × String

def step : State → Token → Option State
  | ⟨stack, .awaits⟩, (.word, name) => some ⟨stack, .found ⟨.ident ⟨name, 0⟩, {}⟩⟩
  | ⟨stack, .awaits⟩, (.symbol, symbol) =>
      if symbol = "(" then some ⟨.paren :: stack, .awaits⟩
      else
        match stack with
        | .args callee [] :: stack =>
            if symbol = ")" then some ⟨stack, .found ⟨.call ⟨callee, [], false, false⟩, {}⟩⟩
            else none
        | _ => none
  | ⟨stack, .member operand⟩, (.word, name) =>
      some ⟨stack, .found ⟨.selector operand ⟨name, 0⟩, {}⟩⟩
  | ⟨stack, .close callee args⟩, (.symbol, symbol) =>
      if symbol = ")" then some ⟨stack, .found ⟨.call ⟨callee, args, true, false⟩, {}⟩⟩ else none
  | ⟨stack, .found operand⟩, (.symbol, symbol) => goOn stack operand symbol
  | _, _ => none

/-- The tree of an expression, if the lexemes are one. -/
def parse? (lexemes : List Lexeme) : Option Expr := do
  match ← (lexemes.map fun lexeme => (lexeme.kind, lexeme.text)).foldlM step {} with
  | ⟨stack, .found operand⟩ =>
      match reduce 0 stack operand with
      | ([], expr) => some expr
      | _ => none
  | _ => none

theorem levelOf_eq (op : String) : levelOf op = precedence op := by
  simp only [levelOf, levels, precedence, List.findIdx?_cons, List.findIdx?_nil]
  grind

/-! ## Tokens -/

/-- The tokens of marks that are words, symbols and blanks. -/
def tokensOf (marks : List Mark) : List Token :=
  marks.filterMap fun mark =>
    match mark with
    | .word text => some (.word, text)
    | .symbol text => some (.symbol, text)
    | _ => none

section

variable (text : String) (marks rest : List Mark)

@[simp]
theorem tokensOf_nil : tokensOf [] = [] := rfl

@[simp]
theorem tokensOf_append : tokensOf (marks ++ rest) = tokensOf marks ++ tokensOf rest :=
  List.filterMap_append

@[simp]
theorem tokensOf_word : tokensOf (.word text :: marks) = (.word, text) :: tokensOf marks := rfl

@[simp]
theorem tokensOf_symbol : tokensOf (.symbol text :: marks) = (.symbol, text) :: tokensOf marks :=
  rfl

@[simp]
theorem tokensOf_blank (c : Char) : tokensOf (.blank c :: marks) = tokensOf marks := rfl

@[simp]
theorem tokensOf_roomAround (cutoff : Nat) : tokensOf (roomAround text cutoff) = [] := by
  unfold roomAround
  split <;> rfl

end

/-! ## Frames -/

/-- An operand of the level does not end the operation that it stands in. -/
def Below (level : Nat) : List Frame → Prop
  | .operation _ op :: _ => levelOf op < level
  | _ => True

theorem Below.mono {level level' : Nat} (hle : level ≤ level') :
    ∀ {stack : List Frame}, Below level stack → Below level' stack
  | .operation _ _ :: _, h => Nat.lt_of_lt_of_le h hle
  | .paren :: _, _ => trivial
  | .args _ _ :: _, _ => trivial
  | [], _ => trivial

theorem reduce_of_below {level : Nat} {stack : List Frame} (h : Below level stack)
    (operand : Expr) : reduce level stack operand = (stack, operand) := by
  match stack, h with
  | .operation left op :: stack, h => simp [reduce, Nat.not_le_of_lt h]
  | .paren :: _, _ => rfl
  | .args _ _ :: _, _ => rfl
  | [], _ => rfl

/-- Nothing binds more tightly than the operand of a selector or of a call. -/
theorem below_operand : ∀ stack : List Frame, Below unaryPrecedence stack
  | .operation _ op :: _ => by
      have hlevel := precedence_le op
      rw [← levelOf_eq] at hlevel
      exact Nat.lt_succ_of_le hlevel
  | .paren :: _ => trivial
  | .args _ _ :: _ => trivial
  | [] => trivial

/-! ## Reading -/

/-- Reading the tokens finds an operand that is the tree. -/
def Finds (tokens : List Token) (expr : Expr) : Prop :=
  ∀ stack, ∃ found, tokens.foldlM step ⟨stack, .awaits⟩ = some ⟨stack, .found found⟩ ∧
    found.core = expr.core

/--
Behind frames below the level, the tokens are read as the tree as soon as an operator that
binds no more tightly than the level, or none at all, follows.
-/
def Reads (level : Nat) (tokens : List Token) (expr : Expr) : Prop :=
  ∀ stack, Below level stack → ∃ stack' last found,
    tokens.foldlM step ⟨stack, .awaits⟩ = some ⟨stack', .found last⟩ ∧
      (∀ bound ≤ level, reduce bound stack' last = reduce bound stack found) ∧
      found.core = expr.core

theorem Finds.reads {tokens : List Token} {expr : Expr} (h : Finds tokens expr) (level : Nat) :
    Reads level tokens expr := by
  intro stack _
  obtain ⟨found, hfound, hcore⟩ := h stack
  exact ⟨stack, found, found, hfound, fun _ _ => rfl, hcore⟩

/-- An operand of a selector or of a call is found, since no operation is left to end. -/
theorem Reads.finds {tokens : List Token} {expr : Expr}
    (h : Reads operandPrecedence tokens expr) : Finds tokens expr := by
  intro stack
  obtain ⟨stack', last, found, hread, hreduce, hcore⟩ :=
    h stack ((below_operand stack).mono (Nat.le_succ _))
  have hsame := hreduce unaryPrecedence (Nat.le_succ _)
  rw [reduce_of_below (below_operand _), reduce_of_below (below_operand _)] at hsame
  obtain ⟨rfl, rfl⟩ := Prod.mk.inj hsame
  exact ⟨last, hread, hcore⟩

theorem Finds.name (ident : Ident) (decs : Decorations) :
    Finds [(.word, ident.name)] ⟨.ident ident, decs⟩ :=
  fun _ => ⟨⟨.ident ⟨ident.name, 0⟩, {}⟩, rfl, rfl⟩

theorem Finds.selector {tokens : List Token} {operand : Expr} (h : Finds tokens operand)
    (member : Ident) (decs : Decorations) :
    Finds (tokens ++ [(.symbol, "."), (.word, member.name)]) ⟨.selector operand member, decs⟩ := by
  intro stack
  obtain ⟨found, hfound, hcore⟩ := h stack
  refine ⟨⟨.selector found ⟨member.name, 0⟩, {}⟩, ?_, ?_⟩
  · rw [List.foldlM_append, hfound]
    rfl
  · simp only [Expr.core, ExprKind.core, hcore]

/-- A closing parenthesis ends what stands behind the opening one. -/
theorem Reads.enclosed {tokens : List Token} {expr : Expr} (h : Reads 0 tokens expr) :
    Finds ((.symbol, "(") :: tokens ++ [(.symbol, ")")]) expr := by
  intro stack
  obtain ⟨stack', last, found, hread, hreduce, hcore⟩ := h (.paren :: stack) trivial
  refine ⟨⟨.paren found, {}⟩, ?_, hcore⟩
  have hopen : step ⟨stack, .awaits⟩ (.symbol, "(") = some ⟨.paren :: stack, .awaits⟩ := rfl
  have hclose : step ⟨stack', .found last⟩ (.symbol, ")") =
      some ⟨stack, .found ⟨.paren found, {}⟩⟩ := by
    have hreduced : reduce 0 stack' last = (.paren :: stack, found) := hreduce 0 (Nat.le_refl 0)
    simp [step, goOn, hreduced]
  rw [List.cons_append, List.foldlM_cons, hopen]
  simp only [Option.bind_eq_bind, Option.bind_some, List.foldlM_append, hread]
  simp [hclose]

/-- An operator takes all that binds at least as tightly in front of it as its left operand. -/
theorem Reads.binary {op : String} (hop : op ∈ binaryOperators) {left right : Expr}
    {front back : List Token} (hleft : Reads (precedence op) front left)
    (hright : Reads (precedence op + 1) back right) {level : Nat} (hlevel : level ≤ precedence op)
    (decs : Decorations) :
    Reads level (front ++ (.symbol, op) :: back) ⟨.binary left op right, decs⟩ := by
  intro stack hbelow
  have hbelow' := hbelow.mono hlevel
  obtain ⟨stack₁, last₁, found₁, hread₁, hreduce₁, hcore₁⟩ := hleft stack hbelow'
  have hstep : step ⟨stack₁, .found last₁⟩ (.symbol, op) =
      some ⟨.operation found₁ op :: stack, .awaits⟩ := by
    have hall : ∀ op ∈ binaryOperators, op ≠ "." ∧ op ≠ "(" ∧ op ≠ ")" ∧ op ≠ "," ∧
        op ≠ "..." ∧ precedence op ≠ 0 := by decide
    have hother := hall op hop
    have hreduced : reduce (precedence op) stack₁ last₁ = (stack, found₁) :=
      (hreduce₁ _ (Nat.le_refl _)).trans (reduce_of_below hbelow' found₁)
    simp [step, goOn, hother, levelOf_eq, hreduced]
  have hown : Below (precedence op + 1) (.operation found₁ op :: stack) := by
    simp [Below, levelOf_eq]
  obtain ⟨stack₂, last₂, found₂, hread₂, hreduce₂, hcore₂⟩ := hright _ hown
  refine ⟨stack₂, last₂, ⟨.binary found₁ op found₂, {}⟩, ?_, fun bound hbound => ?_, ?_⟩
  · rw [List.foldlM_append, hread₁]
    simp [hstep, hread₂]
  · rw [hreduce₂ bound (by omega), reduce, levelOf_eq, if_pos (Nat.le_trans hbound hlevel)]
  · simp only [Expr.core, ExprKind.core, hcore₁, hcore₂]

/-- The arguments in front of the last one are done when the last one has been read. -/
theorem reads_args {depth : Nat} {args : List Expr} (hnonempty : args ≠ [])
    (hargs : ∀ arg ∈ args, Reads 0 (tokensOf (arg.pieces 0 depth)) arg) (stack : List Frame)
    (callee : Expr) (done : List Expr) :
    ∃ stack' last front arg,
      (tokensOf (piecesOfArgs depth args)).foldlM step ⟨.args callee done :: stack, .awaits⟩ =
        some ⟨stack', .found last⟩ ∧
      reduce 0 stack' last = (.args callee (done ++ front) :: stack, arg) ∧
      coreOfList (front ++ [arg]) = coreOfList args := by
  induction args generalizing done with
  | nil => exact absurd rfl hnonempty
  | cons arg args ih =>
      obtain ⟨stack₁, last₁, found, hread, hreduce, hcore⟩ :=
        hargs arg List.mem_cons_self (.args callee done :: stack) trivial
      have hreduced : reduce 0 stack₁ last₁ = (.args callee done :: stack, found) :=
        hreduce 0 (Nat.le_refl 0)
      cases args with
      | nil =>
          refine ⟨stack₁, last₁, [], found, ?_, by simpa using hreduced, ?_⟩
          · simpa [piecesOfArgs] using hread
          · simp [coreOfList, hcore]
      | cons next args =>
          obtain ⟨stack₂, last₂, front, last, hrest, hlast, hcores⟩ :=
            ih (by simp) (fun other hmem => hargs other (.tail _ hmem)) (done ++ [found])
          have hcomma : step ⟨stack₁, .found last₁⟩ (.symbol, ",") =
              some ⟨.args callee (done ++ [found]) :: stack, .awaits⟩ := by
            simp [step, goOn, hreduced]
          refine ⟨stack₂, last₂, found :: front, last, ?_, ?_, ?_⟩
          · rw [piecesOfArgs]
            simp [hread, hcomma, hrest]
          · simpa using hlast
          · show found.core :: coreOfList (front ++ [last]) =
              arg.core :: coreOfList (next :: args)
            rw [hcore, hcores]

theorem Finds.call {depth : Nat} {tokens : List Token} {callee : Expr} {args : List Expr}
    {spread : Bool} (hcallee : Finds tokens callee)
    (hargs : ∀ arg ∈ args, Reads 0 (tokensOf (arg.pieces 0 depth)) arg)
    (hspread : spread → args ≠ []) (closesLine : Bool) (decs : Decorations) :
    Finds (tokens ++ (.symbol, "(") :: tokensOf (piecesOfArgs depth args ++
        ((if spread then [.symbol "..."] else []) ++ [.symbol ")"])))
      ⟨.call ⟨callee, args, spread, closesLine⟩, decs⟩ := by
  intro stack
  obtain ⟨found, hfound, hcore⟩ := hcallee stack
  cases args with
  | nil =>
      have hplain : spread = false := by simpa using hspread
      subst hplain
      refine ⟨⟨.call ⟨found, [], false, false⟩, {}⟩, ?_, ?_⟩
      · rw [List.foldlM_append, hfound]
        rfl
      · simp [Expr.core, ExprKind.core, hcore]
  | cons arg args =>
      obtain ⟨stack', last, front, arg', hread, hreduce, hcores⟩ :=
        reads_args (by simp) hargs stack found []
      refine ⟨⟨.call ⟨found, front ++ [arg'], spread, false⟩, {}⟩, ?_, ?_⟩
      · rw [List.foldlM_append, hfound]
        cases spread <;> simp [hread, step, goOn, hreduce]
      · simp [Expr.core, ExprKind.core, hcore, hcores]

/-- The marks of a tree are read as the tree, wherever an operand of the level may stand. -/
theorem reads_pieces {expr : Expr} (h : OperatorTree expr) (level depth : Nat) :
    Reads level (tokensOf (expr.pieces level depth)) expr := by
  induction h generalizing level depth with
  | @name ident decs => exact (Finds.name ident decs).reads level
  | @selector operand member decs _ _ ih =>
      have hoperand := (ih operandPrecedence depth).finds
      simpa [Expr.pieces, ExprKind.pieces] using (hoperand.selector member decs).reads level
  | @call callee args spread closesLine decs _ _ _ hspread ihcallee ihargs =>
      have hcall := fun depth => (ihcallee operandPrecedence depth).finds.call
        (fun arg hmem => ihargs arg hmem 0 depth) hspread closesLine decs
      simpa [Expr.pieces, ExprKind.pieces] using (hcall _).reads level
  | @paren inner decs _ ih =>
      refine Finds.reads ?_ level
      rw [Expr.pieces, ExprKind.pieces]
      split
      · -- Doubled parentheses are written once, whatever the level is.
        next hkind =>
        obtain ⟨_, _⟩ := inner
        obtain rfl := hkind
        exact (ih operandPrecedence depth).finds
      · have henclosed : Finds _ ⟨.paren inner, decs⟩ := (ih 0 (reduceDepth depth)).enclosed
        simpa using henclosed
  | @binary left op right decs hop _ _ ihleft ihright =>
      have hrow : ∀ depth' level', level' ≤ precedence op →
          Reads level' (tokensOf (left.pieces (precedence op)
              (depth' + levelStep left (precedence op))) ++
            (.symbol, op) :: tokensOf (right.pieces (precedence op + 1) (depth' + 1)))
            ⟨.binary left op right, decs⟩ :=
        fun depth' level' hle => Reads.binary hop (ihleft _ _) (ihright _ _) hle decs
      rw [Expr.pieces, ExprKind.pieces]
      split
      · simpa using ((hrow (reduceDepth depth) 0 (Nat.zero_le _)).enclosed).reads level
      · next hopen => simpa using hrow (max depth 1) level (Nat.le_of_not_lt hopen)

/-- Plain marks are scanned into their tokens. -/
theorem tokens_of_lexed {row : Nat} {lexemes : List Lexeme} {marks : List Mark}
    (h : Lexed row lexemes marks) (hplain : marks.all Mark.isPlain = true) :
    lexemes.map (fun lexeme => (lexeme.kind, lexeme.text)) = tokensOf marks := by
  induction h with
  | nil => rfl
  | blank _ ih => exact ih (by simpa [Mark.isPlain] using hplain)
  | word his _ ih => simp [his.kind_eq, his.text_eq, ih (by simpa [Mark.isPlain] using hplain)]
  | symbol his _ ih => simp [his.kind_eq, his.text_eq, ih (by simpa [Mark.isPlain] using hplain)]
  | breaks => simp [Mark.isPlain] at hplain
  | sign => simp [Mark.isPlain] at hplain
  | signs => simp [Mark.isPlain] at hplain

/-- The text is scanned and parsed into the tree again, up to parentheses. -/
def ReadsBack (text : String) (expr : Expr) : Prop :=
  ∃ lexemes, scan? text.toList = some lexemes ∧ (parse? lexemes).map Expr.core = some expr.core

end Precedence

open Precedence

/-- An operator tree does not start with a byte order mark. -/
theorem OperatorTree.scan {expr : Expr} (h : OperatorTree expr) (level depth : Nat) :
    scan? (render (expr.pieces level depth)) =
      scanFrom (render (expr.pieces level depth)) 0 0 [] := by
  have hhead := h.head_pieces level depth []
  rw [List.append_nil] at hhead
  unfold scan?
  split
  · next rest heq =>
    have hnot : ¬ (isWordStart '\uFEFF' = true ∨ '\uFEFF' = '(') := by decide +kernel
    exact absurd (hhead '\uFEFF' (by simp [heq])) hnot
  · rfl

/--
The text of an operator tree, however its operations are nested, reads as the tree: at the
top level, and behind any level of the surroundings at any depth of nesting.
-/
theorem OperatorTree.readsBack {expr : Expr} (h : OperatorTree expr) :
    ReadsBack expr.text expr ∧
      ∀ indent level depth, ReadsBack (expr.write indent level depth "") expr := by
  suffices hread : ∀ indent level depth, ReadsBack (expr.write indent level depth "") expr from
    ⟨hread 0 0 1, hread⟩
  intro indent level depth
  have htext : (expr.write indent level depth "").toList = render (expr.pieces level depth) := by
    simp [h.toList_write]
  have hapart : Apart (expr.pieces level depth) := by
    simpa using h.apart level depth .nil (by simp)
  obtain ⟨lexemes, hlexed, hscan⟩ := scans_of_apart hapart 0 0 []
  have htokens := tokens_of_lexed hlexed (h.plain_pieces level depth)
  obtain ⟨stack, last, found, hread, hreduce, hcore⟩ := reads_pieces h level depth [] trivial
  have hreduced : reduce 0 stack last = ([], found) := hreduce 0 (Nat.zero_le level)
  refine ⟨lexemes, ?_, ?_⟩
  · rw [htext, h.scan, hscan]
    rfl
  · simp [parse?, htokens, hread, hreduced, hcore]

/-- A product of sums without parentheses of its own, and a call in doubled ones. -/
def productOfSums : Expr :=
  .binary (.binary (.ident "a") "+" (.ident "b")) "*"
    (.binary (.ident "c") "-"
      ⟨.paren ⟨.paren (.call (.ident "f") [.binary (.ident "x") "&^" (.ident "y"), .ident "z"]), {}⟩,
        {}⟩)

example : productOfSums.text = "(a + b) * (c - (f(x&^y, z)))" := by decide +kernel

theorem readsBack_productOfSums :
    OperatorTree productOfSums ∧ ReadsBack productOfSums.text productOfSums ∧
      ∀ indent level depth,
        ReadsBack (productOfSums.write indent level depth "") productOfSums := by
  have hname : ∀ text ∈ ["a", "b", "c", "f", "x", "y", "z"], OperatorTree (.ident text) := by
    have hwords : ∀ text ∈ ["a", "b", "c", "f", "x", "y", "z"], isWordChars text.toList := by
      decide +kernel
    exact fun text hmem => .name (hwords text hmem)
  have hclear : OperatorTree (.binary (.ident "x") "&^" (.ident "y")) :=
    .binary (by decide) (hname _ (by decide)) (hname _ (by decide))
  have hcall : OperatorTree
      (.call (.ident "f") [.binary (.ident "x") "&^" (.ident "y"), .ident "z"]) := by
    refine .call (hname _ (by decide)) (fun arg hmem => ?_) (fun arg hmem => ?_) (by decide)
    · obtain rfl | rfl : arg = .binary (.ident "x") "&^" (.ident "y") ∨ arg = .ident "z" := by
        simpa using hmem
      · exact hclear
      · exact hname _ (by decide)
    · obtain rfl | rfl : arg = .binary (.ident "x") "&^" (.ident "y") ∨ arg = .ident "z" := by
        simpa using hmem
      all_goals exact ⟨rfl, rfl⟩
  have htree : OperatorTree productOfSums :=
    .binary (by decide) (.binary (by decide) (hname _ (by decide)) (hname _ (by decide)))
      (.binary (by decide) (hname _ (by decide)) (.paren (.paren hcall)))
  exact ⟨htree, htree.readsBack⟩

end TraceWeave.Syntax
