import TraceWeave.Syntax.Lexeme
import TraceWeave.Syntax.Printer

/-!
Operator expressions and the marks that they are written with.

A formula is an expression of names, members, calls, parentheses, signs and binary
operators that needs no parentheses beside its own.  The printer writes it as a row of
marks, and what stands between the marks depends on the cutoff alone.
-/

namespace TraceWeave.Syntax

open TraceWeave.Text

/-! ## Marks -/

/-- A piece of text that is scanned as a whole, apart from signs that run together. -/
inductive Mark where
  | blank (c : Char)
  | breaks (count : Nat)
  | word (text : String)
  | symbol (text : String)
  | sign (text : String)
  deriving DecidableEq, Repr

def Mark.chars : Mark → List Char
  | .blank c => [c]
  | .breaks count => List.replicate count '\n'
  | .word text => text.toList
  | .symbol text => text.toList
  | .sign text => text.toList

def render (marks : List Mark) : List Char := marks.flatMap Mark.chars

@[simp]
theorem render_nil : render [] = [] := rfl

@[simp]
theorem render_cons (mark : Mark) (marks : List Mark) :
    render (mark :: marks) = mark.chars ++ render marks := rfl

@[simp]
theorem render_append (first second : List Mark) :
    render (first ++ second) = render first ++ render second :=
  List.flatMap_append

/-! ## Formulas -/

/-- The words that no value is named by, and the two functions that take a type. -/
def keywords : List String :=
  ["break", "case", "chan", "const", "continue", "default", "defer", "else", "fallthrough", "for",
   "func", "go", "goto", "if", "import", "interface", "map", "package", "range", "return",
   "select", "struct", "switch", "type", "var", "make", "new"]

def isWordChars : List Char → Bool
  | [] => false
  | c :: rest => isWordStart c && rest.all isWordRest

/-- A word that names a value. -/
def isName (text : String) : Bool := isWordChars text.toList && !keywords.contains text

/-- Pairs of a binary operator and a sign that read as something else when they touch. -/
def clashes (op sign : String) : Bool := ["/*", "&&", "&^", "++", "--"].contains (op ++ sign)

/-- How tightly the outermost operator of an expression binds. -/
def Expr.rank (expr : Expr) : Nat :=
  match expr.kind with
  | .binary _ op _ => precedence op
  | .unary _ _ => unaryPrecedence
  | .star _ => unaryPrecedence
  | _ => operandPrecedence

/-- The sign that an expression starts with. -/
def Expr.firstSign? : Expr → Option String
  | ⟨.unary op _, _⟩ => some op
  | ⟨.star _, _⟩ => some "*"
  | ⟨.binary left _ _, _⟩ => left.firstSign?
  | _ => none

/--
An expression that is written without parentheses of the printer's own where at least
`level` is asked for.  The right operand of an operator may be a sign that clashes with it,
but not an operation that starts with such a sign.
-/
inductive Formula : Nat → Expr → Prop where
  | name {level : Nat} {ident : Ident} : isName ident.name → Formula level ⟨.ident ident, {}⟩
  | selector {level : Nat} {operand : Expr} {member : Ident} :
      Formula operandPrecedence operand → isWordChars member.name.toList →
      Formula level ⟨.selector operand member, {}⟩
  | call {level : Nat} {callee : Expr} {args : List Expr} :
      Formula operandPrecedence callee → (∀ arg ∈ args, Formula 1 arg) →
      Formula level ⟨.call ⟨callee, args, false, false⟩, {}⟩
  | paren {level : Nat} {inner : Expr} :
      Formula 1 inner → (∀ expr, inner.kind ≠ .paren expr) → Formula level ⟨.paren inner, {}⟩
  | star {level : Nat} {operand : Expr} :
      level ≤ unaryPrecedence → Formula unaryPrecedence operand → Formula level ⟨.star operand, {}⟩
  | unary {level : Nat} {op : String} {operand : Expr} :
      level ≤ unaryPrecedence → op ∈ unaryOperators → op ≠ "*" → Formula unaryPrecedence operand →
      Formula level ⟨.unary op operand, {}⟩
  | binary {level : Nat} {left : Expr} {op : String} {right : Expr} :
      level ≤ precedence op → precedence op ≠ 0 → Formula (precedence op) left →
      Formula (precedence op + 1) right →
      (right.rank < unaryPrecedence → ∀ sign ∈ right.firstSign?, clashes op sign = false) →
      Formula level ⟨.binary left op right, {}⟩

mutual

def Expr.marks (depth : Nat) : Expr → List Mark
  | ⟨kind, _⟩ => kind.marks depth

/-- The marks of a formula at a nesting of operators. -/
def ExprKind.marks (depth : Nat) : ExprKind → List Mark
  | .ident ident => [.word ident.name]
  | .selector operand member => operand.marks depth ++ [.symbol ".", .word member.name]
  | .call ⟨callee, args, _, _⟩ =>
      let depth := if args.length > 1 then depth + 1 else depth
      callee.marks depth ++ .symbol "(" :: marksOfArgs depth args ++ [.symbol ")"]
  | .paren inner => .symbol "(" :: inner.marks (reduceDepth depth) ++ [.symbol ")"]
  | .star operand => .sign "*" :: operand.marks 1
  | .unary op operand => .sign op :: operand.marks depth
  | .binary left op right =>
      let depth := max depth 1
      let room :=
        if precedence op < (ExprKind.binary left op right).cutoff depth then [Mark.blank ' '] else []
      left.marks (depth + levelStep left (precedence op)) ++
        (room ++ .symbol op :: room) ++ right.marks (depth + 1)
  | _ => []

/-- Marks of expressions with commas between them. -/
def marksOfArgs (depth : Nat) : List Expr → List Mark
  | [] => []
  | arg :: args =>
      arg.marks depth ++
        (if args.isEmpty then [] else [.symbol ",", .blank ' ']) ++ marksOfArgs depth args

end

/-! ## Writing -/

theorem toList_writeArgs {indent depth : Nat} {args : List Expr}
    (hformula : ∀ arg ∈ args, arg.decs = {} ∧ ∀ out,
      (arg.write indent 0 depth out).toList = out.toList ++ render (arg.marks depth))
    (first : Bool) (out : String) :
    (writeArgs indent depth false false false first args out).toList =
      out.toList ++ (if first || args.isEmpty then [] else [' ']) ++
        render (marksOfArgs depth args) := by
  induction args generalizing first out with
  | nil => simp [writeArgs, marksOfArgs]
  | cons arg args ih =>
      obtain ⟨kind, decs⟩ := arg
      obtain ⟨hdecs, hwrite⟩ := hformula _ List.mem_cons_self
      have hrest := fun first out => ih (fun arg hmem => hformula arg (List.mem_cons_of_mem _ hmem))
        first out
      dsimp only at hdecs
      subst hdecs
      have hkind : ∀ out, (kind.write indent 0 depth out).toList =
          out.toList ++ render (kind.marks depth) := hwrite
      simp only [writeArgs, marksOfArgs, Expr.marks]
      cases first <;> cases args <;>
        simp [hrest, hkind, Printer.trail, Mark.chars]

namespace Formula

theorem decs_eq {level : Nat} {expr : Expr} (h : Formula level expr) : expr.decs = {} := by
  cases h <;> rfl

theorem le_rank {level : Nat} {expr : Expr} (h : Formula level expr)
    (hlevel : level ≤ operandPrecedence) : level ≤ expr.rank := by
  cases h with
  | star hle => exact hle
  | unary hle => exact hle
  | binary hle => exact hle
  | _ => exact hlevel

/-- The printer writes a formula as its marks, with no parentheses of its own. -/
theorem toList_write {level : Nat} {expr : Expr} (h : Formula level expr) {asked : Nat}
    (hasked : asked ≤ level) (indent depth : Nat) (out : String) :
    (expr.write indent asked depth out).toList = out.toList ++ render (expr.marks depth) := by
  induction h generalizing indent asked depth out with
  | name => simp [Expr.write, ExprKind.write, Expr.marks, ExprKind.marks, Mark.chars]
  | selector _ _ ih =>
      simp [Expr.write, ExprKind.write, Expr.marks, ExprKind.marks, Mark.chars,
        ih (Nat.le_refl _)]
  | @call _ callee args _ hargs ihcallee ihargs =>
      have hbreaks : args.any Expr.breaks = false := by
        refine List.any_eq_false.2 fun arg hmem => ?_
        simp [Expr.breaks, (hargs arg hmem).decs_eq, Gap.isBreak]
      have hwritten := fun depth => @toList_writeArgs indent depth args fun arg hmem =>
        ⟨(hargs arg hmem).decs_eq, ihargs arg hmem (Nat.zero_le 1) indent depth⟩
      simp [Expr.write, ExprKind.write, Expr.marks, ExprKind.marks, hbreaks, hwritten,
        ihcallee (Nat.le_refl _), Mark.chars]
  | @paren _ inner _ hinner ih =>
      -- Doubled parentheses are written once, which is why the inner expression has none.
      simp [Expr.write, ExprKind.write, Expr.marks, ExprKind.marks, ih (Nat.zero_le 1),
        Mark.chars]
  | star hle _ ih =>
      have hunclosed : ¬ unaryPrecedence < asked := by omega
      simp [Expr.write, ExprKind.write, Expr.marks, ExprKind.marks, Mark.chars, hunclosed,
        ih (Nat.zero_le _)]
  | unary hle _ _ _ ih =>
      have hunclosed : ¬ unaryPrecedence < asked := by omega
      simp [Expr.write, ExprKind.write, Expr.marks, ExprKind.marks, Mark.chars, hunclosed,
        ih (Nat.le_refl _)]
  | @binary _ left op right hle _ _ _ _ ihleft ihright =>
      have hunclosed : ¬ precedence op < asked := by omega
      simp only [Expr.write, ExprKind.write, Expr.marks, ExprKind.marks, hunclosed, decide_false,
        Bool.false_eq_true, if_false]
      split <;> simp [ihleft (Nat.le_refl _), ihright (Nat.le_refl _), Mark.chars]

end Formula

end TraceWeave.Syntax
