import TraceWeave.Text.Blank
import TraceWeave.Text.Words

/-!
The lexemes of a Go source text.

`scan?` cuts a text into words, literals, symbols, comments and runs of line
breaks; blanks other than line breaks are dropped.  Symbols are cut by the
longest match.  Line breaks are kept because they end statements wherever a
statement can end, which only the grammar knows.
-/

namespace TraceWeave.Syntax

open TraceWeave.Text

/-! ## Places in a source text -/

/-- A stretch of a source text, by character offsets and by line numbers from zero. -/
structure Span where
  start : Nat
  stop : Nat
  startRow : Nat
  stopRow : Nat
  deriving DecidableEq, Repr, Inhabited

namespace Span

/-- The stretch from the start of one span to the end of another. -/
def through (first last : Span) : Span :=
  { start := first.start, stop := last.stop, startRow := first.startRow, stopRow := last.stopRow }

end Span

inductive LexemeKind where
  | word
  | literal
  | symbol
  | breaks
  | comment
  deriving DecidableEq, Repr, Inhabited

structure Lexeme where
  kind : LexemeKind
  text : String
  span : Span
  deriving DecidableEq, Repr, Inhabited

namespace Lexeme

def isTrivia (lexeme : Lexeme) : Bool :=
  lexeme.kind == .comment || lexeme.kind == .breaks

def isSymbol (lexeme : Lexeme) (text : String) : Bool :=
  lexeme.kind == .symbol && lexeme.text == text

def isWord (lexeme : Lexeme) (text : String) : Bool :=
  lexeme.kind == .word && lexeme.text == text

/-- Cuts a symbol after its first `count` characters. -/
def split (lexeme : Lexeme) (count : Nat) : Lexeme × Lexeme :=
  let middle := lexeme.span.start + count
  ({ lexeme with
      text := String.ofList (lexeme.text.toList.take count)
      span := { lexeme.span with stop := middle } },
   { lexeme with
      text := String.ofList (lexeme.text.toList.drop count)
      span := { lexeme.span with start := middle } })

end Lexeme

/-! ## Numbers

Every function below gives the number of characters that a form takes from the
front of the input, and zero when the input does not start with the form.
-/

namespace Numeral

def isHexDigit (c : Char) : Bool :=
  c.isDigit || ('a' ≤ c && c ≤ 'f') || ('A' ≤ c && c ≤ 'F')

def isOctalDigit (c : Char) : Bool := '0' ≤ c && c ≤ '7'

def isBinaryDigit (c : Char) : Bool := c == '0' || c == '1'

/-- The rest of a run of digits, in which single underscores separate digits. -/
def moreDigits (isDigit : Char → Bool) : List Char → Nat
  | '_' :: c :: rest => if isDigit c then 2 + moreDigits isDigit rest else 0
  | c :: rest => if isDigit c then 1 + moreDigits isDigit rest else 0
  | [] => 0

def digits (isDigit : Char → Bool) : List Char → Nat
  | c :: rest => if isDigit c then 1 + moreDigits isDigit rest else 0
  | [] => 0

def optionalUnderscore : List Char → Nat
  | '_' :: _ => 1
  | _ => 0

/-- Digits that an underscore may come in front of. -/
def markedDigits (isDigit : Char → Bool) (cs : List Char) : Nat :=
  let mark := optionalUnderscore cs
  match digits isDigit (cs.drop mark) with
  | 0 => 0
  | count => mark + count

def decimalInteger : List Char → Nat
  | c :: rest =>
      if c == '0' then 1
      else if c.isDigit then 1 + markedDigits Char.isDigit rest
      else 0
  | [] => 0

/-- A numeral with a base mark, such as `0x1f`; octal numerals may lack the letter. -/
def basedInteger : List Char → Nat
  | '0' :: letter :: rest =>
      let after (isDigit : Char → Bool) : Nat :=
        match markedDigits isDigit rest with
        | 0 => 0
        | count => 2 + count
      if letter == 'x' || letter == 'X' then after isHexDigit
      else if letter == 'b' || letter == 'B' then after isBinaryDigit
      else if letter == 'o' || letter == 'O' then after isOctalDigit
      else
        match markedDigits isOctalDigit (letter :: rest) with
        | 0 => 0
        | count => 1 + count
  | _ => 0

def integer (cs : List Char) : Nat := max (decimalInteger cs) (basedInteger cs)

def sign : List Char → Nat
  | '+' :: _ => 1
  | '-' :: _ => 1
  | _ => 0

/-- An exponent introduced by one of two letters. -/
def exponent (lower upper : Char) : List Char → Nat
  | letter :: rest =>
      if letter == lower || letter == upper then
        let signed := sign rest
        match digits Char.isDigit (rest.drop signed) with
        | 0 => 0
        | count => 1 + signed + count
      else 0
  | [] => 0

def decimalFloat (cs : List Char) : Nat :=
  let whole := digits Char.isDigit cs
  match cs.drop whole with
  | '.' :: rest =>
      let fraction := digits Char.isDigit rest
      if whole == 0 && fraction == 0 then 0
      else whole + 1 + fraction + exponent 'e' 'E' (rest.drop fraction)
  | rest =>
      if whole == 0 then 0
      else
        match exponent 'e' 'E' rest with
        | 0 => 0
        | count => whole + count

def hexFloat : List Char → Nat
  | '0' :: letter :: rest =>
      if letter == 'x' || letter == 'X' then
        let whole := markedDigits isHexDigit rest
        let mantissa :=
          match rest.drop whole with
          | '.' :: more =>
              let fraction := digits isHexDigit more
              if whole == 0 && fraction == 0 then 0 else whole + 1 + fraction
          | _ => whole
        if mantissa == 0 then 0
        else
          match exponent 'p' 'P' (rest.drop mantissa) with
          | 0 => 0
          | count => 2 + mantissa + count
      else 0
  | _ => 0

/-- A form followed by the letter of imaginary numbers. -/
def imaginary (cs : List Char) (length : Nat) : Nat :=
  if length == 0 then 0
  else
    match cs.drop length with
    | 'i' :: _ => length + 1
    | _ => 0

/-- The longest numeral at the front of the input. -/
def longest (cs : List Char) : Nat :=
  let forms := [integer cs, decimalFloat cs, hexFloat cs]
  let imaginaries := (digits Char.isDigit cs :: forms).map (imaginary cs)
  (forms ++ imaginaries).foldl max 0

end Numeral

/-! ## Quoted literals -/

namespace Quoted

/-- What stands between the quotes of a raw string, with the closing quote. -/
def rawRest : List Char → Option Nat
  | [] => none
  | c :: rest => if c == '\x60' then some 1 else (rawRest rest).map (1 + ·)

/-- One character and then a fixed number of digits. -/
def exactly (isDigit : Char → Bool) (count : Nat) (rest : List Char) : Option Nat :=
  let found := rest.take count
  if found.length == count && found.all isDigit then some (1 + count) else none

/-- The length of the escape that follows a backslash in an interpreted string. -/
def stringEscape : List Char → Option Nat
  | 'x' :: rest =>
      let count := (rest.takeWhile Numeral.isHexDigit).length
      if 2 ≤ count then some (1 + count) else none
  | 'u' :: rest => exactly Numeral.isHexDigit 4 rest
  | 'U' :: rest => exactly Numeral.isHexDigit 8 rest
  | _ :: _ => some 1
  | [] => none

/-- What stands between the quotes of an interpreted string, with the closing quote. -/
def interpretedRest (cs : List Char) : Option Nat :=
  match cs with
  | [] => none
  | '\x22' :: _ => some 1
  | '\n' :: _ => none
  | '\\' :: rest =>
      match stringEscape rest with
      | none => none
      | some count => (interpretedRest (rest.drop count)).map (1 + count + ·)
  | _ :: rest => (interpretedRest rest).map (1 + ·)
termination_by cs.length
decreasing_by
  all_goals simp only [List.length_drop, List.length_cons]; omega

/-- The length of the escape that follows a backslash in a character literal. -/
def runeEscape : List Char → Option Nat
  | 'x' :: rest => exactly Numeral.isHexDigit 2 rest
  | 'u' :: rest => exactly Numeral.isHexDigit 4 rest
  | 'U' :: rest => exactly Numeral.isHexDigit 8 rest
  | c :: rest =>
      if Numeral.isOctalDigit c then exactly Numeral.isOctalDigit 2 rest
      else if "abfnrtv\\'\"".toList.contains c then some 1
      else none
  | [] => none

/-- What stands between the quotes of a character literal, with the closing quote. -/
def runeRest : List Char → Option Nat
  | '\\' :: rest =>
      match runeEscape rest with
      | none => none
      | some count =>
          match rest.drop count with
          | '\x27' :: _ => some (count + 2)
          | _ => none
  | c :: '\x27' :: _ => if c == '\x27' then none else some 2
  | _ => none

end Quoted

/-! ## Comments and symbols -/

/-- What follows the opening of a block comment, with its closing. -/
def blockCommentRest : List Char → Option Nat
  | '*' :: '/' :: _ => some 2
  | _ :: rest => (blockCommentRest rest).map (1 + ·)
  | [] => none

/-- The symbols of Go, longer ones in front of the shorter ones they start with. -/
def symbols : List String :=
  ["<<=", ">>=", "&^=", "...", "&&", "||", "<-", "++", "--", "==", "!=", "<=", ">=", ":=", "+=",
   "-=", "*=", "/=", "%=", "&=", "|=", "^=", "<<", ">>", "&^", "+", "-", "*", "/", "%", "&", "|",
   "^", "<", ">", "=", "!", "(", ")", "[", "]", "\x7b", "\x7d", ",", ";", ".", ":", "~", "\x00"]

def symbolLength (cs : List Char) : Nat :=
  match symbols.find? fun symbol => symbol.toList.isPrefixOf cs with
  | some symbol => symbol.length
  | none => 0

/-! ## Scanning -/

/-- The kind and length of the lexeme at the front of the input; zero when there is none. -/
def munch (cs : List Char) : LexemeKind × Nat :=
  match cs with
  | [] => (.symbol, 0)
  | '/' :: '/' :: rest => (.comment, 2 + (rest.takeWhile (· != '\n')).length)
  | '/' :: '*' :: rest =>
      match blockCommentRest rest with
      | some count => (.comment, 2 + count)
      | none => (.symbol, symbolLength cs)
  | '\n' :: rest => (.breaks, 1 + (rest.takeWhile (· == '\n')).length)
  | '\x60' :: rest => (.literal, (Quoted.rawRest rest).elim 0 (1 + ·))
  | '\x22' :: rest => (.literal, (Quoted.interpretedRest rest).elim 0 (1 + ·))
  | '\x27' :: rest => (.literal, (Quoted.runeRest rest).elim 0 (1 + ·))
  | c :: rest =>
      if isWordStart c then (.word, 1 + (rest.takeWhile isWordRest).length)
      else
        match Numeral.longest cs with
        | 0 => (.symbol, symbolLength cs)
        | count => (.literal, count)

def scanFrom (cs : List Char) (offset row : Nat) (found : List Lexeme) : Option (List Lexeme) :=
  match cs with
  | [] => some found.reverse
  | c :: rest =>
      if isBlank c && c != '\n' then scanFrom rest (offset + 1) row found
      else
        let (kind, count) := munch (c :: rest)
        if count = 0 then none
        else
          let taken := (c :: rest).take count
          let lastRow := row + taken.count '\n'
          let lexeme : Lexeme :=
            { kind, text := String.ofList taken
              span := { start := offset, stop := offset + taken.length, startRow := row,
                        stopRow := lastRow } }
          scanFrom ((c :: rest).drop count) (offset + taken.length) lastRow (lexeme :: found)
termination_by cs.length
decreasing_by
  · simp
  · simp only [List.length_drop, List.length_cons]; omega

/-- The lexemes of a text.  A byte order mark at its start counts as a blank. -/
def scan? (cs : List Char) : Option (List Lexeme) :=
  match cs with
  | '\uFEFF' :: rest => scanFrom rest 1 0 []
  | _ => scanFrom cs 0 0 []

end TraceWeave.Syntax
