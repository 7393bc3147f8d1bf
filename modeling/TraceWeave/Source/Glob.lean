/-!
Patterns for the paths of files.

`?` stands for a character and `*` for any number of them, but neither for a
slash; `[…]` is a choice of characters and `{…,…}` one of patterns; `**` stands
for whole folders where slashes or the ends of the pattern enclose it.
-/

namespace TraceWeave.Source

namespace Glob

inductive Token where
  | char (c : Char)
  | any
  | star
  /-- `**/` at the start. -/
  | someFolders
  /-- `/**/` in the middle. -/
  | foldersBetween
  /-- `/**` at the end. -/
  | everythingIn
  | choice (negated : Bool) (ranges : List (Char × Char))
  deriving DecidableEq, Repr

/-! ## Matching -/

/-- Some end of the text from the start of a name on. -/
def afterSlash (rest : List Char → Bool) : List Char → Bool
  | [] => false
  | c :: cs => (c == '/' && rest cs) || afterSlash rest cs

/-- Some end of the text. -/
def anyEnd (rest : List Char → Bool) : List Char → Bool
  | [] => rest []
  | c :: cs => rest (c :: cs) || anyEnd rest cs

/-- Some end of the text, with no slash in front of it. -/
def withinName (rest : List Char → Bool) : List Char → Bool
  | [] => rest []
  | c :: cs => rest (c :: cs) || (c != '/' && withinName rest cs)

def inRanges (ranges : List (Char × Char)) (c : Char) : Bool :=
  ranges.any fun (first, last) => first ≤ c && c ≤ last

/-- The tokens match the whole text. -/
def isMatch : List Token → List Char → Bool
  | [], cs => cs.isEmpty
  | .char c :: tokens, cs =>
      match cs with
      | c' :: cs => c == c' && isMatch tokens cs
      | [] => false
  | .any :: tokens, cs =>
      match cs with
      | c :: cs => c != '/' && isMatch tokens cs
      | [] => false
  | .choice negated ranges :: tokens, cs =>
      match cs with
      | c :: cs => inRanges ranges c != negated && isMatch tokens cs
      | [] => false
  | .star :: tokens, cs => withinName (isMatch tokens) cs
  | .someFolders :: tokens, cs => isMatch tokens cs || afterSlash (isMatch tokens) cs
  | .foldersBetween :: tokens, cs =>
      match cs with
      | '/' :: cs => isMatch tokens cs || afterSlash (isMatch tokens) cs
      | _ => false
  | .everythingIn :: tokens, cs =>
      match cs with
      | '/' :: cs => anyEnd (isMatch tokens) cs
      | _ => false

/-! ## Reading -/

/-- Reads a choice up to its closing bracket; a bracket or a dash at its start stands for itself. -/
def readChoice : (first inRange : Bool) → List (Char × Char) → List Char →
    Option (List (Char × Char) × List Char)
  | _, _, _, [] => none
  | first, inRange, ranges, c :: cs =>
      if c == ']' && !first then some (if inRange then ('-', '-') :: ranges else ranges, cs)
      else if c == '-' && !first && !inRange then readChoice false true ranges cs
      else
        match inRange, ranges with
        | true, (low, _) :: ranges =>
            if c < low then none else readChoice false false ((low, c) :: ranges) cs
        | _, ranges => readChoice false false ((c, c) :: ranges) cs

/-- What has been read of a pattern.  Tokens come in reverse order. -/
structure Reading where
  /-- All ways to take what stands in front of `current`. -/
  outer : List (List Token) := [[]]
  /-- Inside braces, the alternatives that are finished. -/
  finished : Option (List (List Token)) := none
  current : List Token := []

namespace Reading

def inBraces (reading : Reading) : Bool := reading.finished.isSome

/-- Nothing has been read since the start of the pattern or of the alternative. -/
def isFresh (reading : Reading) : Bool :=
  reading.current.isEmpty && (reading.inBraces || reading.outer == [[]])

def push (reading : Reading) (token : Token) : Reading :=
  { reading with current := token :: reading.current }

/-- Puts a token for folders in place of the slash in front of it. -/
def pushFolders (reading : Reading) (token : Token) : Reading :=
  match reading.current with
  | .someFolders :: _ => reading
  | .everythingIn :: _ => reading
  | _ :: tokens => { reading with current := token :: tokens }
  | [] => reading.push token

/-- Every way to take the pattern. -/
def sequences (reading : Reading) : List (List Token) := reading.outer.map (reading.current ++ ·)

def openBrace? (reading : Reading) : Option Reading :=
  if reading.inBraces then none
  else some { outer := reading.sequences, finished := some [] }

def comma (reading : Reading) : Reading :=
  match reading.finished with
  | none => reading.push (.char ',')
  | some finished =>
      { reading with finished := some (finished ++ [reading.current]), current := [] }

def closeBrace? (reading : Reading) : Option Reading :=
  reading.finished.map fun finished =>
    { outer := (finished ++ [reading.current]).flatMap fun alternative =>
        reading.outer.map (alternative ++ ·) }

/-- Reads what follows a first `*`, with the character in front of it. -/
def star (reading : Reading) (previous : Option Char) : List Char → Reading × List Char
  | '*' :: cs =>
      let stars := (reading.push .star).push .star
      if reading.isFresh then
        match cs with
        | [] => (reading.push .someFolders, [])
        | '/' :: cs => (reading.push .someFolders, cs)
        | cs => (stars, cs)
      else if previous != some '/' then (stars, cs)
      else
        match cs with
        | [] => (reading.pushFolders .everythingIn, [])
        | '/' :: cs => (reading.pushFolders .foldersBetween, cs)
        | c :: cs =>
            if reading.inBraces && (c == ',' || c == '\x7d') then
              (reading.pushFolders .everythingIn, c :: cs)
            else (stars, c :: cs)
  | cs => (reading.push .star, cs)

end Reading

/-- Whether stars read a slash too, which then stands in front of what follows. -/
def lastOf (cs rest : List Char) (c : Char) : Char :=
  (cs.take (cs.length - rest.length)).getLast?.getD c

/-- Reads a pattern; `limit` bounds the number of its parts. -/
def readFrom : (limit : Nat) → Reading → (previous : Option Char) → List Char → Option Reading
  | _, reading, _, [] => some reading
  | 0, _, _, _ => none
  | limit + 1, reading, previous, c :: cs =>
      match c with
      | '?' => readFrom limit (reading.push .any) (some c) cs
      | '*' =>
          let (reading, rest) := reading.star previous cs
          readFrom limit reading (some (lastOf cs rest c)) rest
      | '[' =>
          let (negated, cs) :=
            match cs with
            | '!' :: cs => (true, cs)
            | '^' :: cs => (true, cs)
            | cs => (false, cs)
          match readChoice true false [] cs with
          | none => none
          | some (ranges, cs) => readFrom limit (reading.push (.choice negated ranges)) (some ']') cs
      | '\x7b' =>
          match reading.openBrace? with
          | none => none
          | some reading => readFrom limit reading (some c) cs
      | '\x7d' =>
          match reading.closeBrace? with
          | none => none
          | some reading => readFrom limit reading (some c) cs
      | ',' => readFrom limit reading.comma (some c) cs
      | '\\' =>
          match cs with
          | [] => none
          | c :: cs => readFrom limit (reading.push (.char c)) (some c) cs
      | c => readFrom limit (reading.push (.char c)) (some c) cs

end Glob

/-- A pattern, as the sequences of tokens that its braces stand for. -/
structure Glob where
  sequences : List (List Glob.Token)
  deriving DecidableEq, Repr

namespace Glob

/-- A pattern of nothing but `**` stands for everything. -/
def complete (tokens : List Token) : List Token :=
  if tokens == [.someFolders] then [.someFolders, .star] else tokens

def ofText? (text : String) : Option Glob :=
  match readFrom text.length {} none text.toList with
  | none => none
  | some reading =>
      if reading.inBraces then none
      else some ⟨reading.sequences.map fun tokens => complete tokens.reverse⟩

def covers (glob : Glob) (text : String) : Bool :=
  glob.sequences.any (isMatch · text.toList)

end Glob

end TraceWeave.Source
