/-!
Blank characters, and trimming by them.  Blank means the Unicode property
`White_Space`, which holds more characters than the four of `Char.isWhitespace`.
-/

namespace TraceWeave.Text

/-- The characters with the property `White_Space`. -/
def isBlank (c : Char) : Bool :=
  let code := c.toNat
  (9 ≤ code && code ≤ 13) || code == 32 || code == 0x85 || code == 0xA0 || code == 0x1680 ||
    (0x2000 ≤ code && code ≤ 0x200A) || code == 0x2028 || code == 0x2029 || code == 0x202F ||
    code == 0x205F || code == 0x3000

theorem isBlank_of_isWhitespace {c : Char} (h : c.isWhitespace) : isBlank c := by
  simp only [Char.isWhitespace, Bool.or_eq_true, decide_eq_true_eq] at h
  rcases h with ((rfl | rfl) | rfl) | rfl <;> rfl

/-- The characters of a text without the blanks at its end. -/
def trimEndChars (cs : List Char) : List Char :=
  (cs.reverse.dropWhile isBlank).reverse

def trimEnd (text : String) : String := String.ofList (trimEndChars text.toList)

def trimStart (text : String) : String := String.ofList (text.toList.dropWhile isBlank)

def trim (text : String) : String :=
  String.ofList (trimEndChars (text.toList.dropWhile isBlank))

/-- The blanks at the end of a text. -/
def blankEnd (text : String) : String :=
  String.ofList (text.toList.reverse.takeWhile isBlank).reverse

end TraceWeave.Text
