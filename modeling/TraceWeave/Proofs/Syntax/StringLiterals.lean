import Mathlib.Data.List.DropRight
import TraceWeave.Syntax.Build
import TraceWeave.Syntax.Reader

/-!
String literals.

An interpreted string literal stands on one line between two double quotes and denotes a row of
bytes (`Quoted.value?`, the rules of the language).  The literal of a string denotes the string
(`Expr.string_denotes`).  Its contents are read back with two replacements, one after the other,
which leave the escapes of line breaks alone; that neither of them pairs characters of two
escapes is what `Quoted.replacePair_flatMap` asks for.
-/

namespace TraceWeave.Syntax

open TraceWeave.Text

namespace Quoted

/-! ## The value of a literal -/

/-- The value of a digit in a base of sixteen at most. -/
def digitValue (c : Char) : Nat :=
  if c.isDigit then c.toNat - '0'.toNat else c.toLower.toNat - 'a'.toNat + 10

def number (base : Nat) (digits : List Char) : Nat :=
  digits.foldl (fun total c => base * total + digitValue c) 0

/-- What a letter behind a backslash stands for.  The single quote has no escape in a string. -/
def letterEscape? : Char → Option Char
  | 'a' => some '\x07'
  | 'b' => some '\x08'
  | 't' => some '\t'
  | 'n' => some '\n'
  | 'v' => some '\x0b'
  | 'f' => some '\x0c'
  | 'r' => some '\r'
  | '\x22' => some '\x22'
  | '\\' => some '\\'
  | _ => none

def byte? (code : Nat) : Option (List UInt8) :=
  if code < 256 then some [code.toUInt8] else none

/-- The encoding of a character.  Halves of surrogate pairs are none. -/
def codePoint? (code : Nat) : Option (List UInt8) :=
  if code.isValidChar then some (String.utf8EncodeChar (Char.ofNat code)) else none

/-- The bytes of an escape by number, with the length of its letter and its digits. -/
def numberedValue? (isDigit : Char → Bool) (count : Nat) (rest : List Char)
    (bytes? : List Char → Option (List UInt8)) : Option (List UInt8 × Nat) :=
  match exactly isDigit count rest, bytes? (rest.take count) with
  | some length, some bytes => some (bytes, length)
  | _, _ => none

/-- The bytes of the escape behind a backslash, with its length. -/
def escapeValue? : List Char → Option (List UInt8 × Nat)
  | [] => none
  | c :: rest =>
      match letterEscape? c with
      | some meant => some (String.utf8EncodeChar meant, 1)
      | none =>
          if c = 'x' then
            numberedValue? Numeral.isHexDigit 2 rest fun digits => byte? (number 16 digits)
          else if c = 'u' then
            numberedValue? Numeral.isHexDigit 4 rest fun digits => codePoint? (number 16 digits)
          else if c = 'U' then
            numberedValue? Numeral.isHexDigit 8 rest fun digits => codePoint? (number 16 digits)
          else if Numeral.isOctalDigit c then
            numberedValue? Numeral.isOctalDigit 2 rest fun digits => byte? (number 8 (c :: digits))
          else none

/-- The bytes of what stands behind the opening quote, which ends with the closing one. -/
def interpretedValue? (cs : List Char) : Option (List UInt8) :=
  match cs with
  | [] => none
  | c :: rest =>
      if c = '\x22' then if rest = [] then some [] else none
      else if c = '\n' then none
      else if c = '\\' then
        match escapeValue? rest with
        | none => none
        | some (bytes, length) => (interpretedValue? (rest.drop length)).map (bytes ++ ·)
      else (interpretedValue? rest).map (String.utf8EncodeChar c ++ ·)
termination_by cs.length
decreasing_by
  all_goals simp only [List.length_drop, List.length_cons]; omega

/-- The bytes that an interpreted string literal denotes; a text that is none has no value. -/
def value? (literal : String) : Option ByteArray :=
  match literal.toList with
  | '\x22' :: rest => (interpretedValue? rest).map List.toByteArray
  | _ => none

/-! ## Escapes -/

/-- A character is written as an escape of one letter or stands for itself. -/
theorem escape_cases (c : Char) :
    (∃ letter, letterEscape? letter = some c ∧ escape c = ['\\', letter]) ∨
      (c ≠ '\x22' ∧ c ≠ '\\' ∧ c ≠ '\n' ∧ escape c = [c]) := by
  unfold escape
  split
  · exact .inl ⟨'\x22', rfl, rfl⟩
  · exact .inl ⟨'\\', rfl, rfl⟩
  · exact .inl ⟨'n', rfl, rfl⟩
  · next hquote hslash hbreak => exact .inr ⟨hquote, hslash, hbreak, rfl⟩

theorem ne_break_of_letterEscape? {letter c : Char} (h : letterEscape? letter = some c) :
    letter ≠ '\n' := by
  rintro rfl
  contradiction

theorem break_not_mem_escape (c : Char) : '\n' ∉ escape c := by
  obtain ⟨letter, hletter, h⟩ | ⟨-, -, hbreak, h⟩ := escape_cases c
  · simp [h, (ne_break_of_letterEscape? hletter).symm]
  · simp [h, hbreak.symm]

theorem toList_encode (value : String) :
    (encode value).toList = '\x22' :: value.toList.flatMap escape ++ ['\x22'] := by
  simp [encode, String.toList_append]

/-! ## Reading the value -/

theorem interpretedValue?_quote : interpretedValue? ['\x22'] = some [] := by
  simp [interpretedValue?]

theorem interpretedValue?_letter {letter c : Char} (h : letterEscape? letter = some c)
    (rest : List Char) :
    interpretedValue? ('\\' :: letter :: rest) =
      (interpretedValue? rest).map (String.utf8EncodeChar c ++ ·) := by
  rw [interpretedValue?]
  simp [escapeValue?, h]

theorem interpretedValue?_self {c : Char} (hquote : c ≠ '\x22') (hslash : c ≠ '\\')
    (hbreak : c ≠ '\n') (rest : List Char) :
    interpretedValue? (c :: rest) =
      (interpretedValue? rest).map (String.utf8EncodeChar c ++ ·) := by
  rw [interpretedValue?]
  simp [hquote, hslash, hbreak]

theorem interpretedValue?_flatMap (cs : List Char) :
    interpretedValue? (cs.flatMap escape ++ ['\x22']) = some (cs.flatMap String.utf8EncodeChar) := by
  induction cs with
  | nil => exact interpretedValue?_quote
  | cons c cs ih =>
      rw [List.flatMap_cons, List.flatMap_cons, List.append_assoc]
      obtain ⟨letter, hletter, h⟩ | ⟨hquote, hslash, hbreak, h⟩ := escape_cases c
      · rw [h, List.cons_append, List.singleton_append, interpretedValue?_letter hletter, ih]
        rfl
      · rw [h, List.singleton_append, interpretedValue?_self hquote hslash hbreak, ih]
        rfl

theorem value?_encode (value : String) : value? (encode value) = some value.toByteArray := by
  have hbytes : (value.toList.flatMap String.utf8EncodeChar).toByteArray = value.toByteArray := by
    rw [← List.utf8Encode, ← String.toByteArray_ofList, String.ofList_toList]
  rw [value?, toList_encode, List.cons_append]
  simp only [interpretedValue?_flatMap, Option.map_some, hbytes]

-- A literal by other hands: escapes by number are read as well, and a byte is not a character.
example : value? "\"\\u00e9\\x41\\351\"" = some ("éA".toByteArray.push 0xe9) := by cbv

/-! ## Scanning -/

theorem stringEscape_letter {letter c : Char} (h : letterEscape? letter = some c)
    (rest : List Char) : stringEscape (letter :: rest) = some 1 := by
  unfold stringEscape
  split
  · next heq => simp_all [letterEscape?]
  · next heq => simp_all [letterEscape?]
  · next heq => simp_all [letterEscape?]
  · rfl
  · contradiction

theorem interpretedRest_letter {letter c : Char} (h : letterEscape? letter = some c)
    (rest : List Char) :
    interpretedRest ('\\' :: letter :: rest) = (interpretedRest rest).map (1 + 1 + ·) := by
  rw [interpretedRest]
  simp only [stringEscape_letter h, List.drop_succ_cons, List.drop_zero]

theorem interpretedRest_self {c : Char} (hquote : c ≠ '\x22') (hslash : c ≠ '\\')
    (hbreak : c ≠ '\n') (rest : List Char) :
    interpretedRest (c :: rest) = (interpretedRest rest).map (1 + ·) := by
  rw [interpretedRest]
  · exact hquote
  · exact hbreak
  · exact hslash

theorem interpretedRest_flatMap (cs rest : List Char) :
    interpretedRest (cs.flatMap escape ++ '\x22' :: rest) =
      some ((cs.flatMap escape).length + 1) := by
  induction cs with
  | nil => simp [interpretedRest]
  | cons c cs ih =>
      rw [List.flatMap_cons, List.append_assoc]
      obtain ⟨letter, hletter, h⟩ | ⟨hquote, hslash, hbreak, h⟩ := escape_cases c
      · rw [h, List.cons_append, List.singleton_append, interpretedRest_letter hletter, ih]
        simp only [Option.map_some, List.cons_append, List.nil_append, List.length_cons,
          Option.some.injEq]
        omega
      · rw [h, List.singleton_append, interpretedRest_self hquote hslash hbreak, ih]
        simp only [Option.map_some, List.cons_append, List.nil_append, List.length_cons,
          Option.some.injEq]
        omega

theorem munch_encode (value : String) (rest : List Char) :
    munch ((encode value).toList ++ rest) = (.literal, (encode value).length) := by
  rw [← String.length_toList, toList_encode, List.cons_append, List.cons_append, List.append_assoc,
    List.singleton_append, munch]
  simp only [interpretedRest_flatMap, Option.elim_some, List.length_cons, List.length_append,
    List.length_nil, Prod.mk.injEq, true_and]
  omega

/-! ## Escaped quotes -/

/-- An odd number of backslashes stands before every double quote. -/
def QuotesEscaped (cs : List Char) : Prop :=
  ∀ front back, cs = front ++ '\x22' :: back → (front.rtakeWhile (· == '\\')).length % 2 = 1

/-- The backslashes at the end of a row of escapes are pairs. -/
theorem backslashes_flatMap (cs : List Char) :
    ((cs.flatMap escape).rtakeWhile (· == '\\')).length % 2 = 0 := by
  induction cs using List.reverseRecOn with
  | nil => rfl
  | append_singleton cs c ih =>
      rw [List.flatMap_append, List.flatMap_singleton]
      obtain ⟨letter, hletter, h⟩ | ⟨-, hslash, -, h⟩ := escape_cases c
      · rw [h, ← List.singleton_append, ← List.append_assoc, List.rtakeWhile_concat]
        by_cases hslash : letter = '\\'
        · simp [hslash, ih]
        · simp [hslash]
      · simp [h, hslash]

/-- A double quote stands at the end of its escape or behind the escape at hand. -/
theorem quote_in_escape {c : Char} {rest front back : List Char}
    (h : escape c ++ rest = front ++ '\x22' :: back) :
    front = ['\\'] ∨ ∃ more, front = escape c ++ more ∧ rest = more ++ '\x22' :: back := by
  obtain ⟨letter, -, hc⟩ | ⟨hquote, -, -, hc⟩ := escape_cases c
  · rw [hc] at h ⊢
    match front with
    | [] => simp at h
    | [first] =>
        obtain ⟨rfl, -⟩ := List.cons_eq_cons.1 h
        exact .inl rfl
    | first :: second :: more =>
        obtain ⟨rfl, htail⟩ := List.cons_eq_cons.1 h
        obtain ⟨rfl, hrest⟩ := List.cons_eq_cons.1 htail
        exact .inr ⟨more, rfl, hrest⟩
  · rw [hc] at h ⊢
    match front with
    | [] => exact absurd (List.cons_eq_cons.1 h).1 hquote
    | first :: more =>
        obtain ⟨rfl, hrest⟩ := List.cons_eq_cons.1 h
        exact .inr ⟨more, rfl, hrest⟩

theorem quote_in_flatMap {cs front back : List Char}
    (h : cs.flatMap escape = front ++ '\x22' :: back) :
    ∃ before : List Char, front = before.flatMap escape ++ ['\\'] := by
  induction cs generalizing front with
  | nil => simp at h
  | cons c cs ih =>
      obtain rfl | ⟨more, rfl, hrest⟩ := quote_in_escape h
      · exact ⟨[], rfl⟩
      · obtain ⟨before, rfl⟩ := ih hrest
        exact ⟨c :: before, by simp⟩

theorem quotesEscaped_flatMap (cs : List Char) : QuotesEscaped (cs.flatMap escape) := by
  intro front back h
  obtain ⟨before, rfl⟩ := quote_in_flatMap h
  have hpairs := backslashes_flatMap before
  rw [List.rtakeWhile_concat_pos _ _ _ rfl, List.length_append, List.length_singleton]
  omega

/-! ## Undoing escapes -/

section

variable {first second replacement : Char}

/-- A character that does not start the pair stays. -/
theorem replacePair_cons {c : Char} {rest : List Char}
    (h : c ≠ first ∨ rest.head? ≠ some second) :
    replacePair first second replacement (c :: rest) =
      c :: replacePair first second replacement rest := by
  cases rest with
  | nil => rfl
  | cons next rest =>
      rw [replacePair, if_neg]
      simpa [Decidable.imp_iff_not_or] using h

/-- Pieces that are replaced one by one, whatever pieces follow, are replaced in a row. -/
theorem replacePair_flatMap {piece replaced : Char → List Char}
    (h : ∀ (c : Char) (cs : List Char),
      replacePair first second replacement (piece c ++ cs.flatMap piece) =
        replaced c ++ replacePair first second replacement (cs.flatMap piece)) (cs : List Char) :
    replacePair first second replacement (cs.flatMap piece) = cs.flatMap replaced := by
  induction cs with
  | nil => rfl
  | cons c cs ih => rw [List.flatMap_cons, h, ih, List.flatMap_cons]

end

/-- What is left of an escape when double quotes have been undone. -/
def halfEscape (c : Char) : List Char := if c = '\x22' then [c] else escape c

/-- A line break as it is spelt in a literal, every other character as it is. -/
def spellBreak (c : Char) : List Char := if c = '\n' then ['\\', 'n'] else [c]

def spellBreaks (value : String) : String := String.ofList (value.toList.flatMap spellBreak)

theorem head?_flatMap_escape (cs : List Char) : (cs.flatMap escape).head? ≠ some '\x22' := by
  cases cs with
  | nil => simp
  | cons c cs =>
      obtain ⟨letter, -, h⟩ | ⟨hquote, -, -, h⟩ := escape_cases c
      · simp [h]
      · simpa [h] using hquote

/-- The backslashes of an escape are not taken for that of a double quote behind them. -/
theorem replaceQuotes_flatMap (cs : List Char) :
    replacePair '\\' '\x22' '\x22' (cs.flatMap escape) = cs.flatMap halfEscape := by
  refine replacePair_flatMap (fun c cs => ?_) cs
  have hhead := head?_flatMap_escape cs
  generalize cs.flatMap escape = rest at hhead ⊢
  unfold halfEscape escape
  split
  · simp [replacePair]
  · simp [replacePair_cons, hhead]
  · simp [replacePair_cons]
  · next _ hslash _ => simp [replacePair_cons (.inl hslash)]

/-- The backslash of a line break is not taken for the second one of a pair. -/
theorem replaceBackslashes_flatMap (cs : List Char) :
    replacePair '\\' '\\' '\\' (cs.flatMap halfEscape) = cs.flatMap spellBreak := by
  refine replacePair_flatMap (fun c cs => ?_) cs
  generalize cs.flatMap halfEscape = rest
  unfold halfEscape escape spellBreak
  split
  · next hquote => simp [hquote, replacePair_cons]
  · split
    · contradiction
    · simp [replacePair]
    · simp [replacePair_cons]
    · next hslash hbreak => simp [replacePair_cons (.inl hslash), if_neg hbreak]

theorem trim_quoted (inner : List Char) :
    (trim (String.ofList ('\x22' :: inner ++ ['\x22']))).toList = '\x22' :: inner ++ ['\x22'] := by
  have hquote : isBlank '\x22' = false := rfl
  simp [trim, trimEndChars, hquote]

theorem unquote_encode (value : String) : unquote (encode value) = spellBreaks value := by
  have htrim : (trim (encode value)).toList = (encode value).toList := by
    rw [← String.ofList_toList (s := encode value), toList_encode, trim_quoted, String.toList_ofList]
  have hbetween : between? '\x22' (encode value).toList = some (value.toList.flatMap escape) := by
    simp [toList_encode, between?]
  simp only [unquote, htrim, hbetween, replaceQuotes_flatMap, replaceBackslashes_flatMap,
    spellBreaks]

theorem length_flatMap_spellBreak (cs : List Char) :
    (cs.flatMap spellBreak).length = cs.length + cs.count '\n' := by
  induction cs with
  | nil => rfl
  | cons c cs ih =>
      rw [List.flatMap_cons, List.length_append, ih, List.length_cons]
      by_cases hbreak : c = '\n'
      · rw [hbreak, List.count_cons_self]
        simp only [spellBreak, if_pos, List.length_cons, List.length_nil]
        omega
      · rw [List.count_cons_of_ne hbreak]
        simp only [spellBreak, if_neg hbreak, List.length_cons, List.length_nil]
        omega

theorem spellBreaks_eq_self_iff {value : String} :
    spellBreaks value = value ↔ '\n' ∉ value.toList := by
  constructor
  · intro h
    have hchars : value.toList.flatMap spellBreak = value.toList := by
      rw [← String.toList_ofList (l := value.toList.flatMap spellBreak), ← spellBreaks, h]
    have hlength := length_flatMap_spellBreak value.toList
    rw [hchars] at hlength
    exact List.count_eq_zero.1 (by omega)
  · intro h
    have hkept : ∀ c ∈ value.toList, spellBreak c = [c] := by
      intro c hc
      have hbreak : c ≠ '\n' := ne_of_mem_of_not_mem hc h
      simp [spellBreak, hbreak]
    rw [spellBreaks, List.flatMap_congr hkept, List.flatMap_singleton', String.ofList_toList]

end Quoted

theorem Expr.text_string (value : String) : (Expr.string value).text = Quoted.encode value := by
  simp [text, string, literal, write, ExprKind.write]

/--
The literal of a string stands on one line between double quotes, the scanner takes it whole, and
it denotes the string.  Reading it gives the string back with its line breaks spelt out.
-/
theorem Expr.string_denotes (value : String) :
    (∃ inner, (Expr.string value).text.toList = '\x22' :: inner ++ ['\x22'] ∧
      '\n' ∉ inner ∧ Quoted.QuotesEscaped inner) ∧
    (∀ rest, munch ((Expr.string value).text.toList ++ rest) =
      (.literal, (Expr.string value).text.length)) ∧
    Quoted.value? (Expr.string value).text = some value.toByteArray ∧
    (∀ other, (Expr.string other).text = (Expr.string value).text ↔ other = value) ∧
    unquote (Expr.string value).text = Quoted.spellBreaks value ∧
    (unquote (Expr.string value).text = value ↔ '\n' ∉ value.toList) := by
  simp only [Expr.text_string]
  refine ⟨⟨value.toList.flatMap Quoted.escape, Quoted.toList_encode value, ?_,
      Quoted.quotesEscaped_flatMap value.toList⟩, Quoted.munch_encode value,
    Quoted.value?_encode value, fun other => ⟨fun h => ?_, congrArg Quoted.encode⟩,
    Quoted.unquote_encode value, ?_⟩
  · simp [Quoted.break_not_mem_escape]
  · have hvalue := Quoted.value?_encode other
    rw [h, Quoted.value?_encode value] at hvalue
    exact (String.toByteArray_inj.1 (Option.some.inj hvalue)).symm
  · rw [Quoted.unquote_encode, Quoted.spellBreaks_eq_self_iff]

end TraceWeave.Syntax
