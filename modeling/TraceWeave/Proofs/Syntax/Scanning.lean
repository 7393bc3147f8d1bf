import TraceWeave.Proofs.Syntax.Marks

/-!
Scanning a row of marks.

Marks that stand apart are scanned one by one (`scanFrom_render`).  The exception are
signs: two of them may make one lexeme, which the grammar cuts in two again.
-/

namespace TraceWeave.Syntax

open TraceWeave.Text

/-! ## Characters -/

/-- A range of characters above ASCII that holds no blank. -/
def lacksBlanks (range : Nat × Nat) : Bool :=
  [(0x85, 0x85), (0xA0, 0xA0), (0x1680, 0x1680), (0x2000, 0x200A), (0x2028, 0x2029),
    (0x202F, 0x202F), (0x205F, 0x205F), (0x3000, 0x3000)].all fun blanks =>
      range.2 < blanks.1 || blanks.2 < range.1

theorem wordStartRanges_lack_blanks : ∀ range ∈ wordStartRanges, lacksBlanks range = true := by
  decide +kernel

/-- Letters of ASCII lie between the capital and the small ones. -/
theorem toNat_of_isAlpha {c : Char} (h : c.isAlpha = true) : 65 ≤ c.toNat ∧ c.toNat ≤ 122 := by
  have hranges : (decide (c.val ≥ 'A'.val ∧ c.val ≤ 'Z'.val) ||
      decide (c.val ≥ 'a'.val) && decide (c.val ≤ 'z'.val)) = true := h
  have hcodes : 'A'.val.toNat = 65 ∧ 'Z'.val.toNat = 90 ∧ 'a'.val.toNat = 97 ∧
      'z'.val.toNat = 122 := by decide
  have hcode : c.toNat = c.val.toNat := rfl
  simp only [Bool.or_eq_true, Bool.and_eq_true, decide_eq_true_eq, ge_iff_le,
    UInt32.le_iff_toNat_le] at hranges
  omega

theorem le_toNat_of_isWordStart {c : Char} (h : isWordStart c = true) : 65 ≤ c.toNat := by
  simp only [isWordStart, Bool.or_eq_true, Bool.and_eq_true, decide_eq_true_eq, beq_iff_eq] at h
  obtain (halpha | rfl) | ⟨habove, -⟩ := h
  · exact (toNat_of_isAlpha halpha).1
  · decide
  · omega

theorem isDigit_of_isWordStart {c : Char} (h : isWordStart c = true) : c.isDigit = false := by
  have hlow := le_toNat_of_isWordStart h
  have hcode : c.toNat = c.val.toNat := rfl
  simp only [Char.isDigit, Bool.and_eq_false_iff, decide_eq_false_iff_not, ge_iff_le,
    UInt32.le_iff_toNat_le]
  refine .inr fun hhigh => ?_
  have hnine : '9'.val.toNat = 57 := rfl
  omega

theorem isBlank_of_isWordStart {c : Char} (h : isWordStart c = true) : isBlank c = false := by
  have hlow := le_toNat_of_isWordStart h
  simp only [isBlank, Bool.or_eq_false_iff, Bool.and_eq_false_iff, decide_eq_false_iff_not,
    beq_eq_false_iff_ne]
  simp only [isWordStart, Bool.or_eq_true, Bool.and_eq_true, decide_eq_true_eq, beq_iff_eq] at h
  obtain (halpha | rfl) | ⟨-, hranges⟩ := h
  · have hhigh := (toNat_of_isAlpha halpha).2
    omega
  · decide
  · obtain ⟨range, hmem, hrange⟩ := List.any_eq_true.1 hranges
    have hlacks := wordStartRanges_lack_blanks range hmem
    simp only [lacksBlanks, List.all_cons, List.all_nil, Bool.and_true, Bool.and_eq_true,
      Bool.or_eq_true, decide_eq_true_eq] at hlacks hrange
    omega

/-! ## Symbols -/

/-- The characters that stand behind a symbol in longer ones. -/
def continuations (symbol : String) : List Char :=
  symbols.filterMap fun other =>
    if symbol.toList.isPrefixOf other.toList then (other.toList.drop symbol.length).head? else none

/-- The character makes the symbol go on. -/
def clings (symbol : String) (c : Char) : Bool :=
  (continuations symbol).contains c || (symbol == "/" && (c == '/' || c == '*')) ||
    (symbol == "." && c.isDigit)

theorem symbols_pairwise :
    symbols.Pairwise fun first second => first.toList.isPrefixOf second.toList = false := by
  decide

theorem symbols_ordered {front back : List String} {symbol : String}
    (h : symbols = front ++ symbol :: back) {other : String} (hmem : other ∈ front) :
    other.toList.isPrefixOf symbol.toList = false := by
  have hpairwise := symbols_pairwise
  rw [h, List.pairwise_append] at hpairwise
  exact hpairwise.2.2 other hmem symbol List.mem_cons_self

theorem symbolLength_append {symbol : String} (hmem : symbol ∈ symbols) {rest : List Char}
    (hrest : ∀ c ∈ rest.head?, clings symbol c = false) :
    symbolLength (symbol.toList ++ rest) = symbol.length := by
  obtain ⟨front, back, hsymbols⟩ := List.append_of_mem hmem
  have hfind : symbols.find? (fun other => other.toList.isPrefixOf (symbol.toList ++ rest)) =
      some symbol := by
    refine List.find?_eq_some_iff_append.2 ⟨?_, front, back, hsymbols, fun other hother => ?_⟩
    · simp
    · have hshorter := symbols_ordered hsymbols hother
      have hother' : other ∈ symbols := by
        rw [hsymbols]
        exact List.mem_append_left _ hother
      rw [Bool.not_eq_true', ← Bool.not_eq_true, List.isPrefixOf_iff_prefix]
      intro hprefix
      rw [← Bool.not_eq_true, List.isPrefixOf_iff_prefix] at hshorter
      obtain hle | hlt := Nat.lt_or_ge symbol.toList.length other.toList.length
      · -- The symbol and the character behind it start the other one.
        cases rest with
        | nil =>
            have := hprefix.length_le
            simp at this hle
            omega
        | cons c rest =>
            have hcling := hrest c rfl
            have hfront : symbol.toList ++ [c] <+: symbol.toList ++ c :: rest := ⟨rest, by simp⟩
            have hlength : (symbol.toList ++ [c]).length ≤ other.toList.length := by
              rw [List.length_append, List.length_singleton]
              exact hle
            obtain ⟨more, hmore⟩ := List.prefix_of_prefix_length_le hfront hprefix hlength
            have hcontinues : c ∈ continuations symbol := by
              refine List.mem_filterMap.2 ⟨other, hother', ?_⟩
              rw [← hmore, ← String.length_toList]
              simp
            simp [clings, hcontinues] at hcling
      · exact hshorter (List.prefix_of_prefix_length_le hprefix (List.prefix_append _ _) hlt)
  unfold symbolLength
  rw [hfind]

/-! ## Numerals -/

theorem digits_eq_zero {isDigit : Char → Bool} {c : Char} (h : isDigit c = false)
    (rest : List Char) : Numeral.digits isDigit (c :: rest) = 0 := by
  simp [Numeral.digits, h]

/-- Only a digit, or a point with a digit behind it, starts a numeral. -/
theorem longest_eq_zero {c : Char} {rest : List Char} (hdigit : c.isDigit = false)
    (hpoint : c = '.' → ∀ d ∈ rest.head?, d.isDigit = false) :
    Numeral.longest (c :: rest) = 0 := by
  have hzero : c ≠ '0' := by
    rintro rfl
    contradiction
  have hwhole := digits_eq_zero hdigit rest
  have hdecimal : Numeral.decimalInteger (c :: rest) = 0 := by
    simp [Numeral.decimalInteger, hzero, hdigit]
  have hbased : Numeral.basedInteger (c :: rest) = 0 := by
    simp [Numeral.basedInteger, hzero]
  have hhex : Numeral.hexFloat (c :: rest) = 0 := by
    simp [Numeral.hexFloat, hzero]
  have hfloat : Numeral.decimalFloat (c :: rest) = 0 := by
    unfold Numeral.decimalFloat
    simp only [hwhole, List.drop_zero]
    split
    · next rest' heq =>
      obtain ⟨rfl, rfl⟩ := List.cons.inj heq
      have hfraction : Numeral.digits Char.isDigit rest = 0 := by
        cases rest with
        | nil => rfl
        | cons d rest => exact digits_eq_zero (hpoint rfl d rfl) rest
      simp [hfraction]
    · rfl
  simp [Numeral.longest, Numeral.integer, hdecimal, hbased, hhex, hfloat, hwhole,
    Numeral.imaginary]

/-! ## Single lexemes -/

/-- What scanning needs to know of the first character of a symbol. -/
def opensSymbol (c : Char) : Bool :=
  !isWordStart c && !isBlank c && !c.isDigit && !(['\n', '\x60', '\x22', '\x27'].contains c)

theorem opensSymbol_of_mem : ∀ symbol ∈ symbols, symbol.toList.head?.any opensSymbol = true := by
  decide +kernel

theorem slash_of_mem : ∀ symbol ∈ symbols, symbol.toList.head? = some '/' →
    symbol = "/" ∨ symbol = "/=" := by
  decide +kernel

theorem point_of_mem : ∀ symbol ∈ symbols, symbol.toList.head? = some '.' →
    symbol = "." ∨ symbol = "..." := by
  decide +kernel

theorem munch_symbol {symbol : String} (hmem : symbol ∈ symbols) {rest : List Char}
    (hrest : ∀ c ∈ rest.head?, clings symbol c = false) :
    munch (symbol.toList ++ rest) = (.symbol, symbol.length) := by
  have hlength := symbolLength_append hmem hrest
  have hopens := opensSymbol_of_mem symbol hmem
  obtain ⟨c, more, hsymbol⟩ : ∃ c more, symbol.toList = c :: more := by
    cases hlist : symbol.toList with
    | nil => simp [hlist] at hopens
    | cons c more => exact ⟨c, more, rfl⟩
  have hslash : c = '/' → ∀ d ∈ (more ++ rest).head?, d ≠ '/' ∧ d ≠ '*' := by
    rintro rfl d hd
    obtain rfl | rfl := slash_of_mem symbol hmem (by rw [hsymbol]; rfl)
    · obtain rfl : more = [] := by simpa using hsymbol.symm
      have hcling := hrest d hd
      constructor <;> rintro rfl <;> simp [clings] at hcling
    · obtain rfl : more = ['='] := by simpa using hsymbol.symm
      obtain rfl : d = '=' := by simpa using hd.symm
      decide
  have hpoint : c = '.' → ∀ d ∈ (more ++ rest).head?, d.isDigit = false := by
    rintro rfl d hd
    obtain rfl | rfl := point_of_mem symbol hmem (by rw [hsymbol]; rfl)
    · obtain rfl : more = [] := by simpa using hsymbol.symm
      have hcling := hrest d hd
      simpa [clings] using (Bool.or_eq_false_iff.1 hcling).2
    · obtain rfl : more = ['.', '.'] := by simpa using hsymbol.symm
      obtain rfl : d = '.' := by simpa using hd.symm
      decide
  rw [hsymbol] at hlength hopens ⊢
  simp only [List.head?_cons, Option.any_some, opensSymbol, Bool.and_eq_true,
    Bool.not_eq_true'] at hopens
  obtain ⟨⟨⟨hword, hblank⟩, hdigit⟩, hquotes⟩ := hopens
  have hnumeral := longest_eq_zero hdigit hpoint
  rw [List.cons_append] at hlength ⊢
  unfold munch
  split
  · contradiction
  · next heq =>
    obtain ⟨rfl, hrest'⟩ := List.cons.inj heq
    simp [hrest'] at hslash
  · next heq =>
    obtain ⟨rfl, hrest'⟩ := List.cons.inj heq
    simp [hrest'] at hslash
  · next heq =>
    obtain ⟨rfl, hrest'⟩ := List.cons.inj heq
    simp at hquotes
  · next heq =>
    obtain ⟨rfl, hrest'⟩ := List.cons.inj heq
    simp at hquotes
  · next heq =>
    obtain ⟨rfl, hrest'⟩ := List.cons.inj heq
    simp at hquotes
  · next heq =>
    obtain ⟨rfl, hrest'⟩ := List.cons.inj heq
    simp at hquotes
  · next heq =>
    obtain ⟨rfl, rfl⟩ := List.cons.inj heq
    simp only [hword, Bool.false_eq_true, if_false, hnumeral]
    rw [hlength]

theorem takeWhile_append_eq {p : Char → Bool} {front rest : List Char} (hfront : front.all p = true)
    (hrest : ∀ c ∈ rest.head?, p c = false) : (front ++ rest).takeWhile p = front := by
  have hnone : rest.takeWhile p = [] := by
    cases rest with
    | nil => rfl
    | cons c rest => simp [hrest c rfl]
  rw [List.takeWhile_append_of_pos (List.all_eq_true.1 hfront), hnone, List.append_nil]

theorem munch_word {word : String} (hword : isWordChars word.toList = true) {rest : List Char}
    (hrest : ∀ c ∈ rest.head?, isWordRest c = false) :
    munch (word.toList ++ rest) = (.word, word.length) := by
  rw [← String.length_toList]
  cases hlist : word.toList with
  | nil => simp [hlist, isWordChars] at hword
  | cons c more =>
      rw [hlist, isWordChars, Bool.and_eq_true] at hword
      obtain ⟨hstart, hmore⟩ := hword
      have htaken := takeWhile_append_eq hmore hrest
      have hnot : ∀ d, isWordStart d = false → c ≠ d := by
        rintro d hd rfl
        simp [hd] at hstart
      rw [List.cons_append]
      unfold munch
      split
      · contradiction
      · next heq => exact absurd (List.cons.inj heq).1 (hnot _ (by decide +kernel))
      · next heq => exact absurd (List.cons.inj heq).1 (hnot _ (by decide +kernel))
      · next heq => exact absurd (List.cons.inj heq).1 (hnot _ (by decide +kernel))
      · next heq => exact absurd (List.cons.inj heq).1 (hnot _ (by decide +kernel))
      · next heq => exact absurd (List.cons.inj heq).1 (hnot _ (by decide +kernel))
      · next heq => exact absurd (List.cons.inj heq).1 (hnot _ (by decide +kernel))
      · next heq =>
        obtain ⟨rfl, rfl⟩ := List.cons.inj heq
        simp only [hstart, if_true, htaken, List.length_cons, Nat.add_comm]

theorem munch_breaks {count : Nat} (hcount : 0 < count) {rest : List Char}
    (hrest : ∀ c ∈ rest.head?, c ≠ '\n') :
    munch (List.replicate count '\n' ++ rest) =
      (.breaks, (List.replicate count '\n').length) := by
  obtain ⟨more, rfl⟩ := Nat.exists_eq_succ_of_ne_zero (Nat.pos_iff_ne_zero.1 hcount)
  have hall : (List.replicate more '\n').all (· == '\n') = true := by simp
  have hstop : ∀ c ∈ rest.head?, (c == '\n') = false := fun c hc => by simpa using hrest c hc
  have htaken := takeWhile_append_eq hall hstop
  rw [List.replicate_succ, List.cons_append]
  simp only [munch, htaken, List.length_cons, Nat.add_comm]

theorem scanFrom_blank {c : Char} (hblank : isBlank c = true) (hbreak : c ≠ '\n')
    (rest : List Char) (offset row : Nat) (found : List Lexeme) :
    scanFrom (c :: rest) offset row found = scanFrom rest (offset + 1) row found := by
  rw [scanFrom.eq_def]
  simp [hblank, hbreak]

/-- Scanning takes what `munch` finds at the front of the input. -/
theorem scanFrom_append {taken : List Char} {kind : LexemeKind} {rest : List Char}
    (hmunch : munch (taken ++ rest) = (kind, taken.length))
    (hfront : taken.head?.any (fun c => !isBlank c || c == '\n') = true) (offset row : Nat)
    (found : List Lexeme) :
    scanFrom (taken ++ rest) offset row found =
      scanFrom rest (offset + taken.length) (row + taken.count '\n')
        (⟨kind, String.ofList taken,
          ⟨offset, offset + taken.length, row, row + taken.count '\n'⟩⟩ :: found) := by
  cases taken with
  | nil => simp at hfront
  | cons c more =>
      have hskip : (isBlank c && c != '\n') = false := by
        simp only [List.head?_cons, Option.any_some, Bool.or_eq_true, Bool.not_eq_true',
          beq_iff_eq] at hfront
        obtain hblank | rfl := hfront
        · simp [hblank]
        · rfl
      rw [List.cons_append] at hmunch ⊢
      rw [scanFrom.eq_def]
      simp only [hskip, Bool.false_eq_true, if_false, hmunch]
      rw [← List.cons_append, List.take_left, List.drop_left]
      simp

/-! ## Rows of marks -/

/-- Pairs of signs that make one lexeme. -/
def fusedSigns : List String := ["++", "--", "&&", "&^"]

/-- Marks that are scanned one by one, but for signs behind signs. -/
inductive Apart : List Mark → Prop where
  | nil : Apart []
  | blank {c : Char} {marks : List Mark} :
      c = ' ' ∨ c = '\t' → Apart marks → Apart (.blank c :: marks)
  | breaks {count : Nat} {marks : List Mark} :
      0 < count → (∀ c ∈ (render marks).head?, c ≠ '\n') → Apart marks →
      Apart (.breaks count :: marks)
  | word {text : String} {marks : List Mark} :
      isWordChars text.toList = true → (∀ c ∈ (render marks).head?, isWordRest c = false) →
      Apart marks → Apart (.word text :: marks)
  | symbol {text : String} {marks : List Mark} :
      text ∈ symbols → (∀ c ∈ (render marks).head?, clings text c = false) → Apart marks →
      Apart (.symbol text :: marks)
  | sign {text : String} {marks : List Mark} :
      text ∈ unaryOperators → (∀ c ∈ (render marks).head?, clings text c = false) → Apart marks →
      Apart (.sign text :: marks)
  | signs {text next : String} {marks : List Mark} :
      text ∈ unaryOperators → Apart (.sign next :: marks) → Apart (.sign text :: .sign next :: marks)

/-- A lexeme of the kind and the text that lies on one row. -/
structure Lexeme.Is (row : Nat) (kind : LexemeKind) (text : String) (lexeme : Lexeme) : Prop where
  kind_eq : lexeme.kind = kind
  text_eq : lexeme.text = text
  startRow_eq : lexeme.span.startRow = row
  stopRow_eq : lexeme.span.stopRow = row

/-- The lexemes of a list of marks that starts on a row. -/
inductive Lexed : Nat → List Lexeme → List Mark → Prop where
  | nil {row : Nat} : Lexed row [] []
  | blank {row : Nat} {c : Char} {lexemes : List Lexeme} {marks : List Mark} :
      Lexed row lexemes marks → Lexed row lexemes (.blank c :: marks)
  | breaks {row count : Nat} {lexeme : Lexeme} {lexemes : List Lexeme} {marks : List Mark} :
      lexeme.kind = .breaks → Lexed (row + count) lexemes marks →
      Lexed row (lexeme :: lexemes) (.breaks count :: marks)
  | word {row : Nat} {text : String} {lexeme : Lexeme} {lexemes : List Lexeme}
      {marks : List Mark} :
      lexeme.Is row .word text → Lexed row lexemes marks →
      Lexed row (lexeme :: lexemes) (.word text :: marks)
  | symbol {row : Nat} {text : String} {lexeme : Lexeme} {lexemes : List Lexeme}
      {marks : List Mark} :
      lexeme.Is row .symbol text → Lexed row lexemes marks →
      Lexed row (lexeme :: lexemes) (.symbol text :: marks)
  | sign {row : Nat} {text : String} {lexeme : Lexeme} {lexemes : List Lexeme}
      {marks : List Mark} :
      lexeme.Is row .symbol text → Lexed row lexemes marks →
      Lexed row (lexeme :: lexemes) (.sign text :: marks)
  | signs {row : Nat} {first second : String} {lexeme : Lexeme} {lexemes : List Lexeme}
      {marks : List Mark} :
      first ∈ unaryOperators → second ∈ unaryOperators → first ++ second ∈ fusedSigns →
      lexeme.Is row .symbol (first ++ second) → Lexed row lexemes marks →
      Lexed row (lexeme :: lexemes) (.sign first :: .sign second :: marks)

/-- Signs that make no lexeme together are told apart. -/
theorem clings_of_unfused : ∀ first ∈ unaryOperators, ∀ second ∈ unaryOperators,
    first ++ second ∉ fusedSigns → ∀ c ∈ second.toList.head?, clings first c = false := by
  have hall : ∀ first ∈ unaryOperators, ∀ second ∈ unaryOperators, first ++ second ∉ fusedSigns →
      second.toList.head?.all (fun c => !clings first c) = true := by
    decide +kernel
  intro first hfirst second hsecond hfused c hc
  simpa using (Option.all_eq_true _ _).1 (hall first hfirst second hsecond hfused) c hc

theorem fused_mem_symbols : ∀ text ∈ fusedSigns, text ∈ symbols := by decide

theorem unaryOperators_symbols : ∀ text ∈ unaryOperators, text ∈ symbols := by decide

/-- What makes two fused signs go on also makes the second one go on. -/
theorem clings_fused {first second : String} (hfirst : first ∈ unaryOperators)
    (hsecond : second ∈ unaryOperators) (hfused : first ++ second ∈ fusedSigns) {c : Char}
    (h : clings second c = false) : clings (first ++ second) c = false := by
  have hcontinue : ∀ first ∈ unaryOperators, ∀ second ∈ unaryOperators,
      first ++ second ∈ fusedSigns →
        (continuations (first ++ second)).all (clings second) = true := by
    decide +kernel
  have hother : ∀ text ∈ fusedSigns, text ≠ "/" ∧ text ≠ "." := by decide
  obtain ⟨hslash, hpoint⟩ := hother _ hfused
  rw [← Bool.not_eq_true] at h ⊢
  intro hclings
  simp only [clings, Bool.or_eq_true, Bool.and_eq_true, beq_iff_eq, hslash, hpoint, false_and,
    or_false, List.contains_iff_mem] at hclings
  exact h (List.all_eq_true.1 (hcontinue first hfirst second hsecond hfused) c hclings)

theorem symbol_front {symbol : String} (hmem : symbol ∈ symbols) :
    symbol.toList.head?.any (fun c => !isBlank c || c == '\n') = true := by
  have hopens := opensSymbol_of_mem symbol hmem
  cases hhead : symbol.toList.head? with
  | none => simp [hhead] at hopens
  | some c =>
      simp only [hhead, Option.any_some, opensSymbol, Bool.and_eq_true, Bool.not_eq_true'] at hopens
      simp [hopens]

theorem count_breaks_symbol : ∀ symbol ∈ symbols, symbol.toList.count '\n' = 0 := by
  decide +kernel

/-- A symbol that stands apart is one lexeme. -/
theorem scanFrom_symbol {symbol : String} (hmem : symbol ∈ symbols) {rest : List Char}
    (hrest : ∀ c ∈ rest.head?, clings symbol c = false) (offset row : Nat) (found : List Lexeme) :
    ∃ lexeme : Lexeme, lexeme.Is row .symbol symbol ∧
      scanFrom (symbol.toList ++ rest) offset row found =
        scanFrom rest (offset + symbol.length) row (lexeme :: found) := by
  have hscan := scanFrom_append (munch_symbol hmem hrest) (symbol_front hmem) offset row found
  rw [count_breaks_symbol symbol hmem] at hscan
  exact ⟨_, ⟨rfl, String.ofList_toList, rfl, rfl⟩, hscan⟩

theorem scanFrom_word {word : String} (hword : isWordChars word.toList = true) {rest : List Char}
    (hrest : ∀ c ∈ rest.head?, isWordRest c = false) (offset row : Nat) (found : List Lexeme) :
    ∃ lexeme : Lexeme, lexeme.Is row .word word ∧
      scanFrom (word.toList ++ rest) offset row found =
        scanFrom rest (offset + word.length) row (lexeme :: found) := by
  have hfront : word.toList.head?.any (fun c => !isBlank c || c == '\n') = true := by
    cases hlist : word.toList with
    | nil => simp [hlist, isWordChars] at hword
    | cons c more =>
        rw [hlist, isWordChars, Bool.and_eq_true] at hword
        simp [isBlank_of_isWordStart hword.1]
  have hbreaks : word.toList.count '\n' = 0 := by
    refine List.count_eq_zero.2 fun hmem => ?_
    cases hlist : word.toList with
    | nil => simp [hlist] at hmem
    | cons c more =>
        rw [hlist, isWordChars, Bool.and_eq_true] at hword
        rw [hlist] at hmem
        obtain rfl | hmem := List.mem_cons.1 hmem
        · have hnot : isWordStart '\n' = false := by decide +kernel
          simp [hnot] at hword
        · have hnot : isWordRest '\n' = false := by decide +kernel
          have hrest := List.all_eq_true.1 hword.2 _ hmem
          simp [hnot] at hrest
  have hscan := scanFrom_append (munch_word hword hrest) hfront offset row found
  rw [hbreaks] at hscan
  exact ⟨_, ⟨rfl, String.ofList_toList, rfl, rfl⟩, hscan⟩

/-- Wherever the marks start, they are scanned into their lexemes. -/
def Scans (marks : List Mark) : Prop :=
  ∀ offset row found, ∃ lexemes, Lexed row lexemes marks ∧
    scanFrom (render marks) offset row found = some (found.reverse ++ lexemes)

/-- Marks that give one lexeme in front of marks that are scanned. -/
theorem Scans.behind {marks : List Mark} (hrest : Scans marks) (front : List Mark)
    (hfront : ∀ offset row found, ∃ lexeme offset' row',
      (∀ lexemes, Lexed row' lexemes marks → Lexed row (lexeme :: lexemes) (front ++ marks)) ∧
        scanFrom (render (front ++ marks)) offset row found =
          scanFrom (render marks) offset' row' (lexeme :: found)) :
    Scans (front ++ marks) := by
  intro offset row found
  obtain ⟨lexeme, offset', row', hlexed, hstep⟩ := hfront offset row found
  obtain ⟨lexemes, hlexemes, hscan⟩ := hrest offset' row' (lexeme :: found)
  refine ⟨lexeme :: lexemes, hlexed lexemes hlexemes, ?_⟩
  rw [hstep, hscan]
  simp

theorem Scans.symbol {text : String} {marks : List Mark} (hmem : text ∈ symbols)
    (hhead : ∀ c ∈ (render marks).head?, clings text c = false) (hrest : Scans marks) :
    Scans (.symbol text :: marks) := by
  refine hrest.behind [.symbol text] fun offset row found => ?_
  obtain ⟨lexeme, his, hstep⟩ := scanFrom_symbol hmem hhead offset row found
  exact ⟨lexeme, _, row, fun _ => .symbol his, hstep⟩

theorem Scans.sign {text : String} {marks : List Mark} (hmem : text ∈ unaryOperators)
    (hhead : ∀ c ∈ (render marks).head?, clings text c = false) (hrest : Scans marks) :
    Scans (.sign text :: marks) := by
  refine hrest.behind [.sign text] fun offset row found => ?_
  obtain ⟨lexeme, his, hstep⟩ :=
    scanFrom_symbol (unaryOperators_symbols text hmem) hhead offset row found
  exact ⟨lexeme, _, row, fun _ => .sign his, hstep⟩

/-- Two signs that make one lexeme. -/
theorem Scans.signs {first second : String} {marks : List Mark} (hfirst : first ∈ unaryOperators)
    (hsecond : second ∈ unaryOperators) (hfused : first ++ second ∈ fusedSigns)
    (hhead : ∀ c ∈ (render marks).head?, clings (first ++ second) c = false) (hrest : Scans marks) :
    Scans (.sign first :: .sign second :: marks) := by
  refine hrest.behind [.sign first, .sign second] fun offset row found => ?_
  obtain ⟨lexeme, his, hstep⟩ :=
    scanFrom_symbol (fused_mem_symbols _ hfused) hhead offset row found
  rw [String.toList_append, List.append_assoc] at hstep
  exact ⟨lexeme, _, row, fun _ => .signs hfirst hsecond hfused his, hstep⟩

theorem Scans.word {text : String} {marks : List Mark} (hword : isWordChars text.toList = true)
    (hhead : ∀ c ∈ (render marks).head?, isWordRest c = false) (hrest : Scans marks) :
    Scans (.word text :: marks) := by
  refine hrest.behind [.word text] fun offset row found => ?_
  obtain ⟨lexeme, his, hstep⟩ := scanFrom_word hword hhead offset row found
  exact ⟨lexeme, _, row, fun _ => .word his, hstep⟩

theorem Scans.breaks {count : Nat} {marks : List Mark} (hcount : 0 < count)
    (hhead : ∀ c ∈ (render marks).head?, c ≠ '\n') (hrest : Scans marks) :
    Scans (.breaks count :: marks) := by
  refine hrest.behind [.breaks count] fun offset row found => ?_
  have hmunch := munch_breaks hcount hhead
  have hfront : (List.replicate count '\n').head?.any (fun c => !isBlank c || c == '\n') = true := by
    obtain ⟨more, rfl⟩ := Nat.exists_eq_succ_of_ne_zero (Nat.pos_iff_ne_zero.1 hcount)
    rfl
  have hstep := scanFrom_append hmunch hfront offset row found
  rw [List.count_replicate_self] at hstep
  exact ⟨_, _, row + count, fun _ => .breaks rfl, hstep⟩

theorem Scans.blank {c : Char} {marks : List Mark} (hc : c = ' ' ∨ c = '\t') (hrest : Scans marks) :
    Scans (.blank c :: marks) := by
  intro offset row found
  have hblank : isBlank c = true := by
    obtain rfl | rfl := hc <;> rfl
  have hbreak : c ≠ '\n' := by
    obtain rfl | rfl := hc <;> decide
  obtain ⟨lexemes, hlexed, hscan⟩ := hrest (offset + 1) row found
  exact ⟨lexemes, .blank hlexed, (scanFrom_blank hblank hbreak ..).trans hscan⟩

theorem mem_head?_sign {text : String} (hmem : text ∈ unaryOperators) {marks : List Mark} {c : Char}
    (hc : c ∈ (render (.sign text :: marks)).head?) : c ∈ text.toList.head? := by
  have hnonempty : ∀ text ∈ unaryOperators, text.toList ≠ [] := by decide
  cases hlist : text.toList with
  | nil => exact absurd hlist (hnonempty text hmem)
  | cons first rest =>
      rw [render_cons, Mark.chars, hlist] at hc
      exact hc

theorem Apart.mem_unaryOperators {text : String} {marks : List Mark}
    (h : Apart (.sign text :: marks)) : text ∈ unaryOperators := by
  cases h <;> assumption

/-- What stands behind a sign does not make the pair of it and a sign in front go on. -/
theorem Apart.clings_fused {first second : String} {marks : List Mark}
    (hfirst : first ∈ unaryOperators) (hfused : first ++ second ∈ fusedSigns)
    (hapart : Apart (.sign second :: marks)) :
    ∀ c ∈ (render marks).head?, clings (first ++ second) c = false := by
  intro c hc
  cases hapart with
  | sign hsecond hhead => exact Syntax.clings_fused hfirst hsecond hfused (hhead c hc)
  | @signs _ third _ hsecond hthird =>
      have hapart : ∀ first ∈ unaryOperators, ∀ second ∈ unaryOperators, ∀ third ∈ unaryOperators,
          first ++ second ∈ fusedSigns →
            third.toList.head?.all (fun c => !clings (first ++ second) c) = true := by
        decide +kernel
      have hthird' := hapart first hfirst second hsecond third hthird.mem_unaryOperators hfused
      simpa using (Option.all_eq_true _ _).1 hthird' c (mem_head?_sign hthird.mem_unaryOperators hc)

/-- Marks that stand apart are scanned into their lexemes. -/
theorem scans_of_apart {marks : List Mark} (hapart : Apart marks) : Scans marks := by
  -- Fused signs take two marks at once, hence the induction on the length.
  induction hlength : marks.length using Nat.strongRecOn generalizing marks with
  | ind length ih =>
  subst hlength
  cases hapart with
  | nil => exact fun offset row found => ⟨[], .nil, by simp [scanFrom.eq_def]⟩
  | blank hc hrest => exact .blank hc (ih _ (by simp) hrest rfl)
  | breaks hcount hhead hrest => exact .breaks hcount hhead (ih _ (by simp) hrest rfl)
  | word hword hhead hrest => exact .word hword hhead (ih _ (by simp) hrest rfl)
  | symbol hmem hhead hrest => exact .symbol hmem hhead (ih _ (by simp) hrest rfl)
  | sign hmem hhead hrest => exact .sign hmem hhead (ih _ (by simp) hrest rfl)
  | @signs first second marks hfirst hsecond =>
      have hmem := hsecond.mem_unaryOperators
      by_cases hfused : first ++ second ∈ fusedSigns
      · have hrest : Apart marks := by
          cases hsecond <;> assumption
        exact .signs hfirst hmem hfused (hsecond.clings_fused hfirst hfused)
          (ih _ (by simp only [List.length_cons]; omega) hrest rfl)
      · refine .sign hfirst (fun c hc => ?_) (ih _ (by simp) hsecond rfl)
        exact clings_of_unfused first hfirst second hmem hfused c (mem_head?_sign hmem hc)

end TraceWeave.Syntax
