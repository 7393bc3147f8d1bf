import TraceWeave.Proofs.Diff.Applying

/-!
Patches are read back row by row.

A patch is split behind its line feeds, and a remark takes the line feed off the row in front of it;
every row is then told by its first character.  What is written for rows reads back as those rows
(`readRows_rowText`), so a unified diff applies to the old text just if the rows of its hunks do
(`applyPatch_unified`).
-/

namespace TraceWeave.Diff

/-! ## Reading -/

/-- Splits behind every line feed. -/
def feeds : List Char → List (List Char)
  | [] => []
  | c :: cs =>
      if c == '\n' then [c] :: feeds cs
      else
        match feeds cs with
        | [] => [[c]]
        | line :: lines => (c :: line) :: lines

/-- What stands behind a line that no line feed ends. -/
def remark : List Char := "\\ No newline at end of file\n".toList

/-- Takes the line feed off every line that a remark stands behind, and the remark away. -/
def settle : List (List Char) → List (List Char)
  | line :: next :: lines =>
      if next == remark then line.dropLast :: settle lines else line :: settle (next :: lines)
  | lines => lines

def readNumber (cs : List Char) : Option (Nat × List Char) :=
  let digits := cs.takeWhile Char.isDigit
  if digits.isEmpty then none
  else some (Nat.ofDigitChars 10 digits 0, cs.dropWhile Char.isDigit)

/-- Reads where a range starts and how many lines it has. -/
def readRange (cs : List Char) : Option (Nat × Nat × List Char) := do
  let (start, rest) ← readNumber cs
  match rest with
  | ',' :: rest =>
      let (len, rest) ← readNumber rest
      some (if len == 0 then start else start - 1, len, rest)
  | rest => some (start - 1, 1, rest)

/-- Reads the header of a hunk behind the sign of its first range. -/
def readHeader (cs : List Char) : Option Row := do
  let (old, oldLen, rest) ← readRange cs
  let rest ← " +".toList.isPrefixOf? rest
  let (new, newLen, rest) ← readRange rest
  if rest == " @@\n".toList then some (.hunk old oldLen new newLen) else none

def readRow : List Char → Option Row
  | ' ' :: line => some (.keep (String.ofList line))
  | '-' :: line => some (.delete (String.ofList line))
  | '+' :: line => some (.insert (String.ofList line))
  | cs => do readHeader (← "@@ -".toList.isPrefixOf? cs)

def readRows (cs : List Char) : Option (List Row) := (settle (feeds cs)).mapM readRow

/-- The names of the two texts in front of the hunks. -/
def heading (name : String) : String := "--- a/" ++ name ++ "\n+++ b/" ++ name ++ "\n"

/-- Applies the patch of a file to a text; an empty patch changes nothing. -/
def applyPatch (name patch text : String) : Option String :=
  if patch.isEmpty then some text
  else do
    let rows ← readRows (← (heading name).toList.isPrefixOf? patch.toList)
    let lines ← applyRows rows ((feeds text.toList).map String.ofList)
    some (String.join lines)

/-! ## Writing -/

/-- The text of a row in a patch. -/
def Row.text : Row → String
  | .hunk old oldLen new newLen =>
      "@@ -" ++ Span.text ⟨old, old + oldLen⟩ ++ " +" ++ Span.text ⟨new, new + newLen⟩ ++ " @@\n"
  | .keep line => lineText " " line
  | .delete line => lineText "-" line
  | .insert line => lineText "+" line

theorem Span.text_add_length (start stop : Nat) :
    Span.text ⟨start, start + Span.length ⟨start, stop⟩⟩ = Span.text ⟨start, stop⟩ := by
  have hlength : Span.length ⟨start, start + Span.length ⟨start, stop⟩⟩ =
      Span.length ⟨start, stop⟩ := by
    simp [Span.length]
  simp only [Span.text, hlength]

theorem changeText_eq (texts : Texts) (change : Change) :
    changeText texts change = String.join ((change.rows texts).map Row.text) := by
  cases change with
  | keep old new len =>
      rw [changeText, Change.rows, List.map_map]
      rfl
  | replace old oldLen new newLen =>
      rw [changeText, Change.rows, List.map_append, String.join_append, List.map_map, List.map_map]
      rfl

theorem join_changeTexts (texts : Texts) (hunk : List Change) :
    String.join (hunk.map (changeText texts)) =
      String.join ((hunk.flatMap (Change.rows texts)).map Row.text) := by
  induction hunk with
  | nil => rfl
  | cons change hunk ih =>
      rw [List.map_cons, String.join_cons, ih, changeText_eq, List.flatMap_cons, List.map_append,
        String.join_append]

theorem hunkText_eq (texts : Texts) (hunk : List Change) :
    hunkText texts hunk = String.join ((hunkRows texts hunk).map Row.text) := by
  by_cases hnone : hunk = []
  · subst hnone
    rfl
  · have hfirst := List.head?_eq_some_head hnone
    have hlast := List.getLast?_eq_some_getLast hnone
    rw [hunkText, join_changeTexts, hunkHeader, hunkRows, hfirst, hlast]
    dsimp only
    rw [List.map_cons, String.join_cons, Row.text, Span.text_add_length, Span.text_add_length]

theorem join_hunkTexts (texts : Texts) (hunks : List (List Change)) :
    String.join (hunks.map (hunkText texts)) =
      String.join ((hunks.flatMap (hunkRows texts)).map Row.text) := by
  induction hunks with
  | nil => rfl
  | cons hunk hunks ih =>
      rw [List.map_cons, String.join_cons, ih, hunkText_eq, List.flatMap_cons, List.map_append,
        String.join_append]

/-! ## Reading what is written -/

theorem feeds_append {line : List Char} (h : '\n' ∉ line) (rest : List Char) :
    feeds (line ++ '\n' :: rest) = (line ++ ['\n']) :: feeds rest := by
  induction line with
  | nil => rfl
  | cons c line ih =>
      have hc : (c == '\n') = false := beq_false_of_ne fun heq => h (heq ▸ List.mem_cons_self)
      rw [List.cons_append, feeds, hc, ih fun hmem => h (List.mem_cons_of_mem _ hmem)]
      rfl

theorem exists_feeds (c : Char) (cs : List Char) :
    ∃ line lines, feeds (c :: cs) = (c :: line) :: lines := by
  rw [feeds]
  split
  · exact ⟨_, _, rfl⟩
  · split
    · exact ⟨_, _, rfl⟩
    · exact ⟨_, _, rfl⟩

/-- The text behind a line does not begin with a remark. -/
def Plain (cs : List Char) : Prop := ∀ c ∈ cs.head?, c ≠ '\\'

theorem settle_cons (line : List Char) {rest : List Char} (h : Plain rest) :
    settle (line :: feeds rest) = line :: settle (feeds rest) := by
  cases rest with
  | nil => rfl
  | cons c cs =>
      obtain ⟨next, lines, hfeeds⟩ := exists_feeds c cs
      have hnext : (c :: next == remark) = false := by
        refine beq_false_of_ne fun heq => h c rfl ?_
        exact (List.cons.inj heq).1
      rw [hfeeds, settle, hnext]
      rfl

theorem settle_remark {line : List Char} (h : '\n' ∉ line) (rest : List Char) :
    settle (feeds (line ++ '\n' :: (remark ++ rest))) = line :: settle (feeds rest) := by
  have hremark : remark = remark.dropLast ++ ['\n'] := rfl
  have hnone : '\n' ∉ remark.dropLast := by decide
  rw [feeds_append h, hremark, List.append_assoc, List.singleton_append, feeds_append hnone,
    ← hremark, settle, if_pos (beq_self_eq_true remark), List.dropLast_concat]

/-- A line with no line break but a line feed at its end. -/
def IsLine (line : String) : Prop :=
  '\n' ∉ line.toList.dropLast ∧ line.toList.getLast? ≠ some '\r'

theorem IsLine.cases {line : String} (h : IsLine line) :
    (endsLine line = true ∧ ∃ cs, '\n' ∉ cs ∧ line.toList = cs ++ ['\n']) ∨
      endsLine line = false ∧ '\n' ∉ line.toList := by
  obtain ⟨hinner, hreturn⟩ := h
  have hends : endsLine line = line.toList.getLast?.any isBreak :=
    String.endsWith_bool_eq_getLast?
  cases hlast : line.toList.getLast? with
  | none =>
      rw [List.getLast?_eq_none_iff] at hlast
      exact .inr ⟨by rw [hends, hlast]; rfl, by rw [hlast]; exact List.not_mem_nil⟩
  | some c =>
      obtain ⟨cs, heq⟩ := List.getLast?_eq_some_iff.1 hlast
      rw [heq, List.dropLast_concat] at hinner
      by_cases hc : c = '\n'
      · subst hc
        exact .inl ⟨by rw [hends, hlast]; rfl, cs, hinner, heq⟩
      · refine .inr ⟨?_, ?_⟩
        · have hc' : c ≠ '\r' := fun heq => hreturn (heq ▸ hlast)
          rw [hends, hlast]
          simp [isBreak, hc, hc']
        · rw [heq, List.mem_append, List.mem_singleton]
          exact not_or.2 ⟨hinner, fun heq => hc heq.symm⟩

/-- A marked line reads back as itself, also if a remark stands behind it. -/
theorem settle_lineText {mark : String} {c : Char} (hmark : mark.toList = [c]) (hc : c ≠ '\n')
    {line : String} (hline : IsLine line) {rest : List Char} (hrest : Plain rest) :
    settle (feeds ((lineText mark line).toList ++ rest)) =
      (c :: line.toList) :: settle (feeds rest) := by
  obtain ⟨hends, cs, hcs, heq⟩ | ⟨hends, hnone⟩ := hline.cases
  · have hmem : '\n' ∉ c :: cs := List.not_mem_cons_of_ne_of_not_mem hc.symm hcs
    have htext : (lineText mark line).toList ++ rest = c :: cs ++ '\n' :: rest := by
      simp [lineText, hends, hmark, heq]
    rw [htext, feeds_append hmem, settle_cons _ hrest, heq]
    rfl
  · have hmem : '\n' ∉ c :: line.toList := List.not_mem_cons_of_ne_of_not_mem hc.symm hnone
    have htext : (lineText mark line).toList ++ rest =
        c :: line.toList ++ '\n' :: (remark ++ rest) := by
      have hremark : "\n\\ No newline at end of file\n".toList = '\n' :: remark := rfl
      simp only [lineText, hends, String.toList_append, hmark, hremark, Bool.false_eq_true, if_false,
        List.cons_append, List.nil_append, List.append_assoc]
    rw [htext, settle_remark hmem]

/-- The text behind a number does not go on with digits. -/
def NoDigit (cs : List Char) : Prop := ∀ c ∈ cs.head?, c.isDigit = false

theorem readNumber_toDigits (n : Nat) {rest : List Char} (h : NoDigit rest) :
    readNumber (Nat.toDigits 10 n ++ rest) = some (n, rest) := by
  have hdigits : ∀ c ∈ Nat.toDigits 10 n, c.isDigit = true := fun c hmem =>
    Nat.isDigit_of_mem_toDigits (by decide) (by decide) hmem
  have hrest : rest.takeWhile Char.isDigit = [] ∧ rest.dropWhile Char.isDigit = rest := by
    cases rest with
    | nil => exact ⟨rfl, rfl⟩
    | cons c cs => simp [h c rfl]
  rw [readNumber, List.takeWhile_append_of_pos hdigits, List.dropWhile_append_of_pos hdigits,
    hrest.1, hrest.2, List.append_nil, Nat.ofDigitChars_ten_toDigits]
  simp [Nat.toDigits_ne_nil]

theorem noDigit_cons {c : Char} (h : c.isDigit = false) (cs : List Char) : NoDigit (c :: cs) := by
  rintro _ ⟨⟩
  exact h

/-- A range reads back as its start and its length. -/
theorem readRange_text (start len : Nat) (rest : List Char) :
    readRange ((Span.text ⟨start, start + len⟩).toList ++ ' ' :: rest) =
      some (start, len, ' ' :: rest) := by
  have hblank : NoDigit (' ' :: rest) := noDigit_cons rfl rest
  have hcomma : ∀ cs, NoDigit (',' :: cs) := noDigit_cons rfl
  have hzero : readNumber ('0' :: ' ' :: rest) = some (0, ' ' :: rest) :=
    readNumber_toDigits 0 hblank
  have hlength : Span.length ⟨start, start + len⟩ = len := by simp [Span.length]
  unfold Span.text
  rw [hlength]
  split
  · next hone =>
    obtain rfl := eq_of_beq hone
    simp [readRange, readNumber_toDigits _ hblank]
  · split
    · next hnone =>
      obtain rfl := eq_of_beq hnone
      simp [readRange, readNumber_toDigits _ (hcomma _), hzero]
    · next hsome =>
      rw [beq_iff_eq] at hsome
      simp [readRange, readNumber_toDigits _ (hcomma _), readNumber_toDigits _ hblank, hsome]

/-- What is left of a row when its line feed or its remark is gone. -/
def Row.chars : Row → List Char
  | .keep line => ' ' :: line.toList
  | .delete line => '-' :: line.toList
  | .insert line => '+' :: line.toList
  | row => row.text.toList

theorem isPrefixOf?_append (cs cs' : List Char) : cs.isPrefixOf? (cs ++ cs') = some cs' := by
  induction cs with
  | nil => cases cs' <;> rfl
  | cons c cs ih =>
      change (if c == c then cs.isPrefixOf? (cs ++ cs') else none) = some cs'
      rw [if_pos (beq_self_eq_true c), ih]

theorem readRow_chars (row : Row) : readRow row.chars = some row := by
  cases row with
  | hunk old oldLen new newLen =>
      have hchars : (Row.hunk old oldLen new newLen).chars = '@' :: '@' :: ' ' :: '-' ::
          ((Span.text ⟨old, old + oldLen⟩).toList ++ ' ' ::
            '+' :: ((Span.text ⟨new, new + newLen⟩).toList ++ ' ' :: ['@', '@', '\n'])) := by
        simp [Row.chars, Row.text]
      have hsign : ∀ cs, "@@ -".toList.isPrefixOf? ('@' :: '@' :: ' ' :: '-' :: cs) = some cs :=
        isPrefixOf?_append "@@ -".toList
      have hplus : ∀ cs, " +".toList.isPrefixOf? (' ' :: '+' :: cs) = some cs :=
        isPrefixOf?_append " +".toList
      rw [hchars, readRow, hsign, Option.bind_eq_bind, Option.bind_some, readHeader, readRange_text]
      · simp only [Option.bind_eq_bind, Option.bind_some, hplus, readRange_text]
        rfl
      -- No line begins with the sign of a header.
      all_goals exact fun _ => nofun
  | keep line => simp [Row.chars, readRow]
  | delete line => simp [Row.chars, readRow]
  | insert line => simp [Row.chars, readRow]

/-- The lines of a row are lines. -/
def Row.IsProper : Row → Prop
  | .keep line => IsLine line
  | .delete line => IsLine line
  | .insert line => IsLine line
  | .hunk _ _ _ _ => True

theorem newline_not_mem_toDigits (n : Nat) : '\n' ∉ Nat.toDigits 10 n := fun hmem =>
  absurd (Nat.isDigit_of_mem_toDigits (by decide) (by decide) hmem) (by decide)

theorem newline_not_mem_spanText (span : Span) : '\n' ∉ span.text.toList := by
  unfold Span.text
  split
  · simp [newline_not_mem_toDigits]
  · split
    · simp [newline_not_mem_toDigits]
    · simp [newline_not_mem_toDigits]

theorem settle_rowText {row : Row} (h : row.IsProper) {rest : List Char} (hrest : Plain rest) :
    settle (feeds (row.text.toList ++ rest)) = row.chars :: settle (feeds rest) := by
  cases row with
  | hunk old oldLen new newLen =>
      let line := "@@ -".toList ++ (Span.text ⟨old, old + oldLen⟩).toList ++ " +".toList ++
        (Span.text ⟨new, new + newLen⟩).toList ++ " @@".toList
      have hnone : '\n' ∉ line := by
        simp [line, newline_not_mem_spanText]
      have htext : (Row.hunk old oldLen new newLen).text.toList = line ++ ['\n'] := by
        simp [Row.text, line]
      rw [Row.chars, htext, List.append_assoc, List.singleton_append, feeds_append hnone,
        settle_cons _ hrest]
      all_goals exact fun _ => nofun
  | keep line => exact settle_lineText rfl (by decide) h hrest
  | delete line => exact settle_lineText rfl (by decide) h hrest
  | insert line => exact settle_lineText rfl (by decide) h hrest

theorem plain_rows (rows : List Row) : Plain (String.join (rows.map Row.text)).toList := by
  cases rows with
  | nil =>
      rintro c ⟨⟩
  | cons row rows =>
      rw [List.map_cons, String.join_cons, String.toList_append]
      cases row with
      | hunk =>
          simp [Row.text, Plain]
      | keep => simp [Row.text, lineText, Plain]
      | delete => simp [Row.text, lineText, Plain]
      | insert => simp [Row.text, lineText, Plain]

/-- What is written for rows reads back as the rows. -/
theorem readRows_rowText {rows : List Row} (h : ∀ row ∈ rows, row.IsProper) :
    readRows (String.join (rows.map Row.text)).toList = some rows := by
  unfold readRows
  induction rows with
  | nil => rfl
  | cons row rows ih =>
      obtain ⟨hrow, hrows⟩ := List.forall_mem_cons.1 h
      rw [List.map_cons, String.join_cons, String.toList_append, settle_rowText hrow (plain_rows rows),
        List.mapM_cons, readRow_chars, ih hrows]
      rfl

/-! ## Lines of the texts -/

/-- Every carriage return stands in front of a line feed. -/
def breaksAtFeeds : List Char → Bool
  | '\r' :: '\n' :: cs => breaksAtFeeds cs
  | c :: cs => c != '\r' && breaksAtFeeds cs
  | [] => true

theorem flatten_feeds (cs : List Char) : (feeds cs).flatten = cs := by
  fun_induction feeds cs with
  | case1 => rfl
  | case2 => simp_all
  | case3 => simp_all
  | case4 => simp_all

theorem feeds_of_not_mem {line : List Char} (hsome : line ≠ []) (h : '\n' ∉ line) :
    feeds line = [line] := by
  induction line with
  | nil => exact absurd rfl hsome
  | cons c line ih =>
      have hc : (c == '\n') = false := beq_false_of_ne fun heq => h (heq ▸ List.mem_cons_self)
      rw [feeds, hc]
      cases line with
      | nil => rfl
      | cons d line =>
          rw [ih (List.cons_ne_nil d line) fun hmem => h (List.mem_cons_of_mem _ hmem)]
          rfl

theorem breaksAtFeeds_cons {c : Char} {cs : List Char} (h : breaksAtFeeds (c :: cs) = true) :
    breaksAtFeeds cs = true ∧ (c = '\r' → ∃ cs', cs = '\n' :: cs') := by
  unfold breaksAtFeeds at h
  split at h
  · next cs' heq =>
    obtain ⟨rfl, rfl⟩ := List.cons.inj heq
    exact ⟨by simpa [breaksAtFeeds] using h, fun _ => ⟨_, rfl⟩⟩
  · next heq =>
    obtain ⟨rfl, rfl⟩ := List.cons.inj heq
    rw [Bool.and_eq_true, bne_iff_ne] at h
    exact ⟨h.2, fun hc => absurd hc h.1⟩
  · next heq => cases heq

/-- Where no carriage return stands alone, the lines are those between line feeds. -/
theorem linesFrom_eq {line cs : List Char} (hline : '\n' ∉ line) (h : breaksAtFeeds cs = true) :
    linesFrom line cs = (feeds (line.reverse ++ cs)).map String.ofList := by
  have hreverse : ∀ {line : List Char}, '\n' ∉ line → '\n' ∉ line.reverse := fun hline hmem =>
    hline (List.mem_reverse.1 hmem)
  fun_induction linesFrom line cs with
  | case1 line hnone =>
      rw [List.isEmpty_iff] at hnone
      subst hnone
      rfl
  | case2 line hsome =>
      have hne : line.reverse ≠ [] := by simpa using hsome
      rw [List.append_nil, feeds_of_not_mem hne (hreverse hline)]
      rfl
  | case3 line cs ih =>
      have hmem : '\n' ∉ line.reverse ++ ['\r'] := by
        simpa using hline
      have htail := (breaksAtFeeds_cons (breaksAtFeeds_cons h).1).1
      rw [ih List.not_mem_nil htail, List.append_cons line.reverse, feeds_append hmem]
      simp
  | case4 line c cs hnot hbreak ih =>
      obtain ⟨htail, hreturn⟩ := breaksAtFeeds_cons h
      have hc : c ≠ '\r' := fun heq => (hreturn heq).elim (hnot · heq)
      obtain rfl : c = '\n' := by simpa [isBreak, hc] using hbreak
      rw [ih List.not_mem_nil htail, feeds_append (hreverse hline)]
      simp
  | case5 line c cs hnot hbreak ih =>
      have hc : '\n' ≠ c := by
        rintro rfl
        exact hbreak rfl
      rw [ih (List.not_mem_cons_of_ne_of_not_mem hc hline) (breaksAtFeeds_cons h).1]
      simp

theorem isLine_of_mem_feeds {cs line : List Char} (h : breaksAtFeeds cs = true)
    (hmem : line ∈ feeds cs) : IsLine (String.ofList line) := by
  unfold IsLine
  rw [String.toList_ofList]
  induction cs generalizing line with
  | nil => cases hmem
  | cons c cs ih =>
      obtain ⟨htail, hreturn⟩ := breaksAtFeeds_cons h
      by_cases hc : c = '\n'
      · subst hc
        obtain rfl | hmem := List.mem_cons.1 hmem
        · decide
        · exact ih htail hmem
      · have hc' : (c == '\n') = false := beq_false_of_ne hc
        rw [feeds, hc'] at hmem
        cases cs with
        | nil =>
            obtain rfl := List.mem_singleton.1 hmem
            refine ⟨List.not_mem_nil, ?_⟩
            rintro ⟨⟩
            exact (hreturn rfl).elim fun _ => nofun
        | cons d cs =>
            obtain ⟨first, rest, hfeeds⟩ := exists_feeds d cs
            rw [hfeeds] at hmem ih
            obtain rfl | hmem := List.mem_cons.1 hmem
            · obtain ⟨hinner, hlast⟩ := ih htail List.mem_cons_self
              rw [List.dropLast_cons_cons, List.getLast?_cons_cons]
              exact ⟨List.not_mem_cons_of_ne_of_not_mem (Ne.symm hc) hinner, hlast⟩
            · exact ih htail (List.mem_cons_of_mem _ hmem)

theorem lines_eq {text : String} (h : breaksAtFeeds text.toList = true) :
    lines text = (feeds text.toList).map String.ofList :=
  linesFrom_eq (fun hmem => nomatch hmem) h

theorem isLine_of_mem_lines {text line : String} (h : breaksAtFeeds text.toList = true)
    (hmem : line ∈ lines text) : IsLine line := by
  rw [lines_eq h] at hmem
  obtain ⟨cs, hcs, rfl⟩ := List.mem_map.1 hmem
  exact isLine_of_mem_feeds h hcs

theorem join_lines {text : String} (h : breaksAtFeeds text.toList = true) :
    String.join (lines text) = text := by
  rw [← String.toList_inj, String.toList_join, lines_eq h]
  simp [List.flatMap_map, flatten_feeds]

/-! ## Applying a unified diff -/

/-- The lines of two texts. -/
def Texts.ofStrings (old new : String) : Texts :=
  { old := (lines old).toArray, new := (lines new).toArray }

theorem mem_of_mem_lines {span : Span} {lines : Array String} {line : String}
    (h : line ∈ span.lines lines) : line ∈ lines := by
  rw [Span.lines, Array.toList_extract, List.extract_eq_take_drop] at h
  exact Array.mem_toList_iff.1 (List.mem_of_mem_drop (List.mem_of_mem_take h))

theorem isProper_of_mem_hunkRows {texts : Texts} (hold : ∀ line ∈ texts.old, IsLine line)
    (hnew : ∀ line ∈ texts.new, IsLine line) {hunk : List Change} {row : Row}
    (hmem : row ∈ hunkRows texts hunk) : row.IsProper := by
  have hrows : ∀ change : Change, row ∈ change.rows texts → row.IsProper := by
    intro change hrow
    cases change with
    | keep old new len =>
        obtain ⟨line, hline, rfl⟩ := List.mem_map.1 hrow
        exact hold line (mem_of_mem_lines hline)
    | replace old oldLen new newLen =>
        obtain hrow | hrow := List.mem_append.1 hrow
        · obtain ⟨line, hline, rfl⟩ := List.mem_map.1 hrow
          exact hold line (mem_of_mem_lines hline)
        · obtain ⟨line, hline, rfl⟩ := List.mem_map.1 hrow
          exact hnew line (mem_of_mem_lines hline)
  unfold hunkRows at hmem
  split at hmem
  · obtain rfl | hrow := List.mem_cons.1 hmem
    · trivial
    · obtain ⟨change, -, hchange⟩ := List.mem_flatMap.1 hrow
      exact hrows change hchange
  · cases hmem

theorem unified_eq (name old new : String) : unified name old new =
    if (Texts.ofStrings old new).hunks.isEmpty then ""
    else heading name ++
      String.join ((Texts.ofStrings old new).hunks.map (hunkText (Texts.ofStrings old new))) := rfl

/-- A patch with rows applies to a text just if the rows do. -/
theorem applyPatch_rows (name : String) {rows : List Row} (hrows : ∀ row ∈ rows, row.IsProper)
    {old : String} (hold : breaksAtFeeds old.toList = true) :
    applyPatch name (heading name ++ String.join (rows.map Row.text)) old =
      (applyRows rows (lines old)).map String.join := by
  have hsome : (heading name ++ String.join (rows.map Row.text)).isEmpty = false := by
    simp [heading, String.isEmpty_eq_false_iff]
  rw [applyPatch, hsome, String.toList_append, isPrefixOf?_append, ← lines_eq hold]
  simp only [Bool.false_eq_true, if_false, Option.bind_eq_bind, Option.bind_some,
    readRows_rowText hrows]
  cases applyRows rows (lines old) <;> rfl

/-- The unified diff of two texts applies to the old one just if its headers are right, and then it
gives the new one. -/
theorem applyPatch_unified (name : String) {old new : String}
    (hold : breaksAtFeeds old.toList = true) (hnew : breaksAtFeeds new.toList = true)
    (text : String) : applyPatch name (unified name old new) old = some text ↔
      (∀ hunk ∈ (Texts.ofStrings old new).hunks, Placed (Texts.ofStrings old new) hunk) ∧
        text = new := by
  have hrows := (Texts.ofStrings old new).applyRows_hunks
  change ∀ lines', applyRows _ (lines old) = some lines' ↔ _ ∧ lines' = lines new at hrows
  rw [unified_eq]
  split
  · next hnone =>
    -- Without hunks, the texts have the same lines.
    rw [List.isEmpty_iff] at hnone
    rw [hnone] at hrows ⊢
    have hlines : lines old = lines new := ((hrows (lines old)).1 rfl).2
    have hsame : old = new := by rw [← join_lines hold, hlines, join_lines hnew]
    have happly : applyPatch name "" old = some old := rfl
    rw [happly, hsame, Option.some.injEq]
    exact ⟨fun heq => ⟨nofun, heq.symm⟩, fun h => h.2.symm⟩
  · have hproper : ∀ row ∈ (Texts.ofStrings old new).hunks.flatMap (hunkRows (.ofStrings old new)),
        row.IsProper := by
      intro row hmem
      obtain ⟨hunk, -, hrow⟩ := List.mem_flatMap.1 hmem
      exact isProper_of_mem_hunkRows
        (fun line hline => isLine_of_mem_lines hold (List.mem_toArray.1 hline))
        (fun line hline => isLine_of_mem_lines hnew (List.mem_toArray.1 hline)) hrow
    rw [join_hunkTexts, applyPatch_rows name hproper hold, Option.map_eq_some_iff]
    constructor
    · rintro ⟨lines', happly, rfl⟩
      obtain ⟨hplaced, rfl⟩ := (hrows lines').1 happly
      exact ⟨hplaced, join_lines hnew⟩
    · rintro ⟨hplaced, rfl⟩
      exact ⟨lines text, (hrows _).2 ⟨hplaced, rfl⟩, join_lines hnew⟩

-- The insertion at the end has changed places with the deletion of the line in front, and its header
-- counts one line of the old text too few.
example :
    let old := "package main\n\nfunc f() \x7b\n\x7d\n// z \n// z\n"
    let new := "package main\n\nfunc f() \x7b\n\x7d\n// z\n// z\n"
    applyPatch "main.go" (unified "main.go" old new) old = none := by
  decide +kernel

end TraceWeave.Diff
