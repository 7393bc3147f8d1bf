import TraceWeave.Proofs.Diff.Hunks

/-!
Applying the rows of a patch.

Rows are applied one after another to a text (`Applying`).  The header of a hunk has to be right
about the place of its rows and about their number.  It is, unless the first or the last change of
the hunk is about one text only and has a position in the other one that is not its own (`Placed`).
If all headers are right, the rows make one text the other; if one is not, they do not apply
(`Texts.applyRows_hunks`).
-/

namespace TraceWeave.Diff

/-- A row of a patch. -/
inductive Row where
  | hunk (old oldLen new newLen : Nat)
  | keep (line : String)
  | delete (line : String)
  | insert (line : String)
  deriving DecidableEq, Repr

/-- A text that rows are being applied to. -/
structure Applying where
  /-- The lines of the new text, as far as it is there. -/
  done : List String
  /-- How many lines of the old text are behind. -/
  passed : Nat
  /-- The lines of the old text that are ahead. -/
  rest : List String
  /-- How many lines of the old text the hunk still has. -/
  oldLeft : Nat
  /-- How many lines of the new text the hunk still has. -/
  newLeft : Nat
  deriving DecidableEq, Repr

namespace Applying

/-- The rows of the last hunk have all been there. -/
def isBetween (state : Applying) : Bool := state.oldLeft == 0 && state.newLeft == 0

def delete (state : Applying) (line : String) : Option Applying :=
  match state.rest with
  | first :: rest =>
      if first == line && 0 < state.oldLeft then
        some { state with passed := state.passed + 1, rest, oldLeft := state.oldLeft - 1 }
      else none
  | [] => none

def insert (state : Applying) (line : String) : Option Applying :=
  if 0 < state.newLeft then
    some { state with done := state.done ++ [line], newLeft := state.newLeft - 1 }
  else none

/-- Goes on to the lines of a hunk. -/
def enter (state : Applying) (old oldLen new newLen : Nat) : Option Applying :=
  let gap := old - state.passed
  if state.isBetween && state.passed ≤ old && gap ≤ state.rest.length &&
      state.done.length + gap == new then
    some
      { done := state.done ++ state.rest.take gap, passed := old, rest := state.rest.drop gap,
        oldLeft := oldLen, newLeft := newLen }
  else none

def step (state : Applying) : Row → Option Applying
  | .hunk old oldLen new newLen => state.enter old oldLen new newLen
  | .keep line => do (← state.delete line).insert line
  | .delete line => state.delete line
  | .insert line => state.insert line

def run (state : Applying) (rows : List Row) : Option Applying := rows.foldlM step state

/-- The lines of the new text, once all rows have been there. -/
def result? (state : Applying) : Option (List String) :=
  if state.isBetween then some (state.done ++ state.rest) else none

end Applying

/-- The lines that rows make of a text's. -/
def applyRows (rows : List Row) (lines : List String) : Option (List String) := do
  (← Applying.run ⟨[], 0, lines, 0, 0⟩ rows).result?

/-! ## The rows of hunks -/

def Change.rows (texts : Texts) : Change → List Row
  | .keep old _ len => (Span.lines ⟨old, old + len⟩ texts.old).map .keep
  | .replace old oldLen new newLen =>
      (Span.lines ⟨old, old + oldLen⟩ texts.old).map .delete ++
        (Span.lines ⟨new, new + newLen⟩ texts.new).map .insert

def hunkRows (texts : Texts) (hunk : List Change) : List Row :=
  match hunk.head?, hunk.getLast? with
  | some first, some last =>
      let old : Span := ⟨first.oldSpan.start, last.oldSpan.stop⟩
      let new : Span := ⟨first.newSpan.start, last.newSpan.stop⟩
      .hunk old.start old.length new.start new.length :: hunk.flatMap (Change.rows texts)
  | _, _ => []

/-- The header of the hunk has the positions of kept lines or those of the texts' ends. -/
def Placed (texts : Texts) (hunk : List Change) : Prop :=
  ∀ first ∈ hunk.head?, ∀ last ∈ hunk.getLast?,
    StartsAt hunk first.oldSpan.start first.newSpan.start ∧
      EndsAt texts hunk last.oldSpan.stop last.newSpan.stop

instance (texts : Texts) (hunk : List Change) : Decidable (Placed texts hunk) :=
  inferInstanceAs (Decidable (∀ first ∈ hunk.head?, ∀ last ∈ hunk.getLast?, _ ∧ _))

section

variable {texts : Texts} {old new old' new' : Nat} {hunk changes : List Change}

/-- What is there when the rows in front of a pair of positions have been applied. -/
def Texts.applied (texts : Texts) (old new oldLeft newLeft : Nat) : Applying :=
  ⟨texts.new.toList.take new, old, texts.old.toList.drop old, oldLeft, newLeft⟩

theorem Span.lines_cons {lines : Array String} {start len : Nat} {line : String}
    (h : lines[start]? = some line) :
    Span.lines ⟨start, start + (len + 1)⟩ lines =
      line :: Span.lines ⟨start + 1, start + 1 + len⟩ lines := by
  obtain ⟨hlt, rfl⟩ := Array.getElem?_eq_some_iff.1 h
  have hdrop : lines.toList.drop start = lines[start] :: lines.toList.drop (start + 1) := by
    simpa using List.drop_eq_getElem_cons (l := lines.toList) hlt
  simp only [Span.lines, Array.toList_extract, List.extract_eq_take_drop, hdrop,
    Nat.add_sub_cancel_left, List.take_succ_cons]

theorem delete_applied {line : String} (h : texts.old[old]? = some line) (oldLeft newLeft : Nat) :
    (texts.applied old new (oldLeft + 1) newLeft).delete line =
      some (texts.applied (old + 1) new oldLeft newLeft) := by
  obtain ⟨hlt, rfl⟩ := Array.getElem?_eq_some_iff.1 h
  have hdrop : texts.old.toList.drop old = texts.old[old] :: texts.old.toList.drop (old + 1) := by
    simpa using List.drop_eq_getElem_cons (l := texts.old.toList) hlt
  simp [Applying.delete, Texts.applied, hdrop]

theorem insert_applied {line : String} (h : texts.new[new]? = some line) (oldLeft newLeft : Nat) :
    (texts.applied old new oldLeft (newLeft + 1)).insert line =
      some (texts.applied old (new + 1) oldLeft newLeft) := by
  obtain ⟨hlt, rfl⟩ := Array.getElem?_eq_some_iff.1 h
  have htake : texts.new.toList.take new ++ [texts.new[new]] = texts.new.toList.take (new + 1) := by
    simpa using List.take_append_getElem (l := texts.new.toList) hlt
  simp [Applying.insert, Texts.applied, htake]

theorem Texts.agree_eq_true {texts : Texts} {old new : Nat} (h : texts.agree old new = true) :
    ∃ line, texts.old[old]? = some line ∧ texts.new[new]? = some line := by
  unfold agree at h
  split at h
  · next line line' hold hnew =>
    obtain rfl := eq_of_beq h
    exact ⟨line, hold, hnew⟩
  · cases h

theorem Span.lines_zero (lines : Array String) (start : Nat) :
    Span.lines ⟨start, start + 0⟩ lines = [] := by
  simp [Span.lines]

theorem Applying.run_append (state : Applying) (rows rows' : List Row) :
    state.run (rows ++ rows') = (state.run rows).bind (·.run rows') :=
  List.foldlM_append

theorem Applying.run_cons (state : Applying) (row : Row) (rows : List Row) :
    state.run (row :: rows) = (state.step row).bind (·.run rows) :=
  List.foldlM_cons

theorem run_deletes {len : Nat} (h : old + len ≤ texts.old.size) (oldLeft newLeft : Nat) :
    (texts.applied old new (oldLeft + len) newLeft).run
        ((Span.lines ⟨old, old + len⟩ texts.old).map .delete) =
      some (texts.applied (old + len) new oldLeft newLeft) := by
  induction len generalizing old with
  | zero =>
      rw [Span.lines_zero]
      rfl
  | succ len ih =>
      have hlt : old < texts.old.size := by omega
      have hline := Array.getElem?_eq_getElem hlt
      rw [Span.lines_cons hline, List.map_cons, Applying.run_cons, Applying.step, ← Nat.add_assoc,
        delete_applied hline, Option.bind_some, ih (by omega), Nat.add_assoc old, Nat.add_comm 1 len]

theorem run_inserts {len : Nat} (h : new + len ≤ texts.new.size) (oldLeft newLeft : Nat) :
    (texts.applied old new oldLeft (newLeft + len)).run
        ((Span.lines ⟨new, new + len⟩ texts.new).map .insert) =
      some (texts.applied old (new + len) oldLeft newLeft) := by
  induction len generalizing new with
  | zero =>
      rw [Span.lines_zero]
      rfl
  | succ len ih =>
      have hlt : new < texts.new.size := by omega
      have hline := Array.getElem?_eq_getElem hlt
      rw [Span.lines_cons hline, List.map_cons, Applying.run_cons, Applying.step, ← Nat.add_assoc,
        insert_applied hline, Option.bind_some, ih (by omega), Nat.add_assoc new, Nat.add_comm 1 len]

theorem run_keeps {len : Nat} (h : texts.Agrees old new len) (oldLeft newLeft : Nat) :
    (texts.applied old new (oldLeft + len) (newLeft + len)).run
        ((Span.lines ⟨old, old + len⟩ texts.old).map .keep) =
      some (texts.applied (old + len) (new + len) oldLeft newLeft) := by
  induction len generalizing old new with
  | zero =>
      rw [Span.lines_zero]
      rfl
  | succ len ih =>
      obtain ⟨line, hold, hnew⟩ := Texts.agree_eq_true (h 0 (Nat.zero_lt_succ len))
      have hrest : texts.Agrees (old + 1) (new + 1) len := h.part 1 len (by omega)
      rw [Nat.add_zero] at hold hnew
      rw [Span.lines_cons hold, List.map_cons, Applying.run_cons, Applying.step, ← Nat.add_assoc,
        delete_applied hold, ← Nat.add_assoc newLeft, Option.bind_eq_bind, Option.bind_some,
        insert_applied hnew, Option.bind_some, ih hrest, Nat.add_assoc old, Nat.add_assoc new,
        Nat.add_comm 1 len]

/-- Lines that are replaced are those at the place of the change, wherever it says that it is. -/
theorem lines_replaced {lines : Array String} {start front len : Nat}
    (h : len ≠ 0 → front = start) :
    Span.lines ⟨front, front + len⟩ lines = Span.lines ⟨start, start + len⟩ lines := by
  by_cases hnone : len = 0
  · rw [hnone, Span.lines_zero, Span.lines_zero]
  · rw [h hnone]

/-- The rows of changes lead to where the changes do. -/
theorem run_changes (h : Covers texts old new changes old' new') (hold : old' ≤ texts.old.size)
    (hnew : new' ≤ texts.new.size) (oldLeft newLeft : Nat) :
    (texts.applied old new (oldLeft + (old' - old)) (newLeft + (new' - new))).run
        (changes.flatMap (Change.rows texts)) = some (texts.applied old' new' oldLeft newLeft) := by
  induction h with
  | nil =>
      rw [Nat.sub_self, Nat.sub_self]
      rfl
  | @keep old new len old' new' changes hsome hagrees h ih =>
      obtain ⟨hle, hle'⟩ := h.le
      rw [List.flatMap_cons, Applying.run_append, Change.rows,
        show oldLeft + (old' - old) = oldLeft + (old' - (old + len)) + len by omega,
        show newLeft + (new' - new) = newLeft + (new' - (new + len)) + len by omega,
        run_keeps hagrees, Option.bind_some]
      exact ih hold hnew
  | @replace old new oldLen newLen front front' old' new' changes hfront hfront' h ih =>
      obtain ⟨hle, hle'⟩ := h.le
      rw [List.flatMap_cons, Applying.run_append, Change.rows, lines_replaced hfront,
        lines_replaced hfront', Applying.run_append,
        show oldLeft + (old' - old) = oldLeft + (old' - (old + oldLen)) + oldLen by omega,
        show newLeft + (new' - new) = newLeft + (new' - (new + newLen)) + newLen by omega,
        run_deletes (by omega), Option.bind_some, run_inserts (by omega), Option.bind_some]
      exact ih hold hnew

theorem Texts.Agrees.lines_eq {len : Nat} (h : texts.Agrees old new len) :
    Span.lines ⟨old, old + len⟩ texts.old = Span.lines ⟨new, new + len⟩ texts.new := by
  induction len generalizing old new with
  | zero => rw [Span.lines_zero, Span.lines_zero]
  | succ len ih =>
      obtain ⟨line, hold, hnew⟩ := Texts.agree_eq_true (h 0 (Nat.zero_lt_succ len))
      rw [Nat.add_zero] at hold hnew
      rw [Span.lines_cons hold, Span.lines_cons hnew, ih (h.part 1 len (by omega))]

/-- Lines that agree lead to the header behind them. -/
theorem enter_applied {gap : Nat} (h : texts.Agrees old new gap) (hold : old + gap ≤ texts.old.size)
    (hnew : new + gap ≤ texts.new.size) (oldLen newLen : Nat) :
    (texts.applied old new 0 0).enter (old + gap) oldLen (new + gap) newLen =
      some (texts.applied (old + gap) (new + gap) oldLen newLen) := by
  have hlines := h.lines_eq
  simp only [Span.lines, Array.toList_extract, List.extract_eq_take_drop,
    Nat.add_sub_cancel_left] at hlines
  have hsize : gap ≤ texts.old.size - old := by omega
  have hmin : min new texts.new.size = new := by omega
  simp [Applying.enter, Applying.isBetween, Texts.applied, hsize, hmin, List.take_add, hlines]

/-- Applying rows to a state takes lines of the old text and gives lines of the new one. -/
structure Uses (state : Applying) (oldLen newLen : Nat) (state' : Applying) : Prop where
  oldLeft : state.oldLeft = state'.oldLeft + oldLen
  newLeft : state.newLeft = state'.newLeft + newLen
  rest : state.rest.length = state'.rest.length + oldLen

theorem Uses.trans {state state' state'' : Applying} {oldLen newLen oldLen' newLen' : Nat}
    (h : Uses state oldLen newLen state') (h' : Uses state' oldLen' newLen' state'') :
    Uses state (oldLen + oldLen') (newLen + newLen') state'' := by
  obtain ⟨hold, hnew, hrest⟩ := h
  obtain ⟨hold', hnew', hrest'⟩ := h'
  exact ⟨by omega, by omega, by omega⟩

theorem uses_delete {state state' : Applying} {line : String} (h : state.delete line = some state') :
    Uses state 1 0 state' := by
  unfold Applying.delete at h
  split at h
  · next first rest hrest =>
    split at h
    · next hsome =>
      obtain rfl := Option.some.inj h
      simp only [Bool.and_eq_true, decide_eq_true_eq] at hsome
      exact ⟨by dsimp only; omega, rfl, by simp [hrest]⟩
    · cases h
  · cases h

theorem uses_insert {state state' : Applying} {line : String} (h : state.insert line = some state') :
    Uses state 0 1 state' := by
  unfold Applying.insert at h
  split at h
  · obtain rfl := Option.some.inj h
    exact ⟨rfl, by dsimp only; omega, rfl⟩
  · cases h

theorem uses_keep {state state' : Applying} {line : String}
    (h : state.step (.keep line) = some state') : Uses state 1 1 state' := by
  obtain ⟨middle, hdelete, hinsert⟩ := Option.bind_eq_some_iff.1 h
  exact (uses_delete hdelete).trans (uses_insert hinsert)

theorem uses_lines (make : String → Row) {oldLen newLen : Nat}
    (hstep : ∀ {state state' line}, Applying.step state (make line) = some state' →
      Uses state oldLen newLen state')
    {lines : List String} {state state' : Applying} (h : state.run (lines.map make) = some state') :
    Uses state (lines.length * oldLen) (lines.length * newLen) state' := by
  induction lines generalizing state with
  | nil =>
      obtain rfl := Option.some.inj h
      exact ⟨by simp, by simp, by simp⟩
  | cons line lines ih =>
      rw [List.map_cons, Applying.run_cons] at h
      obtain ⟨middle, hline, hlines⟩ := Option.bind_eq_some_iff.1 h
      have huses := (hstep hline).trans (ih hlines)
      rwa [List.length_cons, Nat.succ_mul, Nat.succ_mul, Nat.add_comm _ oldLen,
        Nat.add_comm _ newLen]

theorem Span.length_lines {lines : Array String} {start len : Nat} (h : start + len ≤ lines.size) :
    (Span.lines ⟨start, start + len⟩ lines).length = len := by
  simp [Span.lines]
  omega

/-- The rows of changes use as many lines as the changes are about, whatever they are applied to. -/
theorem uses_changes (h : Covers texts old new changes old' new') (hold : old' ≤ texts.old.size)
    (hnew : new' ≤ texts.new.size) {state state' : Applying}
    (hrun : state.run (changes.flatMap (Change.rows texts)) = some state') :
    Uses state (old' - old) (new' - new) state' := by
  induction h generalizing state with
  | nil =>
      obtain rfl := Option.some.inj hrun
      exact ⟨by omega, by omega, by omega⟩
  | @keep old new len old' new' changes hsome hagrees h ih =>
      obtain ⟨hle, hle'⟩ := h.le
      rw [List.flatMap_cons, Applying.run_append] at hrun
      obtain ⟨middle, hchange, hchanges⟩ := Option.bind_eq_some_iff.1 hrun
      have hchange := uses_lines .keep uses_keep hchange
      obtain ⟨hlines, hlines', hrest⟩ := hchange.trans (ih hold hnew hchanges)
      rw [Span.length_lines (by omega)] at hlines hlines' hrest
      exact ⟨by omega, by omega, by omega⟩
  | @replace old new oldLen newLen front front' old' new' changes hfront hfront' h ih =>
      obtain ⟨hle, hle'⟩ := h.le
      rw [List.flatMap_cons, Change.rows, lines_replaced hfront, lines_replaced hfront',
        Applying.run_append, Applying.run_append] at hrun
      obtain ⟨middle, hchange, hchanges⟩ := Option.bind_eq_some_iff.1 hrun
      obtain ⟨deleted, hdeletes, hinserts⟩ := Option.bind_eq_some_iff.1 hchange
      have hdeleted := uses_lines .delete uses_delete hdeletes
      have hinserted := uses_lines .insert uses_insert hinserts
      obtain ⟨hlines, hlines', hrest⟩ := (hdeleted.trans hinserted).trans (ih hold hnew hchanges)
      rw [Span.length_lines (by omega), Span.length_lines (by omega)] at hlines hlines'
      rw [Span.length_lines (by omega)] at hrest
      exact ⟨by omega, by omega, by omega⟩

theorem Stands.first_kept (h : Stands texts hunk old new old' new') {first : Change}
    (hfirst : hunk.head? = some first) (hkept : first.IsKept) :
    first.oldSpan.start = old ∧ first.newSpan.start = new ∧ old < old' ∧ new < new' := by
  obtain ⟨changes, rfl⟩ := List.head?_eq_some_iff.1 hfirst
  cases first with
  | keep o n len =>
      obtain ⟨rfl, rfl, hsome, -, hchanges⟩ := covers_keep.1 h.covers
      have hle := hchanges.le
      exact ⟨rfl, rfl, by omega, by omega⟩
  | replace => cases hkept

theorem Stands.last_kept (h : Stands texts hunk old new old' new') {last : Change}
    (hlast : hunk.getLast? = some last) (hkept : last.IsKept) :
    last.oldSpan.stop = old' ∧ last.newSpan.stop = new' ∧ old < old' ∧ new < new' := by
  obtain ⟨changes, rfl⟩ := List.getLast?_eq_some_iff.1 hlast
  obtain ⟨middle, middle', hchanges, hcovers⟩ := covers_append.1 h.covers
  have hle := hchanges.le
  cases last with
  | keep o n len =>
      obtain ⟨rfl, rfl, hsome, -, hnil⟩ := covers_keep.1 hcovers
      obtain ⟨rfl, rfl⟩ := covers_nil.1 hnil
      exact ⟨rfl, rfl, by omega, by omega⟩
  | replace => cases hkept

theorem StartsAt.eq_zero {first : Change} (h : StartsAt changes old new)
    (hfirst : changes.head? = some first) (hreplaced : ¬first.IsKept) : old = 0 ∧ new = 0 := by
  refine h.resolve_left ?_
  rintro ⟨change, hchange, hkept⟩
  rw [hfirst, Option.mem_some_iff] at hchange
  exact hreplaced (hchange ▸ hkept)

theorem EndsAt.eq_size {last : Change} (h : EndsAt texts changes old new)
    (hlast : changes.getLast? = some last) (hreplaced : ¬last.IsKept) :
    old = texts.old.size ∧ new = texts.new.size := by
  refine h.resolve_left ?_
  rintro ⟨change, hchange, hkept⟩
  rw [hlast, Option.mem_some_iff] at hchange
  exact hreplaced (hchange ▸ hkept)

theorem Stands.startsAt_iff (h : Stands texts hunk old new old' new') {first : Change}
    (hfirst : hunk.head? = some first) :
    StartsAt hunk first.oldSpan.start first.newSpan.start ↔
      first.oldSpan.start = old ∧ first.newSpan.start = new := by
  constructor
  · intro hstarts
    by_cases hkept : first.IsKept
    · obtain ⟨hold, hnew, -⟩ := h.first_kept hfirst hkept
      exact ⟨hold, hnew⟩
    · obtain ⟨rfl, rfl⟩ := h.starts.eq_zero hfirst hkept
      exact hstarts.eq_zero hfirst hkept
  · rintro ⟨hold, hnew⟩
    rw [hold, hnew]
    exact h.starts

theorem Stands.endsAt_iff (h : Stands texts hunk old new old' new') {last : Change}
    (hlast : hunk.getLast? = some last) :
    EndsAt texts hunk last.oldSpan.stop last.newSpan.stop ↔
      last.oldSpan.stop = old' ∧ last.newSpan.stop = new' := by
  constructor
  · intro hends
    by_cases hkept : last.IsKept
    · obtain ⟨hold, hnew, -⟩ := h.last_kept hlast hkept
      exact ⟨hold, hnew⟩
    · obtain ⟨rfl, rfl⟩ := h.ends.eq_size hlast hkept
      exact hends.eq_size hlast hkept
  · rintro ⟨hold, hnew⟩
    rw [hold, hnew]
    exact h.ends

theorem hunkRows_eq {first last : Change} (hfirst : hunk.head? = some first)
    (hlast : hunk.getLast? = some last) :
    hunkRows texts hunk =
      .hunk first.oldSpan.start (last.oldSpan.stop - first.oldSpan.start) first.newSpan.start
        (last.newSpan.stop - first.newSpan.start) :: hunk.flatMap (Change.rows texts) := by
  rw [hunkRows, hfirst, hlast]
  rfl

theorem placed_iff {first last : Change} (hfirst : hunk.head? = some first)
    (hlast : hunk.getLast? = some last) :
    Placed texts hunk ↔ StartsAt hunk first.oldSpan.start first.newSpan.start ∧
      EndsAt texts hunk last.oldSpan.stop last.newSpan.stop := by
  simp [Placed, hfirst, hlast]

theorem Stands.exists_ends (h : Stands texts hunk old new old' new') :
    (∃ first, hunk.head? = some first) ∧ ∃ last, hunk.getLast? = some last :=
  ⟨⟨_, List.head?_eq_some_head h.nonempty⟩, ⟨_, List.getLast?_eq_some_getLast h.nonempty⟩⟩

/-- A hunk whose header is right applies in front of lines that agree and leads to its end. -/
theorem run_hunk {gap : Nat} (hagrees : texts.Agrees old new gap)
    (h : Stands texts hunk (old + gap) (new + gap) old' new') (hold : old' ≤ texts.old.size)
    (hnew : new' ≤ texts.new.size) (hplaced : Placed texts hunk) :
    (texts.applied old new 0 0).run (hunkRows texts hunk) =
      some (texts.applied old' new' 0 0) := by
  obtain ⟨⟨first, hfirst⟩, last, hlast⟩ := h.exists_ends
  obtain ⟨hstarts, hends⟩ := (placed_iff hfirst hlast).1 hplaced
  obtain ⟨hold₁, hnew₁⟩ := (h.startsAt_iff hfirst).1 hstarts
  obtain ⟨hold₂, hnew₂⟩ := (h.endsAt_iff hlast).1 hends
  have hle := h.covers.le
  have hrun := run_changes h.covers hold hnew 0 0
  rw [Nat.zero_add, Nat.zero_add] at hrun
  rw [hunkRows_eq hfirst hlast, Applying.run_cons, Applying.step, hold₁, hnew₁, hold₂, hnew₂,
    enter_applied hagrees (by omega) (by omega), Option.bind_some, hrun]

/-- What a header says that is passed, wherever it is. -/
theorem enter_cases {state state' : Applying} {start len start' len' : Nat}
    (h : state.enter start len start' len' = some state') :
    state.isBetween ∧ state.passed ≤ start ∧ start - state.passed ≤ state.rest.length ∧
      state.done.length + (start - state.passed) = start' ∧ state'.oldLeft = len ∧
      state'.newLeft = len' ∧
      state'.rest.length = state.rest.length - (start - state.passed) := by
  unfold Applying.enter at h
  dsimp only at h
  split at h
  · next hholds =>
    obtain rfl := Option.some.inj h
    simp only [Bool.and_eq_true, decide_eq_true_eq, beq_iff_eq] at hholds
    obtain ⟨⟨⟨hbetween, hpassed⟩, hgap⟩, hnew⟩ := hholds
    exact ⟨hbetween, hpassed, hgap, hnew, rfl, rfl, List.length_drop⟩
  · cases h

/-- A hunk that applies and has no rows left has a header that is right. -/
theorem placed_of_run {gap : Nat} (h : Stands texts hunk (old + gap) (new + gap) old' new')
    (hold : old' ≤ texts.old.size) (hnew : new' ≤ texts.new.size) {state : Applying}
    (hrun : (texts.applied old new 0 0).run (hunkRows texts hunk) = some state)
    (hbetween : state.isBetween) : Placed texts hunk := by
  obtain ⟨⟨first, hfirst⟩, last, hlast⟩ := h.exists_ends
  rw [hunkRows_eq hfirst hlast, Applying.run_cons] at hrun
  obtain ⟨entered, henter, hrows⟩ := Option.bind_eq_some_iff.1 hrun
  obtain ⟨-, hpassed, hgap, hstart, holdLen, hnewLen, hrest⟩ := enter_cases henter
  obtain ⟨holdLeft, hnewLeft, hrest'⟩ := uses_changes h.covers hold hnew hrows
  simp only [Applying.isBetween, Bool.and_eq_true, beq_iff_eq] at hbetween
  simp only [Texts.applied, List.length_drop, List.length_take, Array.length_toList]
    at hpassed hgap hstart hrest
  have hle := h.covers.le
  have hends : (first.oldSpan.start = old + gap ∧ first.newSpan.start = new + gap) ∧
      last.oldSpan.stop = old' ∧ last.newSpan.stop = new' := by
    by_cases hkept : first.IsKept
    · obtain ⟨hold₁, hnew₁, hlt, hlt'⟩ := h.first_kept hfirst hkept
      omega
    · obtain ⟨hold₁, hnew₁⟩ := h.starts.eq_zero hfirst hkept
      by_cases hkept' : last.IsKept
      · obtain ⟨hold₂, hnew₂, hlt, hlt'⟩ := h.last_kept hlast hkept'
        omega
      · obtain ⟨hold₂, hnew₂⟩ := h.ends.eq_size hlast hkept'
        omega
  exact (placed_iff hfirst hlast).2
    ⟨(h.startsAt_iff hfirst).2 hends.1, (h.endsAt_iff hlast).2 hends.2⟩

theorem Patches.le {hunks : List (List Change)} (h : Patches texts old new hunks) :
    old ≤ texts.old.size ∧ new ≤ texts.new.size := by
  induction h with
  | nil hrest =>
      obtain ⟨-, hold, hnew⟩ := hrest
      omega
  | cons _ hhunk _ ih =>
      have hle := hhunk.covers.le
      omega

theorem result_applied {len : Nat} (h : texts.AgreesTo old new len) :
    (texts.applied old new 0 0).result? = some texts.new.toList := by
  obtain ⟨hagrees, hold, hnew⟩ := h
  have hlines := hagrees.lines_eq
  simp only [Span.lines, Array.toList_extract, List.extract_eq_take_drop, hold, hnew,
    ← Array.length_toList, ← List.length_drop, List.take_length] at hlines
  simp [Applying.result?, Applying.isBetween, Texts.applied, hlines]

/-- Where hunks apply, the ones in front of them have no rows left. -/
theorem Patches.isBetween {hunks : List (List Change)} (h : Patches texts old new hunks)
    {state : Applying} {lines : List String}
    (hrun : (state.run (hunks.flatMap (hunkRows texts))).bind Applying.result? = some lines) :
    state.isBetween := by
  cases h with
  | nil =>
      rw [List.flatMap_nil] at hrun
      change state.result? = some lines at hrun
      unfold Applying.result? at hrun
      split at hrun
      · assumption
      · cases hrun
  | cons _ hhunk _ =>
      obtain ⟨⟨first, hfirst⟩, last, hlast⟩ := hhunk.exists_ends
      rw [List.flatMap_cons, hunkRows_eq hfirst hlast, List.cons_append, Applying.run_cons,
        Option.bind_assoc] at hrun
      obtain ⟨entered, henter, -⟩ := Option.bind_eq_some_iff.1 hrun
      exact (enter_cases henter).1

/-- Hunks whose headers are right make one text the other. -/
theorem Patches.run_hunks {hunks : List (List Change)} (h : Patches texts old new hunks)
    (hplaced : ∀ hunk ∈ hunks, Placed texts hunk) :
    ((texts.applied old new 0 0).run (hunks.flatMap (hunkRows texts))).bind Applying.result? =
      some texts.new.toList := by
  induction h with
  | nil hrest => exact result_applied hrest
  | cons hagrees hhunk hhunks ih =>
      obtain ⟨hold, hnew⟩ := hhunks.le
      have hfirst := run_hunk hagrees hhunk hold hnew (hplaced _ List.mem_cons_self)
      rw [List.flatMap_cons, Applying.run_append, hfirst, Option.bind_some]
      exact ih fun hunk hmem => hplaced hunk (List.mem_cons_of_mem _ hmem)

/-- Hunks that apply have headers that are right. -/
theorem Patches.placed {hunks : List (List Change)} (h : Patches texts old new hunks)
    {lines : List String}
    (hrun : ((texts.applied old new 0 0).run (hunks.flatMap (hunkRows texts))).bind
      Applying.result? = some lines) : ∀ hunk ∈ hunks, Placed texts hunk := by
  induction h with
  | nil => exact fun _ hmem => nomatch hmem
  | cons hagrees hhunk hhunks ih =>
      obtain ⟨hold, hnew⟩ := hhunks.le
      rw [List.flatMap_cons, Applying.run_append, Option.bind_assoc] at hrun
      obtain ⟨state, hfirst, hrest⟩ := Option.bind_eq_some_iff.1 hrun
      have hplaced := placed_of_run hhunk hold hnew hfirst (hhunks.isBetween hrest)
      obtain rfl : _ = state :=
        Option.some.inj ((run_hunk hagrees hhunk hold hnew hplaced).symm.trans hfirst)
      exact List.forall_mem_cons.2 ⟨hplaced, ih hrest⟩

/-- The rows of the hunks between two texts apply just if all headers are right. -/
theorem Texts.applyRows_hunks (texts : Texts) (lines : List String) :
    applyRows (texts.hunks.flatMap (hunkRows texts)) texts.old.toList = some lines ↔
      (∀ hunk ∈ texts.hunks, Placed texts hunk) ∧ lines = texts.new.toList := by
  have hstart : (⟨[], 0, texts.old.toList, 0, 0⟩ : Applying) = texts.applied 0 0 0 0 := rfl
  unfold applyRows
  rw [hstart]
  constructor
  · intro hrun
    have hplaced := texts.patches.placed hrun
    exact ⟨hplaced, Option.some.inj (hrun.symm.trans (texts.patches.run_hunks hplaced))⟩
  · rintro ⟨hplaced, rfl⟩
    exact texts.patches.run_hunks hplaced

end

end TraceWeave.Diff
