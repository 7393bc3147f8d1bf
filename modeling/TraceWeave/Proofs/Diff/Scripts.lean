import TraceWeave.Proofs.Diff.Search

/-!
Edit scripts lead from one text to the other.

An edit has the positions of both texts, but only those of the lines that it is about have to be
right (`Leads`): an insertion may stand behind deletions that were not there when it got its position
in the old text.  The script that is found leads from the starts of the texts to their ends
(`leads_script`).
-/

namespace TraceWeave.Diff

/-- Edits lead from a pair of positions to another one. -/
inductive Leads (texts : Texts) : Nat → Nat → List Edit → Nat → Nat → Prop where
  | nil {old new : Nat} : Leads texts old new [] old new
  | keep {old new len old' new' : Nat} {edits : List Edit} : 0 < len →
      texts.Agrees old new len → Leads texts (old + len) (new + len) edits old' new' →
        Leads texts old new (.keep old new len :: edits) old' new'
  | delete {old new len old' new' : Nat} {edits : List Edit} (front : Nat) :
      Leads texts (old + len) new edits old' new' →
        Leads texts old new (.delete old len front :: edits) old' new'
  | insert {old new len old' new' : Nat} {edits : List Edit} (front : Nat) :
      Leads texts old (new + len) edits old' new' →
        Leads texts old new (.insert front new len :: edits) old' new'

section

variable {texts : Texts} {old new old' new' : Nat} {edits : List Edit}

theorem leads_nil : Leads texts old new [] old' new' ↔ old = old' ∧ new = new' := by
  constructor
  · rintro ⟨⟩
    exact ⟨rfl, rfl⟩
  · rintro ⟨rfl, rfl⟩
    exact .nil

theorem leads_keep {o n len : Nat} : Leads texts old new (.keep o n len :: edits) old' new' ↔
    o = old ∧ n = new ∧ 0 < len ∧ texts.Agrees old new len ∧
      Leads texts (old + len) (new + len) edits old' new' := by
  constructor
  · rintro ⟨⟩
    exact ⟨rfl, rfl, ‹_›, ‹_›, ‹_›⟩
  · rintro ⟨rfl, rfl, hsome, hagrees, h⟩
    exact .keep hsome hagrees h

theorem leads_delete {o len front : Nat} :
    Leads texts old new (.delete o len front :: edits) old' new' ↔
      o = old ∧ Leads texts (old + len) new edits old' new' := by
  constructor
  · rintro ⟨⟩
    exact ⟨rfl, ‹_›⟩
  · rintro ⟨rfl, h⟩
    exact .delete front h

theorem leads_insert {n len front : Nat} :
    Leads texts old new (.insert front n len :: edits) old' new' ↔
      n = new ∧ Leads texts old (new + len) edits old' new' := by
  constructor
  · rintro ⟨⟩
    exact ⟨rfl, ‹_›⟩
  · rintro ⟨rfl, h⟩
    exact .insert front h

theorem leads_append {edits' : List Edit} : Leads texts old new (edits ++ edits') old' new' ↔
    ∃ middle middle', Leads texts old new edits middle middle' ∧
      Leads texts middle middle' edits' old' new' := by
  induction edits generalizing old new with
  | nil =>
      constructor
      · exact fun h => ⟨old, new, .nil, h⟩
      · rintro ⟨middle, middle', hnil, h⟩
        obtain ⟨rfl, rfl⟩ := leads_nil.1 hnil
        exact h
  | cons edit edits ih =>
      cases edit with
      | keep o n len => simp only [List.cons_append, leads_keep, ih]; grind
      | delete o len front => simp only [List.cons_append, leads_delete, ih]; grind
      | insert front n len => simp only [List.cons_append, leads_insert, ih]; grind

end

/-! ## Finding a script -/

theorem Texts.Agrees.append {texts : Texts} {old new len len' : Nat} (h : texts.Agrees old new len)
    (h' : texts.Agrees (old + len) (new + len) len') : texts.Agrees old new (len + len') := by
  intro i hi
  by_cases hfirst : i < len
  · exact h i hfirst
  · have hsecond := h' (i - len) (by omega)
    rwa [show old + len + (i - len) = old + i by omega, show new + len + (i - len) = new + i by omega]
      at hsecond

theorem Texts.Agrees.part {texts : Texts} {old new len : Nat} (h : texts.Agrees old new len)
    (front len' : Nat) (hle : front + len' ≤ len) :
    texts.Agrees (old + front) (new + front) len' := by
  intro i hi
  rw [Nat.add_assoc, Nat.add_assoc]
  exact h (front + i) (by omega)

section

variable {texts : Texts}

theorem Texts.commonStart_le (old new : Span) :
    texts.commonStart old new ≤ old.length ∧ texts.commonStart old new ≤ new.length := by
  have hle := texts.commonFrom_le old.start new.start (min old.length new.length)
  unfold commonStart
  omega

theorem Texts.commonEnd_le (old new : Span) :
    texts.commonEnd old new ≤ old.length ∧ texts.commonEnd old new ≤ new.length := by
  have hle := (texts.commonBefore_le old.stop new.stop (min old.length new.length)).1
  unfold commonEnd
  omega

theorem Texts.agrees_commonStart (old new : Span) :
    texts.Agrees old.start new.start (texts.commonStart old new) :=
  texts.agrees_commonFrom old.start new.start _

theorem Texts.agrees_commonEnd (old new : Span) :
    texts.Agrees (old.stop - texts.commonEnd old new) (new.stop - texts.commonEnd old new)
      (texts.commonEnd old new) :=
  texts.agrees_commonBefore old.stop new.stop _

/-- Kept lines lead on, also if there are none of them. -/
theorem leads_kept {old new len old' new' : Nat} {edits : List Edit}
    (hagrees : texts.Agrees old new len)
    (h : Leads texts (old + len) (new + len) edits old' new') :
    Leads texts old new ((if len == 0 then [] else [.keep old new len]) ++ edits) old' new' := by
  by_cases hnone : len = 0
  · subst hnone
    exact h
  · simpa [hnone] using Leads.keep (Nat.pos_of_ne_zero hnone) hagrees h

/-- What a way to find scripts has to give: they lead from the starts of two ranges to their ends. -/
def Finds (texts : Texts) (find : Span → Span → List Edit) : Prop :=
  ∀ old new : Span, old.start ≤ old.stop → new.start ≤ new.stop →
    Leads texts old.start new.start (find old new) old.stop new.stop

theorem Span.start_add_length {span : Span} (h : span.start ≤ span.stop) :
    span.start + span.length = span.stop := by
  unfold Span.length
  omega

theorem finds_replaceAll : Finds texts replaceAll := by
  intro old new hold hnew
  rw [← Span.start_add_length hold, ← Span.start_add_length hnew]
  exact .delete _ (.insert _ .nil)

theorem finds_divide {part : Span → Span → List Edit} (h : Finds texts part) :
    Finds texts (divide texts part) := by
  intro old new hold hnew
  unfold divide
  split
  · next x y hmiddle =>
    obtain ⟨hx, hx', hy, hy'⟩ := middle?_within hold hnew hmiddle
    exact leads_append.2 ⟨x, y, h { old with stop := x } { new with stop := y } hx hy,
      h { old with start := x } { new with start := y } hx' hy'⟩
  · exact finds_replaceAll old new hold hnew

theorem finds_unlessBoth {inner : Span → Span → List Edit} (h : Finds texts inner) :
    Finds texts (unlessBoth inner) := by
  intro old new hold hnew
  have hempty : ∀ span : Span, span.start ≤ span.stop → span.isEmpty = true → span.start = span.stop := by
    intro span hle hempty
    simp only [Span.isEmpty, decide_eq_true_eq] at hempty
    omega
  unfold unlessBoth
  split
  · next hboth =>
    rw [Bool.and_eq_true] at hboth
    exact leads_nil.2 ⟨hempty old hold hboth.1, hempty new hnew hboth.2⟩
  · split
    · next hnone =>
      rw [← hempty new hnew hnone, ← Span.start_add_length hold]
      exact .delete _ .nil
    · split
      · next hnone =>
        rw [← hempty old hold hnone, ← Span.start_add_length hnew]
        exact .insert _ .nil
      · exact h old new hold hnew

theorem finds_withinEnds {inner : Span → Span → List Edit} (h : Finds texts inner) :
    Finds texts (withinEnds texts inner) := by
  intro old new hold hnew
  have hstartLe := texts.commonStart_le old new
  have hstart := texts.agrees_commonStart old new
  unfold withinEnds
  generalize texts.commonStart old new = start at hstartLe hstart ⊢
  have hstopLe := texts.commonEnd_le ⟨old.start + start, old.stop⟩ ⟨new.start + start, new.stop⟩
  have hstop := texts.agrees_commonEnd ⟨old.start + start, old.stop⟩ ⟨new.start + start, new.stop⟩
  dsimp only at hstop ⊢
  generalize texts.commonEnd _ _ = stop at hstopLe hstop ⊢
  unfold Span.length at hstartLe hstopLe
  rw [List.append_assoc]
  refine leads_kept hstart (leads_append.2 ⟨_, _, h ⟨_, _⟩ ⟨_, _⟩ ?_ ?_, ?_⟩)
  · dsimp only at hstopLe ⊢
    omega
  · dsimp only at hstopLe ⊢
    omega
  · have hlast : Leads texts (old.stop - stop) (new.stop - stop)
        ((if stop == 0 then [] else [.keep (old.stop - stop) (new.stop - stop) stop]) ++ [])
        (old.stop - stop + stop) (new.stop - stop + stop) := leads_kept hstop .nil
    dsimp only at hstopLe
    rwa [List.append_nil, Nat.sub_add_cancel (by omega), Nat.sub_add_cancel (by omega)] at hlast

/-- The script between two ranges leads from their starts to their ends. -/
theorem finds_scriptBetween (limit : Nat) : Finds texts (scriptBetween texts limit) := by
  induction limit with
  | zero => exact finds_withinEnds (finds_unlessBoth finds_replaceAll)
  | succ limit ih => exact finds_withinEnds (finds_unlessBoth (finds_divide ih))

/-- The script between two texts leads from their starts to their ends. -/
theorem leads_script (texts : Texts) :
    Leads texts 0 0 (script texts) texts.old.size texts.new.size :=
  finds_scriptBetween _ ⟨0, _⟩ ⟨0, _⟩ (Nat.zero_le _) (Nat.zero_le _)

end

end TraceWeave.Diff
