import TraceWeave.Diff.Unified
import TraceWeave.Proofs.Diff.Compaction

/-!
Hunks cover all that changes.

Changes lead from one text to the other as the script does that they come from (`Covers`); hunks are
runs of changes, and the texts agree on the lines that stand between them (`Patches`).
-/

namespace TraceWeave.Diff

/-- Changes lead from a pair of positions to another one. -/
inductive Covers (texts : Texts) : Nat → Nat → List Change → Nat → Nat → Prop where
  | nil {old new : Nat} : Covers texts old new [] old new
  | keep {old new len old' new' : Nat} {changes : List Change} : 0 < len →
      texts.Agrees old new len → Covers texts (old + len) (new + len) changes old' new' →
        Covers texts old new (.keep old new len :: changes) old' new'
  | replace {old new oldLen newLen front front' old' new' : Nat} {changes : List Change} :
      (oldLen ≠ 0 → front = old) → (newLen ≠ 0 → front' = new) →
        Covers texts (old + oldLen) (new + newLen) changes old' new' →
          Covers texts old new (.replace front oldLen front' newLen :: changes) old' new'

section

variable {texts : Texts} {old new old' new' : Nat} {changes : List Change}

theorem covers_nil : Covers texts old new [] old' new' ↔ old = old' ∧ new = new' := by
  constructor
  · rintro ⟨⟩
    exact ⟨rfl, rfl⟩
  · rintro ⟨rfl, rfl⟩
    exact .nil

theorem covers_keep {o n len : Nat} : Covers texts old new (.keep o n len :: changes) old' new' ↔
    o = old ∧ n = new ∧ 0 < len ∧ texts.Agrees old new len ∧
      Covers texts (old + len) (new + len) changes old' new' := by
  constructor
  · rintro ⟨⟩
    exact ⟨rfl, rfl, ‹_›, ‹_›, ‹_›⟩
  · rintro ⟨rfl, rfl, hsome, hagrees, h⟩
    exact .keep hsome hagrees h

theorem covers_replace {front oldLen front' newLen : Nat} :
    Covers texts old new (.replace front oldLen front' newLen :: changes) old' new' ↔
      (oldLen ≠ 0 → front = old) ∧ (newLen ≠ 0 → front' = new) ∧
        Covers texts (old + oldLen) (new + newLen) changes old' new' := by
  constructor
  · rintro ⟨⟩
    exact ⟨‹_›, ‹_›, ‹_›⟩
  · rintro ⟨hold, hnew, h⟩
    exact .replace hold hnew h

theorem covers_append {changes' : List Change} :
    Covers texts old new (changes ++ changes') old' new' ↔
      ∃ middle middle', Covers texts old new changes middle middle' ∧
        Covers texts middle middle' changes' old' new' := by
  induction changes generalizing old new with
  | nil =>
      constructor
      · exact fun h => ⟨old, new, .nil, h⟩
      · rintro ⟨middle, middle', hnil, h⟩
        obtain ⟨rfl, rfl⟩ := covers_nil.1 hnil
        exact h
  | cons change changes ih =>
      cases change with
      | keep o n len => simp only [List.cons_append, covers_keep, ih]; grind
      | replace front oldLen front' newLen =>
          simp only [List.cons_append, covers_replace, ih]
          grind

theorem Covers.le (h : Covers texts old new changes old' new') : old ≤ old' ∧ new ≤ new' := by
  induction h with
  | nil => exact ⟨Nat.le_refl _, Nat.le_refl _⟩
  | keep => omega
  | replace => omega

/-! ## Changes of a script -/

/-- Pending edits lead from a pair of positions to another one. -/
structure Pending.Leads (pending : Pending) (old new old' new' : Nat) : Prop where
  deleted : match pending.deleted with
    | some (front, len, _) => front = old ∧ old' = old + len
    | none => old' = old
  inserted : match pending.inserted with
    | some (_, front, len) => front = new ∧ new' = new + len
    | none => new' = new

theorem Pending.leads_none (old new : Nat) : Pending.Leads {} old new old new := ⟨rfl, rfl⟩

theorem Pending.Leads.delete {pending : Pending} {a b : Nat} (h : pending.Leads a b old new)
    (len front : Nat) : (pending.delete old len front).Leads a b (old + len) new := by
  obtain ⟨deleted, inserted⟩ := pending
  obtain ⟨hdeleted, hinserted⟩ := h
  cases deleted with
  | none =>
      obtain rfl : old = a := hdeleted
      exact ⟨⟨rfl, rfl⟩, hinserted⟩
  | some deletion =>
      obtain ⟨rfl, rfl⟩ := hdeleted
      exact ⟨⟨rfl, Nat.add_assoc ..⟩, hinserted⟩

theorem Pending.Leads.insert {pending : Pending} {a b : Nat} (h : pending.Leads a b old new)
    (front len : Nat) : (pending.insert front new len).Leads a b old (new + len) := by
  obtain ⟨deleted, inserted⟩ := pending
  obtain ⟨hdeleted, hinserted⟩ := h
  cases inserted with
  | none =>
      obtain rfl : new = b := hinserted
      exact ⟨hdeleted, rfl, rfl⟩
  | some insertion =>
      obtain ⟨rfl, rfl⟩ := hinserted
      exact ⟨hdeleted, rfl, Nat.add_assoc ..⟩

theorem Pending.Leads.covers {pending : Pending} {a b : Nat} (h : pending.Leads a b old new)
    (hchanges : Covers texts old new changes old' new') :
    Covers texts a b (pending.changes ++ changes) old' new' := by
  obtain ⟨deleted, inserted⟩ := pending
  obtain ⟨hdeleted, hinserted⟩ := h
  cases deleted with
  | none =>
      obtain rfl : old = a := hdeleted
      cases inserted with
      | none =>
          obtain rfl : new = b := hinserted
          exact hchanges
      | some insertion =>
          obtain ⟨rfl, rfl⟩ := hinserted
          exact .replace (absurd rfl) (fun _ => rfl) hchanges
  | some deletion =>
      obtain ⟨rfl, rfl⟩ := hdeleted
      cases inserted with
      | none =>
          obtain rfl : new = b := hinserted
          exact .replace (fun _ => rfl) (absurd rfl) hchanges
      | some insertion =>
          obtain ⟨rfl, rfl⟩ := hinserted
          exact .replace (fun _ => rfl) (fun _ => rfl) hchanges

theorem covers_changesFrom {edits : List Edit} (h : Leads texts old new edits old' new')
    {pending : Pending} {a b : Nat} (hpending : pending.Leads a b old new) :
    Covers texts a b (changesFrom pending edits) old' new' := by
  induction h generalizing pending a b with
  | nil => simpa [changesFrom] using hpending.covers .nil
  | delete front _ ih => exact ih (hpending.delete _ front)
  | insert front _ ih => exact ih (hpending.insert front _)
  | @keep old new len old' new' edits hsome hagrees h ih =>
      have hchanges := ih (Pending.leads_none (old + len) (new + len))
      unfold changesFrom
      refine hpending.covers ?_
      split
      · next o n len' changes heq =>
        rw [heq] at hchanges
        obtain ⟨-, -, -, hagrees', hchanges⟩ := covers_keep.1 hchanges
        refine .keep (by omega) (hagrees.append hagrees') ?_
        rwa [← Nat.add_assoc, ← Nat.add_assoc]
      · exact .keep hsome hagrees hchanges

end

/-! ## Hunks -/

/-- The change keeps lines. -/
def Change.IsKept : Change → Prop
  | .keep _ _ _ => True
  | .replace _ _ _ _ => False

instance : DecidablePred Change.IsKept
  | .keep _ _ _ => isTrue trivial
  | .replace _ _ _ _ => isFalse id

/-- Changes that start at a pair of positions start with kept lines or with the texts. -/
def StartsAt (changes : List Change) (old new : Nat) : Prop :=
  (∃ change ∈ changes.head?, change.IsKept) ∨ old = 0 ∧ new = 0

instance (changes : List Change) (old new : Nat) : Decidable (StartsAt changes old new) :=
  inferInstanceAs (Decidable (_ ∨ _))

/-- Changes that end at a pair of positions end with kept lines or with the texts. -/
def EndsAt (texts : Texts) (changes : List Change) (old new : Nat) : Prop :=
  (∃ change ∈ changes.getLast?, change.IsKept) ∨ old = texts.old.size ∧ new = texts.new.size

instance (texts : Texts) (changes : List Change) (old new : Nat) :
    Decidable (EndsAt texts changes old new) :=
  inferInstanceAs (Decidable (_ ∨ _))

/-- The texts agree from a pair of positions on. -/
def Texts.AgreesTo (texts : Texts) (old new len : Nat) : Prop :=
  texts.Agrees old new len ∧ old + len = texts.old.size ∧ new + len = texts.new.size

/-- A hunk leads from a pair of positions to another one. -/
structure Stands (texts : Texts) (hunk : List Change) (old new old' new' : Nat) : Prop where
  nonempty : hunk ≠ []
  covers : Covers texts old new hunk old' new'
  starts : StartsAt hunk old new
  ends : EndsAt texts hunk old' new'

/-- Hunks lead from a pair of positions to the ends of the texts, which agree between them. -/
inductive Patches (texts : Texts) : Nat → Nat → List (List Change) → Prop where
  | nil {old new len : Nat} : texts.AgreesTo old new len → Patches texts old new []
  | cons {old new gap old' new' : Nat} {hunk : List Change} {hunks : List (List Change)} :
      texts.Agrees old new gap → Stands texts hunk (old + gap) (new + gap) old' new' →
        Patches texts old' new' hunks → Patches texts old new (hunk :: hunks)

section

variable {texts : Texts} {old new old' new' : Nat} {changes hunk : List Change}

theorem Texts.agrees_zero (texts : Texts) (old new : Nat) : texts.Agrees old new 0 :=
  fun i hi => absurd hi (Nat.not_lt_zero i)

theorem Patches.ahead {gap : Nat} {hunks : List (List Change)} (hagrees : texts.Agrees old new gap)
    (h : Patches texts (old + gap) (new + gap) hunks) : Patches texts old new hunks := by
  cases h with
  | nil hrest =>
      obtain ⟨hagrees', hold, hnew⟩ := hrest
      exact .nil ⟨hagrees.append hagrees', by omega, by omega⟩
  | cons hagrees' hhunk hhunks =>
      rw [Nat.add_assoc, Nat.add_assoc] at hhunk
      exact .cons (hagrees.append hagrees') hhunk hhunks

theorem exists_trimStart (h : Covers texts 0 0 changes old' new') :
    ∃ gap, texts.Agrees 0 0 gap ∧ Covers texts gap gap (trimStart changes) old' new' ∧
      StartsAt (trimStart changes) gap gap := by
  cases changes with
  | nil => exact ⟨0, texts.agrees_zero _ _, h, .inr ⟨rfl, rfl⟩⟩
  | cons change changes =>
      cases change with
      | replace => exact ⟨0, texts.agrees_zero _ _, h, .inr ⟨rfl, rfl⟩⟩
      | keep o n len =>
          obtain ⟨rfl, rfl, hsome, hagrees, h⟩ := covers_keep.1 h
          refine ⟨len - contextLines, ?_, ?_, .inl ⟨_, rfl, trivial⟩⟩
          · simpa using hagrees.part 0 (len - contextLines) (by omega)
          · have hpart := hagrees.part (len - contextLines) (min len contextLines) (by omega)
            simp only [trimStart, Nat.zero_add] at h hpart ⊢
            refine .keep (by unfold contextLines; omega) hpart ?_
            rwa [show len - contextLines + min len contextLines = len by omega]

theorem EndsAt.cons (h : EndsAt texts changes old new) (change : Change) :
    EndsAt texts (change :: changes) old new := by
  obtain ⟨last, hlast, hkept⟩ | hend := h
  · refine .inl ⟨last, ?_, hkept⟩
    cases changes with
    | nil => cases hlast
    | cons => rwa [List.getLast?_cons_cons]
  · exact .inr hend

theorem exists_trimEnd (h : Covers texts old new changes texts.old.size texts.new.size) :
    ∃ old' new' gap, Covers texts old new (trimEnd changes) old' new' ∧
      texts.AgreesTo old' new' gap ∧ EndsAt texts (trimEnd changes) old' new' := by
  fun_induction trimEnd changes generalizing old new with
  | case1 =>
      exact ⟨_, _, 0, h, ⟨texts.agrees_zero _ _, rfl, rfl⟩, .inr ⟨rfl, rfl⟩⟩
  | case2 o n len =>
      obtain ⟨rfl, rfl, hsome, hagrees, hnil⟩ := covers_keep.1 h
      obtain ⟨hold, hnew⟩ := covers_nil.1 hnil
      refine ⟨_, _, len - contextLines, .keep ?_ (hagrees.part 0 (min len contextLines) ?_) .nil,
        ⟨hagrees.part _ _ ?_, ?_, ?_⟩, .inl ⟨_, rfl, trivial⟩⟩
      all_goals unfold contextLines
      all_goals omega
  | case3 change changes _ ih =>
      cases change with
      | keep o n len =>
          obtain ⟨rfl, rfl, hsome, hagrees, h⟩ := covers_keep.1 h
          obtain ⟨old', new', gap, hcovers, hrest, hends⟩ := ih h
          exact ⟨old', new', gap, .keep hsome hagrees hcovers, hrest, hends.cons _⟩
      | replace =>
          obtain ⟨hold, hnew, h⟩ := covers_replace.1 h
          obtain ⟨old', new', gap, hcovers, hrest, hends⟩ := ih h
          exact ⟨old', new', gap, .replace hold hnew hcovers, hrest, hends.cons _⟩

theorem StartsAt.trimEnd (h : StartsAt changes old new) : StartsAt (trimEnd changes) old new := by
  obtain ⟨first, hfirst, hkept⟩ | hstart := h
  · refine .inl ?_
    fun_cases Diff.trimEnd changes with
    | case1 => cases hfirst
    | case2 => exact ⟨_, rfl, trivial⟩
    | case3 => exact ⟨first, hfirst, hkept⟩
  · exact .inr hstart

/-- The parts that change something; only the last one may not. -/
def properParts (parts : List (List Change)) : List (List Change) :=
  parts.dropLast ++ parts.getLast?.toList.filter isProper

theorem hunksFrom_ne_nil (hunk changes : List Change) : hunksFrom hunk changes ≠ [] := by
  fun_induction hunksFrom hunk changes with
  | case1 => simp
  | case2 => simp
  | case3 => assumption
  | case4 => assumption

theorem properParts_cons (part : List Change) {parts : List (List Change)} (h : parts ≠ []) :
    properParts (part :: parts) = part :: properParts parts := by
  cases parts with
  | nil => exact absurd rfl h
  | cons => simp [properParts]

theorem covers_improper (h : Covers texts old new hunk old' new') (himproper : isProper hunk = false) :
    ∃ len, texts.Agrees old new len ∧ old' = old + len ∧ new' = new + len := by
  unfold isProper at himproper
  split at himproper
  · obtain ⟨rfl, rfl⟩ := covers_nil.1 h
    exact ⟨0, texts.agrees_zero _ _, rfl, rfl⟩
  · next o n len =>
    obtain ⟨rfl, rfl, -, hagrees, hnil⟩ := covers_keep.1 h
    obtain ⟨rfl, rfl⟩ := covers_nil.1 hnil
    exact ⟨len, hagrees, rfl, rfl⟩
  · cases himproper

theorem StartsAt.take {front : List Change} {o n len : Nat}
    (h : StartsAt (front ++ .keep o n len :: changes) old new) (o' n' len' : Nat) :
    StartsAt (front ++ [.keep o' n' len']) old new := by
  cases front with
  | nil => exact .inl ⟨_, rfl, trivial⟩
  | cons => exact h

theorem EndsAt.drop {front : List Change} {o n len : Nat}
    (h : EndsAt texts (front ++ .keep o n len :: changes) old new) (o' n' len' : Nat) :
    EndsAt texts (.keep o' n' len' :: changes) old new := by
  cases changes with
  | nil => exact .inl ⟨_, rfl, trivial⟩
  | cons => simpa [EndsAt, List.getLast?_append] using h

/-- Parting changes gives hunks, if the part that is begun and the changes behind it are in place. -/
theorem patches_hunksFrom {a b len : Nat} (hhunk : Covers texts a b hunk old new)
    (hchanges : Covers texts old new changes old' new') (hfirst : StartsAt (hunk ++ changes) a b)
    (hlast : EndsAt texts (hunk ++ changes) old' new') (hrest : texts.AgreesTo old' new' len) :
    Patches texts a b (properParts (hunksFrom hunk changes)) := by
  fun_induction hunksFrom hunk changes generalizing a b old new with
  | case1 hunk =>
      obtain ⟨rfl, rfl⟩ := covers_nil.1 hchanges
      rw [List.append_nil] at hfirst hlast
      cases hproper : isProper hunk with
      | true =>
          have hsome : hunk ≠ [] := by
            rintro rfl
            cases hproper
          simpa [properParts, hproper] using
            Patches.cons (texts.agrees_zero a b) ⟨hsome, hhunk, hfirst, hlast⟩ (.nil hrest)
      | false =>
          obtain ⟨len', hagrees, rfl, rfl⟩ := covers_improper hhunk hproper
          simpa [properParts, hproper] using Patches.ahead hagrees (.nil hrest)
  | case2 hunk o n len' changes hlong ih =>
      obtain ⟨rfl, rfl, hsome, hagrees, hchanges⟩ := covers_keep.1 hchanges
      have hcontext : contextLines = 3 := rfl
      have hpart : Covers texts a b (hunk ++ [.keep o n contextLines])
          (o + contextLines) (n + contextLines) :=
        covers_append.2 ⟨_, _, hhunk, .keep (by decide) (hagrees.part 0 _ (by omega)) .nil⟩
      have hgap := hagrees.part contextLines (len' - 2 * contextLines) (by omega)
      have hnext := hagrees.part (len' - contextLines) contextLines (by omega)
      have hhunks := @ih (o + len') (n + len') _ _
        (covers_keep.2 ⟨rfl, rfl, by decide, hnext, covers_nil.2 ⟨by omega, by omega⟩⟩) hchanges
        (.inl ⟨_, rfl, trivial⟩) (hlast.drop ..)
      rw [properParts_cons _ (hunksFrom_ne_nil _ _)]
      refine .cons (texts.agrees_zero a b)
        ⟨by simp, hpart, hfirst.take .., .inl ⟨_, List.getLast?_concat .., trivial⟩⟩ (.ahead hgap ?_)
      rwa [show o + contextLines + (len' - 2 * contextLines) = o + (len' - contextLines) by omega,
        show n + contextLines + (len' - 2 * contextLines) = n + (len' - contextLines) by omega]
  | case3 hunk o n len' changes hlong ih =>
      obtain ⟨rfl, rfl, hsome, hagrees, hchanges⟩ := covers_keep.1 hchanges
      rw [← List.append_cons] at ih
      exact ih (covers_append.2 ⟨_, _, hhunk, .keep hsome hagrees .nil⟩) hchanges hfirst hlast
  | case4 hunk change changes hreplace ih =>
      rw [← List.append_cons] at ih
      cases change with
      | keep o n len => exact absurd rfl (hreplace o n len)
      | replace =>
          obtain ⟨hold, hnew, hchanges⟩ := covers_replace.1 hchanges
          exact ih (covers_append.2 ⟨_, _, hhunk, .replace hold hnew .nil⟩) hchanges hfirst hlast

/-- The hunks of changes between two texts lead from one to the other. -/
theorem patches_hunks (h : Covers texts 0 0 changes texts.old.size texts.new.size) :
    Patches texts 0 0 (hunks changes) := by
  obtain ⟨gap, hagrees, hcovers, hfirst⟩ := exists_trimStart h
  obtain ⟨old, new, len, hcovers, hrest, hlast⟩ := exists_trimEnd hcovers
  have hparts := patches_hunksFrom .nil hcovers hfirst.trimEnd hlast hrest
  refine Patches.ahead hagrees ?_
  rw [Nat.zero_add]
  exact hparts

/-- The hunks between two texts. -/
def Texts.hunks (texts : Texts) : List (List Change) :=
  Diff.hunks (changesFrom {} (compact texts (script texts)))

/-- The hunks between two texts lead from one to the other. -/
theorem Texts.patches (texts : Texts) : Patches texts 0 0 texts.hunks :=
  patches_hunks (covers_changesFrom (follows_compact _ (leads_script texts)) (Pending.leads_none 0 0))

end

end TraceWeave.Diff
