import TraceWeave.Program.Fact

/-!
Recording facts.

A table of facts is written once for each name.  Whatever is added, a name keeps the fact
that it was given first (`get?_attempts`).  Recording the same fact again is no conflict, so
the conflicts of a round of names are those with the facts of earlier rounds
(`errors_recordAll`).
-/

namespace TraceWeave.Program.Facts

open TraceWeave.Order

variable (facts : Facts) (name : String)

/-! ## Single facts -/

theorem get?_empty : ({} : Facts).get? name = none := rfl

theorem add_eq_ok_iff (fact : Option Fact) (facts' : Facts) :
    facts.add name fact = .ok facts' ↔
      name ≠ "" ∧ facts.get? name = none ∧
        ∃ new, fact = some new ∧ facts' = ⟨facts.table.insert name new⟩ := by
  unfold add
  by_cases hname : name = ""
  · simp [hname]
  · cases fact with
    | none => simp [hname]
    | some new =>
        cases hget : facts.get? name with
        | some existing => simp [hname]
        | none => simp only [String.isEmpty_iff, hname, if_false, Except.ok.injEq, true_and,
            ne_eq, not_false_eq_true, Option.some.injEq, exists_eq_left', @eq_comm _ facts']

theorem get?_insert (fact : Fact) (other : String) :
    Facts.get? ⟨facts.table.insert name fact⟩ other =
      if other = name then some fact else facts.get? other :=
  Table.get?_insert facts.table name other fact

theorem get?_of_add {fact : Fact} {facts' : Facts} {facts : Facts} {name : String}
    (h : facts.add name (some fact) = .ok facts') (other : String) :
    facts'.get? other = if other = name then some fact else facts.get? other := by
  obtain ⟨-, -, new, hnew, rfl⟩ := (add_eq_ok_iff facts name _ facts').1 h
  obtain rfl := Option.some.inj hnew
  exact get?_insert facts name _ other

/-! ## Sequences of additions -/

/-- Adds a fact; a refusal leaves the facts as they are. -/
def attempt (entry : String × Option Fact) : Facts :=
  match facts.add entry.1 entry.2 with
  | .ok facts => facts
  | .error _ => facts

/-- The first fact for a name among those that were offered. -/
def offered (entries : List (String × Option Fact)) : Option Fact :=
  entries.findSome? fun entry => if entry.1 = name ∧ name ≠ "" then entry.2 else none

theorem get?_attempt (entry : String × Option Fact) :
    (facts.attempt entry).get? name = (facts.get? name).or (offered name [entry]) := by
  obtain ⟨name', fact⟩ := entry
  unfold attempt
  split
  · next facts' hadd =>
    obtain ⟨hname, hnone, new, rfl, -⟩ := (add_eq_ok_iff facts name' fact facts').1 hadd
    rw [get?_of_add hadd]
    by_cases heq : name = name'
    · subst heq
      simp [offered, hname, hnone]
    · simp [offered, heq, Ne.symm heq]
  · next error hadd =>
    by_cases heq : name' = name ∧ name ≠ ""
    · -- only an earlier fact refuses a proper one
      obtain ⟨rfl, hname⟩ := heq
      cases hget : facts.get? name' with
      | some existing => rfl
      | none =>
          cases fact with
          | none => simp [offered]
          | some new => simp [add, hname, hget] at hadd
    · simp [offered, heq]

/-- A name keeps the first fact that was offered for it. -/
theorem get?_attempts (entries : List (String × Option Fact)) :
    (entries.foldl attempt facts).get? name = (facts.get? name).or (offered name entries) := by
  induction entries generalizing facts with
  | nil => simp [offered]
  | cons entry entries ih =>
      rw [List.foldl_cons, ih, get?_attempt, Option.or_assoc]
      congr 1
      simp only [offered, List.findSome?_cons, List.findSome?_nil]
      split <;> simp_all

theorem mem_entries_attempts {entries : List (String × Option Fact)} {facts : Facts}
    (hfacts : ∀ entry ∈ facts.table.entries, entry.1 ≠ "") :
    ∀ entry ∈ (entries.foldl attempt facts).table.entries, entry.1 ≠ "" := by
  induction entries generalizing facts with
  | nil => exact hfacts
  | cons entry entries ih =>
      refine ih ?_
      unfold attempt
      split
      · next facts' hadd =>
        obtain ⟨hname, -, new, -, rfl⟩ := (add_eq_ok_iff facts _ _ facts').1 hadd
        intro stored hmem
        obtain rfl | hmem := Table.mem_insertEntry hmem
        · exact hname
        · exact hfacts stored hmem
      · exact hfacts

/-- What a sequence of additions leaves of facts that were empty. -/
structure FirstStays (entries : List (String × Option Fact)) : Prop where
  first : ∀ name, (entries.foldl attempt {}).get? name = offered name entries
  /-- An addition that succeeds is the one that stays. -/
  stays : ∀ front name fact back facts, entries = front ++ (name, fact) :: back →
    (front.foldl attempt {}).add name fact = .ok facts →
      fact ≠ none ∧ (entries.foldl attempt {}).get? name = fact
  /-- Nothing is there that no addition put there. -/
  added : ∀ name fact, (entries.foldl attempt {}).get? name = some fact →
    ∃ front back facts, entries = front ++ (name, some fact) :: back ∧
      (front.foldl attempt {}).add name (some fact) = .ok facts
  refused : ∀ front entry back error, entries = front ++ entry :: back →
    (front.foldl attempt {}).add entry.1 entry.2 = .error error →
      (front ++ [entry]).foldl attempt {} = front.foldl attempt {}
  named : ∀ entry ∈ (entries.foldl attempt {}).table.entries, entry.1 ≠ ""

theorem firstStays (entries : List (String × Option Fact)) : FirstStays entries where
  first name := by rw [get?_attempts, get?_empty, Option.none_or]
  stays front name fact back facts hentries hadd := by
    obtain ⟨-, -, new, rfl, -⟩ := (add_eq_ok_iff _ _ _ _).1 hadd
    have hattempt : (front.foldl attempt {}).attempt (name, some new) = facts := by
      simp [attempt, hadd]
    refine ⟨by simp, ?_⟩
    rw [hentries, List.foldl_append, List.foldl_cons, hattempt, get?_attempts, get?_of_add hadd,
      if_pos rfl, Option.some_or]
  added name fact hget := by
    rw [get?_attempts, get?_empty, Option.none_or] at hget
    obtain ⟨front, entry, back, hentries, hoffer, hfront⟩ := List.findSome?_eq_some_iff.1 hget
    split at hoffer
    · next hname =>
      obtain ⟨name', fact'⟩ := entry
      obtain ⟨rfl, hne⟩ := hname
      obtain rfl : fact' = some fact := hoffer
      have hnone : (front.foldl attempt {}).get? name' = none := by
        rw [get?_attempts, get?_empty, Option.none_or]
        exact List.findSome?_eq_none_iff.2 hfront
      exact ⟨front, back, _, hentries, (add_eq_ok_iff _ _ _ _).2 ⟨hne, hnone, fact, rfl, rfl⟩⟩
    · contradiction
  refused front entry back error _ hadd := by
    rw [List.foldl_append, List.foldl_cons, List.foldl_nil, attempt, hadd]
  named := mem_entries_attempts (by simp)

/-! ## Rounds of names -/

/-- Recording a fact for a name that has none, or has that very fact, is no conflict. -/
theorem record_eq (fact : Fact) (errors : List FactError) {facts : Facts} {name : String}
    (hname : name ≠ "") :
    Facts.record fact (facts, errors) name =
      match facts.get? name with
      | none => (⟨facts.table.insert name fact⟩, errors)
      | some existing =>
          (facts, errors ++ if existing = fact then [] else
            [.duplicate name (some existing) (some fact)]) := by
  unfold Facts.record
  cases hget : facts.get? name with
  | none => simp [add, hget, hname]
  | some existing =>
      by_cases heq : existing = fact
      · simp [hget, heq]
      · simp [add, hget, hname, heq]

theorem get?_recordAll (fact : Fact) (errors : List FactError) {names : List String}
    (hnames : ∀ name ∈ names, name ≠ "") (other : String) :
    (names.foldl (Facts.record fact) (facts, errors)).1.get? other =
      (facts.get? other).or (if other ∈ names then some fact else none) := by
  induction names generalizing facts errors with
  | nil => simp
  | cons name names ih =>
      obtain ⟨hname, hnames⟩ := List.forall_mem_cons.1 hnames
      rw [List.foldl_cons, record_eq fact errors hname]
      split
      · next hnone =>
        rw [ih _ _ hnames, get?_insert]
        by_cases heq : other = name
        · subst heq
          simp [hnone]
        · simp [heq]
      · next existing hget =>
        rw [ih _ _ hnames]
        by_cases heq : other = name
        · subst heq
          simp [hget]
        · simp [heq]

/-- The conflicts of a round are those with the facts that were there before it. -/
theorem errors_recordAll (fact : Fact) (errors : List FactError) {names : List String}
    (hnames : ∀ name ∈ names, name ≠ "") :
    (names.foldl (Facts.record fact) (facts, errors)).2 =
      errors ++ (names.filter fun name => (facts.get? name).any (· != fact)).map fun name =>
        .duplicate name (facts.get? name) (some fact) := by
  induction names generalizing facts errors with
  | nil => simp
  | cons name names ih =>
      obtain ⟨hname, hnames⟩ := List.forall_mem_cons.1 hnames
      rw [List.foldl_cons, record_eq fact errors hname]
      split
      · next hnone =>
        -- the name that is new now has the very fact of the round
        have hsame : (names.filter fun other =>
            (Facts.get? ⟨facts.table.insert name fact⟩ other).any (· != fact)) =
            names.filter fun other => (facts.get? other).any (· != fact) := by
          refine List.filter_congr fun other _ => ?_
          rw [get?_insert]
          by_cases heq : other = name <;> simp [heq, hnone]
        rw [ih _ _ hnames, hsame, List.filter_cons_of_neg (by simp [hnone])]
        congr 1
        refine List.map_congr_left fun other hmem => ?_
        have hne : other ≠ name := by
          rintro rfl
          simp [hnone] at hmem
        rw [get?_insert, if_neg hne]
      · next existing hget =>
        rw [ih _ _ hnames]
        by_cases heq : existing = fact <;> simp [heq, hget]

end TraceWeave.Program.Facts
