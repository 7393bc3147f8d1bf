import Mathlib.Data.List.Perm.Basic
import TraceWeave.Proofs.Syntax.Moves

/-!
What a walk along a list of statements visits, and what it leaves.

A visitor performs moves on its cursor.  `Visitor.Runs` tells a walk as a row of visits, in
which every statement to come has a slot of its own: those of the list and those that were
inserted later on.  `walkList` performs such a row, and comes to its end once nothing is
inserted later on any more (`walkList_visits`).
-/

namespace TraceWeave.Syntax

/-! ## Slots -/

/-- The place of a statement that is to be visited. -/
inductive Slot where
  | original (position : Nat) (stmt : Stmt)
  /-- The statements inserted later on are numbered in the order of their insertion. -/
  | later (number : Nat) (stmt : Stmt)

namespace Slot

/-- The statement that was put there. -/
def stmt : Slot → Stmt
  | .original _ stmt => stmt
  | .later _ stmt => stmt

/-- The slot was there when `count` statements had been inserted later on. -/
def isBefore (count : Nat) : Slot → Bool
  | .original _ _ => true
  | .later number _ => number < count

theorem isBefore_mono {slot : Slot} {count count' : Nat} (h : slot.isBefore count = true)
    (hle : count ≤ count') : slot.isBefore count' = true := by
  cases slot with
  | original position stmt => rfl
  | later number stmt => exact decide_eq_true (Nat.lt_of_lt_of_le (of_decide_eq_true h) hle)

end Slot

def originals (stmts : List Stmt) : List Slot := stmts.mapIdx Slot.original

/-- The slots of statements inserted later on, numbered from `first` on. -/
def laterSlots (first : Nat) (stmts : List Stmt) : List Slot :=
  stmts.mapIdx fun position => Slot.later (first + position)

theorem laterSlots_append (first : Nat) (front back : List Stmt) :
    laterSlots first (front ++ back) =
      laterSlots first front ++ laterSlots (first + front.length) back := by
  simp only [laterSlots, List.mapIdx_append, Nat.add_assoc, Nat.add_comm front.length]

/-! ## The statements to come -/

/-- The statements to come, each in its slot, and how many were inserted later on so far. -/
structure Queue where
  entries : List (Slot × Stmt)
  count : Nat

namespace Queue

def stmts (queue : Queue) : List Stmt := queue.entries.map Prod.snd

def slots (queue : Queue) : List Slot := queue.entries.map Prod.fst

def move (queue : Queue) : Move → Queue
  | .insertLater offset stmt =>
      { entries := queue.entries.take (offset + 1) ++
          (.later queue.count stmt, stmt) :: queue.entries.drop (offset + 1)
        count := queue.count + 1 }
  | .editRest f =>
      { queue with
        entries := queue.entries.mapIdx fun position entry => (entry.1, f position entry.2) }
  | _ => queue

/-- The queue holds what the cursor has in front of it. -/
theorem rest_move {cursor : Cursor} {queue : Queue} (h : cursor.rest = queue.stmts) (head : Move) :
    (cursor.move head).rest = (queue.move head).stmts := by
  cases head with
  | insertLater offset stmt => simp [Cursor.move, Cursor.insertLater, move, stmts, h]
  | editRest f =>
      exact List.ext_getElem (by simp [Cursor.move, move, stmts, h])
        (by simp [Cursor.move, move, stmts, h])
  | _ => exact h

theorem rest_moves (cursor : Cursor) (queue : Queue) (h : cursor.rest = queue.stmts)
    (moves : List Move) :
    (moves.foldl Cursor.move cursor).rest = (moves.foldl move queue).stmts := by
  induction moves generalizing cursor queue with
  | nil => exact h
  | cons head moves ih => exact ih _ _ (rest_move h head)

end Queue

/-- The slots of some statements, with others inserted later on among them. -/
structure Interleaves (count : Nat) (slots : List Slot) (added : List Stmt) (slots' : List Slot) :
    Prop where
  perm : slots'.Perm (slots ++ laterSlots count added)
  kept : ∀ earlier ≤ count,
    slots'.filter (Slot.isBefore earlier) = slots.filter (Slot.isBefore earlier)

namespace Interleaves

variable {count : Nat} {slots slots' slots'' : List Slot} {added added' : List Stmt}

theorem refl : Interleaves count slots [] slots := ⟨by simp [laterSlots], fun _ _ => rfl⟩

theorem trans (h : Interleaves count slots added slots')
    (h' : Interleaves (count + added.length) slots' added' slots'') :
    Interleaves count slots (added ++ added') slots'' := by
  refine ⟨?_, fun earlier hle => ?_⟩
  · rw [laterSlots_append, ← List.append_assoc]
    exact h'.perm.trans (h.perm.append_right _)
  · rw [h'.kept earlier (Nat.le_add_right_of_le hle), h.kept earlier hle]

theorem cons (h : Interleaves count slots added slots') (slot : Slot) :
    Interleaves count (slot :: slots) added (slot :: slots') := by
  refine ⟨h.perm.cons slot, fun earlier hle => ?_⟩
  rw [List.filter_cons, List.filter_cons, h.kept earlier hle]

theorem isBefore (h : Interleaves count slots added slots')
    (hbefore : ∀ slot ∈ slots, slot.isBefore count = true) :
    ∀ slot ∈ slots', slot.isBefore (count + added.length) = true := by
  intro slot hmem
  rcases List.mem_append.1 (h.perm.subset hmem) with hold | hnew
  · exact Slot.isBefore_mono (hbefore slot hold) (Nat.le_add_right ..)
  · obtain ⟨position, hposition, rfl⟩ := List.mem_mapIdx.1 hnew
    exact decide_eq_true (Nat.add_lt_add_left hposition count)

end Interleaves

namespace Queue

theorem interleaves_move (queue : Queue) (head : Move) :
    Interleaves queue.count queue.slots head.later?.toList (queue.move head).slots := by
  cases head with
  | insertLater offset stmt =>
      have hslots : (queue.move (.insertLater offset stmt)).slots = queue.slots.take (offset + 1) ++
          Slot.later queue.count stmt :: queue.slots.drop (offset + 1) := by
        simp [move, slots]
      refine ⟨?_, fun earlier hle => ?_⟩
      · rw [hslots]
        refine List.perm_middle.trans ?_
        rw [List.take_append_drop]
        exact (List.perm_append_singleton _ _).symm
      · have hnew : (Slot.later queue.count stmt).isBefore earlier = false :=
          decide_eq_false (Nat.not_lt.2 hle)
        rw [hslots, List.filter_append, List.filter_cons_of_neg (Bool.eq_false_iff.1 hnew),
          ← List.filter_append, List.take_append_drop]
  | editRest f =>
      have hslots : (queue.move (.editRest f)).slots = queue.slots :=
        List.ext_getElem (by simp [move, slots]) (by simp [move, slots])
      rw [hslots]
      exact .refl
  | _ => exact .refl

theorem count_move (queue : Queue) (head : Move) :
    (queue.move head).count = queue.count + head.later?.toList.length := by
  cases head <;> rfl

theorem interleaves_moves (queue : Queue) (moves : List Move) :
    Interleaves queue.count queue.slots (laterOf moves) (moves.foldl move queue).slots ∧
      (moves.foldl move queue).count = queue.count + (laterOf moves).length := by
  induction moves generalizing queue with
  | nil => exact ⟨.refl, rfl⟩
  | cons head moves ih =>
      obtain ⟨hslots, hcount⟩ := ih (queue.move head)
      rw [count_move] at hslots hcount
      refine ⟨(queue.interleaves_move head).trans hslots, ?_⟩
      rw [List.foldl_cons, hcount, Nat.add_assoc, ← List.length_append]
      rfl

/-- Nothing was changed in place. -/
def Unchanged (queue : Queue) : Prop := ∀ entry ∈ queue.entries, entry.2 = entry.1.stmt

theorem unchanged_move {queue : Queue} (h : queue.Unchanged) {head : Move}
    (hhead : head.editsRest = false) : (queue.move head).Unchanged := by
  cases head with
  | insertLater offset stmt =>
      intro entry hmem
      rcases List.mem_append.1 hmem with hfront | hback
      · exact h entry (List.mem_of_mem_take hfront)
      · rcases List.mem_cons.1 hback with rfl | hback
        · rfl
        · exact h entry (List.mem_of_mem_drop hback)
  | editRest f => cases hhead
  | _ => exact h

theorem unchanged_moves {queue : Queue} (h : queue.Unchanged) {moves : List Move}
    (hmoves : ∀ head ∈ moves, head.editsRest = false) : (moves.foldl move queue).Unchanged := by
  induction moves generalizing queue with
  | nil => exact h
  | cons head moves ih =>
      exact ih (unchanged_move h (hmoves head List.mem_cons_self))
        fun other hmem => hmoves other (List.mem_cons_of_mem _ hmem)

end Queue

/-! ## Visits -/

/-- One visit: the cursor on arrival, and what was done to it. -/
structure Visit where
  arrival : Cursor
  moves : List Move

namespace Visit

def departure (visit : Visit) : Cursor := visit.moves.foldl Cursor.move visit.arrival

/-- The current statement, or what it was changed into last. -/
def left (visit : Visit) : Stmt := visit.moves.foldl Move.change visit.arrival.current

/-- What a visit leaves: the statement between those inserted before and after it. -/
def outcome (visit : Visit) : List Stmt :=
  visit.moves.flatMap (·.before?.toList) ++
    visit.left :: visit.moves.flatMap (·.after?.toList)

theorem passed_departure (visit : Visit) (h : visit.arrival.after = []) :
    visit.departure.passed = visit.outcome.reverse ++ visit.arrival.before := by
  unfold departure Cursor.passed outcome left
  rw [Cursor.before_moves, Cursor.after_moves, Cursor.current_moves, h]
  simp

end Visit

/-- The statements that visits insert later on, in the order of the insertions. -/
def laterIn (visits : List Visit) : List Stmt := visits.flatMap (laterOf ·.moves)

/-- Chooses its moves by what it sees and by what it remembers. -/
structure Visitor (σ : Type) where
  moves : Cursor → σ → List Move × σ

namespace Visitor

variable {σ : Type} (visitor : Visitor σ)

def visit (cursor : Cursor) : StateM σ Cursor := fun state =>
  ((visitor.moves cursor state).1.foldl Cursor.move cursor, (visitor.moves cursor state).2)

/-- The same with a record of the visits. -/
def recorded (cursor : Cursor) : StateM (σ × List Visit) Cursor := fun (state, visits) =>
  let visit : Visit := { arrival := cursor, moves := (visitor.moves cursor state).1 }
  (visit.departure, (visitor.moves cursor state).2, visits ++ [visit])

/-- The visits of a walk that makes at most `limit` of them. -/
def visits (limit : Nat) (stmts : List Stmt) (state : σ) : List Visit :=
  ((walkList limit visitor.recorded stmts).run (state, [])).2.2

/--
Visits in a row, each of the first statement to come, from a list of passed statements (the
nearest first), a queue and a state to others.
-/
inductive Runs : List Stmt → Queue → σ → List (Slot × Visit) → List Stmt → Queue → σ → Prop where
  | refl (passed : List Stmt) (queue : Queue) (state : σ) :
      Runs passed queue state [] passed queue state
  | step {passed passed' : List Stmt} {slot : Slot} {visit : Visit} {entries : List (Slot × Stmt)}
      {count : Nat} {queue' : Queue} {state state' : σ} {visits : List (Slot × Visit)} :
      visit.arrival =
        { before := passed, current := visit.arrival.current, rest := entries.map Prod.snd } →
      visit.moves = (visitor.moves visit.arrival state).1 →
      Runs visit.departure.passed (visit.moves.foldl Queue.move ⟨entries, count⟩)
        (visitor.moves visit.arrival state).2 visits passed' queue' state' →
      Runs passed ⟨(slot, visit.arrival.current) :: entries, count⟩ state ((slot, visit) :: visits)
        passed' queue' state'

namespace Runs

variable {visitor} {passed passed' : List Stmt} {queue queue' : Queue} {state state' : σ}
  {visits : List (Slot × Visit)}

theorem passed_eq (h : visitor.Runs passed queue state visits passed' queue' state') :
    passed'.reverse = passed.reverse ++ visits.flatMap (·.2.outcome) := by
  induction h with
  | refl => simp
  | @step passed _ _ visit _ _ _ _ _ _ harrival _ _ ih =>
      have hbefore : visit.arrival.before = passed := by rw [harrival]
      rw [ih, Visit.passed_departure _ (by rw [harrival]), hbefore]
      simp

theorem interleaves (h : visitor.Runs passed queue state visits passed' queue' state') :
    Interleaves queue.count queue.slots (laterIn (visits.map Prod.snd))
        (visits.map Prod.fst ++ queue'.slots) ∧
      queue'.count = queue.count + (laterIn (visits.map Prod.snd)).length := by
  induction h with
  | refl => exact ⟨.refl, rfl⟩
  | @step _ _ slot visit entries count _ _ _ _ _ _ _ ih =>
      obtain ⟨hqueue, hcount⟩ := Queue.interleaves_moves ⟨entries, count⟩ visit.moves
      rw [hcount] at ih
      refine ⟨(hqueue.trans ih.1).cons slot, ih.2.trans ?_⟩
      rw [Nat.add_assoc, ← List.length_append]
      rfl

theorem unchanged (h : visitor.Runs passed queue state visits passed' queue' state')
    (hqueue : queue.Unchanged)
    (hmoves : ∀ visit ∈ visits, ∀ head ∈ visit.2.moves, head.editsRest = false) :
    queue'.Unchanged := by
  induction h with
  | refl => exact hqueue
  | step _ _ _ ih =>
      refine ih (Queue.unchanged_moves ?_ (hmoves _ List.mem_cons_self)) ?_
      · exact fun entry hmem => hqueue entry (List.mem_cons_of_mem _ hmem)
      · exact fun visit hmem => hmoves visit (List.mem_cons_of_mem _ hmem)

/-- A run stops in front of each of its visits. -/
theorem split {front back : List (Slot × Visit)} {slot : Slot} {visit : Visit}
    (h : visitor.Runs passed queue state (front ++ (slot, visit) :: back) passed' queue' state') :
    ∃ entries count middle state'', visitor.Runs passed queue state front visit.arrival.before
        ⟨(slot, visit.arrival.current) :: entries, count⟩ middle ∧
      visit.arrival.rest = entries.map Prod.snd ∧ visit.arrival.after = [] ∧
      visitor.Runs visit.departure.passed (visit.moves.foldl Queue.move ⟨entries, count⟩) state''
        back passed' queue' state' := by
  generalize hvisits : front ++ (slot, visit) :: back = visits at h
  induction h generalizing front with
  | refl => simp at hvisits
  | @step _ _ slot' visit' entries count _ state _ _ harrival hmoves hruns ih =>
      cases front with
      | nil =>
          obtain ⟨hhead, rfl⟩ := List.cons.inj hvisits
          obtain ⟨rfl, rfl⟩ := Prod.mk.inj hhead
          refine ⟨entries, count, state, _, ?_, by rw [harrival], by rw [harrival], hruns⟩
          rw [harrival]
          exact .refl ..
      | cons first front =>
          obtain ⟨rfl, hrest⟩ := List.cons.inj hvisits
          obtain ⟨entries, count, middle, state'', hfront, hothers⟩ := ih hrest
          exact ⟨entries, count, middle, state'', .step harrival hmoves hfront, hothers⟩

/-- A run that leaves nothing to come is what a walk does that may make so many visits. -/
theorem walkFrom_eq (h : visitor.Runs passed queue state visits passed' queue' state')
    (hend : queue'.entries = []) {limit : Nat} (hlimit : visits.length ≤ limit) (log : List Visit) :
    (walkFrom visitor.visit limit passed queue.stmts).run state = (passed'.reverse, state') ∧
      (walkFrom visitor.recorded limit passed queue.stmts).run (state, log) =
        (passed'.reverse, state', log ++ visits.map Prod.snd) := by
  induction h generalizing limit log with
  | refl passed queue state =>
      have hnone : queue.stmts = [] := by simp [Queue.stmts, hend]
      rw [hnone, List.map_nil, List.append_nil]
      constructor <;> cases limit <;> rfl
  | @step passed passed' slot visit entries count _ state _ visits harrival hmoves _ ih =>
      obtain ⟨limit, rfl⟩ : ∃ others, limit = others + 1 :=
        ⟨limit - 1, (Nat.sub_add_cancel (Nat.le_trans (Nat.succ_pos _) hlimit)).symm⟩
      obtain ⟨hvisit, hrecorded⟩ := ih hend (Nat.le_of_succ_le_succ hlimit) (log ++ [visit])
      obtain ⟨⟨before, current, rest, after⟩, moves⟩ := visit
      obtain ⟨rfl, -, rfl, rfl⟩ := Cursor.mk.inj harrival
      obtain rfl : moves = (visitor.moves ⟨before, current, entries.map Prod.snd, []⟩ state).1 :=
        hmoves
      have hdeparture := Queue.rest_moves ⟨before, current, entries.map Prod.snd, []⟩
        ⟨entries, count⟩ rfl (visitor.moves ⟨before, current, entries.map Prod.snd, []⟩ state).1
      rw [← hdeparture] at hvisit hrecorded
      rw [List.append_assoc] at hrecorded
      exact ⟨hvisit, hrecorded⟩

end Runs

/-- Every walk is a run, which stops at the end of the list or when the limit is reached. -/
theorem exists_runs (limit : Nat) (passed : List Stmt) (queue : Queue) (state : σ)
    (log : List Visit) :
    ∃ visits passed' queue' state', visitor.Runs passed queue state visits passed' queue' state' ∧
      (queue'.entries = [] ∨ visits.length = limit) ∧
      ((walkFrom visitor.recorded limit passed queue.stmts).run (state, log)).2.2 =
        log ++ visits.map Prod.snd := by
  induction limit generalizing passed queue state log with
  | zero =>
      refine ⟨[], passed, queue, state, .refl .., .inr rfl, ?_⟩
      rw [List.map_nil, List.append_nil]
      cases queue.stmts <;> rfl
  | succ limit ih =>
      obtain ⟨entries, count⟩ := queue
      cases entries with
      | nil => exact ⟨[], passed, _, state, .refl .., .inl rfl, (List.append_nil _).symm⟩
      | cons entry entries =>
          obtain ⟨slot, current⟩ := entry
          let arrival : Cursor := { before := passed, current, rest := entries.map Prod.snd }
          let visit : Visit := ⟨arrival, (visitor.moves arrival state).1⟩
          obtain ⟨visits, passed', queue', state', hruns, hstop, hlog⟩ := ih visit.departure.passed
            (visit.moves.foldl Queue.move ⟨entries, count⟩) (visitor.moves arrival state).2
            (log ++ [visit])
          refine ⟨(slot, visit) :: visits, passed', queue', state', .step rfl rfl hruns,
            hstop.imp_right (congrArg (· + 1)), ?_⟩
          have hdeparture := Queue.rest_moves arrival ⟨entries, count⟩ rfl visit.moves
          rw [← hdeparture, List.append_assoc] at hlog
          exact hlog

end Visitor

/-! ## Whole walks -/

theorem nodup_slots (stmts added : List Stmt) : (originals stmts ++ laterSlots 0 added).Nodup := by
  refine List.nodup_append.2 ⟨?_, ?_, ?_⟩
  · refine List.pairwise_iff_getElem.2 fun i j hi hj hlt => ?_
    simp only [originals, List.getElem_mapIdx]
    exact fun heq => Nat.ne_of_lt hlt (Slot.original.inj heq).1
  · refine List.pairwise_iff_getElem.2 fun i j hi hj hlt => ?_
    simp only [laterSlots, List.getElem_mapIdx]
    exact fun heq => Nat.ne_of_lt hlt (Nat.add_left_cancel (Slot.later.inj heq).1)
  · intro slot hmem slot' hmem'
    obtain ⟨_, _, rfl⟩ := List.mem_mapIdx.1 hmem
    obtain ⟨_, _, rfl⟩ := List.mem_mapIdx.1 hmem'
    exact nofun

/-- The queue in front of a walk. -/
def Queue.start (stmts : List Stmt) : Queue :=
  { entries := stmts.mapIdx fun position stmt => (.original position stmt, stmt), count := 0 }

namespace Queue

theorem stmts_start (stmts : List Stmt) : (start stmts).stmts = stmts :=
  List.ext_getElem (by simp [start, Queue.stmts]) (by simp [start, Queue.stmts])

theorem slots_start (stmts : List Stmt) : (start stmts).slots = originals stmts :=
  List.ext_getElem (by simp [start, slots, originals]) (by simp [start, slots, originals])

theorem unchanged_start (stmts : List Stmt) : (start stmts).Unchanged := by
  intro entry hmem
  obtain ⟨_, _, rfl⟩ := List.mem_mapIdx.1 hmem
  rfl

end Queue

/--
What holds after some moves of a visit, when `count` statements have been inserted later on and
the slots `coming` are still to be visited.  `unchanged` says that no statement of a rest has been
changed in place.
-/
structure Visit.Moment (visit : Visit) (moves : List Move) (count : Nat) (coming : List Slot)
    (unchanged : Prop) (cursor : Cursor) : Prop where
  /-- The cursor stands for a list with an index. -/
  indexed : cursor.indexed = moves.foldl Indexed.move visit.arrival.indexed
  /-- The index is the position of the current statement. -/
  current : cursor.indexed.stmts[cursor.indexed.index]? = some cursor.current
  /-- The rest is the list behind the index. -/
  behind : cursor.rest = cursor.indexed.stmts.drop (cursor.indexed.index + 1)
  /-- The rest is what of the statements to be visited is in the list so far. -/
  rest : ∃ entries : List (Slot × Stmt), cursor.rest = entries.map Prod.snd ∧
    entries.map Prod.fst = coming.filter (Slot.isBefore count) ∧
    (unchanged → ∀ entry ∈ entries, entry.2 = entry.1.stmt)

/-- No move changes statements of the rest in place. -/
def NoRestEdits (moves : List Move) : Prop := ∀ head ∈ moves, head.editsRest = false

namespace Visitor

variable {σ : Type} (visitor : Visitor σ)

/-- A whole walk, told by its visits and their slots. -/
structure Walked (stmts : List Stmt) (state : σ) (visits : List (Slot × Visit)) (state' : σ) :
    Prop where
  /--
  A walk that may make so many visits makes these and no others.  What it leaves is, in their
  order, each statement between those inserted before and after it.
  -/
  ends : ∀ limit, visits.length ≤ limit →
    visitor.visits limit stmts state = visits.map Prod.snd ∧
      (walkList limit visitor.visit stmts).run state = (visits.flatMap (·.2.outcome), state')
  once : (visits.map Prod.fst).Nodup
  /-- The statements of the list and those inserted later on are visited, and no others. -/
  slots : (visits.map Prod.fst).Perm
    (originals stmts ++ laterSlots 0 (laterIn (visits.map Prod.snd)))
  /-- The statements of the list are visited in their order. -/
  inOrder : (visits.map Prod.fst).filter (Slot.isBefore 0) = originals stmts
  /-- In front of the current statement stands what the visits so far have left. -/
  passed : ∀ front slot visit back, visits = front ++ (slot, visit) :: back →
    visit.arrival.before.reverse = front.flatMap (·.2.outcome)
  /-- The statement of the slot is visited, unless it has been changed in place. -/
  arrives : ∀ front slot visit back, visits = front ++ (slot, visit) :: back →
    NoRestEdits (front.flatMap (·.2.moves)) → visit.arrival.current = slot.stmt
  moments : ∀ front slot visit back, visits = front ++ (slot, visit) :: back →
    ∀ done more, visit.moves = done ++ more →
      visit.Moment done ((laterIn (front.map Prod.snd)).length + (laterOf done).length)
        (back.map Prod.fst) (NoRestEdits (front.flatMap (·.2.moves) ++ done))
        (done.foldl Cursor.move visit.arrival)

variable {visitor} in
/-- What holds of one visit among those of a whole walk. -/
theorem Runs.moment {stmts passed' : List Stmt} {state state' : σ} {queue' : Queue}
    {front back : List (Slot × Visit)} {slot : Slot} {visit : Visit}
    (h : visitor.Runs [] (.start stmts) state (front ++ (slot, visit) :: back) passed' queue'
      state')
    (hend : queue'.slots = []) :
    visit.arrival.before.reverse = front.flatMap (·.2.outcome) ∧
      (NoRestEdits (front.flatMap (·.2.moves)) → visit.arrival.current = slot.stmt) ∧
      ∀ done more, visit.moves = done ++ more →
        visit.Moment done ((laterIn (front.map Prod.snd)).length + (laterOf done).length)
          (back.map Prod.fst) (NoRestEdits (front.flatMap (·.2.moves) ++ done))
          (done.foldl Cursor.move visit.arrival) := by
  obtain ⟨entries, count, middle, state'', hfront, hrest, -, hback⟩ := h.split
  obtain ⟨hslots, hcount⟩ := hfront.interleaves
  obtain rfl : count = (laterIn (front.map Prod.snd)).length := hcount.trans (Nat.zero_add _)
  have hunchanged (hedits : NoRestEdits (front.flatMap (·.2.moves))) :=
    hfront.unchanged (Queue.unchanged_start stmts) fun visit hmem head hhead =>
      hedits head (List.mem_flatMap.2 ⟨visit, hmem, hhead⟩)
  -- the slots of the statements to come were all there on arrival
  have hbefore : ∀ slot ∈ entries.map Prod.fst,
      slot.isBefore (laterIn (front.map Prod.snd)).length = true := by
    intro slot hmem
    have hstart : Interleaves 0 _ _ _ := hslots
    have hall := hstart.isBefore (by
      rw [Queue.slots_start]
      intro slot hmem
      obtain ⟨_, _, rfl⟩ := List.mem_mapIdx.1 hmem
      rfl) slot (List.mem_append_right _ (List.mem_cons_of_mem _ hmem))
    rwa [Nat.zero_add] at hall
  refine ⟨by simpa using hfront.passed_eq, fun hedits => hunchanged hedits _ List.mem_cons_self,
    fun done more hmoves => ⟨Cursor.indexed_moves _ done, ?_, ?_, ?_⟩⟩
  · exact Cursor.getElem?_indexed _
  · exact (Cursor.drop_indexed _).symm
  · rw [hmoves, List.foldl_append] at hback
    obtain ⟨hdone, hdoneCount⟩ := Queue.interleaves_moves ⟨entries, _⟩ done
    obtain ⟨hmore, hmoreCount⟩ :=
      Queue.interleaves_moves (done.foldl Queue.move ⟨entries, _⟩) more
    obtain ⟨hlast, -⟩ := hback.interleaves
    rw [hmoreCount] at hlast
    have hkept := (hmore.trans hlast).kept _ (Nat.le_refl _)
    rw [hend, List.append_nil, hdoneCount, List.filter_eq_self.2 (hdone.isBefore hbefore)] at hkept
    refine ⟨_, Queue.rest_moves _ _ hrest done, hkept.symm, fun hedits => ?_⟩
    have hparts := List.forall_mem_append.1 hedits
    refine Queue.unchanged_moves (fun entry hmem => ?_) hparts.2
    exact hunchanged hparts.1 entry (List.mem_cons_of_mem _ hmem)

end Visitor

def namedCall (name : String) : Stmt := .expr (.call (.ident name) [])

/-- Inserts around the first statement that it sees and behind the one after it. -/
def insertingVisitor : Visitor Bool where
  moves _ seen :=
    if seen then ([], true)
    else ([.insertAfter (namedCall "behind"), .insertLater 0 (namedCall "late"),
      .insertBefore (namedCall "above"), .replace (namedCall "first")], true)

def twoCalls : List Stmt := [namedCall "a", namedCall "b"]

theorem laterIn_insertingVisitor (limit : Nat) :
    (laterIn (insertingVisitor.visits limit twoCalls false)).length ≤ 1 := by
  match limit with
  | 0 => exact Nat.zero_le _
  | 1 => exact Nat.le_refl _
  | 2 => exact Nat.le_refl _
  | limit + 3 => cases limit <;> exact Nat.le_refl _

example : ((walkList 3 insertingVisitor.visit twoCalls).run false).1 =
    [namedCall "above", namedCall "first", namedCall "behind", namedCall "b", namedCall "late"] :=
  rfl

end TraceWeave.Syntax
