import TraceWeave.Diff.Script

/-!
The point at which the searches from both corners meet.

A search does not look where the edit graph ends: its paths run on beyond the last line of either
text.  A path that has left the graph drags its neighbour to the border (`Reached`), though, and a
path on the border meets one from the other corner as soon as the diagonals allow it.  So the
point where the first two paths meet lies in the graph (`middle?_within`).
-/

namespace TraceWeave.Diff

/-! ## Common lines -/

namespace Texts

variable (texts : Texts)

/-- A number of lines agree from two positions on. -/
def Agrees (old new len : Nat) : Prop := ∀ i < len, texts.agree (old + i) (new + i) = true

theorem commonFrom_le (old new limit : Nat) : texts.commonFrom old new limit ≤ limit := by
  induction limit generalizing old new with
  | zero => exact Nat.le_refl 0
  | succ limit ih =>
      unfold commonFrom
      split
      · exact Nat.succ_le_succ (ih _ _)
      · omega

theorem agrees_commonFrom (old new limit : Nat) :
    texts.Agrees old new (texts.commonFrom old new limit) := by
  induction limit generalizing old new with
  | zero => intro i hi; simp [commonFrom] at hi
  | succ limit ih =>
      unfold commonFrom
      split
      · next hagree =>
        intro i hi
        cases i with
        | zero => exact hagree
        | succ i =>
            have hnext := ih (old + 1) (new + 1) i (by omega)
            rwa [show old + (i + 1) = old + 1 + i by omega, show new + (i + 1) = new + 1 + i by omega]
      · intro i hi
        omega

theorem commonBefore_le (old new limit : Nat) :
    texts.commonBefore old new limit ≤ limit ∧ texts.commonBefore old new limit ≤ old ∧
      texts.commonBefore old new limit ≤ new := by
  induction limit generalizing old new with
  | zero => simp [commonBefore]
  | succ limit ih =>
      unfold commonBefore
      split
      · next hagree =>
        simp only [Bool.and_eq_true, decide_eq_true_eq] at hagree
        have hrest := ih (old - 1) (new - 1)
        omega
      · omega

theorem agrees_commonBefore (old new limit : Nat) :
    texts.Agrees (old - texts.commonBefore old new limit)
      (new - texts.commonBefore old new limit) (texts.commonBefore old new limit) := by
  induction limit generalizing old new with
  | zero => intro i hi; simp [commonBefore] at hi
  | succ limit ih =>
      unfold commonBefore
      split
      · next hagree =>
        simp only [Bool.and_eq_true, decide_eq_true_eq] at hagree
        have hle := texts.commonBefore_le (old - 1) (new - 1) limit
        generalize hcount : texts.commonBefore (old - 1) (new - 1) limit = count at hle
        intro i hi
        by_cases hlast : i = count
        · rw [show old - (count + 1) + i = old - 1 by omega, show new - (count + 1) + i = new - 1 by omega]
          exact hagree.2
        · have hrest := ih (old - 1) (new - 1) i (by omega)
          rw [hcount] at hrest
          rwa [show old - (count + 1) + i = old - 1 - count + i by omega,
            show new - (count + 1) + i = new - 1 - count + i by omega]
      · intro i hi
        omega

end Texts

/-! ## Frontiers -/

namespace Frontier

theorem get_ofLimit (limit : Nat) (diagonal : Int) : (ofLimit limit).get diagonal = 0 := by
  simp only [get, ofLimit, Array.getD_eq_getD_getElem?, Array.getElem?_replicate]
  split <;> rfl

variable {frontier : Frontier} {steps : Nat} {diagonal other : Int}

/-- The diagonals that a frontier has room for. -/
def Holds (frontier : Frontier) (diagonal : Int) : Prop :=
  -(frontier.offset : Int) ≤ diagonal ∧ (diagonal + frontier.offset).toNat < frontier.reach.size

theorem get_set (h : frontier.Holds diagonal) (hother : frontier.Holds other) (position : Nat) :
    (frontier.set diagonal position).get other =
      if other = diagonal then position else frontier.get other := by
  obtain ⟨hlow, hroom⟩ := h
  obtain ⟨hlow', hroom'⟩ := hother
  simp only [get, set, Array.getD_eq_getD_getElem?, Array.getElem?_setIfInBounds]
  by_cases heq : other = diagonal
  · simp [heq, hroom]
  · have hne : (diagonal + frontier.offset).toNat ≠ (other + frontier.offset).toNat := by omega
    simp [heq, hne]

@[simp]
theorem holds_set (position : Nat) :
    (frontier.set diagonal position).Holds other ↔ frontier.Holds other := by
  simp [Holds, set]

theorem step_cases (frontier : Frontier) (steps : Nat) (diagonal : Int) :
    (frontier.step steps diagonal = frontier.get (diagonal + 1) ∧
        (diagonal ≠ -steps → diagonal ≠ steps ∧ frontier.get (diagonal - 1) < frontier.get (diagonal + 1))) ∨
      frontier.step steps diagonal = frontier.get (diagonal - 1) + 1 ∧ diagonal ≠ -steps ∧
        (diagonal ≠ steps → frontier.get (diagonal + 1) ≤ frontier.get (diagonal - 1)) := by
  unfold step
  by_cases hlow : diagonal = -steps
  · simp [hlow]
  · by_cases hhigh : diagonal = steps
    · right
      simp_all
    · by_cases hless : frontier.get (diagonal - 1) < frontier.get (diagonal + 1)
      · left
        simp [hlow, hhigh, hless]
      · right
        simp [hlow, hhigh, hless]
        omega

theorem get_succ_le_step (frontier : Frontier) {steps : Nat} {diagonal : Int}
    (h : diagonal ≠ steps) : frontier.get (diagonal + 1) ≤ frontier.step steps diagonal := by
  obtain ⟨hstep, -⟩ | ⟨hstep, -, hle⟩ := frontier.step_cases steps diagonal
  · omega
  · have hle := hle h
    omega

theorem get_pred_lt_step (frontier : Frontier) {steps : Nat} {diagonal : Int}
    (h : diagonal ≠ -steps) : frontier.get (diagonal - 1) < frontier.step steps diagonal := by
  obtain ⟨hstep, hlt⟩ | ⟨hstep, -⟩ := frontier.step_cases steps diagonal
  · have hlt := (hlt h).2
    omega
  · omega

end Frontier

/-! ## Rounds -/

/-- The diagonals of the round in front of one. -/
def Before (steps : Nat) (diagonal : Int) : Prop :=
  -(steps : Int) < diagonal ∧ diagonal < steps ∧ (diagonal - steps) % 2 = 1

/-- The diagonals of a round. -/
def OnRound (steps : Nat) (diagonal : Int) : Prop :=
  -(steps : Int) ≤ diagonal ∧ diagonal ≤ steps ∧ (diagonal - steps) % 2 = 0

theorem before_succ {steps : Nat} {diagonal : Int} :
    Before (steps + 1) diagonal ↔ OnRound steps diagonal := by
  unfold Before OnRound
  omega

theorem mem_diagonals {steps : Nat} {diagonal : Int} :
    diagonal ∈ diagonals steps ↔ OnRound steps diagonal := by
  simp only [diagonals, List.mem_map, List.mem_range, OnRound]
  constructor
  · rintro ⟨index, hindex, rfl⟩
    omega
  · rintro ⟨hlow, hhigh, hparity⟩
    exact ⟨((steps - diagonal) / 2).toNat, by omega, by omega⟩

/--
How far the paths have come before a round.  No path has gone back behind its corner; and beyond
one that has left the graph there is a neighbour that has reached the border.
-/
structure Reached (width height steps : Nat) (frontier : Frontier) : Prop where
  start : steps = 0 → frontier.get 1 = 0
  ahead : ∀ diagonal, Before steps diagonal → diagonal ≤ frontier.get diagonal
  right : ∀ diagonal, Before steps diagonal → width < frontier.get diagonal →
    Before steps (diagonal - 2) ∧ width ≤ frontier.get (diagonal - 2)
  below : ∀ diagonal, Before steps diagonal → height < frontier.get diagonal - diagonal →
    Before steps (diagonal + 2) ∧ height ≤ frontier.get (diagonal + 2) - (diagonal + 2)

/-- A path goes on from where a step has taken it, but not out of the graph. -/
def Advances (width height : Nat) (diagonal : Int) (position position' : Nat) : Prop :=
  position' = position ∨ position < position' ∧ position' ≤ width ∧ position' - diagonal ≤ height

section

variable {width height steps : Nat} {frontier frontier' : Frontier}

theorem Reached.le_step (h : Reached width height steps frontier) {diagonal : Int}
    (hround : OnRound steps diagonal) : diagonal ≤ frontier.step steps diagonal := by
  obtain ⟨hstep, hleft⟩ | ⟨hstep, hlow, -⟩ := frontier.step_cases steps diagonal
  · by_cases hzero : steps = 0
    · unfold OnRound at hround
      omega
    · have hahead := h.ahead (diagonal + 1) (by unfold OnRound at hround; unfold Before; omega)
      omega
  · have hahead := h.ahead (diagonal - 1) (by unfold OnRound at hround; unfold Before; omega)
    omega

theorem Reached.step_eq_zero (h : Reached width height steps frontier) (hzero : steps = 0)
    {diagonal : Int} (hround : OnRound steps diagonal) : frontier.step steps diagonal = 0 := by
  have hstart := h.start hzero
  obtain rfl : diagonal = 0 := by unfold OnRound at hround; omega
  obtain ⟨hstep, -⟩ | ⟨-, hlow, -⟩ := frontier.step_cases steps 0
  · rw [hstep, Int.zero_add, hstart]
  · omega

/-- Where a step leaves the graph to the right, the path on the diagonal below is at the border. -/
theorem Reached.border_right (h : Reached width height steps frontier) {diagonal : Int}
    (hround : OnRound steps diagonal) (hout : width < frontier.step steps diagonal) :
    Before steps (diagonal - 1) ∧ width ≤ frontier.get (diagonal - 1) := by
  have hzero : steps ≠ 0 := fun hzero => by
    have hstep := h.step_eq_zero hzero hround
    omega
  unfold OnRound at hround
  obtain ⟨hstep, hleft⟩ | ⟨hstep, hlow, -⟩ := frontier.step_cases steps diagonal
  · have hright := h.right (diagonal + 1) (by unfold Before; omega) (by omega)
    rwa [show diagonal + 1 - 2 = diagonal - 1 by omega] at hright
  · exact ⟨by unfold Before; omega, by omega⟩

/-- Where a step leaves the graph below, the path on the diagonal above is at the border. -/
theorem Reached.border_below (h : Reached width height steps frontier) {diagonal : Int}
    (hround : OnRound steps diagonal) (hout : height < frontier.step steps diagonal - diagonal) :
    Before steps (diagonal + 1) ∧ height ≤ frontier.get (diagonal + 1) - (diagonal + 1) := by
  have hzero : steps ≠ 0 := fun hzero => by
    have hstep := h.step_eq_zero hzero hround
    unfold OnRound at hround
    omega
  unfold OnRound at hround
  obtain ⟨hstep, hleft⟩ | ⟨hstep, hlow, -⟩ := frontier.step_cases steps diagonal
  · exact ⟨by unfold Before; omega, by omega⟩
  · have hbelow := h.below (diagonal - 1) (by unfold Before; omega) (by omega)
    rwa [show diagonal - 1 + 2 = diagonal + 1 by omega] at hbelow

/-- What a round makes of the frontier. -/
theorem Reached.next (h : Reached width height steps frontier)
    (hnext : ∀ diagonal, OnRound steps diagonal →
      Advances width height diagonal (frontier.step steps diagonal) (frontier'.get diagonal)) :
    Reached width height (steps + 1) frontier' := by
  have hle : ∀ diagonal, OnRound steps diagonal →
      frontier.step steps diagonal ≤ frontier'.get diagonal := fun diagonal hround => by
    obtain heq | hlt := hnext diagonal hround <;> omega
  refine ⟨by omega, fun diagonal hbefore => ?_, fun diagonal hbefore hout => ?_,
    fun diagonal hbefore hout => ?_⟩ <;> rw [before_succ] at hbefore
  · have hstep := h.le_step hbefore
    have hadvance := hle diagonal hbefore
    omega
  · have hstep : width < frontier.step steps diagonal := by
      obtain heq | hin := hnext diagonal hbefore <;> omega
    obtain ⟨hborder, hwidth⟩ := h.border_right hbefore hstep
    have hround : OnRound steps (diagonal - 2) := by unfold Before at hborder; unfold OnRound; omega
    have hreach := frontier.get_succ_le_step (show diagonal - 2 ≠ steps by unfold OnRound at hbefore; omega)
    rw [show diagonal - 2 + 1 = diagonal - 1 by omega] at hreach
    have hadvance := hle _ hround
    exact ⟨before_succ.2 hround, by omega⟩
  · have hstep : height < frontier.step steps diagonal - diagonal := by
      obtain heq | hin := hnext diagonal hbefore <;> omega
    obtain ⟨hborder, hheight⟩ := h.border_below hbefore hstep
    have hround : OnRound steps (diagonal + 2) := by unfold Before at hborder; unfold OnRound; omega
    have hreach := frontier.get_pred_lt_step (show diagonal + 2 ≠ -steps by unfold OnRound at hbefore; omega)
    rw [show diagonal + 2 - 1 = diagonal + 1 by omega] at hreach
    have hadvance := hle _ hround
    exact ⟨before_succ.2 hround, by omega⟩

/-- The paths near the diagonal of the other corner are inside of the graph. -/
def Inside (width height steps near : Nat) (frontier : Frontier) : Prop :=
  ∀ diagonal, Before steps diagonal → (diagonal - (width - height)).natAbs < near →
    frontier.get diagonal < width ∧ frontier.get diagonal - diagonal < height

/--
A step does not leave the graph as long as the paths that it could drag to the border would have
met one from the other corner there.
-/
theorem Reached.step_within (h : Reached width height steps frontier) {near : Nat}
    (hinside : Inside width height steps near frontier) (hnear : near = steps ∨ near + 1 = steps)
    {diagonal : Int} (hround : OnRound steps diagonal)
    (hclose : (diagonal - (width - height)).natAbs ≤ near)
    (hparity : (width - height + near - steps : Int) % 2 = 0) :
    frontier.step steps diagonal ≤ width ∧ frontier.step steps diagonal - diagonal ≤ height := by
  have hedge : width < frontier.step steps diagonal →
      Before steps (diagonal - 1) ∧ near ≤ (diagonal - 1 - (width - height)).natAbs := by
    intro hout
    obtain ⟨hborder, hwidth⟩ := h.border_right hround hout
    refine ⟨hborder, Nat.le_of_not_lt fun hlt => ?_⟩
    have hin := hinside _ hborder hlt
    omega
  have hedge' : height < frontier.step steps diagonal - diagonal →
      Before steps (diagonal + 1) ∧ near ≤ (diagonal + 1 - (width - height)).natAbs := by
    intro hout
    obtain ⟨hborder, hheight⟩ := h.border_below hround hout
    refine ⟨hborder, Nat.le_of_not_lt fun hlt => ?_⟩
    have hin := hinside _ hborder hlt
    omega
  unfold OnRound at hround
  unfold Before at hedge hedge'
  omega

end

/-! ## Searching -/

/-- A step reads the diagonals beside its own only. -/
theorem Frontier.step_set {frontier : Frontier} {steps : Nat} {diagonal other : Int}
    (hroom : ∀ near : Int, near.natAbs ≤ steps + 1 → frontier.Holds near)
    (hround : OnRound steps diagonal) (hother : OnRound steps other) (position : Nat) :
    (frontier.set diagonal position).step steps other = frontier.step steps other := by
  unfold OnRound at hround hother
  have hget : ∀ beside : Int, beside = other - 1 ∨ beside = other + 1 →
      (frontier.set diagonal position).get beside = frontier.get beside := fun beside hbeside => by
    rw [Frontier.get_set (hroom diagonal (by omega)) (hroom beside (by omega)), if_neg (by omega)]
  simp only [Frontier.step, hget _ (.inl rfl), hget _ (.inr rfl)]

/-- What a round has done on some diagonals, where `apart` holds of what it found. -/
structure Extended (width height steps : Nat) (diagonals : List Int) (apart : Int → Nat → Prop)
    (frontier frontier' : Frontier) : Prop where
  holds : ∀ diagonal, frontier'.Holds diagonal ↔ frontier.Holds diagonal
  advances : ∀ diagonal ∈ diagonals,
    Advances width height diagonal (frontier.step steps diagonal) (frontier'.get diagonal)
  apart : ∀ diagonal ∈ diagonals, apart diagonal (frontier'.get diagonal)
  others : ∀ diagonal, frontier.Holds diagonal → diagonal ∉ diagonals →
    frontier'.get diagonal = frontier.get diagonal

section

variable {width height steps : Nat} {diagonals : List Int} {apart : Int → Nat → Prop}
  {frontier frontier' : Frontier}

theorem Extended.refl : Extended width height steps [] apart frontier frontier :=
  ⟨fun _ => Iff.rfl, by simp, by simp, fun _ _ _ => rfl⟩

theorem Extended.cons {diagonal : Int} {position : Nat}
    (hroom : ∀ near : Int, near.natAbs ≤ steps + 1 → frontier.Holds near)
    (hround : ∀ other ∈ diagonal :: diagonals, OnRound steps other)
    (hadvances : Advances width height diagonal (frontier.step steps diagonal) position)
    (hapart : apart diagonal position)
    (h : Extended width height steps diagonals apart (frontier.set diagonal position) frontier') :
    Extended width height steps (diagonal :: diagonals) apart frontier frontier' := by
  have hfirst := hround diagonal (by simp)
  have hholds : frontier.Holds diagonal := hroom diagonal (by unfold OnRound at hfirst; omega)
  have hget : diagonal ∉ diagonals → frontier'.get diagonal = position := fun hnew => by
    rw [h.others diagonal ((Frontier.holds_set position).2 hholds) hnew,
      Frontier.get_set hholds hholds, if_pos rfl]
  have hrest : ∀ other ∈ diagonals,
      Advances width height other (frontier.step steps other) (frontier'.get other) := by
    intro other hmem
    have hadvances := h.advances other hmem
    rwa [Frontier.step_set hroom hfirst (hround other (by simp [hmem]))] at hadvances
  refine ⟨fun other => (h.holds other).trans (Frontier.holds_set position), ?_, ?_, ?_⟩
  · intro other hmem
    by_cases hagain : other ∈ diagonals
    · exact hrest other hagain
    · obtain rfl : other = diagonal := (List.mem_cons.1 hmem).resolve_right hagain
      rwa [hget hagain]
  · intro other hmem
    by_cases hagain : other ∈ diagonals
    · exact h.apart other hagain
    · obtain rfl : other = diagonal := (List.mem_cons.1 hmem).resolve_right hagain
      rwa [hget hagain]
  · intro other hother hnew
    rw [List.mem_cons, not_or] at hnew
    rw [h.others other ((Frontier.holds_set position).2 hother) hnew.2, Frontier.get_set hholds hother,
      if_neg hnew.1]

end

/-- The diagonal that the other corner lies on. -/
def delta (old new : Span) : Int := (old.length : Int) - new.length

theorem advances_min {width height count position : Nat} {diagonal : Int}
    (h : count ≤ min (width - position) (height - ((position : Int) - diagonal).toNat)) :
    Advances width height diagonal position (position + count) := by
  unfold Advances
  omega

section

variable {texts : Texts} {old new : Span} {steps : Nat}

theorem searchForward_extends {diagonals : List Int} {search : Search}
    (hroom : ∀ near : Int, near.natAbs ≤ steps + 1 → search.forward.Holds near)
    (hround : ∀ diagonal ∈ diagonals, OnRound steps diagonal) :
    match searchForward texts old new steps diagonals search with
    | .ok search' => search'.backward = search.backward ∧
        Extended old.length new.length steps diagonals
          (fun diagonal position => delta old new % 2 ≠ 0 →
            (diagonal - delta old new).natAbs + 1 ≤ steps →
              position + search.backward.get (delta old new - diagonal) < old.length)
          search.forward search'.forward
    | .error point => delta old new % 2 ≠ 0 ∧ ∃ diagonal ∈ diagonals,
        (diagonal - delta old new).natAbs + 1 ≤ steps ∧
          point = (old.start + search.forward.step steps diagonal,
            new.start + ((search.forward.step steps diagonal : Int) - diagonal).toNat) := by
  induction diagonals generalizing search with
  | nil => exact ⟨rfl, .refl⟩
  | cons diagonal diagonals ih =>
      rw [searchForward]
      have hcount := texts.commonFrom_le (old.start + search.forward.step steps diagonal)
        (new.start + ((search.forward.step steps diagonal : Int) - diagonal).toNat)
        (min (old.length - search.forward.step steps diagonal)
          (new.length - ((search.forward.step steps diagonal : Int) - diagonal).toNat))
      generalize texts.commonFrom _ _ _ = count at hcount ⊢
      have hadvances := advances_min hcount
      unfold delta at ih ⊢
      by_cases hmeets : (((old.length : Int) - new.length) % 2 ≠ 0 ∧
          (diagonal - (old.length - new.length)).natAbs + 1 ≤ steps) ∧
            old.length ≤ search.forward.step steps diagonal + count +
              search.backward.get (old.length - new.length - diagonal)
      · rw [if_pos (by simpa using hmeets)]
        exact ⟨hmeets.1.1, diagonal, by simp, hmeets.1.2, rfl⟩
      · rw [if_neg (by simpa using hmeets)]
        have hfirst := hround diagonal (by simp)
        have hrest := @ih ⟨search.forward.set diagonal (search.forward.step steps diagonal + count),
          search.backward⟩ (fun near hnear => (Frontier.holds_set _).2 (hroom near hnear))
          (fun other hmem => hround other (by simp [hmem]))
        split at hrest
        · exact ⟨hrest.1, .cons hroom hround hadvances (by omega) hrest.2⟩
        · obtain ⟨hodd, other, hother, hclose, rfl⟩ := hrest
          refine ⟨hodd, other, by simp [hother], hclose, ?_⟩
          rw [Frontier.step_set hroom hfirst (hround other (by simp [hother]))]

theorem searchBackward_extends {diagonals : List Int} {search : Search}
    (hroom : ∀ near : Int, near.natAbs ≤ steps + 1 → search.backward.Holds near)
    (hround : ∀ diagonal ∈ diagonals, OnRound steps diagonal) :
    match searchBackward texts old new steps diagonals search with
    | .ok search' => search'.forward = search.forward ∧
        Extended old.length new.length steps diagonals
          (fun diagonal position => delta old new % 2 = 0 →
            (diagonal - delta old new).natAbs ≤ steps →
              position + search.forward.get (delta old new - diagonal) < old.length)
          search.backward search'.backward
    | .error point => delta old new % 2 = 0 ∧ ∃ diagonal ∈ diagonals,
        (diagonal - delta old new).natAbs ≤ steps ∧ ∃ count,
          count ≤ min (old.length - search.backward.step steps diagonal)
            (new.length - ((search.backward.step steps diagonal : Int) - diagonal).toNat) ∧
          point = (old.stop - (search.backward.step steps diagonal + count),
            new.stop - (((search.backward.step steps diagonal : Int) - diagonal).toNat + count)) := by
  induction diagonals generalizing search with
  | nil => exact ⟨rfl, .refl⟩
  | cons diagonal diagonals ih =>
      rw [searchBackward]
      have hcount := (texts.commonBefore_le (old.stop - search.backward.step steps diagonal)
        (new.stop - ((search.backward.step steps diagonal : Int) - diagonal).toNat)
        (min (old.length - search.backward.step steps diagonal)
          (new.length - ((search.backward.step steps diagonal : Int) - diagonal).toNat))).1
      generalize texts.commonBefore _ _ _ = count at hcount ⊢
      have hadvances := advances_min hcount
      unfold delta at ih ⊢
      by_cases hmeets : (((old.length : Int) - new.length) % 2 = 0 ∧
          (diagonal - (old.length - new.length)).natAbs ≤ steps) ∧
            old.length ≤ search.backward.step steps diagonal + count +
              search.forward.get (old.length - new.length - diagonal)
      · rw [if_pos (by simpa using hmeets)]
        exact ⟨hmeets.1.1, diagonal, by simp, hmeets.1.2, count, hcount, rfl⟩
      · rw [if_neg (by simpa using hmeets)]
        have hfirst := hround diagonal (by simp)
        have hrest := @ih ⟨search.forward,
          search.backward.set diagonal (search.backward.step steps diagonal + count)⟩
          (fun near hnear => (Frontier.holds_set _).2 (hroom near hnear))
          (fun other hmem => hround other (by simp [hmem]))
        split at hrest
        · exact ⟨hrest.1, .cons hroom hround hadvances (by omega) hrest.2⟩
        · obtain ⟨heven, other, hother, hclose, count', hcount', rfl⟩ := hrest
          have hstep := Frontier.step_set hroom hfirst (hround other (by simp [hother]))
            (search.backward.step steps diagonal + count)
          dsimp only at hcount' ⊢
          rw [hstep] at hcount' ⊢
          exact ⟨heven, other, by simp [hother], hclose, count', hcount', rfl⟩

/-- What is known of a search before a round. -/
structure Searched (old new : Span) (steps : Nat) (search : Search) : Prop where
  forward : Reached old.length new.length steps search.forward
  backward : Reached old.length new.length steps search.backward
  odd : delta old new % 2 ≠ 0 → Inside old.length new.length steps (steps - 1) search.forward
  even : delta old new % 2 = 0 → Inside old.length new.length steps steps search.backward

/-- The paths that a round has not found to meet are inside of the graph. -/
theorem inside_of_apart {width height steps near : Nat} {frontier other : Frontier}
    (hahead : ∀ diagonal, OnRound steps diagonal → (diagonal - (width - height)).natAbs < near →
      (width - height : Int) - diagonal ≤ other.get ((width - height : Int) - diagonal))
    (happart : ∀ diagonal, OnRound steps diagonal → (diagonal - (width - height)).natAbs < near →
      frontier.get diagonal + other.get ((width - height : Int) - diagonal) < width) :
    Inside width height (steps + 1) near frontier := by
  intro diagonal hbefore hnear
  have hround := before_succ.1 hbefore
  have hahead := hahead diagonal hround hnear
  have happart := happart diagonal hround hnear
  omega

/-- The point lies in the graph. -/
def Within (old new : Span) (point : Nat × Nat) : Prop :=
  old.start ≤ point.1 ∧ point.1 ≤ old.stop ∧ new.start ≤ point.2 ∧ point.2 ≤ new.stop

/-- The round in which paths meet finds a point in the graph; another one leaves a search behind. -/
theorem Searched.round {search : Search} (h : Searched old new steps search)
    (hold : old.start ≤ old.stop) (hnew : new.start ≤ new.stop)
    (hroom : ∀ near : Int, near.natAbs ≤ steps + 1 →
      search.forward.Holds near ∧ search.backward.Holds near) :
    match (searchForward texts old new steps (diagonals steps) search).bind
        (searchBackward texts old new steps (diagonals steps)) with
    | .ok search' => Searched old new (steps + 1) search' ∧
        ∀ near, (search'.forward.Holds near ↔ search.forward.Holds near) ∧
          (search'.backward.Holds near ↔ search.backward.Holds near)
    | .error point => Within old new point := by
  have hround : ∀ diagonal ∈ diagonals steps, OnRound steps diagonal := fun _ => mem_diagonals.1
  have hforward := @searchForward_extends texts old new steps (diagonals steps) search
    (fun near hnear => (hroom near hnear).1) hround
  have hlengths : delta old new = (old.length : Int) - new.length := rfl
  split at hforward
  · next search₁ hsearch₁ =>
    obtain ⟨hsame, hforward⟩ := hforward
    have hbackward := @searchBackward_extends texts old new steps (diagonals steps) search₁
      (fun near hnear => by rw [hsame]; exact (hroom near hnear).2) hround
    have hreached := h.forward.next fun diagonal hmem => hforward.advances diagonal (mem_diagonals.2 hmem)
    rw [hsearch₁, Except.bind]
    split at hbackward
    · next search₂ hsearch₂ =>
      obtain ⟨hsame', hbackward⟩ := hbackward
      rw [hsame] at hbackward
      have hreached' := h.backward.next fun diagonal hmem =>
        hbackward.advances diagonal (mem_diagonals.2 hmem)
      refine ⟨⟨hsame' ▸ hreached, hreached', fun hodd => ?_, fun heven => ?_⟩, fun near =>
        ⟨by rw [hsame']; exact hforward.holds near, hbackward.holds near⟩⟩
      · rw [hsame']
        refine inside_of_apart (fun diagonal hmem hnear => ?_) (fun diagonal hmem hnear =>
          hforward.apart diagonal (mem_diagonals.2 hmem) hodd (by omega))
        refine h.backward.ahead _ ?_
        unfold OnRound at hmem
        unfold Before
        omega
      · refine inside_of_apart (fun diagonal hmem hnear => ?_) (fun diagonal hmem hnear =>
          hbackward.apart diagonal (mem_diagonals.2 hmem) heven (by omega))
        refine hreached.ahead _ (before_succ.2 ?_)
        unfold OnRound at hmem ⊢
        omega
    · next point hpoint =>
      obtain ⟨heven, diagonal, hmem, hclose, count, hcount, rfl⟩ := hbackward
      rw [hsame] at hcount ⊢
      have hstep := h.backward.le_step (hround diagonal hmem)
      have hwithin := h.backward.step_within (h.even heven) (.inl rfl) (hround diagonal hmem)
        (by omega) (by omega)
      unfold Within
      unfold Span.length at hwithin hcount
      omega
  · next point hpoint =>
    obtain ⟨hodd, diagonal, hmem, hclose, rfl⟩ := hforward
    rw [hpoint]
    have hstep := h.forward.le_step (hround diagonal hmem)
    have hwithin := h.forward.step_within (h.odd hodd) (by omega) (hround diagonal hmem)
      (by omega) (by omega)
    show Within old new _
    unfold Within
    unfold Span.length at hwithin
    omega

theorem searchFrom_within {rounds : Nat} {search : Search} (h : Searched old new steps search)
    (hold : old.start ≤ old.stop) (hnew : new.start ≤ new.stop)
    (hroom : ∀ near : Int, near.natAbs ≤ rounds + steps →
      search.forward.Holds near ∧ search.backward.Holds near) {point : Nat × Nat}
    (hpoint : searchFrom texts old new rounds steps search = some point) : Within old new point := by
  induction rounds generalizing steps search with
  | zero => simp [searchFrom] at hpoint
  | succ rounds ih =>
      have hround := @Searched.round texts _ _ _ _ h hold hnew fun near hnear => hroom near (by omega)
      unfold searchFrom at hpoint
      simp only [bind] at hpoint
      split at hround
      · next search' hsearch =>
        rw [hsearch] at hpoint
        exact ih hround.1 (fun near hnear =>
          ⟨(hround.2 near).1.2 (hroom near (by omega)).1,
            (hround.2 near).2.2 (hroom near (by omega)).2⟩) hpoint
      · next met hmet =>
        rw [hmet] at hpoint
        exact Option.some.inj hpoint ▸ hround

theorem Frontier.holds_ofLimit {limit : Nat} {diagonal : Int} (h : diagonal.natAbs ≤ limit) :
    (Frontier.ofLimit limit).Holds diagonal := by
  simp only [Frontier.Holds, Frontier.ofLimit, Array.size_replicate]
  omega

/-- The point where paths from both corners meet lies in the edit graph. -/
theorem middle?_within (hold : old.start ≤ old.stop) (hnew : new.start ≤ new.stop) {point : Nat × Nat}
    (hpoint : middle? texts old new = some point) : Within old new point := by
  have hreached : ∀ limit,
      Reached old.length new.length 0 (Frontier.ofLimit limit) := fun limit => by
    refine ⟨fun _ => Frontier.get_ofLimit limit 1, ?_, ?_, ?_⟩ <;>
      exact fun diagonal hbefore => by unfold Before at hbefore; omega
  have hinside : ∀ limit near, Inside old.length new.length 0 near (Frontier.ofLimit limit) :=
    fun limit near diagonal hbefore => by unfold Before at hbefore; omega
  exact searchFrom_within ⟨hreached _, hreached _, fun _ => hinside _ _, fun _ => hinside _ _⟩ hold hnew
    (fun near hnear => ⟨Frontier.holds_ofLimit hnear, Frontier.holds_ofLimit hnear⟩) hpoint

end

end TraceWeave.Diff
