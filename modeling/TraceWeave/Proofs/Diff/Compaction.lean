import TraceWeave.Diff.Compact
import TraceWeave.Proofs.Diff.Scripts

/-!
Compaction keeps where a script leads.

Every step of a slide takes the edits around the focus for other ones that lead to the same place
(`Follows`).  Only the lines that a script deletes, inserts and keeps count for that: when a deletion
and an insertion change places, each is left with the position in the other text that it had.
-/

namespace TraceWeave.Diff

/-- The edits of a script, in order. -/
def Focus.edits (focus : Focus) : List Edit := focus.before.reverse ++ focus.edit :: focus.after

section

variable {texts : Texts} {old new old' new' new₂ : Nat} {edits edits' : List Edit}

/-- Edits lead wherever other ones do. -/
def Follows (texts : Texts) (edits edits' : List Edit) : Prop :=
  ∀ ⦃old new old' new' : Nat⦄, Leads texts old new edits old' new' →
    Leads texts old new edits' old' new'

theorem Follows.refl (edits : List Edit) : Follows texts edits edits := fun _ _ _ _ h => h

theorem Follows.trans {edits'' : List Edit} (h : Follows texts edits edits')
    (h' : Follows texts edits' edits'') : Follows texts edits edits'' := fun _ _ _ _ hleads =>
  h' (h hleads)

theorem Follows.behind (h : Follows texts edits edits') (before : List Edit) :
    Follows texts (before ++ edits) (before ++ edits') := by
  intro old new old' new' hleads
  obtain ⟨middle, middle', hbefore, hedits⟩ := leads_append.1 hleads
  exact leads_append.2 ⟨middle, middle', hbefore, h hedits⟩

theorem leads_keepAhead {len : Nat} (hsome : 0 < len) (hagrees : texts.Agrees old new len)
    (h : Leads texts (old + len) (new + len) edits old' new') :
    Leads texts old new (keepAhead old new len edits) old' new' := by
  unfold keepAhead
  split
  · next o n len' edits =>
    obtain ⟨rfl, rfl, -, hagrees', h⟩ := leads_keep.1 h
    rw [Nat.add_sub_cancel, Nat.add_sub_cancel, Nat.add_comm len' len]
    refine .keep (by omega) (hagrees.append hagrees') ?_
    rwa [← Nat.add_assoc, ← Nat.add_assoc]
  · exact .keep hsome hagrees h

theorem leads_keepBehind {before : List Edit} {len : Nat} (hsome : 0 < len)
    (h : Leads texts old' new' before.reverse old new) (hagrees : texts.Agrees old new len) :
    Leads texts old' new' (keepBehind old new len before).reverse (old + len) (new + len) := by
  unfold keepBehind
  split
  · next o n len' before =>
    rw [List.reverse_cons] at h ⊢
    obtain ⟨middle, middle', hbefore, hkeep⟩ := leads_append.1 h
    obtain ⟨rfl, rfl, -, hagrees', hnil⟩ := leads_keep.1 hkeep
    obtain ⟨rfl, rfl⟩ := leads_nil.1 hnil
    refine leads_append.2 ⟨_, _, hbefore, ?_⟩
    rw [Nat.add_assoc, Nat.add_assoc]
    exact .keep (by omega) (hagrees'.append hagrees) .nil
  · rw [List.reverse_cons]
    exact leads_append.2 ⟨_, _, h, .keep hsome hagrees .nil⟩

theorem follows_dropKeep (texts : Texts) (old new : Nat) (edits : List Edit) :
    Follows texts (.keep old new 0 :: edits) edits := by
  intro o n o' n' h
  obtain ⟨-, -, hsome, -⟩ := leads_keep.1 h
  exact absurd hsome (Nat.lt_irrefl 0)

theorem follows_mergeInserts (front front' old new len len' : Nat) (edits : List Edit) :
    Follows texts (.insert front new len :: .insert front' old len' :: edits)
      (.insert front new (len + len') :: edits) := by
  intro o n o' n' h
  obtain ⟨rfl, h⟩ := leads_insert.1 h
  obtain ⟨-, h⟩ := leads_insert.1 h
  rw [Nat.add_assoc] at h
  exact .insert _ h

theorem follows_mergeDeletes (front front' old new len len' : Nat) (edits : List Edit) :
    Follows texts (.delete old len front :: .delete new len' front' :: edits)
      (.delete old (len + len') front :: edits) := by
  intro o n o' n' h
  obtain ⟨rfl, h⟩ := leads_delete.1 h
  obtain ⟨-, h⟩ := leads_delete.1 h
  rw [Nat.add_assoc] at h
  exact .delete _ h

/-- A deletion and an insertion may change places, without their positions. -/
theorem follows_insertFirst (old len front front' new len' : Nat) (edits : List Edit) :
    Follows texts (.delete old len front :: .insert front' new len' :: edits)
      (.insert front' new len' :: .delete old len front :: edits) := by
  intro o n o' n' h
  obtain ⟨rfl, h⟩ := leads_delete.1 h
  obtain ⟨rfl, h⟩ := leads_insert.1 h
  exact .insert _ (.delete _ h)

theorem follows_deleteFirst (old len front front' new len' : Nat) (edits : List Edit) :
    Follows texts (.insert front' new len' :: .delete old len front :: edits)
      (.delete old len front :: .insert front' new len' :: edits) := by
  intro o n o' n' h
  obtain ⟨rfl, h⟩ := leads_insert.1 h
  obtain ⟨rfl, h⟩ := leads_delete.1 h
  exact .delete _ (.insert _ h)

theorem Focus.edits_cons (previous : Edit) (before : List Edit) (edit : Edit) (after : List Edit) :
    Focus.edits ⟨previous :: before, edit, after⟩ = before.reverse ++ previous :: edit :: after := by
  simp [Focus.edits]

/-- An insertion that ends with the lines in front of it may stand in front of them. -/
theorem follows_insertUp (front new len keptOld keptNew keptLen : Nat) (before after : List Edit) :
    let shift := texts.commonEnd ⟨keptOld, keptOld + keptLen⟩ ⟨new, new + len⟩
    ¬shift == 0 → Follows texts
      (Focus.edits ⟨.keep keptOld keptNew keptLen :: before, .insert front new len, after⟩)
      (Focus.edits
        ⟨if keptLen == shift then before else .keep keptOld keptNew (keptLen - shift) :: before,
          .insert (front - shift) (new - shift) len,
          keepAhead (keptOld + keptLen - shift) (new + len - shift) shift after⟩) := by
  intro shift hshift _ _ old' new' h
  rw [Focus.edits_cons] at h
  obtain ⟨_, _, hbefore, h⟩ := leads_append.1 h
  obtain ⟨rfl, rfl, -, hkept, h⟩ := leads_keep.1 h
  obtain ⟨rfl, h⟩ := leads_insert.1 h
  have hle := texts.commonEnd_le ⟨keptOld, keptOld + keptLen⟩
    ⟨keptNew + keptLen, keptNew + keptLen + len⟩
  have hagrees := texts.agrees_commonEnd ⟨keptOld, keptOld + keptLen⟩
    ⟨keptNew + keptLen, keptNew + keptLen + len⟩
  change shift ≤ _ ∧ shift ≤ _ at hle
  change texts.Agrees (_ - shift) (_ - shift) shift at hagrees
  have hsome : 0 < shift := Nat.pos_of_ne_zero fun hnone => hshift (by simp [hnone])
  clear_value shift
  dsimp only [Span.length] at hle hagrees
  have hafter : Leads texts (keptOld + keptLen - shift) (keptNew + keptLen - shift)
      (.insert (front - shift) (keptNew + keptLen - shift) len ::
        keepAhead (keptOld + keptLen - shift) (keptNew + keptLen + len - shift) shift after)
      old' new' := by
    refine .insert _ ?_
    rw [show keptNew + keptLen - shift + len = keptNew + keptLen + len - shift by omega]
    refine leads_keepAhead hsome hagrees ?_
    rwa [Nat.sub_add_cancel (by omega), Nat.sub_add_cancel (by omega)]
  split
  · next hall =>
    obtain rfl := eq_of_beq hall
    rw [Nat.add_sub_cancel, Nat.add_sub_cancel] at hafter
    exact leads_append.2 ⟨_, _, hbefore, by simpa using hafter⟩
  · next hpart =>
    rw [beq_iff_eq] at hpart
    rw [Focus.edits_cons]
    refine leads_append.2 ⟨_, _, hbefore, .keep (by omega) (hkept.part 0 _ (by omega)) ?_⟩
    rwa [← Nat.add_sub_assoc (by omega), ← Nat.add_sub_assoc (by omega)]

/-- An insertion that begins with the lines behind it may stand behind them. -/
theorem follows_insertDown (front new len keptOld keptNew keptLen : Nat) (before after : List Edit) :
    let shift := texts.commonStart ⟨keptOld, keptOld + keptLen⟩ ⟨new, new + len⟩
    ¬shift == 0 → Follows texts
      (Focus.edits ⟨before, .insert front new len, .keep keptOld keptNew keptLen :: after⟩)
      (Focus.edits ⟨keepBehind keptOld new shift before, .insert (front + shift) (new + shift) len,
        if keptLen == shift then after
        else .keep (keptOld + shift) (keptNew + shift) (keptLen - shift) :: after⟩) := by
  intro shift hshift _ _ _ _ h
  obtain ⟨_, _, hbefore, h⟩ := leads_append.1 h
  obtain ⟨rfl, h⟩ := leads_insert.1 h
  obtain ⟨rfl, rfl, -, hkept, h⟩ := leads_keep.1 h
  have hle := texts.commonStart_le ⟨keptOld, keptOld + keptLen⟩ ⟨new, new + len⟩
  have hagrees := texts.agrees_commonStart ⟨keptOld, keptOld + keptLen⟩ ⟨new, new + len⟩
  change shift ≤ _ ∧ shift ≤ _ at hle
  change texts.Agrees _ _ shift at hagrees
  have hsome : 0 < shift := Nat.pos_of_ne_zero fun hnone => hshift (by simp [hnone])
  clear_value shift
  dsimp only [Span.length] at hle
  refine leads_append.2 ⟨_, _, leads_keepBehind hsome hbefore hagrees, .insert _ ?_⟩
  rw [Nat.add_right_comm new shift len]
  dsimp only
  split
  · next hall =>
    obtain rfl := eq_of_beq hall
    exact h
  · next hpart =>
    rw [beq_iff_eq] at hpart
    refine .keep (by omega) (hkept.part shift _ (by omega)) ?_
    rwa [Nat.add_assoc, Nat.add_assoc (new + len), Nat.add_sub_cancel' (by omega)]

/-- Sliding an edit towards the start keeps where the script leads. -/
theorem follows_slideUp (limit : Nat) (focus : Focus) :
    Follows texts focus.edits (slideUp texts limit focus).edits := by
  fun_induction slideUp texts limit focus with
  | case1 => exact .refl _
  | case2 => exact .refl _
  | case3 limit before after old new len keptOld keptNew keptLen hnone ih =>
      obtain rfl := eq_of_beq hnone
      rw [Focus.edits_cons]
      exact ((follows_dropKeep texts keptOld keptNew _).behind _).trans ih
  | case4 => exact .refl _
  | case5 limit before after front new len keptOld keptNew keptLen =>
      exact (follows_insertUp front new len keptOld keptNew keptLen before after ‹_›).trans ‹_›
  | case6 limit before after old len front keptOld keptNew keptLen hnone ih =>
      obtain rfl := eq_of_beq hnone
      rw [Focus.edits_cons]
      exact ((follows_dropKeep texts keptOld keptNew _).behind _).trans ih
  | case7 => exact .refl _
  | case8 limit before after =>
      rw [Focus.edits_cons]
      exact ((follows_mergeInserts _ _ _ _ _ _ after).behind _).trans ‹_›
  | case9 limit before after =>
      rw [Focus.edits_cons]
      exact ((follows_mergeDeletes _ _ _ _ _ _ after).behind _).trans ‹_›
  | case10 limit before after =>
      rw [Focus.edits_cons]
      exact ((follows_insertFirst _ _ _ _ _ _ after).behind _).trans ‹_›
  | case11 limit before after =>
      rw [Focus.edits_cons]
      exact ((follows_deleteFirst _ _ _ _ _ _ after).behind _).trans ‹_›
  | case12 => exact .refl _

/-- Sliding an edit towards the end keeps where the script leads. -/
theorem follows_slideDown (limit : Nat) (focus : Focus) :
    Follows texts focus.edits (slideDown texts limit focus).edits := by
  fun_induction slideDown texts limit focus with
  | case1 => exact .refl _
  | case2 => exact .refl _
  | case3 limit before after front new len keptOld keptNew keptLen hnone ih =>
      obtain rfl := eq_of_beq hnone
      have hedit := (follows_dropKeep texts keptOld keptNew after).behind [.insert front new len]
      exact (hedit.behind _).trans ih
  | case4 => exact .refl _
  | case5 limit before after front new len keptOld keptNew keptLen =>
      exact (follows_insertDown front new len keptOld keptNew keptLen before after ‹_›).trans ‹_›
  | case6 limit before after old len front keptOld keptNew keptLen hnone ih =>
      obtain rfl := eq_of_beq hnone
      have hedit := (follows_dropKeep texts keptOld keptNew after).behind [.delete old len front]
      exact (hedit.behind _).trans ih
  | case7 => exact .refl _
  | case8 limit before after =>
      exact ((follows_mergeInserts _ _ _ _ _ _ after).behind _).trans ‹_›
  | case9 limit before after =>
      exact ((follows_mergeDeletes _ _ _ _ _ _ after).behind _).trans ‹_›
  | case10 limit before after _ _ _ _ _ _ ih =>
      rw [Focus.edits_cons] at ih
      exact ((follows_deleteFirst _ _ _ _ _ _ after).behind _).trans ih
  | case11 limit before after _ _ _ _ _ _ ih =>
      rw [Focus.edits_cons] at ih
      exact ((follows_insertFirst _ _ _ _ _ _ after).behind _).trans ih
  | case12 => exact .refl _

/-- Sliding the edits of a kind keeps where the script leads. -/
theorem follows_slideAll (isKind : Edit → Bool) (limit : Nat) (before after : List Edit) :
    Follows texts (before.reverse ++ after) (slideAll texts isKind limit before after) := by
  fun_induction slideAll texts isKind limit before after with
  | case1 limit before =>
      rw [List.append_nil]
      exact .refl _
  | case2 => exact .refl _
  | case3 limit before edit after hkind focus =>
      have hslid : Follows texts (Focus.edits ⟨before, edit, after⟩) focus.edits :=
        (follows_slideUp limit _).trans (follows_slideDown limit _)
      have hedits : (focus.edit :: focus.before).reverse ++ focus.after = focus.edits := by
        simp [Focus.edits]
      refine hslid.trans ?_
      rw [← hedits]
      assumption
  | case4 limit before edit after hkind ih =>
      simpa using ih

/-- Compaction keeps where a script leads. -/
theorem follows_compact (edits : List Edit) : Follows texts edits (compact texts edits) :=
  (follows_slideAll Edit.isDelete _ [] edits).trans (follows_slideAll Edit.isInsert _ [] _)

end

end TraceWeave.Diff
