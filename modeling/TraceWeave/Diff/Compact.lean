import TraceWeave.Diff.Script

/-!
Compact scripts: insertions slide along the lines around them, so that edits that
belong together meet and are joined.
-/

namespace TraceWeave.Diff

/-- An edit of a script with what stands around it, the nearest edit in front first. -/
structure Focus where
  before : List Edit
  edit : Edit
  after : List Edit

/-- Puts kept lines in front of edits, joined with kept lines that are there. -/
def keepAhead (old new len : Nat) : List Edit → List Edit
  | .keep old' new' len' :: edits => .keep (old' - len) (new' - len) (len' + len) :: edits
  | edits => .keep old new len :: edits

/-- Puts kept lines behind edits, the nearest of which comes first. -/
def keepBehind (old new len : Nat) : List Edit → List Edit
  | .keep old' new' len' :: edits => .keep old' new' (len' + len) :: edits
  | edits => .keep old new len :: edits

/-- Slides an edit towards the start as far as it goes. -/
def slideUp (texts : Texts) : (limit : Nat) → Focus → Focus
  | 0, focus => focus
  | _, ⟨[], edit, after⟩ => ⟨[], edit, after⟩
  | limit + 1, ⟨previous :: before, edit, after⟩ =>
      match edit, previous with
      | .insert old new len, .keep keptOld keptNew keptLen =>
          let shift := texts.commonEnd ⟨keptOld, keptOld + keptLen⟩ ⟨new, new + len⟩
          if keptLen == 0 then slideUp texts limit ⟨before, edit, after⟩
          else if shift == 0 then ⟨previous :: before, edit, after⟩
          else
            let after := keepAhead (keptOld + keptLen - shift) (new + len - shift) shift after
            let edit := Edit.insert (old - shift) (new - shift) len
            let before :=
              if keptLen == shift then before
              else .keep keptOld keptNew (keptLen - shift) :: before
            slideUp texts limit ⟨before, edit, after⟩
      | .delete _ _ _, .keep _ _ keptLen =>
          if keptLen == 0 then slideUp texts limit ⟨before, edit, after⟩
          else ⟨previous :: before, edit, after⟩
      | .insert _ _ len, .insert old new len' =>
          slideUp texts limit ⟨before, .insert old new (len' + len), after⟩
      | .delete _ len _, .delete old len' new =>
          slideUp texts limit ⟨before, .delete old (len' + len) new, after⟩
      | .insert _ _ _, .delete _ _ _ => slideUp texts limit ⟨before, edit, previous :: after⟩
      | .delete _ _ _, .insert _ _ _ => slideUp texts limit ⟨before, edit, previous :: after⟩
      | .keep _ _ _, _ => ⟨previous :: before, edit, after⟩

/-- Slides an edit towards the end as far as it goes. -/
def slideDown (texts : Texts) : (limit : Nat) → Focus → Focus
  | 0, focus => focus
  | _, ⟨before, edit, []⟩ => ⟨before, edit, []⟩
  | limit + 1, ⟨before, edit, next :: after⟩ =>
      match edit, next with
      | .insert old new len, .keep keptOld keptNew keptLen =>
          let shift := texts.commonStart ⟨keptOld, keptOld + keptLen⟩ ⟨new, new + len⟩
          if keptLen == 0 then slideDown texts limit ⟨before, edit, after⟩
          else if shift == 0 then ⟨before, edit, next :: after⟩
          else
            let before := keepBehind keptOld new shift before
            let edit := Edit.insert (old + shift) (new + shift) len
            let after :=
              if keptLen == shift then after
              else .keep (keptOld + shift) (keptNew + shift) (keptLen - shift) :: after
            slideDown texts limit ⟨before, edit, after⟩
      | .delete _ _ _, .keep _ _ keptLen =>
          if keptLen == 0 then slideDown texts limit ⟨before, edit, after⟩
          else ⟨before, edit, next :: after⟩
      | .insert old new len, .insert _ _ len' =>
          slideDown texts limit ⟨before, .insert old new (len + len'), after⟩
      | .delete old len new, .delete _ len' _ =>
          slideDown texts limit ⟨before, .delete old (len + len') new, after⟩
      | .insert _ _ _, .delete _ _ _ => slideDown texts limit ⟨next :: before, edit, after⟩
      | .delete _ _ _, .insert _ _ _ => slideDown texts limit ⟨next :: before, edit, after⟩
      | .keep _ _ _, _ => ⟨before, edit, next :: after⟩

/-- Slides the edits of a kind, one after the other. -/
def slideAll (texts : Texts) (isKind : Edit → Bool) :
    (limit : Nat) → (before after : List Edit) → List Edit
  | _, before, [] => before.reverse
  | 0, before, after => before.reverse ++ after
  | limit + 1, before, edit :: after =>
      if isKind edit then
        let focus := slideDown texts limit (slideUp texts limit ⟨before, edit, after⟩)
        slideAll texts isKind limit (focus.edit :: focus.before) focus.after
      else slideAll texts isKind limit (edit :: before) after

namespace Edit

def isDelete : Edit → Bool
  | .delete _ _ _ => true
  | _ => false

def isInsert : Edit → Bool
  | .insert _ _ _ => true
  | _ => false

end Edit

/-- Slides deletions, then insertions. -/
def compact (texts : Texts) (edits : List Edit) : List Edit :=
  let size := texts.old.size + texts.new.size + edits.length + 1
  let limit := size * size
  slideAll texts Edit.isInsert limit [] (slideAll texts Edit.isDelete limit [] edits)

end TraceWeave.Diff
