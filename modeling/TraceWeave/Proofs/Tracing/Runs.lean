import TraceWeave.Proofs.Tracing.Weaving

/-!
Conditions on the runs of computations that change a frame and an application.

`Trace.wp x Q frame app` says that `Q` holds of the result of `x` and of the state
behind it; its rules execute `x` step by step.
-/

namespace TraceWeave.Program

open TraceWeave.Agent TraceWeave.Syntax

/-! ## The application alone -/

namespace Weave

variable {α β : Type}

def wp (x : Weave α) (Q : α → Application → Prop) (app : Application) : Prop :=
  Q (x app).1 (x app).2

theorem wp_iff (x : Weave α) (Q : α → Application → Prop) (app : Application) :
    wp x Q app ↔ Q (x.run app).1 (x.run app).2 := Iff.rfl

theorem wp_bind (x : Weave α) (f : α → Weave β) (Q : β → Application → Prop) (app : Application) :
    wp (x >>= f) Q app = wp x (fun a => wp (f a) Q) app := rfl

theorem wp_map (f : α → β) (x : Weave α) (Q : β → Application → Prop) (app : Application) :
    wp (f <$> x) Q app = wp x (fun a => Q (f a)) app := rfl

theorem wp_pure (a : α) (Q : α → Application → Prop) (app : Application) :
    wp (pure a) Q app = Q a app := rfl

theorem wp_get (Q : Application → Application → Prop) (app : Application) :
    wp (get : Weave Application) Q app = Q app app := rfl

theorem wp_modify (f : Application → Application) (Q : Unit → Application → Prop)
    (app : Application) : wp (modify f : Weave Unit) Q app = Q () (f app) := rfl

theorem wp_needImport (package path : String) (Q : Unit → Application → Prop) (app : Application) :
    wp (Weave.needImport package path) Q app = Q () (app.needImport package path) := rfl

theorem wp.mono {x : Weave α} {P Q : α → Application → Prop} {app : Application}
    (h : wp x P app) (hPQ : ∀ a app', P a app' → Q a app') : wp x Q app :=
  hPQ _ _ h

theorem wp.and {x : Weave α} {P Q : α → Application → Prop} {app : Application}
    (h : wp x P app) (h' : wp x Q app) : wp x (fun a app' => P a app' ∧ Q a app') app :=
  ⟨h, h'⟩

/-- Lines go above the comments that are there. -/
theorem keeps_of_attachLines? {lines : List String} {decs decs' : Decorations}
    (h : attachLines? lines decs = some decs') : decs.Keeps decs' := by
  unfold attachLines? at h
  split at h
  · contradiction
  · split at h
    · contradiction
    · obtain rfl := Option.some.inj h
      exact ⟨List.sublist_append_right .., .refl _⟩

/-- An advisory adds to the decorations of a statement and changes the console, or nothing. -/
theorem wp_attach {advisory : Advisory} {stmt : Stmt} {Q : Stmt → Application → Prop}
    {app : Application}
    (h : ∀ decs console, stmt.decs.Keeps decs → Q { stmt with decs } { app with console }) :
    wp (Weave.attach advisory stmt) Q app := by
  obtain ⟨kind, decs⟩ := stmt
  unfold Weave.attach Advisory.attach?
  cases hattach : attachLines? advisory.lines decs with
  | none => exact h decs app.console (.refl decs)
  | some decs' => exact h decs' (app.console.warn advisory.message) (keeps_of_attachLines? hattach)

end Weave

end TraceWeave.Program

namespace TraceWeave.Tracing

open TraceWeave.Agent TraceWeave.Program TraceWeave.Syntax TraceWeave.Types

/-! ## Frame and application -/

namespace Trace

variable {α β : Type}

def wp (x : Trace α) (Q : α → Frame → Application → Prop) (frame : Frame) (app : Application) :
    Prop :=
  Weave.wp (x frame) (fun result => Q result.1 result.2) app

theorem wp_bind (x : Trace α) (f : α → Trace β) (Q : β → Frame → Application → Prop)
    (frame : Frame) (app : Application) :
    wp (x >>= f) Q frame app = wp x (fun a => wp (f a) Q) frame app := rfl

theorem wp_map (f : α → β) (x : Trace α) (Q : β → Frame → Application → Prop) (frame : Frame)
    (app : Application) : wp (f <$> x) Q frame app = wp x (fun a => Q (f a)) frame app := rfl

theorem wp_pure (a : α) (Q : α → Frame → Application → Prop) (frame : Frame) (app : Application) :
    wp (pure a) Q frame app = Q a frame app := rfl

theorem wp_get (Q : Frame → Frame → Application → Prop) (frame : Frame) (app : Application) :
    wp (get : Trace Frame) Q frame app = Q frame frame app := rfl

theorem wp_modify (f : Frame → Frame) (Q : Unit → Frame → Application → Prop) (frame : Frame)
    (app : Application) : wp (modify f : Trace Unit) Q frame app = Q () (f frame) app := rfl

theorem wp_modifyGet (f : Frame → α × Frame) (Q : α → Frame → Application → Prop) (frame : Frame)
    (app : Application) :
    wp (modifyGet f : Trace α) Q frame app = Q (f frame).1 (f frame).2 app := rfl

theorem wp_lift (x : Weave α) (Q : α → Frame → Application → Prop) (frame : Frame)
    (app : Application) :
    wp (liftM x : Trace α) Q frame app = Weave.wp x (fun a => Q a frame) app := rfl

theorem wp_run (x : Trace α) (Q : α × Frame → Application → Prop) (frame : Frame)
    (app : Application) :
    Weave.wp (StateT.run x frame) Q app = wp x (fun a frame' => Q (a, frame')) frame app := rfl

theorem wp_app (Q : Application → Frame → Application → Prop) (frame : Frame)
    (app : Application) : wp Trace.app Q frame app = Q app frame app := rfl

theorem wp_types (Q : Info → Frame → Application → Prop) (frame : Frame) (app : Application) :
    wp Trace.types Q frame app = Q app.types frame app := rfl

theorem wp_needImport (path : String) (Q : Unit → Frame → Application → Prop) (frame : Frame)
    (app : Application) :
    wp (Trace.needImport path) Q frame app = Q () frame (app.needImport frame.package path) := rfl

theorem wp.mono {x : Trace α} {P Q : α → Frame → Application → Prop} {frame : Frame}
    {app : Application} (h : wp x P frame app)
    (hPQ : ∀ a frame' app', P a frame' app' → Q a frame' app') : wp x Q frame app :=
  hPQ _ _ _ h

theorem wp.and {x : Trace α} {P Q : α → Frame → Application → Prop} {frame : Frame}
    {app : Application} (h : wp x P frame app) (h' : wp x Q frame app) :
    wp x (fun a frame' app' => P a frame' app' ∧ Q a frame' app') frame app :=
  ⟨h, h'⟩

theorem wp_attach {advisory : Advisory} {stmt : Stmt} {Q : Stmt → Frame → Application → Prop}
    {frame : Frame} {app : Application}
    (h : ∀ decs console, stmt.decs.Keeps decs → Q { stmt with decs } frame { app with console }) :
    wp (Trace.attach advisory stmt) Q frame app := by
  show Weave.wp (Weave.attach advisory stmt) (fun stmt => Q stmt frame) app
  exact Weave.wp_attach h

end Trace

/-- The runs of a walk. -/
def Trace.threaded : Threaded Trace (Frame × Application) where
  run x s := ((x s.1 s.2).1.1, (x s.1 s.2).1.2, (x s.1 s.2).2)
  run_pure _ _ := rfl
  run_bind _ _ _ := rfl
  run_map _ _ _ := rfl

/-! ## Frame, application and the advisories of one statement -/

/-- A part of the walk that collects advisories. -/
abbrev Advised := StateT (List Advisory) Trace

namespace Advised

variable {α β : Type}

def wp (x : Advised α) (Q : α → List Advisory → Frame → Application → Prop)
    (advisories : List Advisory) (frame : Frame) (app : Application) : Prop :=
  Trace.wp (x advisories) (fun result => Q result.1 result.2) frame app

theorem wp_bind (x : Advised α) (f : α → Advised β)
    (Q : β → List Advisory → Frame → Application → Prop) (advisories : List Advisory)
    (frame : Frame) (app : Application) :
    wp (x >>= f) Q advisories frame app = wp x (fun a => wp (f a) Q) advisories frame app := rfl

theorem wp_pure (a : α) (Q : α → List Advisory → Frame → Application → Prop)
    (advisories : List Advisory) (frame : Frame) (app : Application) :
    wp (pure a) Q advisories frame app = Q a advisories frame app := rfl

theorem wp_lift (x : Trace α) (Q : α → List Advisory → Frame → Application → Prop)
    (advisories : List Advisory) (frame : Frame) (app : Application) :
    wp (liftM x : Advised α) Q advisories frame app =
      Trace.wp x (fun a => Q a advisories) frame app := rfl

theorem wp_liftWeave (x : Weave α) (Q : α → List Advisory → Frame → Application → Prop)
    (advisories : List Advisory) (frame : Frame) (app : Application) :
    wp (liftM x : Advised α) Q advisories frame app =
      Weave.wp x (fun a => Q a advisories frame) app := rfl

theorem wp_modify (f : List Advisory → List Advisory)
    (Q : Unit → List Advisory → Frame → Application → Prop) (advisories : List Advisory)
    (frame : Frame) (app : Application) :
    wp (modify f : Advised Unit) Q advisories frame app = Q () (f advisories) frame app := rfl

theorem wp.mono {x : Advised α} {P Q : α → List Advisory → Frame → Application → Prop}
    {advisories : List Advisory} {frame : Frame} {app : Application}
    (h : wp x P advisories frame app)
    (hPQ : ∀ a advisories' frame' app',
      P a advisories' frame' app' → Q a advisories' frame' app') :
    wp x Q advisories frame app :=
  hPQ _ _ _ _ h

def threaded : Threaded Advised (List Advisory × Frame × Application) where
  run x s := ((x s.1 s.2.1 s.2.2).1.1.1, (x s.1 s.2.1 s.2.2).1.1.2, (x s.1 s.2.1 s.2.2).1.2,
    (x s.1 s.2.1 s.2.2).2)
  run_pure _ _ := rfl
  run_bind _ _ _ := rfl
  run_map _ _ _ := rfl

end Advised

end TraceWeave.Tracing
