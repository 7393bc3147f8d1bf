import TraceWeave.Proofs.Types.Names
import TraceWeave.Proofs.Types.Nesting

/-!
How far a variable can be seen.

A variable that a `:=` defines is what its name stands for in everything behind it in its block,
as long as nothing there declares the name anew (`rebinds`).  The identifiers that are linked to
the variable are then told by their spelling (`FileRun.name_eq`, `FileRun.links_define`).
-/

namespace TraceWeave.Types

open TraceWeave.Syntax

/-! ## Levels -/

/-- The number of blocks that are open behind an event; the outermost level is never left. -/
def Event.level? (level : Nat) : Event → Option Nat
  | .enter => some (level + 1)
  | .leave => if level = 0 then none else some (level - 1)
  | _ => some level

theorem Balanced.level {events : List Event} (h : Balanced events) (level : Nat) :
    events.foldlM Event.level? level = some level := by
  induction h generalizing level with
  | block hevents ih =>
      rw [List.foldlM_cons]
      change (_ ++ [Event.leave]).foldlM Event.level? (level + 1) = _
      rw [List.foldlM_append, ih]
      rfl
  | append hfirst hsecond ihfirst ihsecond =>
      rw [List.foldlM_append, ihfirst]
      exact ihsecond level
  | _ => rfl

/-- The events in front of a place in balanced ones leave no block that they have not entered. -/
theorem Balanced.level_front {front back : List Event} (h : Balanced (front ++ back)) (level : Nat) :
    ∃ level', front.foldlM Event.level? level = some level' := by
  have hall := h.level level
  rw [List.foldlM_append] at hall
  obtain ⟨level', hfront, -⟩ := Option.bind_eq_some_iff.1 hall
  exact ⟨level', hfront⟩

namespace Scopes

variable {scopes : Scopes} {event : Event} {events : List Event} {level level' : Nat}

theorem length_declareIdent (scopes : Scopes) (kind : ObjectKind) (ident : Ident) :
    (scopes.declareIdent kind ident).blocks.length = scopes.blocks.length := by
  unfold declareIdent
  split
  · rfl
  · exact List.length_modifyHead

theorem length_step (h : event.level? level = some level') (hle : level ≤ scopes.blocks.length) :
    (scopes.step event).blocks.length + level = scopes.blocks.length + level' := by
  cases event with
  | enter =>
      obtain rfl := Option.some.inj h
      simp only [step, List.length_cons]
      omega
  | leave =>
      obtain ⟨hne, hlevel⟩ := Option.ite_none_left_eq_some.1 h
      obtain rfl := Option.some.inj hlevel
      simp only [step, List.length_tail]
      omega
  | use ident =>
      obtain rfl := Option.some.inj h
      rfl
  | declare ident kind =>
      obtain rfl := Option.some.inj h
      rw [step, length_declareIdent]
  | define ident =>
      obtain rfl := Option.some.inj h
      rw [step]
      split
      · rfl
      · rw [length_declareIdent]
  | declareType name =>
      obtain rfl := Option.some.inj h
      exact congrArg (· + level) List.length_modifyHead

/-- Blocks that were open in front of the events are open behind them too. -/
theorem length_run (scopes : Scopes) (h : events.foldlM Event.level? level = some level')
    (hle : level ≤ scopes.blocks.length) :
    (events.foldl step scopes).blocks.length + level = scopes.blocks.length + level' := by
  induction events generalizing scopes level with
  | nil =>
      obtain rfl := Option.some.inj h
      rfl
  | cons event events ih =>
      rw [List.foldlM_cons] at h
      obtain ⟨between, hevent, hevents⟩ := Option.bind_eq_some_iff.1 h
      have hstep := length_step hevent hle
      have hrest := ih (scopes.step event) hevents (by omega)
      rw [List.foldl_cons]
      omega

end Scopes

/-! ## Visible declarations -/

/--
The event declares the name in a block that is `level` blocks inside of the one of the variable.
A `:=` of the same block refers to the variable that the block has.
-/
def Event.rebinds (name : String) (level : Nat) : Event → Bool
  | .declare ident _ => ident.name == name
  | .define ident => level != 0 && ident.name == name
  | .declareType other => other == name
  | _ => false

/-- One of the events declares the name anew. -/
def rebinds (name : String) (level : Nat) : List Event → Bool
  | [] => false
  | event :: events =>
      event.rebinds name level || (event.level? level).any (rebinds name · events)

/-- The name stands for the declaration, of a block around `level` other ones. -/
inductive Shows (name : String) (n : Nat) : Nat → List (List (String × Nat)) → Prop where
  | here {block : List (String × Nat)} {blocks : List (List (String × Nat))} :
      block.lookup name = some n → Shows name n 0 (block :: blocks)
  | inside {level : Nat} {block : List (String × Nat)} {blocks : List (List (String × Nat))} :
      block.lookup name = none → Shows name n level blocks → Shows name n (level + 1) (block :: blocks)

namespace Shows

variable {name : String} {n level level' : Nat} {scopes : Scopes} {event : Event} {events rest : List Event}

theorem find? (h : Shows name n level scopes.blocks) : scopes.find? name = some n := by
  unfold Scopes.find?
  generalize scopes.blocks = blocks at h
  induction h with
  | here hblock => rw [List.findSome?_cons, hblock]
  | inside hblock _ ih => rw [List.findSome?_cons, hblock, ih]

theorem here? (h : Shows name n 0 scopes.blocks) : scopes.here? name = some n := by
  unfold Scopes.here?
  generalize scopes.blocks = blocks at h
  cases h with
  | here hblock => exact hblock

theorem declare (h : Shows name n level scopes.blocks) (kind : ObjectKind) {other : String}
    (hne : other ≠ name) : Shows name n level (scopes.declare kind other).blocks := by
  have hlookup : ∀ block : List (String × Nat),
      ((other, scopes.declared.length) :: block).lookup name = block.lookup name := by
    intro block
    rw [List.lookup_cons, beq_false_of_ne hne.symm]
  simp only [Scopes.declare]
  generalize scopes.blocks = blocks at h
  cases h with
  | here hblock => exact .here ((hlookup _).trans hblock)
  | inside hblock hblocks => exact .inside ((hlookup _).trans hblock) hblocks

theorem declareIdent (h : Shows name n level scopes.blocks) (kind : ObjectKind) {ident : Ident}
    (hne : ident.name ≠ name) : Shows name n level (scopes.declareIdent kind ident).blocks := by
  unfold Scopes.declareIdent
  split
  · exact h
  · exact h.declare kind hne

/-- What does not declare the name leaves the variable visible. -/
theorem step (h : Shows name n level scopes.blocks) (hlevel : event.level? level = some level')
    (hkept : event.rebinds name level = false) : Shows name n level' (scopes.step event).blocks := by
  cases event with
  | enter =>
      obtain rfl := Option.some.inj hlevel
      exact .inside rfl h
  | leave =>
      obtain ⟨hne, hlevel⟩ := Option.ite_none_left_eq_some.1 hlevel
      obtain rfl := Option.some.inj hlevel
      simp only [Scopes.step]
      generalize scopes.blocks = blocks at h
      cases h with
      | here hblock => contradiction
      | inside hblock hblocks => exact hblocks
  | use ident =>
      obtain rfl := Option.some.inj hlevel
      exact h
  | declare ident kind =>
      obtain rfl := Option.some.inj hlevel
      exact h.declareIdent kind (beq_eq_false_iff_ne.1 hkept)
  | define ident =>
      obtain rfl := Option.some.inj hlevel
      rw [Scopes.step]
      split
      · exact h
      · next hnew =>
        refine h.declareIdent .variable ?_
        rintro rfl
        obtain rfl : level = 0 := by simpa [Event.rebinds] using hkept
        rw [h.here?] at hnew
        contradiction
  | declareType other =>
      obtain rfl := Option.some.inj hlevel
      exact h.declare .type (beq_eq_false_iff_ne.1 hkept)

theorem run (h : Shows name n level scopes.blocks)
    (hlevel : events.foldlM Event.level? level = some level')
    (hkept : rebinds name level (events ++ rest) = false) :
    Shows name n level' (events.foldl Scopes.step scopes).blocks ∧
      rebinds name level' rest = false := by
  induction events generalizing scopes level with
  | nil =>
      obtain rfl := Option.some.inj hlevel
      exact ⟨h, hkept⟩
  | cons event events ih =>
      rw [List.foldlM_cons] at hlevel
      obtain ⟨between, hevent, hevents⟩ := Option.bind_eq_some_iff.1 hlevel
      rw [List.cons_append, rebinds, hevent, Bool.or_eq_false_iff] at hkept
      exact ih (h.step hevent hkept.1) hevents hkept.2

/-- An occurrence of the name that does not declare it stands for the variable. -/
theorem target? (h : Shows name n level scopes.blocks) (hkept : event.rebinds name level = false)
    {ident : Ident} (hident : event.ident? = some ident) (hname : ident.name = name) :
    scopes.target? event = some n := by
  subst hname
  cases event with
  | use other =>
      obtain rfl : other = ident := Option.some.inj hident
      exact h.find?
  | declare other kind =>
      obtain rfl : other = ident := Option.some.inj hident
      simp [Event.rebinds] at hkept
  | define other =>
      obtain rfl : other = ident := Option.some.inj hident
      obtain rfl : level = 0 := by simpa [Event.rebinds] using hkept
      rw [Scopes.target?, h.here?, Option.getD_some]
  | enter => contradiction
  | leave => contradiction
  | declareType name => contradiction

end Shows

/-- A `:=` makes its name stand for its variable. -/
theorem shows_define {scopes : Scopes} (hopen : scopes.blocks ≠ []) {ident : Ident}
    (hblank : ident.isBlank = false) (hnumbered : ident.isGenerated = false) :
    ∃ n, scopes.target? (.define ident) = some n ∧
      Shows ident.name n 0 (scopes.step (.define ident)).blocks := by
  obtain ⟨block, blocks, hblocks⟩ := List.exists_cons_of_ne_nil hopen
  refine ⟨_, rfl, ?_⟩
  rw [Scopes.step, Scopes.here?, hblocks, List.head?_cons, Option.bind_some]
  cases hfound : block.lookup ident.name with
  | some n =>
      rw [hblocks]
      exact .here hfound
  | none =>
      simp only [Scopes.declareIdent, hblank, hnumbered, Scopes.declare, hblocks, Option.getD_none,
        List.modifyHead_cons]
      exact .here List.lookup_cons_self

/-! ## Links -/

theorem mem_identsOf {events : List Event} {ident : Ident} :
    ident ∈ identsOf events ↔
      ∃ before event after, events = before ++ event :: after ∧ event.ident? = some ident := by
  constructor
  · intro h
    obtain ⟨event, hevent, hident⟩ := List.mem_filterMap.1 h
    obtain ⟨before, after, hevents⟩ := List.append_of_mem hevent
    exact ⟨before, event, after, hevents, hident⟩
  · rintro ⟨before, event, after, rfl, hident⟩
    exact List.mem_filterMap.2
      ⟨event, List.mem_append_right before List.mem_cons_self, hident⟩

/-- The events of a function in front of those of its body. -/
def eventsOfHead (func : FuncDecl) : List Event :=
  (func.receiver.map eventsOfParams).getD [] ++
    (eventsOfParams func.params ++ eventsOfResults func.results)

theorem eventsOfFunc_eq {func : FuncDecl} {body : Block} (hbody : func.body = some body) :
    eventsOfFunc func = .enter :: (eventsOfHead func ++ (eventsOfStmts body.stmts ++ [.leave])) := by
  simp only [eventsOfFunc, hbody, eventsOfHead, List.append_assoc]

theorem balanced_eventsOfHead (func : FuncDecl) : Balanced (eventsOfHead func) := by
  refine Balanced.append ?_
    ((balanced_eventsOfParams func.params).append (balanced_eventsOfResults func.results))
  cases func.receiver with
  | none => exact .nil
  | some receiver => exact balanced_eventsOfParams receiver

/-- The list stands in the body of a function, whose types are written with names. -/
def StandsIn (list : List Stmt) (file : File) : Prop :=
  ∃ decl ∈ file.decls, ∃ (func : FuncDecl) (body : Block),
    decl.kind = .func func ∧ func.body = some body ∧
      NamesTypes (occurrencesOfStmts body.stmts) ∧ ListIn list body.stmts

/-- A list in the body of a function is read with a block open. -/
theorem StandsIn.exists_events {file : File} {list : List Stmt} {events : List Event}
    (h : StandsIn list file) (hevents : events <:+: eventsOfStmts list) :
    ∃ front back, eventsOfFile file = front ++ (events ++ back) ∧
      (scopesBehind front).blocks ≠ [] := by
  obtain ⟨decl, hdecl, func, body, hkind, hbody, hnames, hlist⟩ := h
  obtain ⟨-, hread⟩ := readIn_of_listIn hnames hlist (List.Subset.refl _)
  obtain ⟨decls, decls', hdecls⟩ := List.append_of_mem hdecl
  obtain ⟨before, after, hstmts⟩ := hevents.trans hread
  have hbalanced : Balanced ((eventsOfHead func ++ before) ++ (events ++ after)) := by
    have hall := (balanced_eventsOfHead func).append (balanced_eventsOfStmts body.stmts)
    rw [← hstmts] at hall
    simpa using hall
  obtain ⟨level, hlevel⟩ := hbalanced.level_front 0
  refine ⟨decls.flatMap eventsOfDecl ++ .enter :: (eventsOfHead func ++ before),
    after ++ .leave :: decls'.flatMap eventsOfDecl, ?_, ?_⟩
  · rw [eventsOfFile, hdecls, List.flatMap_append, List.flatMap_cons, eventsOfDecl, hkind]
    simp [eventsOfFunc_eq hbody, ← hstmts]
  · rw [scopesBehind, List.foldl_append, List.foldl_cons]
    have hlength := Scopes.length_run
      (((decls.flatMap eventsOfDecl).foldl Scopes.step {}).step .enter) hlevel (Nat.zero_le _)
    intro hnil
    rw [hnil] at hlength
    simp only [Scopes.step, List.length_nil, List.length_cons] at hlength
    omega

section

variable {info known : Info} {sources : List PackageSource} {path : String} {file : File}

/-- Identifiers that are linked to one object have one name. -/
theorem FileRun.name_eq (h : FileRun info sources path file known) (hnamed : info.Named)
    (hapart : ∀ ident ∈ identsOf (eventsOfFile file), Apart info sources ident) {ident ident' : Ident}
    (hident : ident ∈ identsOf (eventsOfFile file)) (hident' : ident' ∈ identsOf (eventsOfFile file))
    {id : Nat} (hlink : (info.check sources).objectId? ident = some id)
    (hlink' : (info.check sources).objectId? ident' = some id) : ident.name = ident'.name := by
  obtain ⟨before, event, after, hevents, hevent⟩ := mem_identsOf.1 hident
  obtain ⟨before', event', after', hevents', hevent'⟩ := mem_identsOf.1 hident'
  exact (h.names hnamed hevents hevent (hapart ident hident) hlink).unique
    (h.names hnamed hevents' hevent' (hapart ident' hident') hlink')

variable {front events back : List Event} {bound : Ident}

/--
A `:=` links its variable, and everything behind it that has the name is linked to the same
object, unless the name is declared anew.
-/
theorem FileRun.links_define (h : FileRun info sources path file known)
    (hevents : eventsOfFile file = front ++ .define bound :: (events ++ back))
    (hopen : (scopesBehind front).blocks ≠ []) (hbalanced : Balanced events)
    (hapart : ∀ ident ∈ identsOf (eventsOfFile file), Apart info sources ident)
    (hblank : bound.isBlank = false) :
    ∃ id, (info.check sources).objectId? bound = some id ∧
      (rebinds bound.name 0 events = false → ∀ ident ∈ identsOf events, ident.name = bound.name →
        (info.check sources).objectId? ident = some id) := by
  have hbound := hapart bound (mem_identsOf.2 ⟨front, _, _, hevents, rfl⟩)
  obtain ⟨n, htarget, hshows⟩ := shows_define hopen hblank hbound.numbered
  have hlink := h.links hevents rfl hblank hbound
  rw [htarget, Option.map_some, Option.some_or] at hlink
  refine ⟨_, hlink, fun hkept ident hident hname => ?_⟩
  obtain ⟨before, event, after, hsplit, hevent⟩ := mem_identsOf.1 hident
  have hplace : eventsOfFile file =
      (front ++ .define bound :: before) ++ event :: (after ++ back) := by
    rw [hevents, hsplit]
    simp
  obtain ⟨level, hlevel⟩ := (hsplit ▸ hbalanced).level_front 0
  rw [hsplit] at hkept
  obtain ⟨hshows, hkept⟩ := hshows.run hlevel hkept
  rw [rebinds, Bool.or_eq_false_iff] at hkept
  have hidentBlank : ident.isBlank = false := by
    rw [Ident.isBlank, hname]
    exact hblank
  have hseen : (scopesBehind (front ++ .define bound :: before)).target? event = some n := by
    rw [scopesBehind, List.foldl_append, List.foldl_cons]
    exact hshows.target? hkept.1 hevent hname
  rw [h.links hplace hevent hidentBlank (hapart ident (mem_identsOf.2 ⟨_, _, _, hplace, hevent⟩)), hseen]
  rfl

end

end TraceWeave.Types
