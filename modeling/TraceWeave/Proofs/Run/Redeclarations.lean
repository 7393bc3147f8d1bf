import TraceWeave.Detect.Roots

/-!
Redeclarations at the top of the entry function.

A `:=` has to introduce a name.  When other names come to be declared in front of a list of
statements, `lowerRedeclarations` makes assignments of the `:=` that introduce nothing
behind them.  The statements of the list bind the same names as before, prefix by prefix,
and every `:=` that is left introduces one (`lowerRedeclarations_keepsDefinitions`).  Only
a `:=` binds names here, as the function sees it; `setUpAgent_declares` is about blocks in
which a `var` declares names too.
-/

namespace TraceWeave.Detect

open TraceWeave.Syntax

/-! ## Go's rule -/

/-- The names that a `:=` binds; no other statement binds any here. -/
def boundNames (stmt : Stmt) : List String :=
  match stmt.kind with
  | .assign left .define _ => ((left.filterMap Expr.ident?).filter (!·.isBlank)).map (·.name)
  | _ => []

def boundIn (stmts : List Stmt) : List String := stmts.flatMap boundNames

/-- If the statement is a `:=`, then of names only, one of which is not blank. -/
structure BindsNames (stmt : Stmt) : Prop where
  idents : ∀ left right, stmt.kind = .assign left .define right →
    ∀ operand ∈ left, operand.ident?.isSome
  nonempty : ∀ left right, stmt.kind = .assign left .define right → boundNames stmt ≠ []

/-- Every `:=` of the list introduces a name, the names `seen` being bound in front of it. -/
def Introduces : (seen : List String) → List Stmt → Prop
  | _, [] => True
  | seen, stmt :: stmts =>
      (∀ left right, stmt.kind = .assign left .define right →
        ∃ name ∈ boundNames stmt, name ∉ seen) ∧
      Introduces (seen ++ boundNames stmt) stmts

/-- The operand is the blank name or one of the names. -/
def AssignsTo (bound : List String) (operand : Expr) : Prop :=
  ∃ ident, operand.ident? = some ident ∧ (ident.isBlank ∨ ident.name ∈ bound)

/--
The second list is the first one with some `:=` made assignments of names that are bound in
front of them, by the first list or as the names `bound`.
-/
inductive Lowered : (bound : List String) → List Stmt → List Stmt → Prop
  | nil {bound : List String} : Lowered bound [] []
  | kept {bound : List String} {stmt : Stmt} {stmts stmts' : List Stmt} :
      Lowered (bound ++ boundNames stmt) stmts stmts' →
      Lowered bound (stmt :: stmts) (stmt :: stmts')
  | assigned {bound : List String} {left right : List Expr} {decs : Decorations}
      {stmts stmts' : List Stmt} :
      (∀ operand ∈ left, AssignsTo bound operand) →
      Lowered (bound ++ boundNames ⟨.assign left .define right, decs⟩) stmts stmts' →
      Lowered bound (⟨.assign left .define right, decs⟩ :: stmts)
        (⟨.assign left .assign right, decs⟩ :: stmts')

/-- The second list has the rule of the first one behind the names, and binds what it bound. -/
structure KeepsDefinitions (declared : List String) (stmts stmts' : List Stmt) : Prop where
  introduces : Introduces declared stmts'
  lowered : Lowered declared stmts stmts'
  bound : ∀ count name, name ∈ declared ++ boundIn (stmts'.take count) ↔
    name ∈ declared ++ boundIn (stmts.take count)

/-! ## Lists -/

theorem boundIn_cons (stmt : Stmt) (stmts : List Stmt) :
    boundIn (stmt :: stmts) = boundNames stmt ++ boundIn stmts :=
  List.flatMap_cons

/-- Only which names are bound matters, not how often or in which order. -/
theorem Introduces.congr {seen seen' : List String} (hsame : ∀ name, name ∈ seen ↔ name ∈ seen') :
    ∀ {stmts : List Stmt}, Introduces seen stmts → Introduces seen' stmts
  | [], _ => trivial
  | stmt :: stmts, ⟨hstmt, hrest⟩ => by
      refine ⟨fun left right hkind => ?_, hrest.congr fun name => ?_⟩
      · obtain ⟨name, hmem, hnew⟩ := hstmt left right hkind
        exact ⟨name, hmem, fun hold => hnew ((hsame name).2 hold)⟩
      · simp only [List.mem_append, hsame]

namespace KeepsDefinitions

variable {declared : List String} {stmt stmt' : Stmt} {stmts stmts' : List Stmt}

theorem nil : KeepsDefinitions declared [] [] :=
  ⟨trivial, .nil, fun _ _ => by simp⟩

theorem bound_cons (htail : KeepsDefinitions (declared ++ boundNames stmt) stmts stmts')
    (hnames : ∀ name, name ∈ declared ++ boundNames stmt' ↔ name ∈ declared ++ boundNames stmt) :
    ∀ count name, name ∈ declared ++ boundIn ((stmt' :: stmts').take count) ↔
      name ∈ declared ++ boundIn ((stmt :: stmts).take count)
  | 0, _ => by simp
  | count + 1, name => by
      have hrest := htail.bound count name
      have hfirst := hnames name
      simp only [List.take_succ_cons, boundIn_cons, List.mem_append] at hrest hfirst ⊢
      rw [← or_assoc, ← or_assoc, hfirst]
      exact hrest

/-- A statement that stays introduces a name, if it is a `:=`. -/
theorem kept (htail : KeepsDefinitions (declared ++ boundNames stmt) stmts stmts')
    (hnew : ∀ left right, stmt.kind = .assign left .define right →
      ∃ name ∈ boundNames stmt, name ∉ declared) :
    KeepsDefinitions declared (stmt :: stmts) (stmt :: stmts') :=
  ⟨⟨hnew, htail.introduces⟩, .kept htail.lowered, htail.bound_cons fun _ => Iff.rfl⟩

/-- An assignment binds nothing, and all that it assigns to is bound without it. -/
theorem assigned {left right : List Expr} {decs : Decorations}
    (htail : KeepsDefinitions (declared ++ boundNames ⟨.assign left .define right, decs⟩)
      stmts stmts')
    (hidents : ∀ operand ∈ left, operand.ident?.isSome)
    (hold : ∀ name ∈ boundNames ⟨.assign left .define right, decs⟩, name ∈ declared) :
    KeepsDefinitions declared (⟨.assign left .define right, decs⟩ :: stmts)
      (⟨.assign left .assign right, decs⟩ :: stmts') := by
  have hnames : ∀ name, name ∈ declared ++ boundNames ⟨.assign left .assign right, decs⟩ ↔
      name ∈ declared ++ boundNames ⟨.assign left .define right, decs⟩ := by
    intro name
    simp only [List.mem_append]
    exact ⟨fun h => .inl (h.elim id (by simp [boundNames])), fun h => .inl (h.elim id (hold name))⟩
  have hkind : ∀ left' right' : List Expr,
      StmtKind.assign left .assign right ≠ .assign left' .define right' := by simp
  refine ⟨⟨fun left' right' h => absurd h (hkind left' right'), ?_⟩, .assigned ?_ htail.lowered,
    htail.bound_cons hnames⟩
  · exact htail.introduces.congr fun name => (hnames name).symm
  · intro operand hmem
    obtain ⟨ident, hident⟩ := Option.isSome_iff_exists.1 (hidents operand hmem)
    refine ⟨ident, hident, ?_⟩
    by_cases hblank : ident.isBlank
    · exact .inl hblank
    · refine .inr (hold ident.name ?_)
      simp only [boundNames, List.mem_map, List.mem_filter, List.mem_filterMap]
      exact ⟨ident, ⟨⟨operand, hmem, hident⟩, by simpa using hblank⟩, rfl⟩

end KeepsDefinitions

/-! ## Lowering -/

/-- The names that a statement is compared by are those that it binds. -/
theorem BindsNames.cases {stmt : Stmt} (h : BindsNames stmt) :
    (definedNames? stmt = none ∧ boundNames stmt = [] ∧
      ∀ left right, stmt.kind ≠ .assign left .define right) ∨
    ∃ left right decs, stmt = ⟨.assign left .define right, decs⟩ ∧
      definedNames? stmt = some (boundNames stmt) := by
  obtain ⟨kind, decs⟩ := stmt
  by_cases hdefine : ∃ left right, kind = .assign left .define right
  · obtain ⟨left, right, rfl⟩ := hdefine
    have hall : left.all (·.ident?.isSome) = true := by
      simpa using h.idents left right rfl
    exact .inr ⟨left, right, decs, rfl, by simp only [definedNames?, hall, if_true, boundNames]⟩
  · refine .inl ⟨?_, ?_, fun left right hkind => hdefine ⟨left, right, hkind⟩⟩
    · unfold definedNames?
      split
      · next left right hkind => exact absurd ⟨left, right, hkind⟩ hdefine
      · rfl
    · unfold boundNames
      split
      · next left right hkind => exact absurd ⟨left, right, hkind⟩ hdefine
      · rfl

/--
Behind any names that have come in front of a list of statements, every `:=` that is left
introduces one that is bound neither by them nor by a `:=` in front of it; the others have
become assignments of names that are, and nothing else has changed; every prefix binds what
it bound before, besides the names in front.  The list itself may repeat names, as long as
every `:=` of it is of names, not all of them blank.
-/
theorem lowerRedeclarations_keepsDefinitions (declared : List String) {stmts : List Stmt}
    (hnames : ∀ stmt ∈ stmts, BindsNames stmt) :
    KeepsDefinitions declared stmts (lowerRedeclarations declared stmts) := by
  induction stmts generalizing declared with
  | nil => exact .nil
  | cons stmt stmts ih =>
      have htail : KeepsDefinitions (declared ++ boundNames stmt) stmts
          (lowerRedeclarations (declared ++ boundNames stmt) stmts) :=
        ih _ fun other hmem => hnames other (.tail _ hmem)
      have hown : BindsNames stmt := hnames stmt (by simp)
      unfold lowerRedeclarations
      obtain ⟨hdefined, hbound, hkind⟩ | ⟨left, right, decs, rfl, hdefined⟩ := hown.cases
      · rw [hbound, List.append_nil] at htail
        rw [hdefined]
        refine .kept (by simpa only [hbound, List.append_nil] using htail) ?_
        exact fun left right hassign => absurd hassign (hkind left right)
      · rw [hdefined]
        dsimp only
        split
        · next hlower =>
          have hold := (Bool.and_eq_true_iff.1 hlower).2
          exact htail.assigned (hown.idents left right rfl) (by simpa using hold)
        · next hnew =>
          refine htail.kept fun _ _ _ => ?_
          simpa [hown.nonempty left right rfl] using hnew

/-- The error of three calls, one of them with a result of its own, and another variable. -/
def repeatedErrors : List Stmt :=
  [.define [.ident "err"] [.call (.ident "run") []],
   .define [.ident "n", .ident "err"] [.call (.ident "count") []],
   .define [.ident "_", .ident "err"] [.call (.ident "load") []],
   .define [.ident "m"] [.literal "2"]]

theorem lowerRedeclarations_keepsDefinitions_repeatedErrors :
    (∀ stmt ∈ repeatedErrors, BindsNames stmt) ∧
      KeepsDefinitions ["NewRelicAgent", "err"] repeatedErrors
        (lowerRedeclarations ["NewRelicAgent", "err"] repeatedErrors) := by
  have hnames : ∀ stmt ∈ repeatedErrors, BindsNames stmt := by
    intro stmt hmem
    simp only [repeatedErrors, List.mem_cons, List.not_mem_nil, or_false] at hmem
    obtain rfl | rfl | rfl | rfl := hmem
    all_goals
      refine ⟨fun left right hkind => ?_, fun left right hkind => by decide⟩
      cases hkind
      decide
  exact ⟨hnames, lowerRedeclarations_keepsDefinitions _ hnames⟩

end TraceWeave.Detect
