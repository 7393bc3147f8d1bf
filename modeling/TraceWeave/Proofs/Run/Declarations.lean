import TraceWeave.Proofs.Tracing.Turns

/-!
Declarations in the entry function.

In a block of Go, a `:=` introduces at least one new name and a `var` repeats none.  The
set-up of the agent puts two declarations in front of the statements of the entry function
and makes assignments of the `:=` that would introduce nothing behind them.  It goes by the
names that `:=` declares, so that the rule is kept where no `var` declares them too
(`setUpAgent_declares`).
-/

namespace TraceWeave.Tracing

open TraceWeave.Agent TraceWeave.Detect TraceWeave.Program TraceWeave.Syntax

/-! ## Go's rule -/

def variablesOf (specs : List Spec) : List String :=
  specs.flatMap fun spec =>
    match spec with
    | .value names _ _ false => (names.filter (!·.isBlank)).map (·.name)
    | _ => []

/-- The names that a statement declares in the block that it stands in. -/
def declaredNames : StmtKind → List String
  | .assign left .define _ => ((left.filterMap Expr.ident?).filter (!·.isBlank)).map (·.name)
  | .labeled _ ⟨kind, _⟩ => declaredNames kind
  | .decl ⟨_, specs⟩ => variablesOf specs
  | _ => []

/-- The statement may stand where the names are declared. -/
def Admissible (declared : List String) : StmtKind → Prop
  | .assign left .define right =>
      ∃ name ∈ declaredNames (.assign left .define right), name ∉ declared
  | .labeled _ ⟨kind, _⟩ => Admissible declared kind
  | .decl ⟨_, specs⟩ => (variablesOf specs).Nodup ∧ ∀ name ∈ variablesOf specs, name ∉ declared
  | _ => True

/-- The statements of a block follow the rule behind the names. -/
def DeclaresBehind : (declared : List String) → List Stmt → Prop
  | _, [] => True
  | declared, stmt :: stmts =>
      Admissible declared stmt.kind ∧ DeclaresBehind (declared ++ declaredNames stmt.kind) stmts

/-- What a statement declares otherwise than by a `:=` of names. -/
def otherNames (stmt : Stmt) : List String :=
  match definedNames? stmt with
  | some _ => []
  | none => declaredNames stmt.kind

/-- What the block declares otherwise is among the names, and no `:=` is about one of them. -/
structure DeclaresApart (others : List String) (stmts : List Stmt) : Prop where
  own : ∀ stmt ∈ stmts, ∀ name ∈ otherNames stmt, name ∈ others
  defined : ∀ stmt ∈ stmts, ∀ names ∈ definedNames? stmt, ∀ name ∈ others, name ∉ names

theorem DeclaresApart.tail {others : List String} {stmt : Stmt} {stmts : List Stmt}
    (h : DeclaresApart others (stmt :: stmts)) : DeclaresApart others stmts :=
  ⟨fun other hmem => h.own other (.tail _ hmem), fun other hmem => h.defined other (.tail _ hmem)⟩

/-! ## Statements -/

theorem eq_define_of_definedNames? {stmt : Stmt} {names : List String}
    (h : definedNames? stmt = some names) :
    ∃ left right, stmt.kind = .assign left .define right ∧ declaredNames stmt.kind = names := by
  obtain ⟨kind, decs⟩ := stmt
  unfold definedNames? at h
  split at h
  · next left right hkind =>
    split at h
    · obtain rfl : kind = _ := hkind
      exact ⟨left, right, rfl, Option.some.inj h⟩
    · contradiction
  · contradiction

/-- Names that no declaration of the statement is about may come and go in front of it. -/
theorem Admissible.of_subset {declared declared' : List String} :
    ∀ {kind : StmtKind}, Admissible declared kind →
      (∀ name ∈ declaredNames kind, name ∈ declared' → name ∈ declared) → Admissible declared' kind
  | .assign _ .define _, ⟨name, hmem, hnew⟩, hsubset =>
      ⟨name, hmem, fun hold => hnew (hsubset name hmem hold)⟩
  | .labeled _ ⟨kind, _⟩, h, hsubset =>
      have hinner : Admissible declared kind := h
      @Admissible.of_subset _ _ kind hinner hsubset
  | .decl ⟨_, _⟩, ⟨hnodup, hnew⟩, hsubset =>
      ⟨hnodup, fun name hmem hold => hnew name hmem (hsubset name hmem hold)⟩
  | .assign _ .assign _, _, _ => trivial
  | .expr _, _, _ => trivial
  | .spawn _, _, _ => trivial
  | .defer _, _, _ => trivial
  | .ret _, _, _ => trivial
  | .cond _ _ _ _, _, _ => trivial
  | .loop _ _, _, _ => trivial
  | .switch _ _ _, _, _ => trivial
  | .select _ _, _, _ => trivial
  | .block _, _, _ => trivial
  | .verbatim _, _, _ => trivial

theorem declaresBehind_append {declared : List String} {front back : List Stmt} :
    DeclaresBehind declared (front ++ back) ↔ DeclaresBehind declared front ∧
      DeclaresBehind (declared ++ front.flatMap fun stmt => declaredNames stmt.kind) back := by
  induction front generalizing declared with
  | nil => simp [DeclaresBehind]
  | cons stmt front ih =>
      simp only [List.cons_append, DeclaresBehind, ih, List.flatMap_cons, List.append_assoc,
        and_assoc]

/-! ## Redeclarations -/

/--
Inside a block that the names `added` have come in front of: its statements have declared
the names `seen` before, a `:=` is compared with the names `lowered`, and what is declared
now is `declared`.
-/
structure Lowering (added others seen lowered declared : List String) : Prop where
  seen : ∀ name ∈ declared, name ∈ added ∨ name ∈ seen
  lowered : ∀ name ∈ declared, name ∈ lowered ∨ name ∈ others

namespace Lowering

variable {added others seen lowered declared : List String}

theorem refl : Lowering added others [] added added :=
  ⟨fun _ hmem => .inl hmem, fun _ hmem => .inl hmem⟩

/-- Only some of the names that came in front are declared. -/
theorem of_subset (h : Lowering added others seen lowered declared) {declared' : List String}
    (hsubset : declared' ⊆ declared) : Lowering added others seen lowered declared' :=
  ⟨fun name hmem => h.seen name (hsubset hmem), fun name hmem => h.lowered name (hsubset hmem)⟩

theorem other (h : Lowering added others seen lowered declared) {names : List String}
    (hnames : names ⊆ others) :
    Lowering added others (seen ++ names) lowered (declared ++ names) := by
  constructor
  · intro name hmem
    obtain hmem | hmem := List.mem_append.1 hmem
    · exact (h.seen name hmem).imp_right (List.mem_append_left _)
    · exact .inr (List.mem_append_right _ hmem)
  · intro name hmem
    obtain hmem | hmem := List.mem_append.1 hmem
    · exact h.lowered name hmem
    · exact .inr (hnames hmem)

theorem define (h : Lowering added others seen lowered declared) (names : List String) :
    Lowering added others (seen ++ names) (lowered ++ names) (declared ++ names) := by
  constructor
  · intro name hmem
    obtain hmem | hmem := List.mem_append.1 hmem
    · exact (h.seen name hmem).imp_right (List.mem_append_left _)
    · exact .inr (List.mem_append_right _ hmem)
  · intro name hmem
    obtain hmem | hmem := List.mem_append.1 hmem
    · exact (h.lowered name hmem).imp_left (List.mem_append_left _)
    · exact .inl (List.mem_append_right _ hmem)

end Lowering

theorem declaresBehind_lowerRedeclarations {added others : List String} {stmts : List Stmt}
    (hadded : ∀ name ∈ others, name ∉ added) {seen lowered declared : List String}
    (hrule : DeclaresBehind seen stmts) (hapart : DeclaresApart others stmts)
    (hlowering : Lowering added others seen lowered declared) :
    DeclaresBehind declared (lowerRedeclarations lowered stmts) := by
  induction stmts generalizing seen lowered declared with
  | nil => trivial
  | cons stmt stmts ih =>
      obtain ⟨hadmissible, hrest⟩ := hrule
      unfold lowerRedeclarations
      cases hnames : definedNames? stmt with
      | none =>
          have hown : declaredNames stmt.kind ⊆ others := fun name hmem =>
            hapart.own stmt (by simp) name (by simpa [otherNames, hnames] using hmem)
          refine ⟨?_, ih hrest hapart.tail (hlowering.other hown)⟩
          exact hadmissible.of_subset fun name hmem hold =>
            (hlowering.seen name hold).resolve_left (hadded name (hown hmem))
      | some names =>
          obtain ⟨left, right, hkind, hdeclared⟩ := eq_define_of_definedNames? hnames
          have hlater := hlowering.define names
          rw [hdeclared] at hrest
          dsimp only
          split
          · -- an assignment declares nothing, since all its names are declared
            have hassign : (assignOnly stmt).kind = .assign left .assign right := by
              simp [assignOnly, hkind]
            rw [DeclaresBehind, hassign]
            refine ⟨trivial, ih hrest hapart.tail (hlater.of_subset ?_)⟩
            simp [declaredNames]
          · next hnew =>
            rw [hkind, Admissible, ← hkind, hdeclared] at hadmissible
            obtain ⟨first, hfirst, -⟩ := hadmissible
            obtain ⟨name, hmem, hfresh⟩ : ∃ name ∈ names, name ∉ lowered := by
              simpa [List.ne_nil_of_mem hfirst] using hnew
            rw [DeclaresBehind, hdeclared]
            refine ⟨?_, ih hrest hapart.tail hlater⟩
            rw [hkind, Admissible, ← hkind, hdeclared]
            refine ⟨name, hmem, fun hold => ?_⟩
            obtain hold | hold := hlowering.lowered name hold
            · exact hfresh hold
            · exact hapart.defined stmt (by simp) names hnames name hold hmem

/-! ## The set-up of the agent -/

theorem declaredNames_agents (agent : String) (right : List Expr) :
    declaredNames (.assign [.ident agent, .ident "err"] .define right) =
      [agent, "err"].filter (· != "_") := by
  show (([{ name := agent }, { name := "err" }] : List Ident).filter (!·.isBlank)).map (·.name) = _
  by_cases hagent : agent = "_"
  · subst hagent
    rfl
  · simp [Ident.isBlank, hagent]

theorem SetsUp.declares {agent appName : String} {others : List String} {stmts stmts' : List Stmt}
    (h : SetsUp agent appName stmts stmts') (hrule : DeclaresBehind [] stmts)
    (hapart : DeclaresApart others stmts) (hagent : agent ∉ others)
    (herr : "err" ∉ others) : DeclaresBehind [] stmts' := by
  cases h with
  | existing => exact hrule
  | fresh =>
      have hadded : ∀ name ∈ others, name ∉ [agent, "err"] := by
        intro name hmem hname
        rcases List.mem_cons.1 hname with rfl | hname
        · exact hagent hmem
        · exact herr (List.mem_singleton.1 hname ▸ hmem)
      have hinit : DeclaresBehind [] (agentInit agent appName) := by
        refine ⟨⟨"err", ?_, by simp⟩, trivial, trivial⟩
        rw [declaredNames_agents]
        simp
      have hnames : ((agentInit agent appName).flatMap fun stmt => declaredNames stmt.kind) ⊆
          [agent, "err"] := by
        have hsingle : ((agentInit agent appName).flatMap fun stmt => declaredNames stmt.kind) =
            [agent, "err"].filter (· != "_") ++ [] := by
          rw [← declaredNames_agents agent]
          rfl
        rw [hsingle, List.append_nil]
        exact List.filter_subset_self _
      have hstop : ∀ declared, DeclaresBehind declared [agentShutdown agent] :=
        fun _ => ⟨trivial, trivial⟩
      rw [declaresBehind_append, declaresBehind_append]
      refine ⟨⟨hinit, ?_⟩, hstop _⟩
      exact declaresBehind_lowerRedeclarations hadded hrule hapart (Lowering.refl.of_subset hnames)

/--
The top block of an entry function follows the rule behind the set-up of the agent, if it
did so before, and if no name of the set-up or of a `:=` is declared by a `var`.
-/
theorem setUpAgent_declares (ref : FuncRef) (body : Block) (app : Application)
    {others : List String} (hrule : DeclaresBehind [] body.stmts)
    (hapart : DeclaresApart others body.stmts) (hagent : app.agent ∉ others)
    (herr : "err" ∉ others) :
    Weave.wp (setUpAgent ref body) (fun result _ => DeclaresBehind [] result.1.stmts) app := by
  refine (setUpAgent_setsUp ref body app).mono ?_
  rintro ⟨_, _⟩ app' ⟨⟨stmts, rfl, hsetsUp⟩, -⟩
  exact hsetsUp.declares hrule hapart hagent herr

/-- An entry function that binds an error twice and has a variable. -/
def failingBody : Block where
  stmts :=
    [.define [.ident "err"] [.call (.ident "open") []],
     { kind := .decl ⟨"var n = 1", [.value [{ name := "n" }] none [.literal "1"] false]⟩ },
     .define [.ident "size", .ident "err"] [.call (.ident "read") []]]

theorem setUpAgent_declares_failingBody :
    let app := Application.ofPackages [] {} "NewRelicAgent" ""
    DeclaresBehind [] failingBody.stmts ∧ DeclaresApart ["n"] failingBody.stmts ∧
      app.agent ∉ ["n"] ∧ "err" ∉ ["n"] ∧
      Weave.wp (setUpAgent ⟨"main", "main"⟩ failingBody)
        (fun result _ => DeclaresBehind [] result.1.stmts) app := by
  have hrule : DeclaresBehind [] failingBody.stmts := by
    exact ⟨⟨"err", by decide, by decide⟩, ⟨by decide, by decide⟩,
      ⟨"size", by decide, by decide⟩, trivial⟩
  have hapart : DeclaresApart ["n"] failingBody.stmts := ⟨by decide, by decide⟩
  refine ⟨hrule, hapart, by decide, by decide, ?_⟩
  exact setUpAgent_declares _ _ _ hrule hapart (by decide) (by decide)

end TraceWeave.Tracing
