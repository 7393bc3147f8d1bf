import TraceWeave.Proofs.Run.Signatures
import TraceWeave.Proofs.Syntax.Visits
import TraceWeave.Proofs.Tracing.Alignment

/-!
Calls and signatures across a whole run.

If the calls of an application supply what the functions of the application take, then
the calls that edits reach still do so behind a run: an argument has come for each
parameter that has.
-/

namespace TraceWeave.Program

open TraceWeave.Agent TraceWeave.Detect TraceWeave.Order TraceWeave.Source TraceWeave.Syntax
  TraceWeave.Tracing TraceWeave.Types

/-! ## Arities of extended functions -/

/-- Packages under test go by the paths that their names are resolved under. -/
def Application.GoesByPath (app : Application) : Prop :=
  ∀ id package, app.package? id = some package → package.test = false → package.path = id

theorem goesByPath_of_outline {app app' : Application} (h : app'.outline = app.outline)
    (hpath : app.GoesByPath) : app'.GoesByPath := by
  intro id package' hpackage' htest
  have hsame := package?_of_outline h id
  rw [hpackage'] at hsame
  obtain ⟨package, hpackage, houtline⟩ := Option.map_eq_some_iff.1 hsame.symm
  have hpath' : package.outline.path = package'.outline.path := congrArg Package.path houtline
  have htest' : package.outline.test = package'.outline.test := congrArg Package.test houtline
  exact hpath'.symm.trans (hpath id package hpackage (htest'.trans htest))

theorem lookup_filterMap {α κ β : Type} [BEq κ] [LawfulBEq κ] {f : α → Option (κ × β)} {key : κ}
    {value : β} {list : List α} (hmem : ∃ a ∈ list, f a = some (key, value))
    (hsame : ∀ a ∈ list, ∀ other, f a = some (key, other) → other = value) :
    (list.filterMap f).lookup key = some value := by
  induction list with
  | nil => simp at hmem
  | cons a list ih =>
      have hrest := fun b hb => hsame b (List.mem_cons_of_mem a hb)
      cases ha : f a with
      | none =>
          rw [List.filterMap_cons_none ha]
          obtain ⟨b, hb, hvalue⟩ := hmem
          obtain rfl | hb := List.mem_cons.1 hb
          · simp [ha] at hvalue
          · exact ih ⟨b, hb, hvalue⟩ hrest
      | some entry =>
          obtain ⟨other, found⟩ := entry
          rw [List.filterMap_cons_some ha, List.lookup_cons]
          by_cases hkey : key = other
          · subst hkey
            simp [hsame a (by simp) found ha]
          · rw [beq_false_of_ne hkey]
            obtain ⟨b, hb, hvalue⟩ := hmem
            obtain rfl | hb := List.mem_cons.1 hb
            · simp_all
            · exact ih ⟨b, hb, hvalue⟩ hrest

/-- What holds of the functions that a run has extended. -/
structure ExtendsPlain (app : Application) : Prop where
  coherent : app.Coherent
  goesByPath : app.GoesByPath
  notTest : ∀ ref ∈ app.extended, ∀ package, app.package? ref.package = some package →
    package.test = false
  noContext : ∀ ref ∈ app.extended, ∀ params, (app.func? ref).map (·.params) = some params →
    findParam? (paramsOf app.types params) contextTy = none
  notVariadic : ∀ ref ∈ app.extended, ∀ params, (app.func? ref).map (·.params) = some params →
    params.isVariadic = false

namespace ExtendsPlain

variable {app : Application}

theorem path_eq (h : ExtendsPlain app) {ref : FuncRef} (hmem : ref ∈ app.extended)
    {package : Package} (hpackage : app.package? ref.package = some package) :
    package.path = ref.package :=
  h.goesByPath ref.package package hpackage (h.notTest ref hmem package hpackage)

theorem lookup_arities (h : ExtendsPlain app) {ref : FuncRef} (hmem : ref ∈ app.extended)
    {params : FieldList} (hparams : (app.func? ref).map (·.params) = some params) :
    (extendedArities app).lookup (ref.package, ref.key) = some params.arity := by
  obtain ⟨func, hfunc, rfl⟩ := Option.map_eq_some_iff.1 hparams
  unfold extendedArities
  refine lookup_filterMap ⟨ref, by simpa using hmem, ?_⟩ ?_
  · unfold Application.func? at hfunc
    obtain ⟨package, hpackage, hfunc⟩ := Option.bind_eq_some_iff.1 hfunc
    simp [hpackage, hfunc, h.path_eq hmem hpackage]
  · intro other hother arity harity
    have hother := List.mem_reverse.1 hother
    obtain ⟨package, hpackage, harity⟩ := Option.bind_eq_some_iff.1 harity
    obtain ⟨found, hfound, harity⟩ := Option.map_eq_some_iff.1 harity
    simp only [Prod.mk.injEq] at harity
    obtain ⟨⟨hpath, hkey⟩, rfl⟩ := harity
    rw [h.path_eq hother hpackage] at hpath
    -- package and key tell the function
    obtain ⟨id, key⟩ := ref
    obtain ⟨otherId, otherKey⟩ := other
    obtain rfl : otherId = id := hpath
    obtain rfl : otherKey = key := hkey
    have hsame : app.func? ⟨otherId, otherKey⟩ = some found := by
      simp [Application.func?, hpackage, hfound]
    rw [Option.some.inj (hfunc.symm.trans hsame)]

/-- Whatever is looked up belongs to a package of the application. -/
theorem package?_of_lookup (h : ExtendsPlain app) {path key : String} {arity : Nat}
    (hlookup : (extendedArities app).lookup (path, key) = some arity) :
    (app.package? path).isSome = true := by
  obtain ⟨front, back, hentries, -⟩ := List.lookup_eq_some_iff.1 hlookup
  have hmem : ((path, key), arity) ∈ extendedArities app := by simp [hentries]
  obtain ⟨ref, href, hentry⟩ := List.mem_filterMap.1 hmem
  obtain ⟨package, hpackage, hentry⟩ := Option.bind_eq_some_iff.1 hentry
  obtain ⟨func, -, hentry⟩ := Option.map_eq_some_iff.1 hentry
  simp only [Prod.mk.injEq] at hentry
  rw [h.path_eq (List.mem_reverse.1 href) hpackage] at hentry
  rw [← hentry.1.1, hpackage]
  rfl

end ExtendsPlain

/-! ## Completed calls -/

/-- A call that edits reach supplies an argument for each parameter of an extended function. -/
def Complete (app : Application) : CallTest := fun reached call =>
  reached = true → call.isWritten = true → app.types.hidesCount call = false →
    ∀ ref ∈ app.extended, app.resolve? call = some ref →
      ∀ params, (app.func? ref).map (·.params) = some params → call.args.length = params.arity

/-- A call that lacks its last argument gets it. -/
def fillsLack (info : Info) (arities : List ((String × String) × Nat)) : Visits Nat :=
  fun before after => ∃ call decs, lacksTransaction info arities call = true ∧
    before.1 = ⟨.call call, decs⟩ ∧ after.1 = ⟨.call (call.addArg .nil), decs⟩

theorem fixCall_fillsLack (info : Info) (arities : List ((String × String) × Nat)) :
    (Edits.calls true (fixCall info arities)).Follows (.ofStateM Nat) (fillsLack info arities) := by
  constructor
  · intro call decs count
    simp only [Edits.calls, Threaded.ofStateM, fixCall]
    split
    · next hlacks => exact .inl ⟨call, decs, hlacks, rfl, rfl⟩
    · exact .inr rfl
  · exact fun ident decs count => .inr rfl

theorem spreadsResults_of_hidesCount {info : Info} {call : Call}
    (h : info.hidesCount call = false) : spreadsResults info call = false := by
  unfold Info.hidesCount at h
  unfold spreadsResults
  split
  · next arg harg =>
    rw [harg] at h
    exact (Bool.or_eq_false_iff.1 h).2
  · rfl

section

variable {app : Application} (hplain : ExtendsPlain app) (hapart : Apart app)

include hplain hapart

theorem alike_of_lacks {call : Call}
    (hlacks : lacksTransaction app.types (extendedArities app) call = true) (decs : Decorations) :
    app.types.Alike ⟨.call call, decs⟩ ⟨.call (call.addArg .nil), decs⟩ := by
  unfold lacksTransaction at hlacks
  simp only [Bool.and_eq_true, Option.any_eq_true, Option.bind_eq_some_iff] at hlacks
  obtain ⟨-, arity, ⟨callee, hcallee, hlookup⟩, -⟩ := hlacks
  have hpackage := hplain.package?_of_lookup hlookup
  have hne : callee.package ≠ "" := by
    intro hempty
    rw [hempty, hapart "" (by simp [libraries])] at hpackage
    contradiction
  exact .call (Info.resultsOf_args rfl hcallee hne)

theorem alike_edit (expr : Expr) (count : Nat) :
    app.types.Alike expr
      (expr.edit (Edits.calls true (fixCall app.types (extendedArities app))) count).1 := by
  have hsteps := expr.edit_steps (fixCall_fillsLack app.types (extendedArities app)) count
  have hlift : ∀ after, Steps (Expr.Rewrites true) (fillsLack app.types (extendedArities app))
      (expr, count) after → app.types.Alike expr after.1 := by
    intro after steps
    induction steps with
    | refl => exact .refl
    | tail _ hstep ih =>
        obtain ⟨part, part', ⟨call, decs, hlacks, rfl, rfl⟩, hrewrite⟩ := hstep
        exact ih.trans (Info.alike_of_rewrites (alike_of_lacks hplain hapart hlacks decs) hrewrite)
  exact hlift _ hsteps

theorem alike_editExprs (exprs : List Expr) (count : Nat) :
    List.Forall₂ app.types.Alike exprs
      (editExprs (Edits.calls true (fixCall app.types (extendedArities app))) exprs count).1 := by
  induction exprs generalizing count with
  | nil => exact .nil
  | cons expr exprs ih => exact .cons (alike_edit hplain hapart expr count) (ih _)

omit hapart in
/-- A call that was aligned is complete behind its visit. -/
theorem complete_fixCall {call : Call} (haligned : Aligned app true call) (count : Nat) :
    Complete app true (fixCall app.types (extendedArities app) call count).1 := by
  -- what the visit knows of a call of an extended function
  have hlookup : ∀ {ref : FuncRef} {params : FieldList}, ref ∈ app.extended →
      app.resolve? call = some ref → (app.func? ref).map (·.params) = some params →
        ((app.types.callee? call).bind fun callee => (extendedArities app).lookup
          (callee.package, Application.calleeKey callee)) = some params.arity := by
    intro ref params href hresolve hparams
    have harity := hplain.lookup_arities href hparams
    obtain ⟨callee, hcallee, hfound⟩ := Option.bind_eq_some_iff.1 hresolve
    obtain ⟨id, hid, hfound⟩ := List.exists_of_findSome?_eq_some hfound
    obtain rfl : id = callee.package := by simpa using hid
    obtain ⟨package, hpackage, hfound⟩ := Option.bind_eq_some_iff.1 hfound
    have hpackageId := hplain.coherent.ids _ (Table.mem_of_get? hpackage)
    split at hfound
    · obtain rfl := Option.some.inj hfound
      rw [hcallee, Option.bind_some, ← harity]
      exact congrArg (fun id => (extendedArities app).lookup (id, _)) hpackageId.symm
    · contradiction
  have hsupplies : ∀ {ref : FuncRef} {params : FieldList}, ref ∈ app.extended →
      call.isWritten = true → app.types.hidesCount call = false → app.resolve? call = some ref →
        (app.func? ref).map (·.params) = some params →
          Supplies (ref ∈ app.extended) true params.arity call.args.length :=
    fun href hwritten hcount hresolve hparams => haligned hwritten hcount _ _ hresolve hparams
      (hplain.noContext _ href _ hparams) (hplain.notVariadic _ href _ hparams)
  unfold fixCall
  split
  · next hlacks =>
    intro _ hwritten hcount ref href hresolve params hparams
    have hbefore := hlookup href hresolve hparams
    unfold lacksTransaction at hlacks
    simp only [hbefore, Option.any_some, Bool.and_eq_true, beq_iff_eq] at hlacks
    exact (call.length_addArg .nil).trans hlacks.2
  · next hlacks =>
    intro _ hwritten hcount ref href hresolve params hparams
    have hsupply := hsupplies href hwritten hcount hresolve hparams
    have hspread : call.spread = false := (Bool.or_eq_false_iff.1 hcount).1
    have hshort : call.args.length + 1 ≠ params.arity := by
      intro heq
      have hresults : spreadsResults app.types call = false := spreadsResults_of_hidesCount hcount
      have hfound := hlookup href hresolve hparams
      apply hlacks
      simp [lacksTransaction, hspread, hresults, hfound, heq]
    cases hsupply with
    | plain hnot _ => contradiction
    | short _ heq => contradiction
    | complete _ _ heq => exact heq

theorem fixCall_brings :
    (Edits.calls true (fixCall app.types (extendedArities app))).Brings (.ofStateM Nat)
      (Aligned app) (Complete app) := by
  constructor
  · rfl
  · intro call _ hreached
    contradiction
  · intro callee args spread closesLine count count' count'' haligned callee' args' call' hcallee hargs
    have haligned' : Aligned app true ⟨callee', args', spread, closesLine⟩ :=
      haligned.alike (alike_edit hplain hapart callee count) (alike_editExprs hplain hapart args count')
    have hcall : Complete app true call' := complete_fixCall hplain haligned' count''
    refine ⟨hcall, ?_⟩
    show Holds _ ((fixCall _ _ _ count'').1.callee.calls true) ∧
      Holds _ (callsOfExprs true (fixCall _ _ _ count'').1.args)
    unfold fixCall
    split
    · exact ⟨hcallee, Call.holds_addArg hargs .nil⟩
    · exact ⟨hcallee, hargs⟩

end

/-! ## Bodies behind the completion of calls -/

/-- What the completion of calls makes of a function of a file. -/
inductive FixedIn (info : Info) (arities : List ((String × String) × Nat)) (generated : Bool) :
    FuncDecl → FuncDecl → Prop where
  | kept {func : FuncDecl} :
      generated = true ∨ func.body = none → FixedIn info arities generated func func
  | edited {func : FuncDecl} {body : Block} (count : Nat) :
      generated = false → func.body = some body →
      FixedIn info arities generated func { func with
        body := some { body with
          stmts := (editStmts (Edits.calls true (fixCall info arities)) body.stmts count).1 } }

/-- The results of a computation that runs through a list. -/
theorem forall₂_mapM_run {σ α β : Type} (f : α → StateM σ β) (list : List α) (s : σ) :
    List.Forall₂ (fun a b => ∃ s, b = (f a s).1) list ((list.mapM f) s).1 :=
  forall₂_mapM (fun _ s => ⟨s, rfl⟩) list s

theorem lookup_forall₂ {α β : Type} {R : α → β → Prop} {entries : List (String × α)}
    {entries' : List (String × β)}
    (h : List.Forall₂ (fun entry entry' => entry'.1 = entry.1 ∧ R entry.2 entry'.2) entries entries')
    (key : String) : Option.Rel R (entries.lookup key) (entries'.lookup key) := by
  induction h with
  | nil => exact .none
  | @cons entry entry' entries entries' hentry _ ih =>
      obtain ⟨key', a⟩ := entry
      obtain ⟨key'', a'⟩ := entry'
      obtain ⟨rfl, hR⟩ := hentry
      rw [Table.lookup_cons_eq_ite, Table.lookup_cons_eq_ite]
      split
      · exact .some hR
      · exact ih

theorem func?_fixDecl {info : Info} {arities : List ((String × String) × Nat)} {decl : Decl}
    {count : Nat} {func' : FuncDecl} (h : (fixDecl info arities decl count).1.func? = some func') :
    ∃ func, decl.func? = some func ∧ FixedIn info arities false func func' := by
  match decl with
  | ⟨.func ⟨receiver, name, typeParams, params, results, some body⟩, decs⟩ =>
      refine ⟨_, rfl, ?_⟩
      obtain rfl := Option.some.inj h
      exact .edited count rfl rfl
  | ⟨.func ⟨receiver, name, typeParams, params, results, none⟩, decs⟩ =>
      refine ⟨_, rfl, ?_⟩
      obtain rfl := Option.some.inj h
      exact .kept (.inr rfl)
  | ⟨.imports imports, decs⟩ => contradiction
  | ⟨.gen group, decs⟩ => contradiction
  | ⟨.verbatim text, decs⟩ => contradiction

theorem func?_fixFile {info : Info} {arities : List ((String × String) × Nat)} {file : SourceFile}
    {count index : Nat} {func' : FuncDecl}
    (h : ((fixFile info arities file count).1.tree.decls[index]?).bind Decl.func? = some func') :
    ∃ func, (file.tree.decls[index]?).bind Decl.func? = some func ∧
      FixedIn info arities file.generated func func' := by
  unfold fixFile at h
  cases hgenerated : file.generated with
  | true =>
      rw [if_pos hgenerated] at h
      exact ⟨func', h, .kept (.inl rfl)⟩
  | false =>
      rw [if_neg (by simp [hgenerated])] at h
      have hdecl := getElem?_forall₂
        (forall₂_mapM_run (fixDecl info arities) file.tree.decls count) index
      obtain ⟨decl', hdecl', hfunc'⟩ := Option.bind_eq_some_iff.1 h
      have hdecl'' : ((file.tree.decls.mapM (fixDecl info arities)) count).1[index]? = some decl' :=
        hdecl'
      rw [hdecl''] at hdecl
      generalize file.tree.decls[index]? = decl at hdecl ⊢
      cases hdecl with
      | some hdecl =>
          obtain ⟨count, rfl⟩ := hdecl
          exact func?_fixDecl hfunc'

theorem declAt?_fixPackage {info : Info} {arities : List ((String × String) × Nat)}
    {package : Package} {count file decl : Nat} {func' : FuncDecl}
    (h : (fixPackage info arities package count).1.declAt? file decl = some func') :
    ∃ source func, package.files[file]? = some source ∧ package.declAt? file decl = some func ∧
      FixedIn info arities source.generated func func' := by
  have hfile := getElem?_forall₂ (forall₂_mapM_run (fixFile info arities) package.files count) file
  unfold Package.declAt? at h ⊢
  rw [Option.bind_assoc] at h ⊢
  obtain ⟨source', hsource', hfunc'⟩ := Option.bind_eq_some_iff.1 h
  have hsource'' : ((package.files.mapM (fixFile info arities)) count).1[file]? = some source' :=
    hsource'
  rw [hsource''] at hfile
  generalize package.files[file]? = source at hfile ⊢
  cases hfile with
  | @some source _ hsource =>
      obtain ⟨count, rfl⟩ := hsource
      obtain ⟨func, hfunc, hfixed⟩ := func?_fixFile hfunc'
      exact ⟨source, func, rfl, hfunc, hfixed⟩

theorem funcAt?_fixedIn (app : Application) (place : Place) {func' : FuncDecl}
    (h : (fixCallSites app).1.funcAt? place = some func') :
    ∃ file func, app.fileAt? place.package place.file = some file ∧ app.funcAt? place = some func ∧
      FixedIn app.types (extendedArities app) file.generated func func' := by
  have hpackage : Option.Rel
      (fun package package' => ∃ count, package' =
        (fixPackage app.types (extendedArities app) package count).1)
      (app.package? place.package) ((fixCallSites app).1.package? place.package) :=
    lookup_forall₂ (forall₂_mapM (fun entry count => ⟨rfl, count, rfl⟩) app.packages.entries 0) _
  unfold Application.funcAt? at h ⊢
  unfold Application.fileAt?
  obtain ⟨package', hpackage', hfunc'⟩ := Option.bind_eq_some_iff.1 h
  rw [hpackage'] at hpackage
  generalize app.package? place.package = package at hpackage ⊢
  cases hpackage with
  | some hpackage =>
      obtain ⟨count, rfl⟩ := hpackage
      exact declAt?_fixPackage hfunc'

theorem params_fixCallSites (app : Application) (ref : FuncRef) :
    ((fixCallSites app).1.func? ref).map (·.params) = (app.func? ref).map (·.params) := by
  rw [Application.func?_eq, Application.func?_eq, place?_of_outline (outline_fixCallSites app)]
  cases app.place? ref with
  | none => rfl
  | some place =>
      have hfunc := funcAt?_fixCallSites app place
      simp only [Option.bind_some]
      generalize app.funcAt? place = func at hfunc ⊢
      generalize (fixCallSites app).1.funcAt? place = func' at hfunc ⊢
      cases hfunc with
      | none => rfl
      | some hfunc => simp [hfunc.params_eq]

theorem complete_fixCallSites (app : Application) :
    Complete (fixCallSites app).1 = Complete app := by
  have houtline := outline_fixCallSites app
  funext reached call
  simp only [Complete, resolve?_of_outline houtline, types_of_outline houtline, params_fixCallSites]
  rfl

/-! ## Calls of generated files -/

theorem resolve?_forTest {app : Application} {call : Call} {ref : FuncRef}
    (h : app.resolve? call = some ref) (forTest : Option String) :
    app.resolve? call forTest = some ref := by
  obtain ⟨callee, hcallee, hfound⟩ := Option.bind_eq_some_iff.1 h
  unfold Application.resolve?
  simp only [hcallee, Option.bind_some]
  simp only [Option.toList_none, List.findSome?_cons, List.findSome?_nil] at hfound
  rw [List.findSome?_cons]
  split at hfound
  · exact hfound
  · contradiction

end TraceWeave.Program

namespace TraceWeave.Source

open TraceWeave.Order TraceWeave.Program TraceWeave.Syntax TraceWeave.Tracing

/-- Whatever the functions of a generated file call is pinned. -/
theorem Origin.mem_pinned (origin : Origin) {place : Place} {file : SourceFile} {func : FuncDecl}
    (hfile : origin.app.fileAt? place.package place.file = some file)
    (hgenerated : file.generated = true) (hfunc : origin.app.funcAt? place = some func)
    {call : Call} (hcall : call ∈ Application.callsOf func) {ref : FuncRef}
    (hresolve : origin.app.resolve? call = some ref) : ref ∈ origin.app.pinned := by
  obtain ⟨package, hpackage, hfile⟩ := Option.bind_eq_some_iff.1 hfile
  have hdeclared : func ∈ file.tree.funcs := by
    unfold Application.funcAt? Package.declAt? at hfunc
    simp only [hpackage, Option.bind_some, hfile] at hfunc
    obtain ⟨decl, hdecl, hfunc⟩ := Option.bind_eq_some_iff.1 hfunc
    exact List.mem_filterMap.2 ⟨decl, List.mem_of_getElem? hdecl, hfunc⟩
  have hvalue : package ∈ origin.app.packages.values :=
    List.mem_map.2 ⟨_, Table.mem_of_get? hpackage, rfl⟩
  have hcallee : ref ∈ origin.loaded.registerFunctions.generatedCallees package := by
    refine List.mem_flatMap.2 ⟨file, ?_, List.mem_filterMap.2 ⟨call, ?_, ?_⟩⟩
    · exact List.mem_filter.2 ⟨List.mem_of_getElem? hfile, hgenerated⟩
    · exact List.mem_flatMap.2 ⟨func, hdeclared, hcall⟩
    · exact resolve?_forTest hresolve _
  exact (mem_sortedDistinct ref _).2 (List.mem_flatMap.2 ⟨package, hvalue, hcallee⟩)

theorem Origin.goesByPath_app (origin : Origin) : origin.app.GoesByPath := by
  intro id package hpackage htest
  have hmem := Table.mem_of_get? hpackage
  rw [origin.app_packages] at hmem
  obtain ⟨⟨key, loaded⟩, hloaded, heq⟩ := List.mem_map.1 hmem
  obtain ⟨rfl, rfl⟩ := Prod.mk.inj heq
  obtain ⟨funcs, hfuncs⟩ := loaded.registerAll_eq
  rw [hfuncs] at htest ⊢
  obtain ⟨hid, group, files, hmade⟩ := origin.mem_loaded hloaded
  have hpath : ∀ package : Package, package = makePackage origin.module origin.root group files →
      package.test = false → package.path = package.id := by
    rintro _ rfl htest
    unfold makePackage at htest ⊢
    dsimp only at htest ⊢
    split at htest
    · contradiction
    · split at htest
      · contradiction
      · simp_all
  exact (hpath loaded hmade htest).trans hid

end TraceWeave.Source

namespace TraceWeave.Program

open TraceWeave.Agent TraceWeave.Detect TraceWeave.Order TraceWeave.Source TraceWeave.Syntax
  TraceWeave.Tracing TraceWeave.Types

/-! ## Runs -/

/-- A call supplies what the function that it aims at takes. -/
def Supplied (app : Application) : CallTest := fun _ call =>
  call.isWritten = true → app.types.hidesCount call = false → ∀ ref params,
    app.resolve? call = some ref → (app.func? ref).map (·.params) = some params →
      params.isVariadic = false → call.args.length = params.arity

/-- The calls of an application fit its functions, and none of its packages is a library. -/
structure WellCalled (app : Application) : Prop where
  apart : Apart app
  supplied : ∀ place body, (app.funcAt? place).bind (·.body) = some body →
    Holds (Supplied app) (callsOfStmts true body.stmts)

theorem WellCalled.consistent {origin : Origin} (h : WellCalled origin.app) :
    Consistent origin.app where
  placesDiffer := origin.coherent_app.placesDiffer
  apart := h.apart
  extendsTraced ref hmem := nomatch origin.app_extended ▸ hmem
  bodies place body hbody := by
    refine (h.supplied place body hbody).imp fun reached call hcall => ?_
    intro hwritten hcount ref params hresolve hparams _ hvariadic
    refine .plain (fun hmem => nomatch origin.app_extended ▸ hmem) ?_
    exact hcall hwritten hcount ref params hresolve hparams hvariadic

theorem extends_of_grows {origin : Origin} {app : Application} (h : Grows origin.app app)
    {ref : FuncRef} (hmem : ref ∈ app.extended) : Extends origin.app ref app :=
  (h.extended ref hmem).resolve_left fun hold => nomatch origin.app_extended ▸ hold

theorem extendsPlain_of_grows {origin : Origin} {app : Application} (h : Grows origin.app app) :
    ExtendsPlain app := by
  have hextends : ∀ ref ∈ app.extended, Extends origin.app ref app := fun _ => extends_of_grows h
  have hgrown : ∀ ref ∈ app.extended, ∀ params, (app.func? ref).map (·.params) = some params →
      ∃ list, Admits origin.app.types list ∧
        params = list.add (transactionParameter transactionVariable) := by
    intro ref hmem params hparams
    obtain ⟨func, -, hadmits, hadded⟩ := (hextends ref hmem).params
    exact ⟨func.params, hadmits, Option.some.inj (hparams.symm.trans hadded)⟩
  constructor
  · exact coherent_of_outline h.outline origin.coherent_app
  · exact goesByPath_of_outline h.outline origin.goesByPath_app
  · intro ref hmem package hpackage
    obtain ⟨func, hextensible, -⟩ := extensible_of_extends (hextends ref hmem)
    have hsame := package?_of_outline h.outline ref.package
    rw [hpackage] at hsame
    obtain ⟨before, hbefore, houtline⟩ := Option.map_eq_some_iff.1 hsame.symm
    have htest : before.outline.test = package.outline.test := congrArg Package.test houtline
    exact htest.symm.trans (hextensible.notTest before hbefore)
  · intro ref hmem params hparams
    obtain ⟨list, hadmits, rfl⟩ := hgrown ref hmem params hparams
    rw [types_of_outline h.outline, findParam?_add]
    exact hadmits.noContext
  · intro ref hmem params hparams
    obtain ⟨list, -, rfl⟩ := hgrown ref hmem params hparams
    exact isVariadic_add list transactionVariable

theorem funcAt?_eq_bind (app : Application) (place : Place) : app.funcAt? place =
    ((app.fileAt? place.package place.file).bind (·.tree.decls[place.decl]?)).bind Decl.func? := by
  unfold Application.funcAt? Application.fileAt? Package.declAt?
  cases app.package? place.package <;> rfl

theorem mem_funcs_of_funcAt? {app : Application} {place : Place} {func : FuncDecl}
    (h : app.funcAt? place = some func) :
    ∃ package ∈ app.packages.values, ∃ file ∈ package.files, func ∈ file.tree.funcs := by
  obtain ⟨package, hpackage, hdecl⟩ := Option.bind_eq_some_iff.1 h
  obtain ⟨decl, hdecl, hfunc⟩ := Option.bind_eq_some_iff.1 hdecl
  obtain ⟨file, hfile, hdecl⟩ := Option.bind_eq_some_iff.1 hdecl
  refine ⟨package, List.mem_map.2 ⟨_, Table.mem_of_get? hpackage, rfl⟩, file, ?_, ?_⟩
  · exact List.mem_of_getElem? hfile
  · exact List.mem_filterMap.2 ⟨decl, List.mem_of_getElem? hdecl, hfunc⟩

/-- Generated files stay as they are. -/
theorem generated_of_grows {app app' : Application} (h : Grows app app') {place : Place}
    {file : SourceFile} (hfile : app'.fileAt? place.package place.file = some file)
    (hgenerated : file.generated = true) :
    app.fileAt? place.package place.file = some file ∧ app.funcAt? place = app'.funcAt? place := by
  have hfrozen : app.isFrozen place.package place.file = true := by
    rw [← isFrozen_of_outline h.outline]
    unfold Application.isFrozen
    unfold Application.fileAt? at hfile
    cases hpackage : app'.package? place.package <;> simp_all
  have hsame := h.files place.package place.file hfrozen
  rw [funcAt?_eq_bind, funcAt?_eq_bind, ← hsame]
  exact ⟨hfile, rfl⟩

theorem run_turns (origin : Origin) : Turns origin.app (weave.run origin.app).2 :=
  ((Weave.wp_iff _ _ _).1 (weave_turns origin.coherent_app origin.app_entered)).1

/-- What tracing leaves short is completed behind it. -/
theorem run_completesCalls (origin : Origin) (h : WellCalled origin.app) (place : Place)
    (body : Block)
    (hbody : ((fixCallSites (weave.run origin.app).2).1.funcAt? place).bind (·.body) = some body) :
    Holds (Complete (fixCallSites (weave.run origin.app).2).1) (callsOfStmts true body.stmts) := by
  have hturns := run_turns origin
  generalize (weave.run origin.app).2 = app at hturns hbody ⊢
  have hgrows := hturns.grows origin.coherent_app.placesDiffer
  have hplain := extendsPlain_of_grows hgrows
  have hconsistent := hturns.consistent h.consistent
  rw [complete_fixCallSites]
  obtain ⟨func', hfunc', hbody'⟩ := Option.bind_eq_some_iff.1 hbody
  obtain ⟨file, func, hfile, hfunc, hfixed⟩ := funcAt?_fixedIn app place hfunc'
  cases hfixed with
  | kept hkept =>
      have hgenerated : file.generated = true := hkept.resolve_right (by simp [hbody'])
      obtain ⟨hfile', hsame⟩ := generated_of_grows hgrows hfile hgenerated
      refine (callsOfStmts_among body.stmts).imp fun reached call hamong => ?_
      intro hreached _ _ ref href hresolve
      have hcall : call ∈ Application.callsOf func' := by
        unfold Application.callsOf
        rw [hbody']
        exact hamong hreached
      rw [resolve?_of_outline hgrows.outline] at hresolve
      have hpinned := origin.mem_pinned hfile' hgenerated (hsame.trans hfunc) hcall hresolve
      obtain ⟨_, hextensible, -⟩ := extensible_of_extends (extends_of_grows hgrows href)
      exact absurd hpinned hextensible.notPinned
  | edited count hgenerated hold =>
      obtain rfl := Option.some.inj hbody'
      have haligned := hconsistent.bodies place _ (by rw [hfunc]; exact hold)
      exact editStmts_brings (fixCall_brings hplain hconsistent.apart) _ count haligned

/-! ## A program of two functions -/

/-- A function without parameters. -/
def plainFunc (name : Ident) (stmts : List Stmt) : Decl where
  kind := .func ⟨none, name, none, {}, none, some { stmts }⟩
  decs := .ownLine

def workCall : Call := { callee := { kind := .ident { name := "work", id := 2 } }, args := [] }

def pairFile : SourceFile where
  path := { parts := ["main.go"] }
  contents := ""
  baseline := ""
  tree :=
    { package := "main", packageDecs := {}, trailing := []
      decls := [plainFunc { name := "main", id := 1 } [.expr { kind := .call workCall }],
        plainFunc { name := "work", id := 3 } []] }
  generated := false

/-- A program whose first function calls the second. -/
def pairOrigin : Origin where
  module := "app"
  root := .here
  groups := [(packageKey pairFile, [pairFile])]
  types :=
    { objects := #[{ kind := .func, name := "work", package := "app", type := none }]
      uses := ({} : Std.HashMap Nat Nat).insert 2 0 }
  agent := "agent"
  appName := ""

theorem packages_pairOrigin : pairOrigin.app.packages.entries =
    [("app",
      { id := "app", path := "app", name := "main", dir := .here, files := [pairFile]
        funcs := ⟨[("main", { file := 0, decl := 0 }), ("work", { file := 0, decl := 1 })]⟩
        test := false })] := by
  rfl

theorem resolve?_workCall : pairOrigin.app.resolve? workCall = some ⟨"app", "work"⟩ := by
  have hcallee : pairOrigin.app.types.callee? workCall =
      some { package := "app", name := "work", receiver := none, signature := none } := by
    show pairOrigin.types.callee? workCall = _
    simp [Info.callee?, Info.object?, Info.objectId?, pairOrigin, workCall, Expr.unparen]
  rw [Application.resolve?, hcallee]
  rfl

theorem wellCalled_pairOrigin : WellCalled pairOrigin.app where
  apart := by
    intro path hmem
    simp [libraries] at hmem
    rcases hmem with rfl | rfl | rfl | rfl | rfl <;> rfl
  supplied := by
    have hfuncs : ∀ place func, pairOrigin.app.funcAt? place = some func →
        func ∈ pairFile.tree.funcs := by
      intro place func hfunc
      obtain ⟨package, hpackage, file, hfile, hmem⟩ := mem_funcs_of_funcAt? hfunc
      simp only [Table.values, packages_pairOrigin, List.map_cons, List.map_nil,
        List.mem_singleton] at hpackage
      subst hpackage
      rwa [List.mem_singleton.1 hfile] at hmem
    -- no function has parameters, and no call has arguments
    have hparams : ∀ func ∈ pairFile.tree.funcs, func.params = {} := by
      intro func hmem
      simp [pairFile, plainFunc, File.funcs, Decl.func?] at hmem
      rcases hmem with rfl | rfl <;> rfl
    have hcalls : ∀ func ∈ pairFile.tree.funcs, ∀ body, func.body = some body →
        Holds (fun _ call => call.args = []) (callsOfStmts true body.stmts) := by
      intro func hmem body hbody
      simp [pairFile, plainFunc, File.funcs, Decl.func?] at hmem
      rcases hmem with rfl | rfl <;> obtain rfl := Option.some.inj hbody
      · rintro entry hmem
        obtain rfl : entry = (true, workCall) := List.mem_singleton.1 hmem
        rfl
      · exact .nil
    intro place body hbody
    obtain ⟨func, hfunc, hbody⟩ := Option.bind_eq_some_iff.1 hbody
    refine (hcalls func (hfuncs place func hfunc) body hbody).imp fun reached call hargs => ?_
    intro _ _ ref params _ hfound _
    obtain ⟨callee, hcallee, rfl⟩ := Option.map_eq_some_iff.1 hfound
    rw [Application.func?_eq] at hcallee
    obtain ⟨place, -, hcallee⟩ := Option.bind_eq_some_iff.1 hcallee
    rw [hargs, hparams callee (hfuncs place callee hcallee)]
    rfl

theorem run_completesCalls_pairOrigin :
    pairOrigin.app.resolve? workCall = some ⟨"app", "work"⟩ ∧ WellCalled pairOrigin.app ∧
      ∃ body, ((fixCallSites (weave.run pairOrigin.app).2).1.funcAt? ⟨"app", 0, 0⟩).bind
          (·.body) = some body ∧
        Holds (Complete (fixCallSites (weave.run pairOrigin.app).2).1)
          (callsOfStmts true body.stmts) := by
  have hkeeps := keepsDeclarations_of_grows pairOrigin.app_extended
    ((run_turns pairOrigin).grows pairOrigin.coherent_app.placesDiffer)
  have hhas : pairOrigin.app.hasBodyAt ⟨"app", 0, 0⟩ = true := rfl
  obtain ⟨body, hbody⟩ := Option.isSome_iff_exists.1 ((hkeeps.bodies ⟨"app", 0, 0⟩).trans hhas)
  refine ⟨resolve?_workCall, wellCalled_pairOrigin, body, hbody, ?_⟩
  exact run_completesCalls pairOrigin wellCalled_pairOrigin ⟨"app", 0, 0⟩ body hbody

end TraceWeave.Program
