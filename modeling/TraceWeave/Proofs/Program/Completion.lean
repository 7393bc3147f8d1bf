import Mathlib.Data.List.Forall2
import TraceWeave.Program.CallSites
import TraceWeave.Proofs.Program.Outline
import TraceWeave.Proofs.Syntax.Rewriting

/-!
Completing the calls of extended functions.

Whatever `fixCallSites` changes is an argument `nil` that it appends to a call in the body
of a function (`Completes`).  Declarations stay, and generated files stay altogether.
-/

namespace TraceWeave.Program

open TraceWeave.Order TraceWeave.Syntax TraceWeave.Types

/-! ## Appended arguments -/

/-- One call of the list got `nil` for its last argument. -/
def AppendsNil (stmts stmts' : List Stmt) : Prop :=
  ∃ call decs, StmtsRewrite true ⟨.call call, decs⟩ ⟨.call (call.addArg .nil), decs⟩ stmts stmts'

/-- Calls in the body got `nil` for their last argument, one after the other. -/
inductive Completes : FuncDecl → FuncDecl → Prop where
  | same {func : FuncDecl} : Completes func func
  | body {func : FuncDecl} {body : Block} {stmts : List Stmt} :
      func.body = some body → Relation.ReflTransGen AppendsNil body.stmts stmts →
      Completes func { func with body := some { body with stmts } }

theorem Completes.outline_eq {func func' : FuncDecl} (h : Completes func func') :
    func'.outline = func.outline := by
  cases h <;> rfl

theorem Completes.params_eq {func func' : FuncDecl} (h : Completes func func') :
    func'.params = func.params := by
  cases h <;> rfl

theorem Completes.isSome_body {func func' : FuncDecl} (h : Completes func func') :
    func'.body.isSome = func.body.isSome := by
  cases h with
  | same => rfl
  | body hbody _ => simp [hbody]

/-- The declaration is the same, or a function whose body was completed. -/
inductive DeclCompletes : Decl → Decl → Prop where
  | same {decl : Decl} : DeclCompletes decl decl
  | func {func func' : FuncDecl} {decs : Decorations} :
      Completes func func' → DeclCompletes ⟨.func func, decs⟩ ⟨.func func', decs⟩

structure FileCompletes (file file' : SourceFile) : Prop where
  tree : ∃ decls, file' = { file with tree := { file.tree with decls } }
  decls : List.Forall₂ DeclCompletes file.tree.decls file'.tree.decls
  generated : file.generated = true → file' = file

structure PackageCompletes (package package' : Package) : Prop where
  rest : ∃ files, package' = { package with files }
  files : List.Forall₂ FileCompletes package.files package'.files

/-! ## Runs -/

theorem forall₂_mapM {σ α β : Type} {R : α → β → Prop} {f : α → StateM σ β}
    (h : ∀ a s, R a (f a s).1) (list : List α) (s : σ) : List.Forall₂ R list ((list.mapM f) s).1 := by
  induction list generalizing s with
  | nil => exact .nil
  | cons a list ih =>
      rw [List.mapM_cons]
      exact .cons (h a s) (ih _)

/-- A call that got `nil` for its last argument. -/
def appendsNil : Visits Nat := fun before after =>
  ∃ call decs, before.1 = ⟨.call call, decs⟩ ∧ after.1 = ⟨.call (call.addArg .nil), decs⟩

section

variable (info : Info) (arities : List ((String × String) × Nat))

theorem fixCall_follows :
    (Edits.calls true (fixCall info arities)).Follows (.ofStateM Nat) appendsNil := by
  refine ⟨fun call decs count => ?_, fun ident decs count => .inr rfl⟩
  simp only [Edits.calls, Threaded.ofStateM, fixCall]
  split
  · exact .inl ⟨call, decs, rfl, rfl⟩
  · exact .inr rfl

theorem editStmts_appendsNil (stmts : List Stmt) (count : Nat) :
    Relation.ReflTransGen AppendsNil stmts
      (editStmts (Edits.calls true (fixCall info arities)) stmts count).1 := by
  have hsteps := editStmts_steps (fixCall_follows info arities) stmts count
  have hlift : ∀ after, Steps (StmtsRewrite true) appendsNil (stmts, count) after →
      Relation.ReflTransGen AppendsNil stmts after.1 := by
    intro after steps
    induction steps with
    | refl => exact .refl
    | tail _ hstep ih =>
        obtain ⟨part, part', ⟨call, decs, rfl, rfl⟩, hrewrite⟩ := hstep
        exact ih.tail ⟨call, decs, hrewrite⟩
  exact hlift _ hsteps

theorem fixDecl_completes (decl : Decl) (count : Nat) :
    DeclCompletes decl (fixDecl info arities decl count).1 := by
  match decl with
  | ⟨.func ⟨receiver, name, typeParams, params, results, some body⟩, decs⟩ =>
      exact .func (.body rfl (editStmts_appendsNil info arities body.stmts count))
  | ⟨.func ⟨receiver, name, typeParams, params, results, none⟩, decs⟩ => exact .same
  | ⟨.imports imports, decs⟩ => exact .same
  | ⟨.gen group, decs⟩ => exact .same
  | ⟨.verbatim text, decs⟩ => exact .same

theorem fixFile_completes (file : SourceFile) (count : Nat) :
    FileCompletes file (fixFile info arities file count).1 := by
  unfold fixFile
  split
  · next hgenerated =>
    exact ⟨⟨file.tree.decls, rfl⟩, List.forall₂_same.2 fun _ _ => .same, fun _ => rfl⟩
  · next hgenerated =>
    refine ⟨⟨_, rfl⟩, ?_, fun h => absurd h hgenerated⟩
    exact forall₂_mapM (fixDecl_completes info arities) file.tree.decls count

theorem fixPackage_completes (package : Package) (count : Nat) :
    PackageCompletes package (fixPackage info arities package count).1 :=
  ⟨⟨_, rfl⟩, forall₂_mapM (fixFile_completes info arities) package.files count⟩

end

/-! ## The application -/

theorem getElem?_forall₂ {α β : Type} {R : α → β → Prop} {list : List α} {list' : List β}
    (h : List.Forall₂ R list list') (index : Nat) : Option.Rel R list[index]? list'[index]? := by
  induction h generalizing index with
  | nil => simp
  | cons hhead _ ih =>
      cases index with
      | zero => simpa using Option.Rel.some hhead
      | succ index => simpa using ih index

section

variable (app : Application)

theorem fixCallSites_entries :
    List.Forall₂ (fun entry entry' => entry'.1 = entry.1 ∧ PackageCompletes entry.2 entry'.2)
      app.packages.entries (fixCallSites app).1.packages.entries := by
  unfold fixCallSites
  refine forall₂_mapM (fun entry count => ?_) app.packages.entries 0
  exact ⟨rfl, fixPackage_completes app.types (extendedArities app) entry.2 count⟩

theorem package?_fixCallSites (id : String) :
    Option.Rel PackageCompletes (app.package? id) ((fixCallSites app).1.package? id) := by
  have hlookup : ∀ {entries entries' : List (String × Package)},
      List.Forall₂ (fun entry entry' => entry'.1 = entry.1 ∧ PackageCompletes entry.2 entry'.2)
        entries entries' → Option.Rel PackageCompletes (entries.lookup id) (entries'.lookup id) := by
    intro entries entries' h
    induction h with
    | nil => exact .none
    | @cons entry entry' entries entries' hentry _ ih =>
        obtain ⟨key, package⟩ := entry
        obtain ⟨key', package'⟩ := entry'
        obtain ⟨rfl, hpackage⟩ := hentry
        rw [Table.lookup_cons_eq_ite, Table.lookup_cons_eq_ite]
        split
        · exact .some hpackage
        · exact ih
  exact hlookup (fixCallSites_entries app)

theorem fileAt?_fixCallSites (id : String) (index : Nat) :
    Option.Rel FileCompletes (app.fileAt? id index) ((fixCallSites app).1.fileAt? id index) := by
  unfold Application.fileAt?
  have hpackage := package?_fixCallSites app id
  generalize app.package? id = before at hpackage ⊢
  generalize (fixCallSites app).1.package? id = after at hpackage ⊢
  cases hpackage with
  | none => exact .none
  | some hpackage => exact getElem?_forall₂ hpackage.files index

theorem funcAt?_fixCallSites (place : Place) :
    Option.Rel Completes (app.funcAt? place) ((fixCallSites app).1.funcAt? place) := by
  have hfuncAt : ∀ app : Application, app.funcAt? place =
      ((app.fileAt? place.package place.file).bind (·.tree.decls[place.decl]?)).bind Decl.func? := by
    intro app
    unfold Application.funcAt? Application.fileAt? Package.declAt?
    cases app.package? place.package <;> rfl
  rw [hfuncAt, hfuncAt]
  have hfile := fileAt?_fixCallSites app place.package place.file
  generalize app.fileAt? place.package place.file = before at hfile ⊢
  generalize (fixCallSites app).1.fileAt? place.package place.file = after at hfile ⊢
  cases hfile with
  | none => exact .none
  | @some file file' hfile =>
      have hdecl := getElem?_forall₂ hfile.decls place.decl
      simp only [Option.bind_some]
      generalize file.tree.decls[place.decl]? = decl at hdecl ⊢
      generalize file'.tree.decls[place.decl]? = decl' at hdecl ⊢
      cases hdecl with
      | none => exact .none
      | @some decl decl' hdecl =>
          cases hdecl with
          | same =>
              simp only [Option.bind_some]
              cases decl.func? with
              | none => exact .none
              | some func => exact .some .same
          | func hfunc => exact .some hfunc

theorem outline_fixCallSites : (fixCallSites app).1.outline = app.outline := by
  have hdecls : ∀ {decls decls' : List Decl}, List.Forall₂ DeclCompletes decls decls' →
      decls'.map (Decl.mapFunc FuncDecl.outline) = decls.map (Decl.mapFunc FuncDecl.outline) := by
    intro decls decls' h
    induction h with
    | nil => rfl
    | cons hdecl _ ih =>
        rw [List.map_cons, List.map_cons, ih]
        cases hdecl with
        | same => rfl
        | func hfunc => simp only [Decl.mapFunc, hfunc.outline_eq]
  have hfiles : ∀ {files files' : List SourceFile}, List.Forall₂ FileCompletes files files' →
      files'.map SourceFile.outline = files.map SourceFile.outline := by
    intro files files' h
    induction h with
    | nil => rfl
    | cons hfile _ ih =>
        rw [List.map_cons, List.map_cons, ih]
        obtain ⟨decls, rfl⟩ := hfile.tree
        simp only [SourceFile.outline, hdecls hfile.decls]
  have hentries : ∀ {entries entries' : List (String × Package)},
      List.Forall₂ (fun entry entry' => entry'.1 = entry.1 ∧ PackageCompletes entry.2 entry'.2)
        entries entries' → entries'.map (fun entry => (entry.1, entry.2.outline)) =
          entries.map fun entry => (entry.1, entry.2.outline) := by
    intro entries entries' h
    induction h with
    | nil => rfl
    | @cons entry entry' entries entries' hentry _ ih =>
        rw [List.map_cons, List.map_cons, ih]
        obtain ⟨hkey, hpackage⟩ := hentry
        obtain ⟨files, hrest⟩ := hpackage.rest
        have houtline : entry'.2.outline = entry.2.outline := by
          simp only [Package.outline, hfiles hpackage.files]
          rw [hrest]
        rw [houtline, hkey]
  have hpackages : (fixCallSites app).1.packages.map Package.outline =
      app.packages.map Package.outline :=
    congrArg Table.mk (hentries (fixCallSites_entries app))
  unfold Application.outline
  rw [hpackages]
  rfl

end

end TraceWeave.Program
