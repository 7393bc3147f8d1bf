import TraceWeave.Proofs.Program.Restoration
import TraceWeave.Proofs.Run.CallSites

/-!
Passes that are run a second time.

Completing calls leaves no call short, and restoring imports leaves none missing.  So a
second completion finds nothing to fix and a second restoration nothing to add.
-/

namespace TraceWeave.Program

open TraceWeave.Order TraceWeave.Syntax TraceWeave.Types

/-! ## Completed calls -/

section

variable {info : Info} {arities : List ((String × String) × Nat)}

def Sated (info : Info) (arities : List ((String × String) × Nat)) : CallTest := fun reached call =>
  reached = true → lacksTransaction info arities call = false

theorem lacksTransaction_addArg {call : Call} {arg : Expr}
    (h : lacksTransaction info arities call = true) :
    lacksTransaction info arities (call.addArg arg) = false := by
  simp only [lacksTransaction, Bool.and_eq_true, Option.any_eq_true, beq_iff_eq] at h
  obtain ⟨-, arity, harity, hlength⟩ := h
  have hcallee : ((info.callee? (call.addArg arg)).bind fun callee =>
      arities.lookup (callee.package, Application.calleeKey callee)) = some arity := harity
  have hshort : (call.addArg arg).args.length + 1 ≠ arity := by
    rw [Call.length_addArg]
    omega
  simp [lacksTransaction, hcallee, hshort]

theorem sated_fixCall (call : Call) (count : Nat) :
    Sated info arities true (fixCall info arities call count).1 := by
  unfold fixCall
  split
  · next h => exact fun _ => lacksTransaction_addArg h
  · next h => exact fun _ => Bool.not_eq_true _ ▸ h

theorem fixCall_of_sated {call : Call} (h : lacksTransaction info arities call = false)
    (count : Nat) : fixCall info arities call count = (call, count) := by
  unfold fixCall
  rw [h]
  rfl

theorem fixCall_bringsSated :
    (Edits.calls true (fixCall info arities)).Brings (.ofStateM Nat) (fun _ _ => True)
      (Sated info arities) := by
  constructor
  · rfl
  · intro call _ hreached
    contradiction
  · intro callee args spread closesLine count count' count'' _ callee' args' call' hcallee hargs
    refine ⟨sated_fixCall _ _, ?_⟩
    show Holds _ ((fixCall _ _ _ count'').1.callee.calls true) ∧
      Holds _ (callsOfExprs true (fixCall _ _ _ count'').1.args)
    unfold fixCall
    split
    · exact ⟨hcallee, Call.holds_addArg hargs .nil⟩
    · exact ⟨hcallee, hargs⟩

variable (info arities)

theorem editStmts_twice (stmts : List Stmt) (count count' : Nat) :
    let edits := Edits.calls true (fixCall info arities)
    editStmts edits (editStmts edits stmts count).1 count' =
      ((editStmts edits stmts count).1, count') := by
  intro edits
  have hsated : Holds (Sated info arities) (callsOfStmts true (editStmts edits stmts count).1) :=
    editStmts_brings fixCall_bringsSated stmts count fun _ _ => trivial
  have hkeeps := hsated.imp fun reached call hcall =>
    show edits.Keeps (.ofStateM Nat) reached call from
      fun hreached count => fixCall_of_sated (hcall hreached) count
  exact editStmts_same (fun _ _ => rfl) _ count' hkeeps

/-- A computation that leaves its own results alone does so all along a list. -/
theorem mapM_twice {σ α : Type} {f : α → StateM σ α}
    (h : ∀ a s s', f (f a s).1 s' = ((f a s).1, s')) (list : List α) (s s' : σ) :
    (((list.mapM f) s).1.mapM f) s' = (((list.mapM f) s).1, s') := by
  induction list generalizing s s' with
  | nil => rfl
  | cons a list ih =>
      have hcons : ∀ (a : α) (list : List α) (s : σ), ((a :: list).mapM f) s =
          ((f a s).1 :: ((list.mapM f) (f a s).2).1, ((list.mapM f) (f a s).2).2) := by
        intro a list s
        rw [List.mapM_cons]
        rfl
      rw [hcons, hcons, h]
      simp only [ih]

/-- A declaration with a body, with the calls in its body completed. -/
theorem fixDecl_body (receiver : Option FieldList) (name : Ident) (typeParams : Option String)
    (params : FieldList) (results : Option Results) (body : Block) (decs : Decorations)
    (count : Nat) :
    let run := editStmts (Edits.calls true (fixCall info arities)) body.stmts count
    fixDecl info arities ⟨.func ⟨receiver, name, typeParams, params, results, some body⟩, decs⟩ count =
      (⟨.func ⟨receiver, name, typeParams, params, results, some { body with stmts := run.1 }⟩, decs⟩,
        run.2) := rfl

theorem fixDecl_twice (decl : Decl) (count count' : Nat) :
    fixDecl info arities (fixDecl info arities decl count).1 count' =
      ((fixDecl info arities decl count).1, count') := by
  match decl with
  | ⟨.func ⟨receiver, name, typeParams, params, results, some body⟩, decs⟩ =>
      have hstmts := editStmts_twice info arities body.stmts count count'
      dsimp only at hstmts
      simp only [fixDecl_body, hstmts]
  | ⟨.func ⟨receiver, name, typeParams, params, results, none⟩, decs⟩ => rfl
  | ⟨.imports imports, decs⟩ => rfl
  | ⟨.gen group, decs⟩ => rfl
  | ⟨.verbatim text, decs⟩ => rfl

theorem fixFile_twice (file : SourceFile) (count count' : Nat) :
    fixFile info arities (fixFile info arities file count).1 count' =
      ((fixFile info arities file count).1, count') := by
  cases hgenerated : file.generated with
  | true =>
      have hsame : ∀ count, fixFile info arities file count = (file, count) := by
        intro count
        simp only [fixFile, hgenerated, if_true]
        rfl
      rw [hsame, hsame]
  | false =>
      have hdecls := mapM_twice (fixDecl_twice info arities) file.tree.decls
        count count'
      have hfix : ∀ (tree : File) (count : Nat),
          fixFile info arities { file with tree } count =
            ({ file with tree := { tree with
                decls := ((tree.decls.mapM (fixDecl info arities)) count).1 } },
              ((tree.decls.mapM (fixDecl info arities)) count).2) := by
        intro tree count
        simp only [fixFile, hgenerated, Bool.false_eq_true, if_false]
        rfl
      rw [hfix file.tree count]
      simp only [hfix, hdecls]

theorem fixPackage_twice (package : Package) (count count' : Nat) :
    fixPackage info arities (fixPackage info arities package count).1 count' =
      ((fixPackage info arities package count).1, count') := by
  have hfiles := mapM_twice (fixFile_twice info arities) package.files
    count count'
  have hfix : ∀ (package : Package) (count : Nat), fixPackage info arities package count =
      ({ package with files := ((package.files.mapM (fixFile info arities)) count).1 },
        ((package.files.mapM (fixFile info arities)) count).2) := fun _ _ => rfl
  rw [hfix package count, hfix _ count']
  simp only [hfiles]

end

theorem extendedArities_fixCallSites (app : Application) :
    extendedArities (fixCallSites app).1 = extendedArities app := by
  unfold extendedArities
  refine List.filterMap_congr fun ref _ => ?_
  have hparams := params_fixCallSites app ref
  have hpackage := package?_fixCallSites app ref.package
  unfold Application.func? at hparams
  generalize app.package? ref.package = package at hpackage hparams ⊢
  generalize (fixCallSites app).1.package? ref.package = package' at hpackage hparams ⊢
  cases hpackage with
  | none => rfl
  | @some package package' hcompletes =>
      obtain ⟨files, hrest⟩ := hcompletes.rest
      have hpath : package'.path = package.path := by rw [hrest]
      have harity : (package'.func? ref.key).map (·.params.arity) =
          (package.func? ref.key).map (·.params.arity) := by
        have hmapped := congrArg (Option.map FieldList.arity) hparams
        simpa only [Option.bind_some, Option.map_map, Function.comp_def] using hmapped
      have hentry : ∀ (path : String) (func : Option FuncDecl),
          func.map (fun func => ((path, ref.key), func.params.arity)) =
            (func.map (·.params.arity)).map fun arity => ((path, ref.key), arity) := by
        intro path func
        cases func <;> rfl
      simp only [Option.bind_some, hentry, hpath, harity]

/-- A package of the table, with its calls completed. -/
def fixEntry (info : Info) (arities : List ((String × String) × Nat)) (entry : String × Package) :
    StateM Nat (String × Package) := fun count =>
  ((entry.1, (fixPackage info arities entry.2 count).1), (fixPackage info arities entry.2 count).2)

theorem fixCallSites_eq (app : Application) :
    let run := (app.packages.entries.mapM (fixEntry app.types (extendedArities app))) 0
    fixCallSites app = ({ app with packages := ⟨run.1⟩ }, run.2) := rfl

theorem fixCallSites_twice (app : Application) :
    fixCallSites (fixCallSites app).1 = ((fixCallSites app).1, 0) := by
  have hentry : ∀ entry count count',
      fixEntry app.types (extendedArities app)
          (fixEntry app.types (extendedArities app) entry count).1 count' =
        ((fixEntry app.types (extendedArities app) entry count).1, count') := by
    intro entry count count'
    simp only [fixEntry, fixPackage_twice]
  have htwice := mapM_twice hentry app.packages.entries 0 0
  have harities := extendedArities_fixCallSites app
  rw [fixCallSites_eq] at harities ⊢
  dsimp only at harities ⊢
  rw [fixCallSites_eq]
  simp only [harities, htwice]

/-! ## Restored imports -/

theorem restore_restore (package package' : Package) (himports : package'.imports = package.imports)
    (file : SourceFile) : restore package' (restore package file) = restore package file := by
  have hnone := restoredPaths_restore package package' himports file
  unfold restore at hnone ⊢
  simp only [hnone, List.foldl_nil]

theorem importInPackage_twice (package : Package) :
    importInPackage (importInPackage package).1 = ((importInPackage package).1, []) := by
  refine Prod.ext ?_ ?_
  · have hfiles : (importInPackage package).1.files.map (restore (importInPackage package).1) =
        (importInPackage package).1.files := by
      simp only [files_importInPackage, List.map_map]
      apply List.map_congr_left
      intro file _
      exact restore_restore package _ rfl file
    rw [files_importInPackage (importInPackage package).1, hfiles]
  · refine List.flatMap_eq_nil_iff.2 fun file hmem => ?_
    rw [files_importInPackage] at hmem
    obtain ⟨file, -, rfl⟩ := List.mem_map.1 hmem
    have hnone := restoredPaths_restore package (importInPackage package).1 rfl file
    exact List.map_eq_nil_iff.2 hnone

theorem addImports_twice (app : Application) :
    addImports (addImports app).1 = ((addImports app).1, []) := by
  have hadded : app.packages.entries.flatMap (fun _ => ([] : List AddedImport)) = [] := by simp
  simp only [addImports_eq, importInPackage_twice, List.flatMap_map, List.map_map, Function.comp_def,
    hadded]
  rfl

/-- Neither pass has anything left to do behind itself. -/
theorem passes_settle (app : Application) :
    fixCallSites (fixCallSites app).1 = ((fixCallSites app).1, 0) ∧
      addImports (addImports app).1 = ((addImports app).1, []) :=
  ⟨fixCallSites_twice app, addImports_twice app⟩

end TraceWeave.Program
