import TraceWeave.Program.Application

/-!
What stays of an application while it is traced.

The `outline` of an application forgets parameters and bodies of functions, the
imports that packages need, and what tracing notes down.  The operations of tracing
keep it; what they change is told by the functions at the places of declarations
(`Application.funcAt?_modifyFunc`).
-/

namespace TraceWeave.Syntax

/-- A function without its parameters and its body. -/
def FuncDecl.outline (func : FuncDecl) : FuncDecl := { func with params := {}, body := none }

@[simp]
theorem Decl.func?_mapFunc (f : FuncDecl → FuncDecl) (decl : Decl) :
    (decl.mapFunc f).func? = decl.func?.map f := by
  obtain ⟨kind, decs⟩ := decl
  cases kind <;> rfl

theorem Decl.outline_mapFunc {f : FuncDecl → FuncDecl}
    (hf : ∀ func, (f func).outline = func.outline) (decl : Decl) :
    (decl.mapFunc f).mapFunc FuncDecl.outline = decl.mapFunc FuncDecl.outline := by
  obtain ⟨kind, decs⟩ := decl
  cases kind with
  | func func => simp only [Decl.mapFunc, hf]
  | _ => rfl

end TraceWeave.Syntax

namespace TraceWeave.Program

open TraceWeave.Order TraceWeave.Syntax

/-! ## Outlines -/

def SourceFile.outline (file : SourceFile) : SourceFile :=
  { file with tree := { file.tree with decls := file.tree.decls.map (Decl.mapFunc FuncDecl.outline) } }

def Package.outline (package : Package) : Package :=
  { package with
    files := package.files.map SourceFile.outline
    funcs := package.funcs.map fun entry => { entry with traced := false }
    imports := [] }

def Application.outline (app : Application) : Application :=
  { app with
    packages := app.packages.map Package.outline
    extended := []
    entered := []
    console := {} }

/-! ## Places -/

/-- Where a function is declared. -/
structure Place where
  package : String
  file : Nat
  decl : Nat
  deriving DecidableEq

namespace Application

variable (app : Application)

def fileAt? (id : String) (index : Nat) : Option SourceFile :=
  (app.package? id).bind (·.files[index]?)

def funcAt? (place : Place) : Option FuncDecl :=
  (app.package? place.package).bind (·.declAt? place.file place.decl)

/-- The place that the table of functions gives. -/
def place? (ref : FuncRef) : Option Place :=
  (app.entry? ref).map fun entry => { package := ref.package, file := entry.file, decl := entry.decl }

/-- Tracing has reached the function. -/
def isTraced (ref : FuncRef) : Bool := (app.entry? ref).any (·.traced)

/-- Nothing but having been reached or having no body keeps tracing from entering the function. -/
def isEligible (ref : FuncRef) : Bool :=
  (app.package? ref.package).any fun package =>
    !package.test && ref.key != "main" && !app.pinned.contains ref &&
      (package.fileOf? ref.key).any (!·.generated)

theorem func?_eq (ref : FuncRef) : app.func? ref = (app.place? ref).bind app.funcAt? := by
  unfold func? place? funcAt? entry? Package.func?
  cases hpackage : app.package? ref.package with
  | none => rfl
  | some package => cases hget : package.funcs.get? ref.key <;> simp [hget, hpackage]

theorem place?_eq_some (ref : FuncRef) (place : Place) :
    app.place? ref = some place ↔ place.package = ref.package ∧
      (app.entry? ref).any (fun entry => entry.file == place.file && entry.decl == place.decl) := by
  obtain ⟨id, file, decl⟩ := place
  unfold place?
  cases app.entry? ref with
  | none => simp
  | some entry => simp; grind

theorem mayInstrument_eq (ref : FuncRef) :
    app.mayInstrument ref =
      (app.isEligible ref && !app.isTraced ref && (app.func? ref).any (·.body.isSome)) := by
  unfold mayInstrument isEligible isTraced entry?
  cases app.package? ref.package with
  | none => rfl
  | some package =>
      cases hget : package.funcs.get? ref.key with
      | none => simp [hget, Package.fileOf?]
      | some entry => simp [hget]; grind

end Application

/-! ## What the operations change -/

theorem Package.declAt?_modifyFunc (package : Package) (key : String) (f : FuncDecl → FuncDecl)
    (file decl : Nat) :
    (package.modifyFunc key f).declAt? file decl =
      if (package.funcs.get? key).any (fun entry => entry.file == file && entry.decl == decl) then
        (package.declAt? file decl).map f
      else package.declAt? file decl := by
  unfold Package.modifyFunc
  cases hget : package.funcs.get? key with
  | none => simp
  | some entry =>
      simp only [Package.declAt?, List.getElem?_modify]
      by_cases hfile : entry.file = file
      · by_cases hdecl : entry.decl = decl
        · subst hfile hdecl
          cases hfiles : package.files[entry.file]? with
          | none => simp
          | some source => cases hdecls : source.tree.decls[entry.decl]? <;> simp [hdecls]
        · cases hfiles : package.files[file]? <;> simp [hfile, hdecl]
      · cases hfiles : package.files[file]? <;> simp [hfile]

theorem Package.modifyFunc_modifyFunc (package : Package) (key : String)
    (f g : FuncDecl → FuncDecl) :
    (package.modifyFunc key f).modifyFunc key g = package.modifyFunc key (g ∘ f) := by
  have hdecl : ∀ decl : Decl, (decl.mapFunc f).mapFunc g = decl.mapFunc fun func => g (f func) := by
    rintro ⟨kind, decs⟩
    cases kind <;> rfl
  unfold Package.modifyFunc
  cases hget : package.funcs.get? key with
  | none => simp [hget]
  | some entry => simp [hget, List.modify_modify_eq, Function.comp_def, hdecl]

/-- A change that an outline forgets, at one place of a list. -/
private theorem map_modify_of_forgets {α β : Type} {f : α → α} {g : α → β} (h : ∀ a, g (f a) = g a)
    (list : List α) (index : Nat) : (list.modify index f).map g = list.map g := by
  induction list generalizing index with
  | nil => simp
  | cons a list ih => cases index <;> simp [h, ih]

theorem Package.outline_modifyFunc (package : Package) (key : String) {f : FuncDecl → FuncDecl}
    (hf : ∀ func, (f func).outline = func.outline) :
    (package.modifyFunc key f).outline = package.outline := by
  unfold Package.modifyFunc
  cases package.funcs.get? key with
  | none => rfl
  | some entry =>
      simp only [Package.outline]
      rw [map_modify_of_forgets]
      intro file
      simp only [SourceFile.outline, map_modify_of_forgets (Decl.outline_mapFunc hf)]

namespace Application

variable (app : Application)

@[simp]
theorem package?_modifyPackage (id other : String) (f : Package → Package) :
    (app.modifyPackage id f).package? other =
      (app.package? other).map fun package => if other = id then f package else package :=
  Table.get?_modify app.packages id other f

@[simp]
theorem entry?_modifyFunc (ref other : FuncRef) (f : FuncDecl → FuncDecl) :
    entry? (app.modifyFunc ref f) other = app.entry? other := by
  simp only [ entry?, modifyFunc, package?_modifyPackage]
  cases app.package? other.package with
  | none => rfl
  | some package =>
      simp only [Option.map_some, Option.bind_some]
      split
      · unfold Package.modifyFunc
        split <;> rfl
      · rfl

theorem modifyFunc_modifyFunc (ref : FuncRef) (f g : FuncDecl → FuncDecl) :
    (app.modifyFunc ref f).modifyFunc ref g = app.modifyFunc ref (g ∘ f) := by
  have hmodify : (app.packages.modify ref.package (·.modifyFunc ref.key f)).modify ref.package
      (·.modifyFunc ref.key g) =
        app.packages.modify ref.package (·.modifyFunc ref.key (g ∘ f)) := by
    simp only [Table.modify, List.map_map, Table.mk.injEq]
    refine List.map_congr_left fun entry _ => ?_
    simp only [Function.comp_apply]
    split <;> simp [Package.modifyFunc_modifyFunc]
  simp only [modifyFunc, modifyPackage, hmodify]

@[simp]
theorem place?_modifyFunc (ref other : FuncRef) (f : FuncDecl → FuncDecl) :
    (app.modifyFunc ref f).place? other = app.place? other := by
  simp only [place?, entry?_modifyFunc]

@[simp]
theorem isTraced_modifyFunc (ref other : FuncRef) (f : FuncDecl → FuncDecl) :
    (app.modifyFunc ref f).isTraced other = app.isTraced other := by
  simp only [isTraced, entry?_modifyFunc]

theorem funcAt?_modifyFunc (ref : FuncRef) (f : FuncDecl → FuncDecl) (place : Place) :
    (app.modifyFunc ref f).funcAt? place =
      if app.place? ref = some place then (app.funcAt? place).map f else app.funcAt? place := by
  obtain ⟨id, file, decl⟩ := place
  simp only [funcAt?, modifyFunc, package?_modifyPackage, place?_eq_some]
  by_cases hid : id = ref.package
  · subst hid
    cases hpackage : app.package? ref.package with
    | none => simp
    | some package =>
        cases hget : package.funcs.get? ref.key <;>
          simp [Package.declAt?_modifyFunc, entry?, hpackage, hget]
  · cases hpackage : app.package? id <;> simp [hid]

theorem func?_modifyFunc (ref : FuncRef) (f : FuncDecl → FuncDecl) :
    (app.modifyFunc ref f).func? ref = (app.func? ref).map f := by
  simp only [func?_eq, place?_modifyFunc]
  cases hplace : app.place? ref with
  | none => rfl
  | some place => simp [funcAt?_modifyFunc, hplace]

/-- A file without the function stays as it is. -/
theorem fileAt?_modifyFunc {ref : FuncRef} {id : String} {index : Nat}
    (h : ∀ decl, app.place? ref ≠ some ⟨id, index, decl⟩) (f : FuncDecl → FuncDecl) :
    (app.modifyFunc ref f).fileAt? id index = app.fileAt? id index := by
  simp only [fileAt?, modifyFunc, package?_modifyPackage]
  cases hpackage : app.package? id with
  | none => rfl
  | some package =>
      simp only [Option.map_some, Option.bind_some]
      split
      case isFalse => rfl
      case isTrue hid =>
        subst hid
        unfold Package.modifyFunc
        cases hget : package.funcs.get? ref.key with
        | none => rfl
        | some entry =>
            have hfile : entry.file ≠ index := by
              rintro rfl
              exact h entry.decl (by simp [place?, entry?, hpackage, hget])
            cases hfiles : package.files[index]? <;> simp [hfile, hfiles]

/-! ## Marks -/

@[simp]
theorem entry?_markTraced (ref other : FuncRef) :
    entry? (app.markTraced ref) other =
      (app.entry? other).map fun entry =>
        if other = ref then { entry with traced := true } else entry := by
  obtain ⟨id, key⟩ := ref
  obtain ⟨otherId, otherKey⟩ := other
  simp only [ entry?, markTraced, package?_modifyPackage, FuncRef.mk.injEq]
  cases app.package? otherId with
  | none => rfl
  | some package =>
      by_cases hid : otherId = id <;>
        cases hget : package.funcs.get? otherKey <;> simp [hid, Package.markTraced, hget]

@[simp]
theorem place?_markTraced (ref other : FuncRef) :
    (app.markTraced ref).place? other = app.place? other := by
  simp only [place?, entry?_markTraced, Option.map_map]
  congr 1
  funext entry
  simp only [Function.comp_apply]
  split <;> rfl

theorem isTraced_markTraced (ref other : FuncRef) :
    (app.markTraced ref).isTraced other =
      (app.isTraced other || (decide (other = ref) && (app.entry? other).isSome)) := by
  simp only [isTraced, entry?_markTraced]
  cases app.entry? other with
  | none => simp
  | some entry => by_cases h : other = ref <;> simp [h]

/-- A change of a package that keeps its files keeps the functions. -/
theorem funcAt?_modifyPackage (f : Package → Package)
    (hf : ∀ package, (f package).files = package.files) (id : String) (place : Place) :
    (app.modifyPackage id f).funcAt? place = app.funcAt? place := by
  simp only [funcAt?, package?_modifyPackage]
  cases app.package? place.package with
  | none => rfl
  | some package =>
      simp only [Option.map_some, Option.bind_some, Package.declAt?]
      split <;> simp [hf]

theorem fileAt?_modifyPackage (f : Package → Package)
    (hf : ∀ package, (f package).files = package.files) (id other : String) (index : Nat) :
    (app.modifyPackage id f).fileAt? other index = app.fileAt? other index := by
  simp only [fileAt?, package?_modifyPackage]
  cases app.package? other with
  | none => rfl
  | some package =>
      simp only [Option.map_some, Option.bind_some]
      split <;> simp [hf]

@[simp]
theorem funcAt?_markTraced (ref : FuncRef) (place : Place) :
    (app.markTraced ref).funcAt? place = app.funcAt? place :=
  app.funcAt?_modifyPackage (·.markTraced ref.key) (fun _ => rfl) ref.package place

@[simp]
theorem func?_markTraced (ref other : FuncRef) :
    (app.markTraced ref).func? other = app.func? other := by
  simp only [func?_eq, place?_markTraced]
  congr 1
  funext place
  exact funcAt?_markTraced app ref place

@[simp]
theorem funcAt?_needImport (id path : String) (place : Place) :
    (app.needImport id path).funcAt? place = app.funcAt? place :=
  app.funcAt?_modifyPackage (·.needImport path) (fun _ => rfl) id place

@[simp]
theorem fileAt?_markTraced (ref : FuncRef) (id : String) (index : Nat) :
    (app.markTraced ref).fileAt? id index = app.fileAt? id index :=
  app.fileAt?_modifyPackage (·.markTraced ref.key) (fun _ => rfl) ref.package id index

@[simp]
theorem fileAt?_needImport (id path other : String) (index : Nat) :
    (app.needImport id path).fileAt? other index = app.fileAt? other index :=
  app.fileAt?_modifyPackage (·.needImport path) (fun _ => rfl) id other index

@[simp]
theorem entry?_needImport (id path : String) (ref : FuncRef) :
    entry? (app.needImport id path) ref = app.entry? ref := by
  simp only [ entry?, needImport, package?_modifyPackage]
  cases app.package? ref.package with
  | none => rfl
  | some package =>
      simp only [Option.map_some, Option.bind_some]
      split <;> rfl

@[simp]
theorem place?_needImport (id path : String) (ref : FuncRef) :
    (app.needImport id path).place? ref = app.place? ref := by
  simp only [place?, entry?_needImport]

@[simp]
theorem isTraced_needImport (id path : String) (ref : FuncRef) :
    (app.needImport id path).isTraced ref = app.isTraced ref := by
  simp only [isTraced, entry?_needImport]

/-! ## What the outline tells -/

theorem outline_modifyPackage (f : Package → Package)
    (hf : ∀ package, (f package).outline = package.outline) (id : String) :
    (app.modifyPackage id f).outline = app.outline := by
  have hmap : (app.packages.modify id f).map Package.outline = app.packages.map Package.outline := by
    simp only [Table.map, Table.modify, List.map_map, Table.mk.injEq]
    refine List.map_congr_left fun entry _ => ?_
    simp only [Function.comp_apply]
    split <;> simp [hf]
  simp only [outline, modifyPackage, hmap]

theorem outline_modifyFunc (ref : FuncRef) {f : FuncDecl → FuncDecl}
    (hf : ∀ func, (f func).outline = func.outline) :
    (app.modifyFunc ref f).outline = app.outline :=
  app.outline_modifyPackage (·.modifyFunc ref.key f)
    (fun package => package.outline_modifyFunc ref.key hf) ref.package

theorem outline_markTraced (ref : FuncRef) : (app.markTraced ref).outline = app.outline := by
  refine app.outline_modifyPackage (·.markTraced ref.key) (fun package => ?_) ref.package
  have hmap : (package.funcs.modify ref.key fun entry => { entry with traced := true }).map
      (fun entry => { entry with traced := false }) =
        package.funcs.map fun entry => { entry with traced := false } := by
    simp only [Table.map, Table.modify, List.map_map, Table.mk.injEq]
    refine List.map_congr_left fun entry _ => ?_
    simp only [Function.comp_apply]
    split <;> rfl
  simp only [Package.outline, Package.markTraced, hmap]

theorem outline_needImport (id path : String) : (app.needImport id path).outline = app.outline :=
  app.outline_modifyPackage (·.needImport path) (fun _ => rfl) id

@[simp]
theorem package?_outline (id : String) :
    app.outline.package? id = (app.package? id).map Package.outline :=
  Table.get?_map Package.outline app.packages id

/-- The functions at a place of two states with one outline are there or are not. -/
theorem isSome_funcAt?_outline (place : Place) :
    (app.outline.funcAt? place).isSome = (app.funcAt? place).isSome := by
  simp only [funcAt?, package?_outline]
  cases app.package? place.package with
  | none => rfl
  | some package =>
      cases hfile : package.files[place.file]? with
      | none => simp [Package.declAt?, Package.outline, hfile]
      | some file =>
          cases hdecl : file.tree.decls[place.decl]? <;>
            simp [Package.declAt?, Package.outline, SourceFile.outline, hfile, hdecl]

theorem place?_outline (ref : FuncRef) : app.outline.place? ref = app.place? ref := by
  simp only [place?, entry?, package?_outline]
  cases app.package? ref.package with
  | none => rfl
  | some package => cases hget : package.funcs.get? ref.key <;> simp [Package.outline, hget]

theorem isEligible_outline (ref : FuncRef) : app.outline.isEligible ref = app.isEligible ref := by
  simp only [isEligible, package?_outline]
  cases app.package? ref.package with
  | none => rfl
  | some package =>
      have hfile : (package.outline.fileOf? ref.key).any (!·.generated) =
          (package.fileOf? ref.key).any (!·.generated) := by
        simp only [Package.fileOf?, Package.outline, Table.get?_map]
        cases package.funcs.get? ref.key with
        | none => rfl
        | some entry => cases hfiles : package.files[entry.file]? <;> simp [SourceFile.outline, hfiles]
      simp only [Option.map_some, Option.any_some, hfile]
      rfl

theorem refs_outline : app.outline.refs = app.refs := by
  simp only [refs, outline, Table.map, List.flatMap_map]
  simp only [Package.outline, Table.keys, Table.map, List.map_map]
  rfl

end Application

/-! ## Coherence -/

namespace Application

/-- No two functions of the tables are declared at one place. -/
def PlacesDiffer (app : Application) : Prop :=
  ∀ ref ref' place, app.place? ref = some place → app.place? ref' = some place → ref = ref'

/-- The tables of an application agree with the names in them. -/
structure Coherent (app : Application) : Prop where
  ids : ∀ entry ∈ app.packages.entries, entry.2.id = entry.1
  keys : app.packages.keys.Nodup
  funcKeys : ∀ entry ∈ app.packages.entries, entry.2.funcs.keys.Nodup
  placesDiffer : app.PlacesDiffer

end Application

end TraceWeave.Program
