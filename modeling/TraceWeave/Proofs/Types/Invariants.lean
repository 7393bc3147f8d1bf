import TraceWeave.Proofs.Types.Linking

/-!
What resolving packages keeps.

Whatever resolution does to what is known, it does in a few ways: it adds objects and members,
links identifiers, gives types and enters what types declare.  A property that these ways keep
is kept by the resolution of packages (`Info.Stable.check`).  Declarations link only names of
declarations and the names in their types (`numbersDeclared`), but nothing inside of bodies, and
their names are all that becomes a member of a package (`membersOf`, `Info.Stable.declarations`).
Only the occurrences that were read from a file are numbered apart, and no other one is linked
(`Info.skipsGenerated_check`).
-/

namespace TraceWeave.Types

open TraceWeave.Syntax

/-! ## Identifiers of declarations -/

/-- The names in the types of a signature. -/
def eventsOfSignature (params : FieldList) (results : Option Results) : List Event :=
  params.fields.flatMap (fun field => eventsOfType field.type) ++ eventsOfResults results

def eventsOfTypeDef : TypeDef → List Event
  | .struct fields => fields.flatMap fun field => eventsOfType field.type
  | .interface embeds methods =>
      embeds.flatMap eventsOfType ++
        methods.flatMap fun method => eventsOfSignature method.params method.results
  | .other type => eventsOfType type

def numbersOfSpec : Spec → List Nat
  | .type _ _ definition => numbersIn (eventsOfTypeDef definition)
  | .value names type _ _ =>
      numbersIn (type.toList.flatMap eventsOfType) ++ names.map (·.id)

def numbersOfFunc (decl : FuncDecl) : List Nat :=
  numbersIn (eventsOfSignature decl.params decl.results) ++
    (numbersIn (decl.receiverField?.toList.flatMap fun field => eventsOfType field.type) ++
      [decl.name.id])

/-- The numbers of the identifiers that a declaration links outside of bodies. -/
def numbersDeclared (decl : Decl) : List Nat :=
  match decl.kind with
  | .func func => numbersOfFunc func
  | .gen gen => gen.specs.flatMap numbersOfSpec
  | _ => []

/-! ## Members of packages -/

def membersOfSpec : Spec → List (ObjectKind × String)
  | .type name _ _ => [(.type, name)]
  | .value names _ _ constant =>
      (names.filter (!·.isBlank)).map fun name =>
        (if constant then .constant else .variable, name.name)

/-- Methods are found by their receivers, so that they are no members. -/
def membersOfFunc (decl : FuncDecl) : List (ObjectKind × String) :=
  if decl.receiverType?.isSome then [] else [(.func, decl.name.name)]

/-- The members that a declaration adds to its package. -/
def membersOf (decl : Decl) : List (ObjectKind × String) :=
  match decl.kind with
  | .func func => membersOfFunc func
  | .gen gen => gen.specs.flatMap membersOfSpec
  | _ => []

/-! ## Invariants -/

namespace Info

/-- What resolution may change. -/
structure Bounds where
  /-- The numbers of the identifiers that may be linked. -/
  numbers : Nat → Prop := fun _ => True
  /-- The objects that may become members of their packages. -/
  members : Object → Prop := fun _ => True
  /-- The names that packages may be given, by their paths. -/
  names : String → String → Prop := fun _ _ => True

/-- An object of the kind and the name may become a member, whatever its type is. -/
def Bounds.HasMember (bounds : Bounds) (package : String) (member : ObjectKind × String) : Prop :=
  ∀ type, bounds.members { kind := member.1, name := member.2, package, type }

/-- The property stays true as long as no more is changed. -/
structure Stable (bounds : Bounds) (P : Info → Prop) : Prop where
  addObject {info : Info} (object : Object) : P info → P (info.addObject object).1
  addUse {info : Info} (ident : Ident) (id : Nat) : bounds.numbers ident.id → P info →
    P (info.addUse ident id)
  addMember {info : Info} {object : Object} {id : Nat} : bounds.members object →
    info.objects[id]? = some object → P info → P (info.addMember object.package object.name id)
  setObjectType {info : Info} (id : Nat) (type : Option Ty) : P info → P (info.setObjectType id type)
  modifyType {info : Info} (package name : String) (f : TypeDecl → TypeDecl) : P info →
    P (info.modifyType package name f)
  rename {info : Info} (path name : String) : bounds.names path name → P info →
    P (info.modifyPackage path fun package => { package with name })

end Info

namespace Resolver

open Info (Bounds Stable)

/-- The state belongs to the package and has the property. -/
structure Keeps (package : String) (P : Info → Prop) (resolver : Resolver) : Prop where
  package : resolver.package = package
  info : P resolver.info

/-- The step keeps the property in files of the package. -/
def Preserves {α : Type} (package : String) (P : Info → Prop) (step : Resolve α) : Prop :=
  ∀ resolver : Resolver, Keeps package P resolver → Keeps package P (step resolver).2

variable {α β : Type} {bounds : Bounds} {package : String} {P : Info → Prop}

theorem preserves_pure (a : α) : Preserves package P (pure a : Resolve α) := fun _ h => h

theorem preserves_get : Preserves package P (get : Resolve Resolver) := fun _ h => h

theorem preserves_bind {step : Resolve α} {rest : α → Resolve β} (h : Preserves package P step)
    (hrest : ∀ a, Preserves package P (rest a)) : Preserves package P (step >>= rest) :=
  fun resolver hresolver => hrest _ _ (h resolver hresolver)

/-- The rest of the step may count on the package. -/
theorem preserves_get_bind {rest : Resolver → Resolve β}
    (hrest : ∀ resolver : Resolver, resolver.package = package → Preserves package P (rest resolver)) :
    Preserves package P (get >>= rest) :=
  fun resolver hresolver => hrest resolver hresolver.package resolver hresolver

theorem preserves_modifyInfo {f : Info → Info} (h : ∀ info, P info → P (f info)) :
    Preserves package P (modifyInfo f) :=
  fun resolver hresolver => ⟨hresolver.package, h resolver.info hresolver.info⟩

theorem preserves_forM {step : α → Resolve Unit} {list : List α}
    (h : ∀ a ∈ list, Preserves package P (step a)) : Preserves package P (list.forM step) := by
  induction list with
  | nil => exact preserves_pure ()
  | cons a list ih =>
      obtain ⟨hfirst, hlist⟩ := List.forall_mem_cons.1 h
      exact preserves_bind hfirst fun _ => ih hlist

theorem preserves_mapM {step : α → Resolve β} {list : List α}
    (h : ∀ a ∈ list, Preserves package P (step a)) : Preserves package P (list.mapM step) := by
  induction list with
  | nil => exact preserves_pure []
  | cons a list ih =>
      obtain ⟨hfirst, hlist⟩ := List.forall_mem_cons.1 h
      rw [List.mapM_cons]
      exact preserves_bind hfirst fun b => preserves_bind (ih hlist) fun list =>
        preserves_pure (b :: list)

theorem preserves_foldlM {step : β → α → Resolve β} {list : List α}
    (h : ∀ a ∈ list, ∀ b, Preserves package P (step b a)) (b : β) : Preserves package P (list.foldlM step b) := by
  induction list generalizing b with
  | nil => exact preserves_pure b
  | cons a list ih =>
      obtain ⟨hfirst, hlist⟩ := List.forall_mem_cons.1 h
      exact preserves_bind (hfirst b) (ih hlist)

/-! ## Bodies -/

theorem holds_declareLocal (hP : Stable bounds P) {ident : Ident} (h : bounds.numbers ident.id)
    (kind : ObjectKind) (type : Option Ty) {resolver : Resolver} (hresolver : P resolver.info) :
    P (declareLocal ident kind type resolver).2.info := by
  rw [declareLocal_state]
  split
  · exact hresolver
  · exact hP.addUse ident _ h (hP.addObject _ hresolver)

theorem Acts.preserves (hP : Stable bounds P) {event : Event} {resolver resolver' : Resolver}
    (hacts : Acts resolver event resolver') (h : ∀ number ∈ numbersIn [event], bounds.numbers number)
    (hresolver : P resolver.info) : P resolver'.info := by
  cases event with
  | enter => exact hacts ▸ hresolver
  | leave => exact hacts ▸ hresolver
  | use ident =>
      obtain rfl : resolver' = _ := hacts
      rw [useIdent_state]
      split
      · exact hresolver
      · split
        · exact hP.addUse ident _ (h _ (mem_numbersIn rfl)) hresolver
        · exact hresolver
  | declare ident kind =>
      obtain ⟨type, rfl⟩ := hacts
      exact holds_declareLocal hP (h _ (mem_numbersIn rfl)) kind type hresolver
  | define ident =>
      obtain ⟨type, rfl⟩ := hacts
      rw [defineIdent_state]
      split
      · exact hP.addUse ident _ (h _ (mem_numbersIn rfl)) hresolver
      · exact holds_declareLocal hP (h _ (mem_numbersIn rfl)) .variable type hresolver
  | declareType name =>
      obtain rfl : resolver' = _ := hacts
      rw [declareTypeName_state]
      exact hP.addObject _ hresolver

theorem Runs.preserves (hP : Stable bounds P) {events : List Event} {resolver resolver' : Resolver}
    (hruns : Runs resolver events resolver') (h : ∀ number ∈ numbersIn events, bounds.numbers number)
    (hresolver : P resolver.info) : P resolver'.info := by
  induction hruns with
  | nil => exact hresolver
  | @event resolver next last event events hacts hrun ih =>
      rw [← List.singleton_append, numbersIn_append] at h
      obtain ⟨hevent, hevents⟩ := List.forall_mem_append.1 h
      exact ih hevents (hacts.preserves hP hevent hresolver)
  | retype id type hrun ih => exact ih h (hP.setObjectType id type hresolver)

theorem Traces.preserves (hP : Stable bounds P) {events : List Event} {step : Resolve α}
    (htraces : Traces events step) (h : ∀ number ∈ numbersIn events, bounds.numbers number) :
    Preserves package P step :=
  fun resolver hresolver => ⟨(htraces resolver).continues.package.trans hresolver.package,
    (htraces resolver).preserves hP h hresolver.info⟩

/-! ## Declarations -/

theorem mem_numbersIn_flatMap {eventsOf : α → List Event} {list : List α} {a : α} {number : Nat}
    (hmem : a ∈ list) (h : number ∈ numbersIn (eventsOf a)) :
    number ∈ numbersIn (list.flatMap eventsOf) := by
  obtain ⟨front, back, rfl⟩ := List.append_of_mem hmem
  rw [List.flatMap_append, List.flatMap_cons, numbersIn_append, numbersIn_append]
  exact List.mem_append_right _ (List.mem_append_left _ h)

/-- One of a list of types. -/
theorem preserves_resolveType (hP : Stable bounds P) (typeOf : α → Expr) {list : List α} {a : α}
    (hmem : a ∈ list)
    (h : ∀ number ∈ numbersIn (list.flatMap fun a => eventsOfType (typeOf a)), bounds.numbers number) :
    Preserves package P (resolveType (typeOf a)) :=
  (traces_resolveType _).preserves hP fun number hnumber => h number (mem_numbersIn_flatMap hmem hnumber)

theorem preserves_addMember (hP : Stable bounds P) {object : Object} (h : bounds.members object) :
    Preserves package P (addMember object) := by
  intro resolver hresolver
  exact ⟨hresolver.package,
    hP.addMember h Array.getElem?_push_size (hP.addObject object hresolver.info)⟩

theorem preserves_signature (hP : Stable bounds P) {params : FieldList} {results : Option Results}
    (h : ∀ number ∈ numbersIn (eventsOfSignature params results), bounds.numbers number) :
    Preserves package P (signature params results) := by
  rw [eventsOfSignature, numbersIn_append] at h
  obtain ⟨hparams, hresults⟩ := List.forall_mem_append.1 h
  unfold signature
  refine preserves_bind (preserves_mapM fun field hmem => ?_) fun paramTypes => ?_
  · exact preserves_bind (preserves_resolveType hP Field.type hmem hparams) fun type =>
      preserves_pure _
  · refine preserves_bind (preserves_mapM fun type hmem => ?_) fun resultTypes => preserves_pure _
    exact preserves_resolveType hP id hmem hresults

theorem preserves_declareFunc (hP : Stable bounds P) {decl : FuncDecl}
    (h : ∀ number ∈ numbersOfFunc decl, bounds.numbers number)
    (hmembers : ∀ member ∈ membersOfFunc decl, bounds.HasMember package member) :
    Preserves package P (declareFunc decl) := by
  unfold numbersOfFunc at h
  obtain ⟨hsignature, h⟩ := List.forall_mem_append.1 h
  obtain ⟨hreceiver, hname⟩ := List.forall_mem_append.1 h
  unfold membersOfFunc at hmembers
  unfold declareFunc
  refine preserves_bind (preserves_signature hP hsignature) fun signature => ?_
  refine preserves_get_bind fun resolver hpackage => ?_
  subst hpackage
  cases hreceiverType : decl.receiverType? with
  | none =>
      rw [hreceiverType] at hmembers
      refine preserves_bind (preserves_addMember hP (hmembers _ List.mem_cons_self _)) fun id => ?_
      exact preserves_modifyInfo fun info => hP.addUse decl.name id (hname _ List.mem_cons_self)
  | some receiver =>
      cases hfield : decl.receiverField? with
      | none => exact preserves_modifyInfo fun info => hP.modifyType _ _ _
      | some field =>
          rw [hfield] at hreceiver
          refine preserves_bind
            (preserves_resolveType hP Field.type (List.mem_singleton_self field) hreceiver) fun _ => ?_
          exact preserves_modifyInfo fun info => hP.modifyType _ _ _

theorem preserves_typeDeclOf (hP : Stable bounds P) (name : String) (isAlias : Bool)
    {definition : TypeDef} (decl : TypeDecl)
    (h : ∀ number ∈ numbersIn (eventsOfTypeDef definition), bounds.numbers number) :
    Preserves package P (typeDeclOf name isAlias definition decl) := by
  unfold typeDeclOf
  cases definition with
  | struct fields =>
      refine preserves_bind (preserves_mapM fun field hmem => ?_) fun fields => preserves_pure _
      exact preserves_bind (preserves_resolveType hP StructField.type hmem h) fun type =>
        preserves_pure _
  | interface embeds methods =>
      rw [eventsOfTypeDef, numbersIn_append] at h
      obtain ⟨hembeds, hmethods⟩ := List.forall_mem_append.1 h
      refine preserves_bind
        (preserves_mapM fun embed hmem => preserves_resolveType hP id hmem hembeds) fun embeds => ?_
      refine preserves_foldlM (fun method hmem decl => ?_) _
      refine preserves_bind (preserves_signature hP fun number hnumber => ?_) fun signature =>
        preserves_pure _
      exact hmethods number (mem_numbersIn_flatMap hmem hnumber)
  | other type =>
      refine preserves_bind ((traces_resolveType type).preserves hP h) fun underlying => ?_
      refine preserves_bind preserves_get fun resolver => ?_
      have hends : Preserves package P (if (isAlias || resolver.info.isInterface underlying) = true then
          return { decl with
            interface := resolver.info.isInterface underlying
            embeds := decl.embeds ++ [underlying] }
        else return decl) := by
        split
        · exact preserves_pure _
        · exact preserves_pure _
      dsimp only
      split
      · split
        · exact preserves_bind (preserves_modifyInfo fun info => hP.setObjectType _ _) fun _ => hends
        · exact hends
      · exact hends

theorem preserves_declareSpec (hP : Stable bounds P) {spec : Spec}
    (h : ∀ number ∈ numbersOfSpec spec, bounds.numbers number)
    (hmembers : ∀ member ∈ membersOfSpec spec, bounds.HasMember package member) :
    Preserves package P (declareSpec spec) := by
  unfold declareSpec
  refine preserves_get_bind fun resolver hpackage => ?_
  subst hpackage
  cases spec with
  | type name isAlias definition =>
      refine preserves_bind preserves_get fun resolver => ?_
      refine preserves_bind (preserves_typeDeclOf hP name isAlias _ h) fun decl => ?_
      exact preserves_modifyInfo fun info => hP.modifyType _ _ _
  | value names type values constant =>
      rw [numbersOfSpec] at h
      obtain ⟨htype, hnames⟩ := List.forall_mem_append.1 h
      refine preserves_bind ((traces_optional traces_resolveType type).preserves hP htype)
        fun type => ?_
      refine preserves_forM fun name hmem => ?_
      refine preserves_bind
        (preserves_addMember hP (hmembers _ (List.mem_map_of_mem hmem) _)) fun id => ?_
      refine preserves_modifyInfo fun info => hP.addUse name id ?_
      exact hnames _ (List.mem_map_of_mem (List.mem_of_mem_filter hmem))

def declareDecl (decl : Decl) : Resolve Unit :=
  match decl.kind with
  | .func func => declareFunc func
  | .gen gen => gen.specs.forM declareSpec
  | _ => return

theorem declareFile_eq (file : File) : declareFile file = file.decls.forM declareDecl := rfl

theorem preserves_declareDecl (hP : Stable bounds P) {decl : Decl}
    (hnumbers : ∀ number ∈ numbersDeclared decl, bounds.numbers number)
    (hmembers : ∀ member ∈ membersOf decl, bounds.HasMember package member) :
    Preserves package P (declareDecl decl) := by
  obtain ⟨kind, decs⟩ := decl
  cases kind with
  | func func => exact preserves_declareFunc hP hnumbers hmembers
  | gen gen =>
      refine preserves_forM fun spec hspec => preserves_declareSpec hP (fun number hnumber => ?_)
        fun member hmember => ?_
      · exact hnumbers number (List.mem_flatMap.2 ⟨spec, hspec, hnumber⟩)
      · exact hmembers member (List.mem_flatMap.2 ⟨spec, hspec, hmember⟩)
  | imports specs => exact preserves_pure ()
  | verbatim text => exact preserves_pure ()

theorem preserves_resolveFile (hP : Stable bounds P) {file : File}
    (h : ∀ number ∈ numbersIn (eventsOfFile file), bounds.numbers number) : Preserves package P (resolveFile file) :=
  (traces_resolveFile file).preserves hP h

end Resolver

/-! ## Packages -/

/-- The files of packages, each with the path of its package. -/
def filesOf (sources : List PackageSource) : List (String × File) :=
  sources.flatMap fun source => source.files.map (source.path, ·)

namespace Info

/-- Runs a step on a file. -/
def forEntry (step : File → Resolve Unit) (info : Info) (entry : String × File) : Info :=
  (step entry.2 (Resolver.forFile info entry.1 entry.2)).2.info

theorem forFiles_eq (info : Info) (sources : List PackageSource) (step : File → Resolve Unit) :
    info.forFiles sources step = (filesOf sources).foldl (forEntry step) info := by
  unfold forFiles filesOf
  rw [List.foldl_flatMap]
  simp only [List.foldl_map]
  rfl

/-- What is known when the declarations of packages have been read. -/
def declarations (info : Info) (sources : List PackageSource) : Info :=
  let info := sources.foldl (fun info source =>
    info.modifyPackage source.path fun package => { package with name := source.name }) info
  let info := sources.foldl declareTypeNames info
  info.forFiles sources Resolver.declareFile

theorem check_eq (info : Info) (sources : List PackageSource) :
    info.check sources = (info.declarations sources).forFiles sources Resolver.resolveFile := rfl

/-- The numbers of all identifiers that declarations link. -/
def declaredNumbers (sources : List PackageSource) : List Nat :=
  (filesOf sources).flatMap fun entry => entry.2.decls.flatMap numbersDeclared

/-- The events of the bodies of files. -/
def eventsOfFiles (files : List (String × File)) : List Event :=
  files.flatMap fun entry => eventsOfFile entry.2

def specsOf (source : PackageSource) : List Spec :=
  source.files.flatMap fun file => file.decls.flatMap fun decl =>
    match decl.kind with
    | .gen gen => gen.specs
    | _ => []

/-- A declared type becomes a member under its name. -/
def declareTypeSpec (path : String) (info : Info) (spec : Spec) : Info :=
  match spec with
  | .type name _ _ =>
      let (info, id) := info.addObject
        { kind := .type, name, package := path, type := some (.named path name) }
      (info.addMember path name id).modifyType path name fun decl => decl
  | .value _ _ _ _ => info

theorem declareTypeNames_eq (info : Info) (source : PackageSource) :
    info.declareTypeNames source = (specsOf source).foldl (declareTypeSpec source.path) info := rfl

theorem exists_decl_of_spec {source : PackageSource} {spec : Spec} (hspec : spec ∈ specsOf source)
    {member : ObjectKind × String} (hmember : member ∈ membersOfSpec spec) :
    ∃ file ∈ source.files, ∃ decl ∈ file.decls, member ∈ membersOf decl := by
  obtain ⟨file, hfile, hspec⟩ := List.mem_flatMap.1 hspec
  obtain ⟨⟨kind, decs⟩, hdecl, hspec⟩ := List.mem_flatMap.1 hspec
  refine ⟨file, hfile, ⟨kind, decs⟩, hdecl, ?_⟩
  cases kind with
  | gen gen => exact List.mem_flatMap.2 ⟨spec, hspec, hmember⟩
  | _ => cases hspec

/-- The declarations of the packages change no more than may be changed. -/
structure Bounds.Admits (bounds : Bounds) (sources : List PackageSource) : Prop where
  numbers : ∀ number ∈ declaredNumbers sources, bounds.numbers number
  members {path : String} {file : File} {decl : Decl} : (path, file) ∈ filesOf sources →
    decl ∈ file.decls → ∀ member ∈ membersOf decl, bounds.HasMember path member
  names : ∀ source ∈ sources, bounds.names source.path source.name

theorem Bounds.Admits.all (sources : List PackageSource) : Bounds.Admits {} sources where
  numbers _ _ := trivial
  members _ _ _ _ _ := trivial
  names _ _ := trivial

theorem mem_filesOf {sources : List PackageSource} {source : PackageSource} {file : File}
    (hsource : source ∈ sources) (hfile : file ∈ source.files) :
    (source.path, file) ∈ filesOf sources :=
  List.mem_flatMap.2 ⟨source, hsource, List.mem_map_of_mem hfile⟩

namespace Stable

variable {bounds : Bounds} {P : Info → Prop} {info : Info}

theorem foldl {α : Type} {f : Info → α → Info} {list : List α}
    (h : ∀ a ∈ list, ∀ info, P info → P (f info a)) (hinfo : P info) : P (list.foldl f info) := by
  induction list generalizing info with
  | nil => exact hinfo
  | cons a list ih =>
      obtain ⟨hfirst, hlist⟩ := List.forall_mem_cons.1 h
      exact ih hlist (hfirst info hinfo)

theorem forFile (hP : Stable bounds P) (package : String) (file : File) (hinfo : P info) :
    Resolver.Keeps package P (Resolver.forFile info package file) := by
  unfold Resolver.forFile
  dsimp only
  generalize hstart : ({ info, package } : Resolver) = resolver
  have hresolver : Resolver.Keeps package P resolver := hstart ▸ ⟨rfl, hinfo⟩
  clear hstart
  induction file.imports generalizing resolver with
  | nil => exact hresolver
  | cons spec specs ih =>
      rw [List.foldl_cons]
      refine ih _ ?_
      split
      · exact hresolver
      · exact ⟨hresolver.package, hP.addObject _ hresolver.info⟩

theorem forFiles (hP : Stable bounds P) {files : List (String × File)}
    {step : File → Resolve Unit}
    (hstep : ∀ entry ∈ files, Resolver.Preserves entry.1 P (step entry.2)) (hinfo : P info) :
    P (files.foldl (forEntry step) info) :=
  foldl (fun entry hmem _ h => (hstep entry hmem _ (hP.forFile entry.1 entry.2 h)).info) hinfo

theorem declareTypeSpec (hP : Stable bounds P) {path : String} {spec : Spec}
    (h : ∀ member ∈ membersOfSpec spec, bounds.HasMember path member) (hinfo : P info) :
    P (info.declareTypeSpec path spec) := by
  cases spec with
  | value names type values constant => exact hinfo
  | type name isAlias definition =>
      have hmember := hP.addMember (h _ List.mem_cons_self (some (.named path name)))
        Array.getElem?_push_size (hP.addObject _ hinfo)
      exact hP.modifyType path name (fun decl => decl) hmember

theorem declareTypeNames (hP : Stable bounds P) {source : PackageSource}
    (h : ∀ file ∈ source.files, ∀ decl ∈ file.decls, ∀ member ∈ membersOf decl,
      bounds.HasMember source.path member) (hinfo : P info) :
    P (info.declareTypeNames source) := by
  rw [declareTypeNames_eq]
  refine foldl (fun spec hspec info => hP.declareTypeSpec fun member hmember => ?_) hinfo
  obtain ⟨file, hfile, decl, hdecl, hmember⟩ := exists_decl_of_spec hspec hmember
  exact h file hfile decl hdecl member hmember

theorem declareFiles (hP : Stable bounds P) {sources : List PackageSource}
    (h : bounds.Admits sources) {files : List (String × File)} (hfiles : files ⊆ filesOf sources)
    (hinfo : P info) : P (files.foldl (forEntry Resolver.declareFile) info) := by
  refine hP.forFiles (fun entry hmem => ?_) hinfo
  rw [Resolver.declareFile_eq]
  refine Resolver.preserves_forM fun decl hdecl => Resolver.preserves_declareDecl hP ?_ ?_
  · exact fun number hnumber => h.numbers number
      (List.mem_flatMap.2 ⟨entry, hfiles hmem, List.mem_flatMap.2 ⟨decl, hdecl, hnumber⟩⟩)
  · exact h.members (hfiles hmem) hdecl

theorem declarations (hP : Stable bounds P) {sources : List PackageSource}
    (h : bounds.Admits sources) (hinfo : P info) : P (info.declarations sources) := by
  rw [Info.declarations, forFiles_eq]
  refine hP.declareFiles h (List.Subset.refl _) (foldl (fun source hsource info hinfo => ?_)
    (foldl (fun source hsource info => hP.rename _ _ (h.names source hsource)) hinfo))
  exact hP.declareTypeNames (fun file hfile decl => h.members (mem_filesOf hsource hfile)) hinfo

theorem resolveFiles (hP : Stable bounds P) (hnumbers : ∀ number, bounds.numbers number)
    (sources : List PackageSource) (hinfo : P info) :
    P (info.forFiles sources Resolver.resolveFile) := by
  rw [forFiles_eq]
  exact hP.forFiles
    (fun entry _ => Resolver.preserves_resolveFile hP fun number _ => hnumbers number) hinfo

/-- What stays true whatever is linked, is true behind the resolution of packages. -/
theorem check (hP : Stable bounds P) {sources : List PackageSource} (h : bounds.Admits sources)
    (hnumbers : ∀ number, bounds.numbers number) (hinfo : P info) : P (info.check sources) :=
  hP.resolveFiles hnumbers sources (hP.declarations h hinfo)

/-- What stays true whatever is changed. -/
theorem check_all (hP : Stable {} P) (sources : List PackageSource) (hinfo : P info) :
    P (info.check sources) :=
  hP.check (.all sources) (fun _ => trivial) hinfo

theorem predeclaredNames (hP : Stable bounds P) (hempty : P {})
    (hadd : ∀ {info : Info} (kind : ObjectKind) (name : String) (type : Option Ty), P info →
      P (info.addPredeclared kind name type)) : P Info.predeclaredNames := by
  have hnames : ∀ (kind : ObjectKind) (type : String → Option Ty) (names : List String)
      {info : Info}, P info →
        P (names.foldl (fun info name => info.addPredeclared kind name (type name)) info) :=
    fun kind type names _ => foldl fun name _ _ => hadd kind name (type name)
  have htypes := hnames .type (fun name => some (.named "" name)) Known.typeNames hempty
  have hfunctions := hnames .func (fun _ => none) Known.functionNames htypes
  unfold Info.predeclaredNames
  exact hP.modifyType "" "error" _ (hnames .constant constantType Known.constantNames hfunctions)

/-- What is known before any application has the property too. -/
theorem known (hP : Stable {} P) (h : P Info.predeclaredNames) : P Info.known.1 := by
  have hread : ∀ read : Option (List PackageSource × Nat), P (withKnown read).1
    | none => h
    | some (sources, _) => hP.check_all sources h
  exact hread _

end Stable

/-! ## Links -/

/-- Other links than those of the identifiers leave a number alone. -/
theorem stable_uses (number : Nat) (link : Option Nat) :
    Stable { numbers := (· ≠ number) } fun info => info.uses.get? number = link where
  addObject _ h := h
  addUse {info} ident id hne h := (info.uses_addUse ident id hne.symm).trans h
  addMember _ _ h := h
  setObjectType _ _ h := h
  modifyType _ _ _ h := h
  rename _ _ _ h := h

theorem uses_declarations {sources : List PackageSource} {number : Nat}
    (hnumber : number ∉ declaredNumbers sources) (info : Info) :
    (info.declarations sources).uses.get? number = info.uses.get? number :=
  (stable_uses number _).declarations
    { numbers := fun _ hmem heq => hnumber (heq ▸ hmem)
      members := fun _ _ _ _ _ => trivial
      names := fun _ _ => trivial } rfl

end Info

/-! ## Generated identifiers -/

/-- Generated identifiers stand for nothing. -/
def SkipsGenerated (info : Info) : Prop :=
  ∀ ident : Ident, ident.isGenerated = true → info.objectId? ident = none

namespace SkipsGenerated

variable {info info' : Info}

theorem of_uses (h : SkipsGenerated info) (huses : info'.uses = info.uses) : SkipsGenerated info' := by
  intro ident hident
  rw [Info.objectId?, huses]
  exact h ident hident

theorem addUse (h : SkipsGenerated info) (ident : Ident) (id : Nat) :
    SkipsGenerated (info.addUse ident id) := by
  unfold Info.addUse
  split
  · exact h
  · next hnumbered =>
    intro other hother
    have hne : ident.id ≠ other.id := by
      simp only [Ident.isGenerated, beq_iff_eq] at hnumbered hother
      omega
    have hold := h other hother
    simp only [Info.objectId?] at hold ⊢
    simpa [Std.HashMap.getElem?_insert, hne] using hold

end SkipsGenerated

theorem skipsGenerated_empty : SkipsGenerated {} := by
  intro ident _
  simp [Info.objectId?]

namespace Info

variable {info : Info}

theorem stable_skipsGenerated : Stable {} SkipsGenerated where
  addObject _ h := h.of_uses rfl
  addUse ident id _ h := h.addUse ident id
  addMember _ _ h := h.of_uses rfl
  setObjectType _ _ h := h.of_uses rfl
  modifyType _ _ _ h := h.of_uses rfl
  rename _ _ _ h := h.of_uses rfl

/-- Resolution links no generated identifier. -/
theorem skipsGenerated_check (h : SkipsGenerated info) (sources : List PackageSource) :
    SkipsGenerated (info.check sources) :=
  stable_skipsGenerated.check_all sources h

/-- What is known before any application links no generated identifier. -/
theorem skipsGenerated_known : SkipsGenerated known.1 :=
  stable_skipsGenerated.known (stable_skipsGenerated.predeclaredNames skipsGenerated_empty
    fun _ _ _ h => h.of_uses rfl)

end Info

end TraceWeave.Types
