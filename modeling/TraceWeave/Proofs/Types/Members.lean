import TraceWeave.Proofs.Types.Names

/-!
Members of resolved packages.

A name that a package declares is a member of it when packages have been resolved, of the kind
that its declaration has (`Info.hasMember_check`).  All other members are as they were
(`Info.memberId?_check`), and so are the names of packages that are not resolved
(`Info.packageName?_check_other`).  Objects that are known before are known behind it too, with
other types at most (`Info.thing?_check`).
-/

namespace TraceWeave.Types

open TraceWeave.Syntax

/-- The object without its type. -/
def Object.untyped (object : Object) : Object := { object with type := none }

namespace Info

variable {info info' : Info} {path name : String}

/-- What the number stands for, whatever its type is. -/
def thing? (info : Info) (id : Nat) : Option Object := (info.objects[id]?).map Object.untyped

/-- The number of a member of a package. -/
def memberId? (info : Info) (path name : String) : Option Nat :=
  (info.packages.get? path).bind (·.members.get? name)

theorem thing?_of_objects {id : Nat} {object : Object} (h : info.objects[id]? = some object) :
    info.thing? id = some object.untyped :=
  congrArg (Option.map Object.untyped) h

theorem Grows.thing? (h : Grows info info') {id : Nat} {object : Object}
    (hthing : info.thing? id = some object) : info'.thing? id = some object := by
  obtain ⟨found, hfound, rfl⟩ := Option.map_eq_some_iff.1 hthing
  obtain ⟨type, htyped⟩ := h.objects hfound
  exact (thing?_of_objects htyped).trans rfl

/-! ## What changes do to members -/

theorem memberId?_addMember (info : Info) (path name : String) (id : Nat) (path' name' : String) :
    (info.addMember path name id).memberId? path' name' =
      if path = path' ∧ name = name' then some id else info.memberId? path' name' := by
  simp only [memberId?, addMember, modifyPackage, Std.HashMap.get?_eq_getElem?,
    Std.HashMap.getElem?_insert, beq_iff_eq]
  by_cases hpath : path = path'
  · subst hpath
    by_cases hname : name = name'
    · simp [hname]
    · cases hfound : info.packages[path]? <;> simp [hname, Std.HashMap.getElem?_insert]
  · simp [hpath]

theorem memberId?_rename (info : Info) (path name : String) (path' name' : String) :
    (info.modifyPackage path fun package => { package with name }).memberId? path' name' =
      info.memberId? path' name' := by
  simp only [memberId?, modifyPackage, Std.HashMap.get?_eq_getElem?, Std.HashMap.getElem?_insert,
    beq_iff_eq]
  by_cases hpath : path = path'
  · subst hpath
    cases hfound : info.packages[path]? <;> simp
  · simp [hpath]

theorem packageName?_modifyPackage (info : Info) (path : String) (f : PackageInfo → PackageInfo)
    (path' : String) :
    (info.modifyPackage path f).packageName? path' =
      if path = path' then some (f ((info.packages.get? path).getD {})).name
      else info.packageName? path' := by
  simp only [packageName?, modifyPackage, Std.HashMap.get?_eq_getElem?, Std.HashMap.getElem?_insert,
    beq_iff_eq]
  by_cases hpath : path = path' <;> simp [hpath]

/-! ## What is kept -/

/-- Objects may get other types only. -/
theorem stable_thing (id : Nat) (object : Object) :
    Stable {} fun info => info.thing? id = some object where
  addObject {info} other h := (Grows.addObject info other).thing? h
  addUse ident id' _ h := by
    unfold addUse
    split <;> exact h
  addMember _ _ h := h
  setObjectType {info} id' type h := (Grows.setObjectType info id' type).thing? h
  modifyType _ _ _ h := h
  rename _ _ _ h := h

theorem stable_predeclared (predeclared : Std.HashMap String Nat) :
    Stable {} fun info => info.predeclared = predeclared where
  addObject _ h := h
  addUse {info} ident id _ h := by
    unfold addUse
    split <;> exact h
  addMember _ _ h := h
  setObjectType _ _ h := h
  modifyType _ _ _ h := h
  rename _ _ _ h := h

/-- An object that is known is the same one behind the resolution of packages. -/
theorem thing?_check {id : Nat} {name : String} (h : info.Names id name) (sources : List PackageSource) :
    (info.check sources).thing? id = info.thing? id := by
  obtain ⟨object, hobject, -⟩ := h
  have hthing := thing?_of_objects hobject
  rw [hthing]
  exact (stable_thing id object.untyped).check_all sources hthing

theorem predeclared_check (info : Info) (sources : List PackageSource) :
    (info.check sources).predeclared = info.predeclared :=
  (stable_predeclared info.predeclared).check_all sources rfl

/-- A name that no declaration gives to a member. -/
theorem stable_memberId (path name : String) (id : Option Nat) :
    Stable { members := fun object => ¬(object.package = path ∧ object.name = name) }
      fun info => info.memberId? path name = id where
  addObject _ h := h
  addUse {info} ident id _ h := by
    unfold addUse
    split <;> exact h
  addMember {info object id'} hother _ h := by
    rw [memberId?_addMember, if_neg hother]
    exact h
  setObjectType _ _ h := h
  modifyType _ _ _ h := h
  rename path' name' _ h := (memberId?_rename _ path' name' path name).trans h

/-- The name is a member of the package, of the kind that is given. -/
def HasMember (info : Info) (path : String) (member : ObjectKind × String) : Prop :=
  (info.memberId? path member.2).bind info.thing? =
    some { kind := member.1, name := member.2, package := path, type := none }

/-- The name of a member is declared with one kind only. -/
def onlyKind (path : String) (member : ObjectKind × String) : Bounds where
  members object := object.package = path → object.name = member.2 →
    object.untyped = { kind := member.1, name := member.2, package := path, type := none }

theorem stable_hasMember (path : String) (member : ObjectKind × String) :
    Stable (onlyKind path member) fun info => info.HasMember path member where
  addObject {info} object h := by
    obtain ⟨id, hid, hthing⟩ := Option.bind_eq_some_iff.1 h
    exact Option.bind_eq_some_iff.2 ⟨id, hid, (Grows.addObject info object).thing? hthing⟩
  addUse {info} ident id _ h := by
    unfold addUse
    split <;> exact h
  addMember {info object id} honly hobject h := by
    unfold HasMember
    rw [memberId?_addMember]
    split
    · next heq => exact (thing?_of_objects hobject).trans (congrArg some (honly heq.1 heq.2))
    · exact h
  setObjectType {info} id type h := by
    obtain ⟨id', hid, hthing⟩ := Option.bind_eq_some_iff.1 h
    exact Option.bind_eq_some_iff.2 ⟨id', hid, (Grows.setObjectType info id type).thing? hthing⟩
  modifyType _ _ _ h := h
  rename {info} path' name _ h := by
    unfold HasMember
    rw [memberId?_rename]
    exact h

end Info

/-! ## What declarations bring about -/

namespace Resolver

open Info (Bounds Stable onlyKind stable_hasMember)

variable {α β : Type} {bounds : Bounds} {package : String} {P : Info → Prop}

/-- The step brings the property about. -/
def Establishes (package : String) (P : Info → Prop) (step : Resolve α) : Prop :=
  ∀ resolver : Resolver, resolver.package = package → Keeps package P (step resolver).2

theorem establishes_get_bind {rest : Resolver → Resolve β}
    (hrest : ∀ resolver : Resolver, resolver.package = package → Establishes package P (rest resolver)) :
    Establishes package P (get >>= rest) :=
  fun resolver hpackage => hrest resolver hpackage resolver hpackage

theorem establishes_bind {step : Resolve α} {rest : α → Resolve β} (h : Establishes package P step)
    (hrest : ∀ a, Preserves package P (rest a)) : Establishes package P (step >>= rest) :=
  fun resolver hpackage => hrest _ _ (h resolver hpackage)

/-- What stands in front does not matter. -/
theorem establishes_behind {step : Resolve α} {rest : α → Resolve β}
    (h : Preserves package (fun _ => True) step)
    (hrest : ∀ a, Establishes package P (rest a)) : Establishes package P (step >>= rest) :=
  fun resolver hpackage => hrest _ _ (h resolver ⟨hpackage, trivial⟩).package

theorem establishes_forM {step : α → Resolve Unit} {list : List α} {a : α} (hmem : a ∈ list)
    (h : Establishes package P (step a))
    (hkeeps : ∀ b ∈ list, Preserves package (fun _ => True) (step b) ∧ Preserves package P (step b)) :
    Establishes package P (list.forM step) := by
  induction list with
  | nil => contradiction
  | cons b list ih =>
      obtain ⟨hfirst, hlist⟩ := List.forall_mem_cons.1 hkeeps
      obtain rfl | hmem := List.mem_cons.1 hmem
      · exact establishes_bind h fun _ => preserves_forM fun b hb => (hlist b hb).2
      · exact establishes_behind hfirst.1 fun _ => ih hmem hlist

theorem stable_true : Stable {} fun _ => True where
  addObject _ _ := trivial
  addUse _ _ _ _ := trivial
  addMember _ _ _ := trivial
  setObjectType _ _ _ := trivial
  modifyType _ _ _ _ := trivial
  rename _ _ _ _ := trivial

theorem hasMember_addMember (info : Info) {object : Object} {id : Nat}
    (hobject : info.objects[id]? = some object) (himported : object.imported = none) :
    (info.addMember object.package object.name id).HasMember object.package
      (object.kind, object.name) := by
  unfold Info.HasMember
  rw [Info.memberId?_addMember, if_pos ⟨rfl, rfl⟩]
  obtain ⟨kind, name, package, type, imported⟩ := object
  obtain rfl : imported = none := himported
  exact Info.thing?_of_objects hobject

theorem establishes_addMember (package : String) (member : ObjectKind × String) (type : Option Ty) :
    Establishes package (·.HasMember package member)
      (addMember { kind := member.1, name := member.2, package, type }) := by
  intro resolver hpackage
  exact ⟨hpackage, hasMember_addMember _ Array.getElem?_push_size rfl⟩

theorem establishes_declareFunc {decl : FuncDecl} {member : ObjectKind × String}
    (hmem : member ∈ membersOfFunc decl) :
    Establishes package (·.HasMember package member) (declareFunc decl) := by
  unfold membersOfFunc at hmem
  cases hreceiver : decl.receiverType? with
  | some receiver =>
      rw [hreceiver] at hmem
      contradiction
  | none =>
      rw [hreceiver] at hmem
      obtain rfl := List.mem_singleton.1 hmem
      unfold declareFunc
      rw [hreceiver]
      refine establishes_behind (preserves_signature stable_true fun _ _ => trivial) fun signature => ?_
      refine establishes_get_bind fun resolver hpackage => ?_
      subst hpackage
      refine establishes_bind (establishes_addMember _ (.func, decl.name.name) _) fun id => ?_
      exact preserves_modifyInfo fun info => (stable_hasMember _ _).addUse decl.name id trivial

theorem establishes_declareSpec {names : List Ident} {type : Option Expr} {values : List Expr}
    {constant : Bool} {member : ObjectKind × String}
    (hmem : member ∈ membersOfSpec (.value names type values constant))
    (hmembers : ∀ other ∈ membersOfSpec (.value names type values constant),
      (onlyKind package member).HasMember package other) :
    Establishes package (·.HasMember package member)
      (declareSpec (.value names type values constant)) := by
  obtain ⟨name, hname, rfl⟩ := List.mem_map.1 hmem
  have hstable := stable_hasMember package (if constant then .constant else .variable, name.name)
  unfold declareSpec
  refine establishes_get_bind fun resolver hpackage => ?_
  subst hpackage
  refine establishes_behind
    ((traces_optional traces_resolveType type).preserves stable_true fun _ _ => trivial) fun type => ?_
  refine establishes_forM hname ?_ fun other hother => ⟨?_, ?_⟩
  · refine establishes_bind (establishes_addMember _ (_, name.name) type) fun id => ?_
    exact preserves_modifyInfo fun info => hstable.addUse name id trivial
  · refine preserves_bind (preserves_addMember stable_true trivial) fun id => ?_
    exact preserves_modifyInfo fun info _ => trivial
  · refine preserves_bind
      (preserves_addMember hstable (hmembers _ (List.mem_map_of_mem hother) type)) fun id => ?_
    exact preserves_modifyInfo fun info => hstable.addUse other id trivial

theorem establishes_declareDecl {decl : Decl} {member : ObjectKind × String}
    (hmem : member ∈ membersOf decl) (htype : member.1 ≠ .type)
    (hmembers : ∀ other ∈ membersOf decl, (onlyKind package member).HasMember package other) :
    Establishes package (·.HasMember package member) (declareDecl decl) := by
  obtain ⟨kind, decs⟩ := decl
  cases kind with
  | func func => exact establishes_declareFunc hmem
  | gen gen =>
      obtain ⟨spec, hspec, hmem⟩ := List.mem_flatMap.1 hmem
      have hothers : ∀ spec ∈ gen.specs, ∀ other ∈ membersOfSpec spec,
          (onlyKind package member).HasMember package other :=
        fun spec hspec other hother => hmembers other (List.mem_flatMap.2 ⟨spec, hspec, hother⟩)
      refine establishes_forM hspec ?_ fun other hother => ⟨?_, ?_⟩
      · cases spec with
        | type name isAlias definition =>
            obtain rfl := List.mem_singleton.1 hmem
            contradiction
        | value names type values constant => exact establishes_declareSpec hmem (hothers _ hspec)
      · exact preserves_declareSpec stable_true (fun _ _ => trivial) fun _ _ _ => trivial
      · exact preserves_declareSpec (stable_hasMember package member) (fun _ _ => trivial)
          (hothers other hother)
  | imports specs => contradiction
  | verbatim text => contradiction

theorem establishes_declareFile {file : File} {decl : Decl} {member : ObjectKind × String}
    (hdecl : decl ∈ file.decls) (hmem : member ∈ membersOf decl) (htype : member.1 ≠ .type)
    (hmembers : ∀ decl ∈ file.decls, ∀ other ∈ membersOf decl,
      (onlyKind package member).HasMember package other) :
    Establishes package (·.HasMember package member) (declareFile file) := by
  rw [declareFile_eq]
  refine establishes_forM hdecl (establishes_declareDecl hmem htype (hmembers decl hdecl))
    fun other hother => ⟨?_, ?_⟩
  · exact preserves_declareDecl stable_true (fun _ _ => trivial) fun _ _ _ => trivial
  · exact preserves_declareDecl (stable_hasMember package member) (fun _ _ => trivial)
      (hmembers other hother)

end Resolver

namespace Info

/-! ## Resolved packages -/

variable {sources : List PackageSource} {info : Info} {path : String} {member : ObjectKind × String}

/-- One element of the list brings about what the others keep. -/
theorem foldl_establishes {α : Type} {P : Info → Prop} {f : Info → α → Info} {list : List α} {a : α}
    (hmem : a ∈ list) (h : ∀ info, P (f info a))
    (hkeeps : ∀ b ∈ list, ∀ info, P info → P (f info b)) (info : Info) : P (list.foldl f info) := by
  obtain ⟨front, back, rfl⟩ := List.append_of_mem hmem
  rw [List.foldl_append, List.foldl_cons]
  refine Stable.foldl (fun b hb => hkeeps b ?_) (h _)
  exact List.mem_append_right _ (List.mem_cons_of_mem _ hb)

theorem exists_typeSpec {source : PackageSource} {file : File} {decl : Decl} {name : String}
    (hfile : file ∈ source.files) (hdecl : decl ∈ file.decls) (hmem : (.type, name) ∈ membersOf decl) :
    ∃ isAlias definition, Spec.type name isAlias definition ∈ specsOf source := by
  obtain ⟨kind, decs⟩ := decl
  cases kind with
  | func func =>
      simp only [membersOf, membersOfFunc] at hmem
      split at hmem
      · contradiction
      · cases List.mem_singleton.1 hmem
  | gen gen =>
      obtain ⟨spec, hspec, hmem⟩ := List.mem_flatMap.1 hmem
      cases spec with
      | type name' isAlias definition =>
          obtain rfl : name = name' := congrArg Prod.snd (List.mem_singleton.1 hmem)
          exact ⟨isAlias, definition,
            List.mem_flatMap.2 ⟨file, hfile, List.mem_flatMap.2 ⟨_, hdecl, hspec⟩⟩⟩
      | value names type values constant =>
          obtain ⟨name', -, heq⟩ := List.mem_map.1 hmem
          cases constant <;> cases congrArg Prod.fst heq
  | imports specs => contradiction
  | verbatim text => contradiction

theorem hasMember_declareTypeNames {source : PackageSource} {file : File} {decl : Decl}
    {name : String} (hfile : file ∈ source.files) (hdecl : decl ∈ file.decls)
    (hmem : (.type, name) ∈ membersOf decl)
    (hothers : ∀ file ∈ source.files, ∀ decl ∈ file.decls, ∀ other ∈ membersOf decl,
      (onlyKind source.path (.type, name)).HasMember source.path other) (info : Info) :
    (info.declareTypeNames source).HasMember source.path (.type, name) := by
  have hstable := stable_hasMember source.path (.type, name)
  obtain ⟨isAlias, definition, hspec⟩ := exists_typeSpec hfile hdecl hmem
  rw [declareTypeNames_eq]
  refine foldl_establishes (P := fun info => info.HasMember source.path (.type, name)) hspec
    (fun info => ?_) (fun spec hspec info => ?_) info
  · have hmember := Resolver.hasMember_addMember (info.addObject
      { kind := .type, name, package := source.path, type := some (.named source.path name) }).1
      Array.getElem?_push_size rfl
    exact hstable.modifyType source.path name _ hmember
  · refine hstable.declareTypeSpec fun other hother => ?_
    obtain ⟨file, hfile, decl, hdecl, hother⟩ := exists_decl_of_spec hspec hother
    exact hothers file hfile decl hdecl other hother

/-- What a declaration declares is a member, if its name is declared with no other kind. -/
theorem hasMember_check {file : File} {decl : Decl} (hfile : (path, file) ∈ filesOf sources)
    (hdecl : decl ∈ file.decls) (hmem : member ∈ membersOf decl)
    (honly : (onlyKind path member).Admits sources) (info : Info) :
    (info.check sources).HasMember path member := by
  have hstable := stable_hasMember path member
  refine hstable.resolveFiles (fun _ => trivial) sources ?_
  rw [forFiles_eq]
  by_cases htype : member.1 = .type
  · obtain ⟨kind, name⟩ := member
    obtain rfl : kind = .type := htype
    refine hstable.declareFiles honly (List.Subset.refl _) ?_
    obtain ⟨source, hsource, hentry⟩ := List.mem_flatMap.1 hfile
    obtain ⟨file', hfile', heq⟩ := List.mem_map.1 hentry
    obtain ⟨rfl, rfl⟩ := Prod.mk.inj heq
    have hothers : ∀ other ∈ sources, ∀ file ∈ other.files, ∀ decl ∈ file.decls,
        ∀ member ∈ membersOf decl, (onlyKind source.path (.type, name)).HasMember other.path member :=
      fun other hother file hfile decl => honly.members (mem_filesOf hother hfile)
    exact foldl_establishes (P := fun info => info.HasMember source.path (.type, name)) hsource
      (hasMember_declareTypeNames hfile' hdecl hmem (hothers source hsource))
      (fun other hother info => hstable.declareTypeNames (hothers other hother)) _
  · refine foldl_establishes (P := fun info => info.HasMember path member) hfile (fun info => ?_)
      (fun entry hentry info => ?_) _
    · have hstart : Resolver.Keeps path (fun _ => True) (Resolver.forFile info path file) :=
        Resolver.stable_true.forFile path file trivial
      refine (Resolver.establishes_declareFile hdecl hmem htype (fun other hother => ?_) _
        hstart.package).info
      exact honly.members hfile hother
    · intro hinfo
      have hkept : ([entry].foldl (forEntry Resolver.declareFile) info).HasMember path member :=
        hstable.declareFiles honly (List.cons_subset.2 ⟨hentry, List.nil_subset _⟩) hinfo
      exact hkept

/-- Names that the package does not declare are members as before. -/
theorem memberId?_check {name : String}
    (h : ∀ {file : File} {decl : Decl}, (path, file) ∈ filesOf sources → decl ∈ file.decls →
      ∀ member ∈ membersOf decl, member.2 ≠ name) (info : Info) :
    (info.check sources).memberId? path name = info.memberId? path name := by
  refine (stable_memberId path name _).check
    ⟨fun _ _ => trivial, fun {path' file decl} hfile hdecl member hmember type => ?_, fun _ _ => trivial⟩
    (fun _ => trivial) rfl
  rintro ⟨rfl, hname⟩
  exact h hfile hdecl member hmember hname

/-! ## Names of packages -/

theorem stable_packageName (path name : String) :
    Stable { names := fun path' name' => path' = path → name' = name }
      fun info => info.packageName? path = some name where
  addObject _ h := h
  addUse {info} ident id _ h := by
    unfold addUse
    split <;> exact h
  addMember {info object id} _ _ h := by
    obtain ⟨package, hpackage, rfl⟩ := Option.map_eq_some_iff.1 h
    unfold addMember
    rw [packageName?_modifyPackage]
    split
    · next heq =>
      subst heq
      rw [hpackage]
      rfl
    · exact h
  setObjectType _ _ h := h
  modifyType _ _ _ h := h
  rename {info} path' name' hname h := by
    rw [packageName?_modifyPackage]
    split
    · next heq => exact congrArg some (hname heq)
    · exact h

theorem stable_packageName_other (path : String) (name : Option String) :
    Stable { members := fun object => object.package ≠ path, names := fun path' _ => path' ≠ path }
      fun info => info.packageName? path = name where
  addObject _ h := h
  addUse {info} ident id _ h := by
    unfold addUse
    split <;> exact h
  addMember hother _ h := by
    unfold addMember
    rw [packageName?_modifyPackage, if_neg hother]
    exact h
  setObjectType _ _ h := h
  modifyType _ _ _ h := h
  rename _ _ hother h := by
    rw [packageName?_modifyPackage, if_neg hother]
    exact h

theorem packageName?_check {source : PackageSource} (hsource : source ∈ sources)
    (hnames : ∀ other ∈ sources, other.path = source.path → other.name = source.name) (info : Info) :
    (info.check sources).packageName? source.path = some source.name := by
  have hstable := stable_packageName source.path source.name
  refine hstable.resolveFiles (fun _ => trivial) sources ?_
  rw [forFiles_eq]
  refine hstable.declareFiles ⟨fun _ _ => trivial, fun _ _ _ _ _ => trivial, hnames⟩
    (List.Subset.refl _)
    (Stable.foldl (P := fun info => info.packageName? source.path = some source.name)
      (fun other _ info => ?_) ?_)
  · exact hstable.declareTypeNames fun _ _ _ _ _ _ _ => trivial
  · refine foldl_establishes (P := fun info => info.packageName? source.path = some source.name)
      hsource (fun info => ?_) (fun other hother info => hstable.rename _ _ (hnames other hother)) _
    rw [packageName?_modifyPackage, if_pos rfl]

theorem packageName?_check_other (h : ∀ source ∈ sources, source.path ≠ path) (info : Info) :
    (info.check sources).packageName? path = info.packageName? path := by
  refine (stable_packageName_other path _).check
    ⟨fun _ _ => trivial, fun {path' file decl} hfile _ _ _ _ => ?_, h⟩ (fun _ => trivial) rfl
  obtain ⟨source, hsource, hfile⟩ := List.mem_flatMap.1 hfile
  obtain ⟨file', -, hentry⟩ := List.mem_map.1 hfile
  exact fun heq => h source hsource ((congrArg Prod.fst hentry).trans heq)

end Info

end TraceWeave.Types
