import TraceWeave.Proofs.Types.FileRuns

/-!
The names of linked objects.

Whatever an identifier is looked up in — blocks, imports, members of the package, predeclared
names — holds objects under their own names, and resolution keeps it so (`Resolver.Named`).  An
identifier is therefore linked to an object of its name, if to any (`FileRun.names`).
-/

namespace TraceWeave.Types

open TraceWeave.Syntax

namespace Info

variable {info info' : Info}

/-- The object of the number has the name. -/
def Names (info : Info) (id : Nat) (name : String) : Prop :=
  ∃ object, info.objects[id]? = some object ∧ object.name = name

theorem Names.grows {id : Nat} {name : String} (h : info.Names id name) (hgrows : info.Grows info') :
    info'.Names id name := by
  obtain ⟨object, hobject, hname⟩ := h
  obtain ⟨type, htyped⟩ := hgrows.objects hobject
  exact ⟨_, htyped, hname⟩

theorem Names.unique {id : Nat} {name name' : String} (h : info.Names id name)
    (h' : info.Names id name') : name = name' := by
  obtain ⟨object, hobject, rfl⟩ := h
  obtain ⟨object', hobject', rfl⟩ := h'
  obtain rfl := Option.some.inj (hobject.symm.trans hobject')
  rfl

theorem names_addObject (info : Info) (object : Object) :
    (info.addObject object).1.Names info.objects.size object.name :=
  ⟨object, Array.getElem?_push_size, rfl⟩

/-- Members and predeclared names are names of their objects. -/
structure Named (info : Info) : Prop where
  members {path : String} {package : PackageInfo} {name : String} {id : Nat} :
    info.packages.get? path = some package → package.members.get? name = some id →
      info.Names id name
  predeclared {name : String} {id : Nat} : info.predeclared.get? name = some id →
    info.Names id name

namespace Named

theorem empty : Named {} where
  members h := by simp at h
  predeclared h := by simp at h

theorem grows (h : info.Named) (hgrows : info.Grows info') : info'.Named where
  members {path package name id} hpackage hmember := by
    rw [hgrows.packages] at hpackage
    exact (h.members hpackage hmember).grows hgrows
  predeclared {name id} hid := by
    rw [hgrows.predeclared] at hid
    exact (h.predeclared hid).grows hgrows

/-- A package may be put in the place of another one, if all its members are old or right. -/
theorem insertPackage (h : info.Named) (path : String) {package : PackageInfo}
    (hmembers : ∀ {name : String} {id : Nat}, package.members.get? name = some id →
      ((info.packages.get? path).getD {}).members.get? name = some id ∨ info.Names id name) :
    { info with packages := info.packages.insert path package }.Named where
  members {path' package' name id} hpackage hmember := by
    simp only [Std.HashMap.get?_eq_getElem?, Std.HashMap.getElem?_insert] at hpackage
    split at hpackage
    · obtain rfl := Option.some.inj hpackage
      obtain hold | hnew := hmembers hmember
      · cases hfound : info.packages.get? path with
        | none =>
            rw [hfound] at hold
            simp at hold
        | some old =>
            rw [hfound] at hold
            exact h.members hfound hold
      · exact hnew
    · exact h.members hpackage hmember
  predeclared := h.predeclared

theorem addPredeclared (h : info.Named) (kind : ObjectKind) (name : String) (type : Option Ty) :
    (info.addPredeclared kind name type).Named := by
  let object : Object := { kind, name, package := "", type }
  have hgrown := h.grows (.addObject info object)
  refine ⟨hgrown.members, fun {name' id} hid => ?_⟩
  simp only [Info.addPredeclared, Std.HashMap.get?_eq_getElem?, Std.HashMap.getElem?_insert] at hid
  split at hid
  · next heq =>
    obtain rfl := Option.some.inj hid
    rw [← beq_iff_eq.1 heq]
    exact info.names_addObject object
  · exact hgrown.predeclared hid

end Named

theorem stable_named : Stable {} Named where
  addObject object h := h.grows (.addObject _ object)
  addUse ident id _ h := h.grows (.addUse _ ident id)
  addMember {info object id} _ hobject h := by
    refine h.insertPackage object.package fun {name id'} hmember => ?_
    simp only [Std.HashMap.get?_eq_getElem?, Std.HashMap.getElem?_insert] at hmember
    split at hmember
    · next heq =>
      obtain rfl := Option.some.inj hmember
      exact .inr ⟨object, hobject, by simpa using heq⟩
    · exact .inl hmember
  setObjectType id type h := h.grows (.setObjectType _ id type)
  modifyType _ _ _ h := h.grows (.of_objects rfl rfl rfl)
  rename path _ _ h := h.insertPackage path fun hmember => .inl hmember

theorem named_known : Named known.1 :=
  stable_named.known (stable_named.predeclaredNames .empty
    fun kind name type h => h.addPredeclared kind name type)

end Info

/-! ## Resolution -/

namespace Resolver

/-- All tables hold objects under their names. -/
structure Named (resolver : Resolver) : Prop where
  info : resolver.info.Named
  imports {name : String} {id : Nat} : resolver.imports.get? name = some id →
    resolver.info.Names id name
  scopes {scope : Std.HashMap String Nat} {name : String} {id : Nat} : scope ∈ resolver.scopes →
    scope.get? name = some id → resolver.info.Names id name

namespace Named

variable {resolver resolver' : Resolver} {event : Event} {events : List Event}

theorem opens {known : Info} {package : String} {specs : List ImportSpec} (h : known.Named)
    (hopens : Opens known package specs resolver) : Named resolver where
  info := h.grows hopens.grows
  imports {name id} hid := by
    have henters := hopens.enters name
    cases hspec : known.importSpec? specs name with
    | none =>
        rw [hspec] at henters
        cases henters.symm.trans hid
    | some spec =>
        rw [hspec] at henters
        obtain ⟨id', type, hid', hobject⟩ := henters
        obtain rfl := Option.some.inj (hid'.symm.trans hid)
        exact ⟨_, hobject, rfl⟩
  scopes {scope name id} hscope := by
    rw [hopens.scopes] at hscope
    contradiction

theorem of_info (h : Named resolver) {info : Info} (hgrows : resolver.info.Grows info) :
    Named { resolver with info } where
  info := h.info.grows hgrows
  imports hid := (h.imports hid).grows hgrows
  scopes hscope hid := (h.scopes hscope hid).grows hgrows

/-- The innermost block may bind a name of an object. -/
theorem bind (h : Named resolver) {name : String} {id : Nat} (hnames : resolver.info.Names id name) :
    Named { resolver with scopes := resolver.scopes.modifyHead (·.insert name id) } where
  info := h.info
  imports := h.imports
  scopes {scope name' id'} hscope hid := by
    obtain ⟨info, package, imports, scopes⟩ := resolver
    cases scopes with
    | nil => contradiction
    | cons first scopes =>
        obtain rfl | hrest := List.mem_cons.1 hscope
        · simp only [Std.HashMap.get?_eq_getElem?, Std.HashMap.getElem?_insert] at hid
          split at hid
          · next heq =>
            obtain rfl := Option.some.inj hid
            rwa [← beq_iff_eq.1 heq]
          · exact h.scopes List.mem_cons_self hid
        · exact h.scopes (List.mem_cons_of_mem _ hrest) hid

theorem declare (h : Named resolver) (kind : ObjectKind) (name : String) (type : Option Ty) :
    Named { resolver with
      info := (resolver.info.addObject { kind, name, package := resolver.package, type }).1
      scopes := resolver.scopes.modifyHead (·.insert name resolver.info.objects.size) } :=
  (h.of_info (.addObject resolver.info { kind, name, package := resolver.package, type })).bind
    (resolver.info.names_addObject _)

theorem declareLocal (h : Named resolver) (ident : Ident) (kind : ObjectKind) (type : Option Ty) :
    Named (declareLocal ident kind type resolver).2 := by
  rw [declareLocal_state]
  split
  · exact h
  · exact (h.declare kind ident.name type).of_info (.addUse _ ident _)

theorem acts (h : Named resolver) (hacts : Acts resolver event resolver') : Named resolver' := by
  cases event with
  | enter =>
      obtain rfl : resolver' = _ := hacts
      refine ⟨h.info, h.imports, fun {scope name id} hscope hid => ?_⟩
      obtain rfl | hrest := List.mem_cons.1 hscope
      · simp at hid
      · exact h.scopes hrest hid
  | leave =>
      obtain rfl : resolver' = _ := hacts
      exact ⟨h.info, h.imports, fun hscope => h.scopes (List.mem_of_mem_tail hscope)⟩
  | use ident =>
      obtain rfl : resolver' = _ := hacts
      rw [useIdent_state]
      split
      · exact h
      · split
        · exact h.of_info (.addUse _ ident _)
        · exact h
  | declare ident kind =>
      obtain ⟨type, rfl⟩ := hacts
      exact h.declareLocal ident kind type
  | define ident =>
      obtain ⟨type, rfl⟩ := hacts
      rw [defineIdent_state]
      split
      · exact h.of_info (.addUse _ ident _)
      · exact h.declareLocal ident .variable type
  | declareType name =>
      obtain rfl : resolver' = _ := hacts
      rw [declareTypeName_state]
      exact h.declare .type name _

theorem runs (h : Named resolver) (hruns : Runs resolver events resolver') : Named resolver' := by
  induction hruns with
  | nil => exact h
  | event hacts hrun ih => exact ih (h.acts hacts)
  | retype id type hrun ih => exact ih (h.of_info (.setObjectType _ id type))

theorem outside? (h : Named resolver) {name : String} {id : Nat}
    (hid : resolver.outside? name = some id) : resolver.info.Names id name := by
  rw [Resolver.outside?, Option.or_eq_some_iff, Option.or_eq_some_iff] at hid
  obtain himport | ⟨-, hmember | ⟨-, hpredeclared⟩⟩ := hid
  · exact h.imports himport
  · obtain ⟨package, hpackage, hid⟩ := Option.bind_eq_some_iff.1 hmember
    exact h.info.members hpackage hid
  · exact h.info.predeclared hpredeclared

theorem lookup? (h : Named resolver) {name : String} {id : Nat} (hid : resolver.lookup? name = some id) :
    resolver.info.Names id name := by
  rw [lookup?_eq, Option.or_eq_some_iff] at hid
  obtain hlocal | ⟨-, houtside⟩ := hid
  · obtain ⟨scope, hscope, hid⟩ := List.exists_of_findSome?_eq_some hlocal
    exact h.scopes hscope hid
  · exact h.outside? houtside

/-- An identifier that is linked by its event is linked to an object of its name. -/
theorem links (h : Named resolver) (hacts : Acts resolver event resolver') {ident : Ident}
    (hident : event.ident? = some ident) (hnumbered : ident.isGenerated = false)
    (hunlinked : resolver.info.objectId? ident = none) {id : Nat}
    (hlink : resolver'.info.objectId? ident = some id) : resolver'.info.Names id ident.name := by
  have hdeclared : ∀ kind type,
      (Resolver.declareLocal ident kind type resolver).2.info.objectId? ident = some id →
      (Resolver.declareLocal ident kind type resolver).2.info.Names id ident.name := by
    intro kind type hlink
    rw [declareLocal_state] at hlink ⊢
    split at hlink
    · cases hunlinked.symm.trans hlink
    · next hvisible =>
      rw [if_neg hvisible]
      obtain rfl := Option.some.inj ((Info.objectId?_addUse _ hnumbered _).symm.trans hlink)
      exact (resolver.info.names_addObject _).grows (.addUse _ ident _)
  cases event with
  | use other =>
      obtain rfl : other = ident := Option.some.inj hident
      obtain rfl : resolver' = _ := hacts
      rw [useIdent_state] at hlink ⊢
      split at hlink
      · cases hunlinked.symm.trans hlink
      · next hvisible =>
        rw [if_neg hvisible]
        cases hfound : resolver.lookup? other.name with
        | none =>
            rw [hfound] at hlink
            cases hunlinked.symm.trans hlink
        | some found =>
            rw [hfound] at hlink
            obtain rfl := Option.some.inj ((Info.objectId?_addUse _ hnumbered _).symm.trans hlink)
            exact (h.lookup? hfound).grows (.addUse _ other _)
  | declare other kind =>
      obtain rfl : other = ident := Option.some.inj hident
      obtain ⟨type, rfl⟩ := hacts
      exact hdeclared kind type hlink
  | define other =>
      obtain rfl : other = ident := Option.some.inj hident
      obtain ⟨type, rfl⟩ := hacts
      rw [defineIdent_state] at hlink ⊢
      cases hfound : resolver.scopes.head?.bind (·.get? other.name) with
      | none =>
          rw [hfound] at hlink
          exact hdeclared .variable type hlink
      | some found =>
          rw [hfound] at hlink
          obtain rfl := Option.some.inj ((Info.objectId?_addUse _ hnumbered _).symm.trans hlink)
          obtain ⟨scope, hscope, hid⟩ := Option.bind_eq_some_iff.1 hfound
          exact (h.scopes (List.mem_of_mem_head? hscope) hid).grows (.addUse _ other _)
  | enter => contradiction
  | leave => contradiction
  | declareType name => contradiction

/-- Behind a run too, if only one of its events has the number of the identifier. -/
theorem names (h : Named resolver) {before after : List Event} {ident : Ident}
    (hruns : Runs resolver (before ++ event :: after) resolver') (hident : event.ident? = some ident)
    (hnumbered : ident.isGenerated = false) (hunlinked : resolver.info.objectId? ident = none)
    (hbefore : ident.id ∉ numbersIn before) (hafter : ident.id ∉ numbersIn after) {id : Nat}
    (hlink : resolver'.info.objectId? ident = some id) : resolver'.info.Names id ident.name := by
  obtain ⟨reached, behind, hfront, hacts, hback, hold, hkept⟩ :=
    hruns.linked hunlinked hbefore hafter
  have hnames := (h.runs hfront).links hacts hident hnumbered hold (hkept.symm.trans hlink)
  exact hnames.grows hback.continues.grows

end Named

end Resolver

/-- An identifier that has its number for itself is linked to an object of its name, if to any. -/
theorem FileRun.names {info known : Info} {sources : List PackageSource} {path : String} {file : File}
    (h : FileRun info sources path file known) (hnamed : info.Named)
    {before after : List Event} {event : Event} {ident : Ident}
    (hevents : eventsOfFile file = before ++ event :: after) (hident : event.ident? = some ident)
    (hapart : Apart info sources ident) {id : Nat}
    (hlink : (info.check sources).objectId? ident = some id) :
    (info.check sources).Names id ident.name := by
  obtain ⟨hunlinked, hbefore, hafter, hkept⟩ := h.linked hevents hident hapart
  have hstart := Resolver.Named.opens (h.keeps Info.stable_named hnamed) h.opens
  have hnames := hstart.names (hevents ▸ h.runs) hident hapart.numbered hunlinked hbefore hafter
    (hkept.symm.trans hlink)
  exact hnames.grows h.grows

end TraceWeave.Types
