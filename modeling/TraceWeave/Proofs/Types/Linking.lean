import Mathlib.Data.List.Forall2
import TraceWeave.Proofs.Types.Traversal

/-!
What a run of resolution links.

The open blocks of the state hold the objects of the declarations that `Scopes` says can be
seen (`Resolver.Follows`), and an occurrence is linked to what its name stands for when its
event comes (`Resolver.Follows.links`).  Nothing else of what names are looked up in changes
on the way (`Resolver.Continues`).
-/

namespace TraceWeave.Types

open TraceWeave.Syntax

/-- The numbers of the identifiers of events. -/
def numbersIn (events : List Event) : List Nat := (identsOf events).map (·.id)

@[simp] theorem numbersIn_append (first second : List Event) :
    numbersIn (first ++ second) = numbersIn first ++ numbersIn second := by
  simp [numbersIn, identsOf]

theorem numbersIn_cons_of_ident {event : Event} {ident : Ident} (h : event.ident? = some ident)
    (events : List Event) : numbersIn (event :: events) = ident.id :: numbersIn events := by
  simp [numbersIn, identsOf, h]

theorem mem_numbersIn {event : Event} {ident : Ident} (h : event.ident? = some ident) :
    ident.id ∈ numbersIn [event] := by
  rw [numbersIn_cons_of_ident h]
  exact List.mem_cons_self

/-! ## Growth -/

namespace Info

variable {info info' info'' : Info}

/-- Objects are added and given types; members and predeclared names stay. -/
structure Grows (info info' : Info) : Prop where
  objects {id : Nat} {object : Object} : info.objects[id]? = some object →
    ∃ type, info'.objects[id]? = some { object with type }
  packages : info'.packages = info.packages
  predeclared : info'.predeclared = info.predeclared

namespace Grows

theorem of_objects (hobjects : info'.objects = info.objects)
    (hpackages : info'.packages = info.packages)
    (hpredeclared : info'.predeclared = info.predeclared) : Grows info info' where
  objects {_ object} h := ⟨object.type, by rw [hobjects, h]⟩
  packages := hpackages
  predeclared := hpredeclared

theorem refl (info : Info) : Grows info info := of_objects rfl rfl rfl

theorem trans (h : Grows info info') (h' : Grows info' info'') : Grows info info'' where
  objects {id object} hobject := by
    obtain ⟨type, htyped⟩ := h.objects hobject
    obtain ⟨type', htyped'⟩ := h'.objects htyped
    exact ⟨type', htyped'⟩
  packages := h'.packages.trans h.packages
  predeclared := h'.predeclared.trans h.predeclared

theorem addObject (info : Info) (object : Object) : Grows info (info.addObject object).1 where
  objects {id other} hother := by
    refine ⟨other.type, ?_⟩
    obtain ⟨hbound, -⟩ := Array.getElem?_eq_some_iff.1 hother
    simp only [Info.addObject]
    rw [Array.getElem?_push_lt hbound, ← hother, Array.getElem?_eq_getElem hbound]
  packages := rfl
  predeclared := rfl

theorem addUse (info : Info) (ident : Ident) (id : Nat) : Grows info (info.addUse ident id) := by
  unfold Info.addUse
  split
  · exact refl info
  · exact of_objects rfl rfl rfl

theorem setObjectType (info : Info) (id : Nat) (type : Option Ty) :
    Grows info (info.setObjectType id type) where
  objects {other object} hobject := by
    simp only [Info.setObjectType, Array.getElem?_modify]
    split
    · exact ⟨type, by rw [hobject]; rfl⟩
    · exact ⟨object.type, hobject⟩
  packages := rfl
  predeclared := rfl

end Grows

theorem objectId?_addUse (info : Info) {ident : Ident} (h : ident.isGenerated = false) (id : Nat) :
    (info.addUse ident id).objectId? ident = some id := by
  simp [Info.addUse, objectId?, h]

theorem uses_addUse (info : Info) (ident : Ident) (id : Nat) {number : Nat} (h : number ≠ ident.id) :
    (info.addUse ident id).uses.get? number = info.uses.get? number := by
  unfold Info.addUse
  split
  · rfl
  · simp [Std.HashMap.getElem?_insert, Ne.symm h]

end Info

namespace Resolver

variable {resolver resolver' resolver'' : Resolver} {event : Event} {events first second : List Event}

/-! ## Steps -/

theorem useIdent_state (ident : Ident) (resolver : Resolver) :
    (useIdent ident resolver).2 =
      if ident.isBlank || ident.isGenerated then resolver
      else
        match resolver.lookup? ident.name with
        | some id => { resolver with info := resolver.info.addUse ident id }
        | none => resolver := by
  unfold useIdent
  split
  · rfl
  · change ((match resolver.lookup? ident.name with
      | some id => modifyInfo (·.addUse ident id)
      | none => pure () : Resolve Unit) resolver).2 = _
    cases resolver.lookup? ident.name <;> rfl

theorem bindName_state (name : String) (id : Nat) (resolver : Resolver) :
    (bindName name id resolver).2 =
      { resolver with scopes := resolver.scopes.modifyHead (·.insert name id) } := by
  obtain ⟨info, package, imports, scopes⟩ := resolver
  cases scopes <;> rfl

theorem declareLocal_state (ident : Ident) (kind : ObjectKind) (type : Option Ty)
    (resolver : Resolver) :
    (declareLocal ident kind type resolver).2 =
      if ident.isBlank || ident.isGenerated then resolver
      else
        { resolver with
          info := (resolver.info.addObject
            { kind, name := ident.name, package := resolver.package, type }).1.addUse ident
              resolver.info.objects.size
          scopes := resolver.scopes.modifyHead (·.insert ident.name resolver.info.objects.size) } := by
  unfold declareLocal
  split
  · rfl
  · exact bindName_state ident.name resolver.info.objects.size _

theorem defineIdent_state (ident : Ident) (type : Option Ty) (resolver : Resolver) :
    (defineIdent ident type resolver).2 =
      match resolver.scopes.head?.bind (·.get? ident.name) with
      | some id => { resolver with info := resolver.info.addUse ident id }
      | none => (declareLocal ident .variable type resolver).2 := by
  change ((match resolver.scopes.head?.bind (·.get? ident.name) with
    | some id => modifyInfo (·.addUse ident id)
    | none => declareLocal ident .variable type : Resolve Unit) resolver).2 = _
  cases resolver.scopes.head?.bind (·.get? ident.name) <;> rfl

theorem declareTypeName_state (name : String) (resolver : Resolver) :
    (declareTypeName name resolver).2 =
      { resolver with
        info := (resolver.info.addObject
          { kind := .type, name, package := resolver.package,
            type := some (.named resolver.package name) }).1
        scopes := resolver.scopes.modifyHead (·.insert name resolver.info.objects.size) } :=
  bindName_state name resolver.info.objects.size _

/-! ## What stays -/

/-- Events change links of their own identifiers only. -/
structure Continues (events : List Event) (resolver resolver' : Resolver) : Prop where
  package : resolver'.package = resolver.package
  imports : resolver'.imports = resolver.imports
  grows : resolver.info.Grows resolver'.info
  links {number : Nat} : number ∉ numbersIn events →
    resolver'.info.uses.get? number = resolver.info.uses.get? number

namespace Continues

theorem refl (events : List Event) (resolver : Resolver) : Continues events resolver resolver :=
  ⟨rfl, rfl, .refl _, fun _ => rfl⟩

theorem append (h : Continues first resolver resolver') (h' : Continues second resolver' resolver'') :
    Continues (first ++ second) resolver resolver'' where
  package := h'.package.trans h.package
  imports := h'.imports.trans h.imports
  grows := h.grows.trans h'.grows
  links {number} hnumber := by
    rw [numbersIn_append, List.mem_append, not_or] at hnumber
    exact (h'.links hnumber.2).trans (h.links hnumber.1)

theorem addUse {ident : Ident} (h : event.ident? = some ident) (resolver : Resolver) (id : Nat) :
    Continues [event] resolver { resolver with info := resolver.info.addUse ident id } where
  package := rfl
  imports := rfl
  grows := .addUse _ _ _
  links hnumber :=
    resolver.info.uses_addUse ident id fun heq => hnumber (heq ▸ mem_numbersIn h)

end Continues

theorem continues_declareLocal {ident : Ident} (h : event.ident? = some ident) (kind : ObjectKind)
    (type : Option Ty) (resolver : Resolver) :
    Continues [event] resolver (declareLocal ident kind type resolver).2 := by
  rw [declareLocal_state]
  split
  · exact .refl _ _
  · refine ⟨rfl, rfl, (Info.Grows.addObject _ _).trans (.addUse _ _ _), fun hnumber => ?_⟩
    exact Info.uses_addUse _ ident _ fun heq => hnumber (heq ▸ mem_numbersIn h)

theorem Acts.continues (h : Acts resolver event resolver') :
    Continues [event] resolver resolver' := by
  cases event with
  | enter => exact h ▸ ⟨rfl, rfl, .refl _, fun _ => rfl⟩
  | leave => exact h ▸ ⟨rfl, rfl, .refl _, fun _ => rfl⟩
  | use ident =>
      obtain rfl : resolver' = _ := h
      rw [useIdent_state]
      split
      · exact .refl _ _
      · split
        · exact .addUse rfl resolver _
        · exact .refl _ _
  | declare ident kind =>
      obtain ⟨type, rfl⟩ := h
      exact continues_declareLocal rfl kind type resolver
  | define ident =>
      obtain ⟨type, rfl⟩ := h
      rw [defineIdent_state]
      split
      · exact .addUse rfl resolver _
      · exact continues_declareLocal rfl .variable type resolver
  | declareType name =>
      obtain rfl : resolver' = _ := h
      rw [declareTypeName_state]
      exact ⟨rfl, rfl, .addObject _ _, fun _ => rfl⟩

theorem Runs.continues (h : Runs resolver events resolver') : Continues events resolver resolver' := by
  induction h with
  | nil resolver => exact .refl [] resolver
  | event hacts hrun ih => exact hacts.continues.append ih
  | @retype resolver last events id type hrun ih =>
      have hretyped : Continues [] resolver
          { resolver with info := resolver.info.setObjectType id type } :=
        ⟨rfl, rfl, .setObjectType _ id type, fun _ => rfl⟩
      exact hretyped.append ih

/-! ## What can be seen -/

/-- What a name stands for outside functions: an import, a member or a predeclared name. -/
def outside? (resolver : Resolver) (name : String) : Option Nat :=
  (resolver.imports.get? name).or
    (((resolver.info.packages.get? resolver.package).bind (·.members.get? name)).or
      (resolver.info.predeclared.get? name))

theorem lookup?_eq (resolver : Resolver) (name : String) :
    resolver.lookup? name =
      (resolver.scopes.findSome? (·.get? name)).or (resolver.outside? name) := by
  unfold lookup? outside?
  cases resolver.scopes.findSome? (·.get? name) with
  | some id => rfl
  | none =>
      cases resolver.imports.get? name with
      | some id => rfl
      | none =>
          cases (resolver.info.packages.get? resolver.package).bind (·.members.get? name) <;> rfl

/-- An open block holds the objects of its declarations. -/
def Holds (base : Nat) (scope : Std.HashMap String Nat) (block : List (String × Nat)) : Prop :=
  ∀ name, scope.get? name = (block.lookup name).map (base + ·)

theorem Holds.insert {base : Nat} {scope : Std.HashMap String Nat} {block : List (String × Nat)}
    (h : Holds base scope block) (name : String) (n : Nat) :
    Holds base (scope.insert name (base + n)) ((name, n) :: block) := by
  intro other
  rw [Std.HashMap.get?_eq_getElem?, Std.HashMap.getElem?_insert, List.lookup_cons]
  by_cases heq : name = other
  · simp [heq]
  · have hne : (other == name) = false := by simpa using Ne.symm heq
    rw [hne]
    simpa [heq] using h other

section

variable {base : Nat} {opened : List (Std.HashMap String Nat)} {blocks : List (List (String × Nat))}

theorem findSome?_of_holds (h : List.Forall₂ (Holds base) opened blocks) (name : String) :
    opened.findSome? (·.get? name) = (blocks.findSome? (·.lookup name)).map (base + ·) := by
  induction h with
  | nil => rfl
  | @cons scope block opened blocks hholds hrest ih =>
      rw [List.findSome?_cons, List.findSome?_cons, hholds name]
      cases block.lookup name with
      | none => exact ih
      | some n => rfl

theorem head?_of_holds (h : List.Forall₂ (Holds base) opened blocks) (name : String) :
    opened.head?.bind (·.get? name) = (blocks.head?.bind (·.lookup name)).map (base + ·) := by
  cases h with
  | nil => rfl
  | cons hholds hrest => exact hholds name

theorem modifyHead_holds (h : List.Forall₂ (Holds base) opened blocks) (name : String) (n : Nat) :
    List.Forall₂ (Holds base) (opened.modifyHead (·.insert name (base + n)))
      (blocks.modifyHead ((name, n) :: ·)) := by
  cases h with
  | nil => exact .nil
  | cons hholds hrest => exact .cons (hholds.insert name n) hrest

theorem tail_holds (h : List.Forall₂ (Holds base) opened blocks) :
    List.Forall₂ (Holds base) opened.tail blocks.tail := by
  cases h with
  | nil => exact .nil
  | cons hholds hrest => exact hrest

end

/-- The objects of the declarations are numbered in a row. -/
structure Follows (base : Nat) (scopes : Scopes) (resolver : Resolver) : Prop where
  size : resolver.info.objects.size = base + scopes.declared.length
  made {n : Nat} {kind : ObjectKind} {name : String} : scopes.declared[n]? = some (kind, name) →
    ∃ type, resolver.info.objects[base + n]? =
      some { kind, name, package := resolver.package, type }
  blocks : List.Forall₂ (Holds base) resolver.scopes scopes.blocks

namespace Follows

variable {base : Nat} {scopes : Scopes}

theorem start (h : resolver.scopes = []) : Follows resolver.info.objects.size {} resolver where
  size := rfl
  made hdeclared := by simp at hdeclared
  blocks := by
    rw [h]
    exact .nil

theorem of_info (h : Follows base scopes resolver) {info : Info}
    (hgrows : resolver.info.Grows info) (hsize : info.objects.size = resolver.info.objects.size) :
    Follows base scopes { resolver with info } where
  size := hsize.trans h.size
  made hdeclared := by
    obtain ⟨type, hobject⟩ := h.made hdeclared
    obtain ⟨type', htyped⟩ := hgrows.objects hobject
    exact ⟨type', htyped⟩
  blocks := h.blocks

theorem addUse (h : Follows base scopes resolver) (ident : Ident) (id : Nat) :
    Follows base scopes { resolver with info := resolver.info.addUse ident id } := by
  refine h.of_info (.addUse _ _ _) ?_
  unfold Info.addUse
  split <;> rfl

theorem declare (h : Follows base scopes resolver) (kind : ObjectKind) (name : String)
    (type : Option Ty) :
    Follows base (scopes.declare kind name)
      { resolver with
        info := (resolver.info.addObject { kind, name, package := resolver.package, type }).1
        scopes := resolver.scopes.modifyHead (·.insert name resolver.info.objects.size) } where
  size := by
    simp only [Info.addObject, Scopes.declare, Array.size_push, List.length_append,
      List.length_singleton, h.size]
    omega
  made {n kind' name'} hdeclared := by
    simp only [Scopes.declare, List.getElem?_append, List.getElem?_singleton] at hdeclared
    simp only [Info.addObject, Array.getElem?_push, h.size]
    by_cases hold : n < scopes.declared.length
    · rw [if_pos hold] at hdeclared
      rw [if_neg (by omega)]
      exact h.made hdeclared
    · rw [if_neg hold] at hdeclared
      obtain ⟨hlast, hentry⟩ := Option.ite_none_right_eq_some.1 hdeclared
      obtain ⟨rfl, rfl⟩ := Prod.mk.inj (Option.some.inj hentry)
      exact ⟨type, if_pos (by omega)⟩
  blocks := by
    rw [h.size]
    exact modifyHead_holds h.blocks name _

theorem declareLocal (h : Follows base scopes resolver) (ident : Ident) (kind : ObjectKind)
    (type : Option Ty) :
    Follows base (scopes.declareIdent kind ident) (declareLocal ident kind type resolver).2 := by
  rw [declareLocal_state, Scopes.declareIdent]
  split
  · exact h
  · exact (h.declare kind ident.name type).addUse ident _

theorem acts (h : Follows base scopes resolver) (hacts : Acts resolver event resolver') :
    Follows base (scopes.step event) resolver' := by
  cases event with
  | enter =>
      obtain rfl : resolver' = _ := hacts
      have hempty : Holds base {} [] := fun name => by simp
      exact ⟨h.size, h.made, .cons hempty h.blocks⟩
  | leave =>
      obtain rfl : resolver' = _ := hacts
      exact ⟨h.size, h.made, tail_holds h.blocks⟩
  | use ident =>
      obtain rfl : resolver' = _ := hacts
      rw [useIdent_state]
      split
      · exact h
      · split
        · exact h.addUse ident _
        · exact h
  | declare ident kind =>
      obtain ⟨type, rfl⟩ := hacts
      exact h.declareLocal ident kind type
  | define ident =>
      obtain ⟨type, rfl⟩ := hacts
      rw [defineIdent_state, head?_of_holds h.blocks, Scopes.step, Scopes.here?]
      cases scopes.blocks.head?.bind (·.lookup ident.name) with
      | some n => exact h.addUse ident _
      | none => exact h.declareLocal ident .variable type
  | declareType name =>
      obtain rfl : resolver' = _ := hacts
      rw [declareTypeName_state]
      exact h.declare .type name _

theorem runs (h : Follows base scopes resolver) (hruns : Runs resolver events resolver') :
    Follows base (events.foldl Scopes.step scopes) resolver' := by
  induction hruns generalizing scopes with
  | nil => exact h
  | event hacts hrun ih => exact ih (h.acts hacts)
  | retype id type hrun ih =>
      exact ih (h.of_info (.setObjectType _ id type) Array.size_modify)

/-- A run from no open block. -/
theorem behind (h : resolver.scopes = []) (hruns : Runs resolver events resolver') :
    Follows resolver.info.objects.size (scopesBehind events) resolver' :=
  (start h).runs hruns

/-- An occurrence is linked to the declaration that it stands for, or to what its name is outside. -/
theorem links (h : Follows base scopes resolver) (hacts : Acts resolver event resolver')
    {ident : Ident} (hident : event.ident? = some ident) (hblank : ident.isBlank = false)
    (hnumbered : ident.isGenerated = false) :
    resolver'.info.objectId? ident =
      ((scopes.target? event).map (base + ·)).or
        ((resolver.outside? ident.name).or (resolver.info.objectId? ident)) := by
  have hdeclared : ∀ kind type, (Resolver.declareLocal ident kind type resolver).2.info.objectId?
      ident = some (base + scopes.declared.length) := by
    intro kind type
    rw [declareLocal_state, hblank, hnumbered, ← h.size]
    exact Info.objectId?_addUse _ hnumbered _
  cases event with
  | use other =>
      obtain rfl : other = ident := Option.some.inj hident
      obtain rfl : resolver' = _ := hacts
      rw [useIdent_state, hblank, hnumbered, lookup?_eq, findSome?_of_holds h.blocks]
      change _ = ((scopes.find? other.name).map (base + ·)).or _
      unfold Scopes.find?
      cases scopes.blocks.findSome? (·.lookup other.name) with
      | some n => exact Info.objectId?_addUse _ hnumbered _
      | none =>
          cases resolver.outside? other.name with
          | some id => exact Info.objectId?_addUse _ hnumbered _
          | none => rfl
  | declare other kind =>
      obtain rfl : other = ident := Option.some.inj hident
      obtain ⟨type, rfl⟩ := hacts
      exact hdeclared kind type
  | define other =>
      obtain rfl : other = ident := Option.some.inj hident
      obtain ⟨type, rfl⟩ := hacts
      rw [defineIdent_state, head?_of_holds h.blocks, Scopes.target?, Scopes.here?]
      cases scopes.blocks.head?.bind (·.lookup other.name) with
      | some n => exact Info.objectId?_addUse _ hnumbered _
      | none => exact hdeclared .variable type
  | enter => contradiction
  | leave => contradiction
  | declareType name => contradiction

end Follows

theorem Continues.outside? (h : Continues events resolver resolver') (name : String) :
    resolver'.outside? name = resolver.outside? name := by
  unfold Resolver.outside?
  rw [h.imports, h.package, h.grows.packages, h.grows.predeclared]

/-- An occurrence that is the only one of its number in a run has its link from its own event. -/
theorem Runs.linked {before after : List Event} {ident : Ident}
    (h : Runs resolver (before ++ event :: after) resolver')
    (hunlinked : resolver.info.objectId? ident = none) (hbefore : ident.id ∉ numbersIn before)
    (hafter : ident.id ∉ numbersIn after) :
    ∃ reached behind, Runs resolver before reached ∧ Acts reached event behind ∧
      Runs behind after resolver' ∧ reached.info.objectId? ident = none ∧
      resolver'.info.objectId? ident = behind.info.objectId? ident := by
  obtain ⟨reached, behind, hfront, hacts, hback⟩ := h.split_event
  exact ⟨reached, behind, hfront, hacts, hback,
    (hfront.continues.links hbefore).trans hunlinked, hback.continues.links hafter⟩

theorem Runs.links {before after : List Event} {ident : Ident}
    (h : Runs resolver (before ++ event :: after) resolver') (hscopes : resolver.scopes = [])
    (hident : event.ident? = some ident) (hblank : ident.isBlank = false)
    (hnumbered : ident.isGenerated = false) (hunlinked : resolver.info.objectId? ident = none)
    (hbefore : ident.id ∉ numbersIn before) (hafter : ident.id ∉ numbersIn after) :
    resolver'.info.objectId? ident =
      (((scopesBehind before).target? event).map (resolver.info.objects.size + ·)).or
        (resolver.outside? ident.name) := by
  obtain ⟨reached, behind, hfront, hacts, -, hold, hkept⟩ := h.linked hunlinked hbefore hafter
  have hlink := (Follows.behind hscopes hfront).links hacts hident hblank hnumbered
  rw [hkept, hlink, hfront.continues.outside?, hold, Option.or_none]

/-! ## Blocks -/

/-- As many blocks are open, and those around the innermost one are the same. -/
def Level (resolver resolver' : Resolver) : Prop :=
  resolver'.scopes.length = resolver.scopes.length ∧ resolver'.scopes.tail = resolver.scopes.tail

theorem Level.refl (resolver : Resolver) : Level resolver resolver := ⟨rfl, rfl⟩

theorem Level.trans (h : Level resolver resolver') (h' : Level resolver' resolver'') :
    Level resolver resolver'' :=
  ⟨h'.1.trans h.1, h'.2.trans h.2⟩

theorem level_modifyHead (f : Std.HashMap String Nat → Std.HashMap String Nat)
    (h : resolver'.scopes = resolver.scopes.modifyHead f) : Level resolver resolver' := by
  rw [Level, h]
  exact ⟨List.length_modifyHead, List.tail_modifyHead⟩

theorem level_useIdent (ident : Ident) (resolver : Resolver) :
    Level resolver (useIdent ident resolver).2 := by
  rw [useIdent_state]
  split
  · exact .refl resolver
  · split <;> exact ⟨rfl, rfl⟩

theorem level_declareLocal (ident : Ident) (kind : ObjectKind) (type : Option Ty)
    (resolver : Resolver) : Level resolver (declareLocal ident kind type resolver).2 := by
  rw [declareLocal_state]
  split
  · exact .refl resolver
  · exact level_modifyHead _ rfl

theorem level_defineIdent (ident : Ident) (type : Option Ty) (resolver : Resolver) :
    Level resolver (defineIdent ident type resolver).2 := by
  rw [defineIdent_state]
  split
  · exact ⟨rfl, rfl⟩
  · exact level_declareLocal ident .variable type resolver

theorem level_declareTypeName (name : String) (resolver : Resolver) :
    Level resolver (declareTypeName name resolver).2 := by
  rw [declareTypeName_state]
  exact level_modifyHead _ rfl

namespace Runs

theorem scopes_nil (h : Runs resolver [] resolver') : resolver'.scopes = resolver.scopes := by
  generalize hevents : ([] : List Event) = events at h
  induction h with
  | nil => rfl
  | event hacts hrun => contradiction
  | retype id type hrun ih => exact ih hevents

/-- An event between retypings. -/
theorem acts_scopes (h : Runs resolver [event] resolver') :
    ∃ before behind, before.scopes = resolver.scopes ∧ Acts before event behind ∧
      resolver'.scopes = behind.scopes := by
  obtain ⟨before, behind, hbefore, hacts, hbehind⟩ := h.uncons
  exact ⟨before, behind, hbefore.scopes_nil, hacts, hbehind.scopes_nil⟩

/-- A step for which the depth stays is one for the states around it too. -/
theorem level_of_acts (h : Runs resolver [event] resolver')
    (hlevel : ∀ {before behind : Resolver}, Acts before event behind → Level before behind) :
    Level resolver resolver' := by
  obtain ⟨before, behind, hbefore, hacts, hbehind⟩ := h.acts_scopes
  have hacted := hlevel hacts
  rwa [Level, hbefore, ← hbehind] at hacted

/-- Balanced events leave as many blocks open, and the blocks around them alone. -/
theorem level (hbalanced : Balanced events) (h : Runs resolver events resolver') :
    Level resolver resolver' := by
  induction hbalanced generalizing resolver resolver' with
  | nil => exact ⟨congrArg List.length h.scopes_nil, congrArg List.tail h.scopes_nil⟩
  | use ident => exact h.level_of_acts fun hacts => hacts ▸ level_useIdent ident _
  | declare ident kind =>
      refine h.level_of_acts fun hacts => ?_
      obtain ⟨type, rfl⟩ := hacts
      exact level_declareLocal ident kind type _
  | define ident =>
      refine h.level_of_acts fun hacts => ?_
      obtain ⟨type, rfl⟩ := hacts
      exact level_defineIdent ident type _
  | declareType name => exact h.level_of_acts fun hacts => hacts ▸ level_declareTypeName name _
  | @block events hbalanced ih =>
      obtain ⟨opened, inside, hopen, henter, hrest⟩ := h.uncons
      obtain ⟨closing, hbody, hleave⟩ := hrest.split
      obtain ⟨before, behind, hbefore, hclosed, hbehind⟩ := hleave.acts_scopes
      have hinside := ih hbody
      obtain rfl : inside = _ := henter
      obtain rfl : behind = _ := hclosed
      have hscopes : resolver'.scopes = resolver.scopes := by
        rw [hbehind]
        change before.scopes.tail = _
        rw [hbefore, hinside.2, ← hopen.scopes_nil]
        rfl
      exact ⟨congrArg List.length hscopes, congrArg List.tail hscopes⟩
  | append hfirst hsecond ihfirst ihsecond =>
      obtain ⟨middle, hleft, hright⟩ := h.split
      exact (ihfirst hleft).trans (ihsecond hright)

end Runs

end Resolver

end TraceWeave.Types
