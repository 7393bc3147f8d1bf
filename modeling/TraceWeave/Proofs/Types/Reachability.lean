import TraceWeave.Proofs.Types.Promotion

/-!
Members in reach.

A member is found exactly where a declared type that has it stands at most four embedded types
away (`lookup_inReach`).  The bound alone ends the search and nothing is asked of the state: its
types may embed each other in a circle, as those of `ringInfo` do.
-/

namespace TraceWeave.Types

namespace TypeDecl

variable (decl : TypeDecl)

/-- An embedded field is a field without a name. -/
def EmbedsField (embedded : Ty) : Prop := (none, embedded) ∈ decl.fields

/-- Methods come from embedded fields and from embedded interfaces. -/
def Embeds (embedded : Ty) : Prop := decl.EmbedsField embedded ∨ embedded ∈ decl.embeds

def DeclaresField (name : String) : Prop := ∃ field, (some name, field) ∈ decl.fields

def DeclaresMethod (name : String) : Prop := ∃ signature, (name, signature) ∈ decl.methods

/-- What the declaration says of a field of its type. -/
def GivesField (name : String) (decl : TypeDecl) (_owner field : Ty) : Prop :=
  decl.field? name = some field

/-- What the declaration says of a method of its type, which is the owner. -/
def GivesMethod (name : String) (decl : TypeDecl) (owner : Ty) (found : Signature × Ty) : Prop :=
  decl.method? name = some found.1 ∧ owner = found.2

theorem mem_embeddedFields {embedded : Ty} :
    embedded ∈ decl.embeddedFields ↔ decl.EmbedsField embedded := by
  simp only [embeddedFields, EmbedsField, List.mem_filterMap, Option.ite_none_right_eq_some,
    Option.some.injEq, Option.isNone_iff_eq_none, Prod.exists]
  constructor
  · rintro ⟨_, _, hmem, rfl, rfl⟩
    exact hmem
  · intro hmem
    exact ⟨none, embedded, hmem, rfl, rfl⟩

theorem exists_givesField {name : String} {owner : Ty} :
    (∃ field, decl.GivesField name owner field) ↔ decl.DeclaresField name := by
  simp only [GivesField, ← Option.isSome_iff_exists, field?, DeclaresField,
    List.findSome?_isSome_iff, Prod.exists]
  constructor
  · rintro ⟨found, field, hmem, hfound⟩
    split at hfound
    · next hname =>
      obtain rfl : found = some name := beq_iff_eq.1 hname
      exact ⟨field, hmem⟩
    · contradiction
  · rintro ⟨field, hmem⟩
    exact ⟨some name, field, hmem, by simp⟩

theorem exists_givesMethod {name : String} {owner : Ty} :
    (∃ found, decl.GivesMethod name owner found) ↔ decl.DeclaresMethod name := by
  simp [GivesMethod, ← Option.isSome_iff_exists, method?, DeclaresMethod, List.lookup_isSome_iff]

end TypeDecl

namespace Info

/-! ## Reach -/

section

variable (info : Info) (embeds : TypeDecl → Ty → Prop)

/-- The type is a named one and the state has its declaration. -/
def Declares (type : Ty) (decl : TypeDecl) : Prop :=
  ∃ package name, type = .named package name ∧ info.types.get? (package, name) = some decl

/-- A type leads to the types that its declaration embeds, one pointer removed at each step. -/
inductive Reaches : Nat → Ty → Ty → Prop where
  | here (type : Ty) : Reaches 0 type type.deref
  | behind {steps : Nat} {type embedded owner : Ty} {decl : TypeDecl}
      (hdecl : info.Declares type.deref decl) (hembeds : embeds decl embedded)
      (hrest : Reaches steps embedded owner) : Reaches (steps + 1) type owner

/-- A declared type that is reached in a number of steps within a limit. -/
def InReach (limit : Nat) (type owner : Ty) (decl : TypeDecl) : Prop :=
  ∃ steps ≤ limit, info.Reaches embeds steps type owner ∧ info.Declares owner decl

end

variable {info : Info}

theorem typeDecl?_eq_some_iff {type : Ty} {decl : TypeDecl} :
    info.typeDecl? type = some decl ↔ info.Declares type.deref decl := by
  unfold typeDecl? Declares
  cases type.deref with
  | named package name =>
      constructor
      · intro h
        exact ⟨package, name, rfl, h⟩
      · rintro ⟨_, _, ⟨rfl, rfl⟩, h⟩
        exact h
  | pointer target => simp [Ty.name?]
  | func signature => simp [Ty.name?]
  | other text => simp [Ty.name?]

theorem mem_fieldsEmbedded {type embedded : Ty} :
    embedded ∈ info.fieldsEmbedded type ↔
      ∃ decl, info.Declares type.deref decl ∧ decl.EmbedsField embedded := by
  unfold fieldsEmbedded
  cases hdecl : info.typeDecl? type <;>
    simp [← typeDecl?_eq_some_iff, hdecl, TypeDecl.mem_embeddedFields]

theorem mem_typesEmbedded {type embedded : Ty} :
    embedded ∈ info.typesEmbedded type ↔
      ∃ decl, info.Declares type.deref decl ∧ decl.Embeds embedded := by
  unfold typesEmbedded
  cases hdecl : info.typeDecl? type <;>
    simp [← typeDecl?_eq_some_iff, hdecl, TypeDecl.mem_embeddedFields, TypeDecl.Embeds]

theorem ownField?_eq_some_iff {type field : Ty} {name : String} :
    info.ownField? name type = some field ↔
      ∃ decl, info.Declares type.deref decl ∧ decl.GivesField name type.deref field := by
  simp [ownField?, TypeDecl.GivesField, Option.bind_eq_some_iff, typeDecl?_eq_some_iff]

theorem ownMethod?_eq_some_iff {type : Ty} {name : String} {found : Signature × Ty} :
    info.ownMethod? name type = some found ↔
      ∃ decl, info.Declares type.deref decl ∧ decl.GivesMethod name type.deref found := by
  obtain ⟨signature, owner⟩ := found
  simp only [ownMethod?, TypeDecl.GivesMethod, Option.bind_eq_some_iff, typeDecl?_eq_some_iff,
    Option.map_eq_some_iff, Prod.mk.injEq]
  constructor
  · rintro ⟨decl, hdecl, _, hmethod, rfl, howner⟩
    exact ⟨decl, hdecl, hmethod, howner⟩
  · rintro ⟨decl, hdecl, hmethod, howner⟩
    exact ⟨decl, hdecl, signature, hmethod, rfl, howner⟩

/-! ## The search -/

section

variable {α : Type} {embeds : TypeDecl → Ty → Prop} {inner : Ty → List Ty} {own : Ty → Option α}
  {has : TypeDecl → Ty → α → Prop}
  (hinner : ∀ type embedded, embedded ∈ inner type ↔
    ∃ decl, info.Declares type.deref decl ∧ embeds decl embedded)
  (hown : ∀ type found, own type = some found ↔
    ∃ decl, info.Declares type.deref decl ∧ has decl type.deref found)

include hinner

/-- The ways of the search lead to the types in reach and to no others. -/
theorem reaches_iff_follow {steps : Nat} {type owner : Ty} :
    info.Reaches embeds steps type owner ↔
      ∃ way : List Nat, way.length = steps ∧
        ∃ last, follow inner way type = some last ∧ last.deref = owner := by
  constructor
  · intro hreach
    induction hreach with
    | here type => exact ⟨[], rfl, type, rfl, rfl⟩
    | @behind steps type embedded owner decl hdecl hembeds _ ih =>
        obtain ⟨way, hlength, last, hfollow, hlast⟩ := ih
        obtain ⟨place, hplace⟩ :=
          List.getElem?_of_mem ((hinner type embedded).2 ⟨decl, hdecl, hembeds⟩)
        refine ⟨place :: way, congrArg (· + 1) hlength, last, ?_, hlast⟩
        rw [follow, hplace, Option.bind_some, hfollow]
  · rintro ⟨way, rfl, last, hfollow, rfl⟩
    induction way generalizing type with
    | nil =>
        obtain rfl := Option.some.inj hfollow
        exact .here type
    | cons place way ih =>
        obtain ⟨embedded, hplace, hfollow⟩ := Option.bind_eq_some_iff.1 hfollow
        obtain ⟨decl, hdecl, hembeds⟩ :=
          (hinner type embedded).1 (List.mem_of_getElem? hplace)
        exact .behind hdecl hembeds (ih hfollow)

include hown

theorem search_sound {limit : Nat} {type : Ty} {found : α}
    (h : search own inner (limit + 1) type = some found) :
    ∃ owner decl, info.InReach embeds limit type owner decl ∧ has decl owner found := by
  obtain ⟨way, hlength, hway, -⟩ := search_eq_some_iff.1 h
  obtain ⟨last, hfollow, hlast⟩ := Option.bind_eq_some_iff.1 hway
  obtain ⟨decl, hdecl, hhas⟩ := (hown last found).1 hlast
  have hreach : info.Reaches embeds way.length type last.deref :=
    (reaches_iff_follow hinner).2 ⟨way, rfl, last, hfollow, rfl⟩
  exact ⟨last.deref, decl, ⟨way.length, Nat.le_of_lt_succ hlength, hreach, hdecl⟩, hhas⟩

theorem search_complete {limit : Nat} {type owner : Ty} {decl : TypeDecl} {found : α}
    (hreach : info.InReach embeds limit type owner decl) (hhas : has decl owner found) :
    (search own inner (limit + 1) type).isSome = true := by
  obtain ⟨steps, hsteps, hreach, hdecl⟩ := hreach
  obtain ⟨way, rfl, last, hfollow, rfl⟩ := (reaches_iff_follow hinner).1 hreach
  have hlast : own last = some found := (hown last found).2 ⟨decl, hdecl, hhas⟩
  have hway : declaredAt own inner type way = some found := by
    rw [declaredAt, hfollow, Option.bind_some, hlast]
  cases hsearch : search own inner (limit + 1) type with
  | some _ => rfl
  | none =>
      have hnone := search_eq_none_iff.1 hsearch way (Nat.lt_succ_of_le hsteps)
      rw [hway] at hnone
      contradiction

theorem search_isSome_iff {limit : Nat} {type : Ty} :
    (search own inner (limit + 1) type).isSome = true ↔
      ∃ owner decl, info.InReach embeds limit type owner decl ∧ ∃ found, has decl owner found := by
  constructor
  · intro h
    obtain ⟨found, hfound⟩ := Option.isSome_iff_exists.1 h
    obtain ⟨owner, decl, hreach, hhas⟩ := search_sound hinner hown hfound
    exact ⟨owner, decl, hreach, found, hhas⟩
  · rintro ⟨owner, decl, hreach, found, hhas⟩
    exact search_complete hinner hown hreach hhas

end

/-! ## Single steps -/

section

variable {depth : Nat} {type next field : Ty} {name : String} {decl : TypeDecl}
  {signature : Signature} (hdecl : info.typeDecl? type = some decl)

include hdecl

theorem methodWithin_own (hmethod : decl.method? name = some signature) :
    info.methodWithin name (depth + 1) type = some (signature, type.deref) := by
  simp only [methodWithin, hdecl, hmethod]

theorem methodWithin_next (hmethod : decl.method? name = none)
    (hnext : decl.embeddedFields ++ decl.embeds = [next]) :
    info.methodWithin name (depth + 1) type = info.methodWithin name depth next := by
  simp only [methodWithin, hdecl, hmethod, hnext, List.findSome?_singleton]

theorem fieldWithin_own (hfield : decl.field? name = some field) :
    info.fieldWithin name (depth + 1) type = some field := by
  simp only [fieldWithin, hdecl, hfield]

theorem fieldWithin_next (hfield : decl.field? name = none)
    (hnext : decl.embeddedFields = [next]) :
    info.fieldWithin name (depth + 1) type = info.fieldWithin name depth next := by
  simp only [fieldWithin, hdecl, hfield, hnext, List.findSome?_singleton]

end

/-! ## Look-ups -/

theorem method?_isSome_iff {type : Ty} {name : String} :
    (info.method? type name).isSome = true ↔
      ∃ owner decl, info.InReach TypeDecl.Embeds 4 type owner decl ∧ decl.DeclaresMethod name := by
  rw [method?, methodWithin_eq_search, promotionDepth,
    search_isSome_iff (fun _ _ => mem_typesEmbedded) fun _ _ => ownMethod?_eq_some_iff]
  simp only [TypeDecl.exists_givesMethod]

theorem field?_isSome_iff {type : Ty} {name : String} :
    (info.field? type name).isSome = true ↔
      ∃ owner decl, info.InReach TypeDecl.EmbedsField 4 type owner decl ∧
        decl.DeclaresField name := by
  rw [field?, fieldWithin_eq_search, promotionDepth,
    search_isSome_iff (fun _ _ => mem_fieldsEmbedded) fun _ _ => ownField?_eq_some_iff]
  simp only [TypeDecl.exists_givesField]

/--
A look-up answers exactly where a type in reach declares the name, and the answer is what such a
type declares.  Methods are reached through embedded fields and interfaces, fields through
embedded fields alone.
-/
theorem lookup_inReach (info : Info) (type : Ty) (name : String) :
    ((info.method? type name).isSome = true ↔
      ∃ owner decl, info.InReach TypeDecl.Embeds 4 type owner decl ∧ decl.DeclaresMethod name) ∧
    (∀ signature owner, info.method? type name = some (signature, owner) →
      ∃ decl, info.InReach TypeDecl.Embeds 4 type owner decl ∧
        decl.method? name = some signature) ∧
    ((info.field? type name).isSome = true ↔
      ∃ owner decl, info.InReach TypeDecl.EmbedsField 4 type owner decl ∧
        decl.DeclaresField name) ∧
    (∀ field, info.field? type name = some field →
      ∃ owner decl, info.InReach TypeDecl.EmbedsField 4 type owner decl ∧
        decl.field? name = some field) := by
  refine ⟨method?_isSome_iff, fun signature owner h => ?_, field?_isSome_iff, fun field h => ?_⟩
  · rw [method?, methodWithin_eq_search] at h
    obtain ⟨_, decl, hreach, hmethod, rfl⟩ :=
      search_sound (fun _ _ => mem_typesEmbedded) (fun _ _ => ownMethod?_eq_some_iff) h
    exact ⟨decl, hreach, hmethod⟩
  · rw [field?, fieldWithin_eq_search] at h
    exact search_sound (fun _ _ => mem_fieldsEmbedded) (fun _ _ => ownField?_eq_some_iff) h

/-! ## A ring of types -/

/-- Six types that embed each other in a circle, the third one as an interface. -/
def ring : List ((String × String) × TypeDecl) :=
  [(("app", "first"), { fields := [(none, .named "app" "second")] }),
    (("app", "second"), { fields := [(none, .named "app" "third")] }),
    (("app", "third"), { embeds := [.named "app" "fourth"], interface := true }),
    (("app", "fourth"), { fields := [(none, .named "app" "fifth")] }),
    (("app", "fifth"), { fields := [(none, .named "app" "sixth")] }),
    (("app", "sixth"), { fields := [(none, .named "app" "first"), (some "size", .named "" "int")],
                         methods := [("open", {})] })]

def ringInfo : Info where
  types := Std.HashMap.ofList ring

theorem typeDecl?_ringInfo {place : Nat} {name : String} {decl : TypeDecl}
    (h : ring[place]? = some (("app", name), decl)) :
    ringInfo.typeDecl? (.named "app" name) = some decl := by
  have hdistinct : ring.Pairwise fun first second => (first.1 == second.1) = false := by
    simp [ring]
  exact Std.HashMap.getElem?_ofList_of_mem (beq_self_eq_true _) hdistinct
    (List.mem_of_getElem? h)

/-- The method is found from four types away and no further. -/
theorem lookup_inReach_ringInfo :
    (ringInfo.method? (.named "app" "second") "open" = some ({}, .named "app" "sixth") ∧
      ∃ decl, ringInfo.InReach TypeDecl.Embeds 4 (.named "app" "second") (.named "app" "sixth")
        decl ∧ decl.method? "open" = some {}) ∧
    ringInfo.method? (.named "app" "first") "open" = none ∧
    (ringInfo.field? (.named "app" "fourth") "size" = some (.named "" "int") ∧
      ∃ owner decl, ringInfo.InReach TypeDecl.EmbedsField 4 (.named "app" "fourth") owner decl ∧
        decl.field? "size" = some (.named "" "int")) := by
  have hsecond : ringInfo.method? (.named "app" "second") "open" =
      some ({}, .named "app" "sixth") := by
    rw [method?, promotionDepth, methodWithin_next (@typeDecl?_ringInfo 1 _ _ rfl) rfl rfl,
      methodWithin_next (@typeDecl?_ringInfo 2 _ _ rfl) rfl rfl,
      methodWithin_next (@typeDecl?_ringInfo 3 _ _ rfl) rfl rfl,
      methodWithin_next (@typeDecl?_ringInfo 4 _ _ rfl) rfl rfl,
      methodWithin_own (@typeDecl?_ringInfo 5 _ _ rfl) rfl]
    rfl
  have hfirst : ringInfo.method? (.named "app" "first") "open" = none := by
    rw [method?, promotionDepth, methodWithin_next (@typeDecl?_ringInfo 0 _ _ rfl) rfl rfl,
      methodWithin_next (@typeDecl?_ringInfo 1 _ _ rfl) rfl rfl,
      methodWithin_next (@typeDecl?_ringInfo 2 _ _ rfl) rfl rfl,
      methodWithin_next (@typeDecl?_ringInfo 3 _ _ rfl) rfl rfl,
      methodWithin_next (@typeDecl?_ringInfo 4 _ _ rfl) rfl rfl]
    rfl
  have hfourth : ringInfo.field? (.named "app" "fourth") "size" = some (.named "" "int") := by
    rw [field?, promotionDepth, fieldWithin_next (@typeDecl?_ringInfo 3 _ _ rfl) rfl rfl,
      fieldWithin_next (@typeDecl?_ringInfo 4 _ _ rfl) rfl rfl,
      fieldWithin_own (@typeDecl?_ringInfo 5 _ _ rfl) rfl]
  exact ⟨⟨hsecond, (lookup_inReach ringInfo _ _).2.1 _ _ hsecond⟩, hfirst,
    hfourth, (lookup_inReach ringInfo _ _).2.2.2 _ hfourth⟩

end Info

end TraceWeave.Types
