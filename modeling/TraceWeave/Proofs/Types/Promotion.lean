import TraceWeave.Types.Info

/-!
Promoted members.

A member that a type does not have itself is looked for in the types that it embeds, one after
the other and each to the bottom, so that the declaring type found is the first one in
depth-first order (`search_eq_some_iff`).  It is the nearest one as well wherever no later way
is shorter (`member_shallowest`).
-/

namespace TraceWeave.Types

/-! ## Ways -/

section

variable {α : Type} (own : Ty → Option α) (inner : Ty → List Ty)

/-- The type that a way leads to, each step of which is the place of an embedded type. -/
def follow : List Nat → Ty → Option Ty
  | [], type => some type
  | place :: way, type => (inner type)[place]?.bind (follow way)

/-- What the type at the end of a way has of its own. -/
def declaredAt (type : Ty) (way : List Nat) : Option α := (follow inner way type).bind own

/-- What a type has of its own, or what a type that it embeds leads to in fewer steps. -/
def search : Nat → Ty → Option α
  | 0, _ => none
  | depth + 1, type =>
      match own type with
      | some found => some found
      | none => (inner type).findSome? (search depth)

theorem declaredAt_nil (type : Ty) : declaredAt own inner type [] = own type := rfl

theorem declaredAt_cons (type : Ty) (place : Nat) (way : List Nat) :
    declaredAt own inner type (place :: way) =
      (inner type)[place]?.bind fun embedded => declaredAt own inner embedded way := by
  simp only [declaredAt, follow, Option.bind_assoc]

variable {own inner}

theorem search_eq_none_iff {depth : Nat} {type : Ty} :
    search own inner depth type = none ↔
      ∀ way : List Nat, way.length < depth → declaredAt own inner type way = none := by
  induction depth generalizing type with
  | zero => simp [search]
  | succ depth ih =>
      unfold search
      constructor
      · intro h way hlength
        split at h
        · contradiction
        · next hown =>
          rw [List.findSome?_eq_none_iff] at h
          cases way with
          | nil => exact hown
          | cons place way =>
              rw [declaredAt_cons, Option.bind_eq_none_iff]
              intro embedded hembedded
              exact ih.1 (h embedded (List.mem_of_getElem? hembedded)) way (by simpa using hlength)
      · intro h
        have hown : own type = none := h [] (by simp)
        rw [hown]
        refine List.findSome?_eq_none_iff.2 fun embedded hmem => ih.2 fun way hlength => ?_
        obtain ⟨place, hplace⟩ := List.getElem?_of_mem hmem
        have hway := h (place :: way) (by simpa using hlength)
        rwa [declaredAt_cons, hplace, Option.bind_some] at hway

/-- The first way in depth-first order that leads to something. -/
def FirstWay (declared : List Nat → Option α) (depth : Nat) (found : α) : Prop :=
  ∃ way, way.length < depth ∧ declared way = some found ∧
    ∀ way', way'.length < depth → (declared way').isSome = true → ¬ way' < way

/-- The search goes through the ways in depth-first order. -/
theorem search_eq_some_iff {depth : Nat} {type : Ty} {found : α} :
    search own inner depth type = some found ↔
      FirstWay (declaredAt own inner type) depth found := by
  induction depth generalizing type with
  | zero => simp [search, FirstWay]
  | succ depth ih =>
      unfold search
      cases hown : own type with
      | some own' =>
          constructor
          · intro h
            exact ⟨[], by simp, hown.trans h, fun way' _ _ => List.not_lt_nil way'⟩
          · rintro ⟨way, -, hway, hfirst⟩
            cases way with
            | nil => exact hown.symm.trans hway
            | cons place way =>
                exact absurd (List.nil_lt_cons place way)
                  (hfirst [] (by simp) (by simp [declaredAt_nil, hown]))
      | none =>
          rw [List.findSome?_eq_some_iff]
          constructor
          · rintro ⟨front, embedded, back, hinner, hfound, hfront⟩
            obtain ⟨way, hlength, hway, hfirst⟩ := ih.1 hfound
            have hplace : (inner type)[front.length]? = some embedded := by simp [hinner]
            refine ⟨front.length :: way, by simpa using hlength,
              by rw [declaredAt_cons, hplace, Option.bind_some, hway], fun way' hlength' hsome hlt => ?_⟩
            cases way' with
            | nil => simp [declaredAt_nil, hown] at hsome
            | cons place' way' =>
                rw [declaredAt_cons] at hsome
                obtain hearlier | ⟨rfl, hbehind⟩ := List.cons_lt_cons_iff.1 hlt
                · -- an earlier embedded type leads nowhere
                  have hplace' : (inner type)[place']? = some front[place'] := by
                    simp [hinner, List.getElem?_append_left hearlier]
                  rw [hplace', Option.bind_some] at hsome
                  have hnone := search_eq_none_iff.1 (hfront _ (List.getElem_mem hearlier)) way'
                    (by simpa using hlength')
                  simp [hnone] at hsome
                · rw [hplace, Option.bind_some] at hsome
                  exact hfirst way' (by simpa using hlength') hsome hbehind
          · rintro ⟨way, hlength, hway, hfirst⟩
            cases way with
            | nil => simp [declaredAt_nil, hown] at hway
            | cons place way =>
                rw [declaredAt_cons] at hway
                obtain ⟨embedded, hplace, hway⟩ := Option.bind_eq_some_iff.1 hway
                obtain ⟨hbound, hget⟩ := List.getElem?_eq_some_iff.1 hplace
                refine ⟨(inner type).take place, embedded, (inner type).drop (place + 1), ?_,
                  ih.2 ⟨way, by simpa using hlength, hway, fun way' hlength' hsome hlt => ?_⟩,
                  fun earlier hmem => search_eq_none_iff.2 fun way' hlength' => ?_⟩
                · rw [← hget, List.getElem_cons_drop, List.take_append_drop]
                · refine hfirst (place :: way') (by simpa using hlength') ?_
                    (List.cons_lt_cons_iff.2 (.inr ⟨rfl, hlt⟩))
                  rw [declaredAt_cons, hplace, Option.bind_some, hsome]
                · obtain ⟨place', hlt, rfl⟩ := List.mem_take_iff_getElem.1 hmem
                  cases hsome : declaredAt own inner (inner type)[place'] way' with
                  | none => rfl
                  | some other =>
                      refine absurd (List.cons_lt_cons_iff.2 (.inl (by omega)))
                        (hfirst (place' :: way') (by simpa using hlength') ?_)
                      rw [declaredAt_cons, List.getElem?_eq_getElem (by omega), Option.bind_some,
                        hsome]
                      rfl

/-- No way that leads to something is shorter. -/
def Shallowest (declared : List Nat → Option α) (depth : Nat) (found : α) : Prop :=
  ∃ way, way.length < depth ∧ declared way = some found ∧
    ∀ way', way'.length < depth → (declared way').isSome = true → way.length ≤ way'.length

/-- Of two ways that lead to something, the later one in depth-first order is no shorter. -/
def InDepthOrder (declared : List Nat → Option α) (depth : Nat) : Prop :=
  ∀ way way' : List Nat, way.length < depth → way'.length < depth →
    (declared way).isSome = true → (declared way').isSome = true →
      way < way' → way.length ≤ way'.length

theorem FirstWay.shallowest {declared : List Nat → Option α} {depth : Nat} {found : α}
    (h : FirstWay declared depth found) (horder : InDepthOrder declared depth) :
    Shallowest declared depth found := by
  obtain ⟨way, hlength, hway, hfirst⟩ := h
  refine ⟨way, hlength, hway, fun way' hlength' hsome => ?_⟩
  obtain hlt | heq := List.le_iff_lt_or_eq.1 (List.not_lt.1 (hfirst way' hlength' hsome))
  · exact horder way way' hlength hlength' (by simp [hway]) hsome hlt
  · exact Nat.le_of_eq (congrArg List.length heq)

/-- Where no type embeds two others there is one way alone. -/
theorem inDepthOrder_of_chain (hchain : ∀ type, (inner type).length ≤ 1) (type : Ty) (depth : Nat) :
    InDepthOrder (declaredAt own inner type) depth := by
  intro way way' hlength hlength' hsome hsome' hlt
  induction way generalizing way' type with
  | nil => simp
  | cons place way ih =>
      cases way' with
      | nil => exact absurd hlt (List.not_lt_nil _)
      | cons place' way' =>
          rw [declaredAt_cons, Option.isSome_iff_exists] at hsome hsome'
          obtain ⟨found, hsome⟩ := hsome
          obtain ⟨found', hsome'⟩ := hsome'
          obtain ⟨embedded, hembedded, hway⟩ := Option.bind_eq_some_iff.1 hsome
          obtain ⟨embedded', hembedded', hway'⟩ := Option.bind_eq_some_iff.1 hsome'
          have hplace := (List.getElem?_eq_some_iff.1 hembedded).1
          have hplace' := (List.getElem?_eq_some_iff.1 hembedded').1
          have hsingle := hchain type
          obtain rfl : place = 0 := by omega
          obtain rfl : place' = 0 := by omega
          obtain rfl : embedded = embedded' := Option.some.inj (hembedded.symm.trans hembedded')
          obtain hlt | ⟨-, hlt⟩ := List.cons_lt_cons_iff.1 hlt
          · omega
          · exact Nat.succ_le_succ (ih embedded way' (Nat.lt_of_succ_lt hlength)
              (Nat.lt_of_succ_lt hlength') (by simp [hway]) (by simp [hway']) hlt)

end

/-! ## Members -/

namespace Info

variable (info : Info) (name : String)

/-- The field that a type declares itself. -/
def ownField? (type : Ty) : Option Ty := (info.typeDecl? type).bind (·.field? name)

/-- The method that a type declares itself, with the type. -/
def ownMethod? (type : Ty) : Option (Signature × Ty) :=
  (info.typeDecl? type).bind fun decl => (decl.method? name).map (·, type.deref)

/-- The types of the embedded fields of a type. -/
def fieldsEmbedded (type : Ty) : List Ty :=
  ((info.typeDecl? type).map (·.embeddedFields)).getD []

/-- The types of the embedded fields of a type, and the interfaces that it embeds. -/
def typesEmbedded (type : Ty) : List Ty :=
  ((info.typeDecl? type).map fun decl => decl.embeddedFields ++ decl.embeds).getD []

theorem fieldWithin_eq_search (depth : Nat) :
    info.fieldWithin name depth = search (info.ownField? name) info.fieldsEmbedded depth := by
  induction depth with
  | zero => rfl
  | succ depth ih =>
      funext type
      rw [fieldWithin, search, ih, ownField?, fieldsEmbedded]
      cases info.typeDecl? type with
      | none => rfl
      | some decl => cases hfield : decl.field? name <;> simp [hfield]

theorem methodWithin_eq_search (depth : Nat) :
    info.methodWithin name depth = search (info.ownMethod? name) info.typesEmbedded depth := by
  induction depth with
  | zero => rfl
  | succ depth ih =>
      funext type
      rw [methodWithin, search, ih, ownMethod?, typesEmbedded]
      cases info.typeDecl? type with
      | none => rfl
      | some decl => cases hmethod : decl.method? name <;> simp [hmethod]

/--
A promoted member is the first one in depth-first order, and a nearest one where no type that
stands behind another declaring one is nearer.
-/
theorem member_shallowest (info : Info) (type : Ty) (name : String) :
    (∀ field, info.field? type name = some field ↔
      FirstWay (declaredAt (info.ownField? name) info.fieldsEmbedded type) promotionDepth field) ∧
    (∀ found, info.method? type name = some found ↔
      FirstWay (declaredAt (info.ownMethod? name) info.typesEmbedded type) promotionDepth found) ∧
    (InDepthOrder (declaredAt (info.ownField? name) info.fieldsEmbedded type) promotionDepth →
      ∀ field, info.field? type name = some field →
        Shallowest (declaredAt (info.ownField? name) info.fieldsEmbedded type) promotionDepth field) ∧
    (InDepthOrder (declaredAt (info.ownMethod? name) info.typesEmbedded type) promotionDepth →
      ∀ found, info.method? type name = some found →
        Shallowest (declaredAt (info.ownMethod? name) info.typesEmbedded type) promotionDepth
          found) := by
  have hfield : ∀ field, info.field? type name = some field ↔
      FirstWay (declaredAt (info.ownField? name) info.fieldsEmbedded type) promotionDepth field := by
    intro field
    rw [field?, fieldWithin_eq_search]
    exact search_eq_some_iff
  have hmethod : ∀ found, info.method? type name = some found ↔
      FirstWay (declaredAt (info.ownMethod? name) info.typesEmbedded type) promotionDepth found := by
    intro found
    rw [method?, methodWithin_eq_search]
    exact search_eq_some_iff
  exact ⟨hfield, hmethod, fun horder field h => ((hfield field).1 h).shallowest horder,
    fun horder found h => ((hmethod found).1 h).shallowest horder⟩

/-! ## A member behind one step -/

/-- A type that embeds another one, which has a field and a method. -/
def nestedInfo : Info where
  types := (({} : Std.HashMap (String × String) TypeDecl).insert ("app", "outer")
    { fields := [(none, .named "app" "inner")] }).insert ("app", "inner")
    { fields := [(some "size", .named "" "int")], methods := [("open", {})] }

theorem typeDecl?_nestedInfo (type : Ty) :
    nestedInfo.typeDecl? type = none ∨
      ∃ decl, nestedInfo.typeDecl? type = some decl ∧ decl.embeds = [] ∧
        decl.embeddedFields.length ≤ 1 := by
  unfold typeDecl?
  cases type.deref.name? with
  | none => exact .inl rfl
  | some key =>
      simp only [Option.bind_some, nestedInfo, Std.HashMap.get?_eq_getElem?,
        Std.HashMap.getElem?_insert]
      split
      · exact .inr ⟨_, rfl, rfl, by decide⟩
      · split
        · exact .inr ⟨_, rfl, rfl, by decide⟩
        · exact .inl (by simp)

theorem member_shallowest_nestedInfo :
    Shallowest (declaredAt (nestedInfo.ownField? "size") nestedInfo.fieldsEmbedded
      (.named "app" "outer")) promotionDepth (.named "" "int") ∧
    Shallowest (declaredAt (nestedInfo.ownMethod? "open") nestedInfo.typesEmbedded
      (.named "app" "outer")) promotionDepth ({}, .named "app" "inner") := by
  have hfields : ∀ type, (nestedInfo.fieldsEmbedded type).length ≤ 1 := by
    intro type
    obtain hnone | ⟨decl, hdecl, hembeds, hlength⟩ := typeDecl?_nestedInfo type
    · simp [fieldsEmbedded, hnone]
    · simpa [fieldsEmbedded, hdecl] using hlength
  have htypes : ∀ type, (nestedInfo.typesEmbedded type).length ≤ 1 := by
    intro type
    obtain hnone | ⟨decl, hdecl, hembeds, hlength⟩ := typeDecl?_nestedInfo type
    · simp [typesEmbedded, hnone]
    · simpa [typesEmbedded, hdecl, hembeds] using hlength
  have houter : nestedInfo.typeDecl? (.named "app" "outer") =
      some { fields := [(none, .named "app" "inner")] } := by
    simp [typeDecl?, nestedInfo, Ty.deref, Ty.name?, Std.HashMap.getElem_insert]
  have hinner : nestedInfo.typeDecl? (.named "app" "inner") =
      some { fields := [(some "size", .named "" "int")], methods := [("open", {})] } := by
    simp [typeDecl?, nestedInfo, Ty.deref, Ty.name?]
  have hfield : nestedInfo.field? (.named "app" "outer") "size" = some (.named "" "int") := by
    simp [field?, promotionDepth, fieldWithin, houter, hinner, TypeDecl.field?,
      TypeDecl.embeddedFields]
  have hmethod : nestedInfo.method? (.named "app" "outer") "open" =
      some ({}, .named "app" "inner") := by
    simp [method?, promotionDepth, methodWithin, houter, hinner, TypeDecl.method?,
      TypeDecl.embeddedFields, Ty.deref]
  exact ⟨(member_shallowest nestedInfo _ _).2.2.1 (inDepthOrder_of_chain hfields _ _) _ hfield,
    (member_shallowest nestedInfo _ _).2.2.2 (inDepthOrder_of_chain htypes _ _) _ hmethod⟩

end Info

end TraceWeave.Types
