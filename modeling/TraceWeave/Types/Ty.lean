/-!
The types of Go as far as name resolution models them.
-/

namespace TraceWeave.Types

mutual

inductive Ty where
  /-- The package is empty for a predeclared type. -/
  | named (package name : String)
  | pointer (target : Ty)
  | func (signature : Signature)
  /-- Slices, maps, channels, type parameters: known by their text alone. -/
  | other (text : String)

structure Signature where
  params : List Ty := []
  results : List Ty := []
  variadic : Bool := false

end

instance : Inhabited Ty := ⟨.other ""⟩

instance : Inhabited Signature := ⟨{}⟩

/-! ## Equality -/

mutual

def Ty.decEq : (first second : Ty) → Decidable (first = second)
  | .named package name, .named package' name' =>
      if h : package = package' ∧ name = name' then isTrue (by rw [h.1, h.2])
      else isFalse (by rintro ⟨⟩; exact h ⟨rfl, rfl⟩)
  | .pointer target, .pointer target' =>
      match Ty.decEq target target' with
      | isTrue h => isTrue (by rw [h])
      | isFalse h => isFalse (by rintro ⟨⟩; exact h rfl)
  | .func signature, .func signature' =>
      match Signature.decEq signature signature' with
      | isTrue h => isTrue (by rw [h])
      | isFalse h => isFalse (by rintro ⟨⟩; exact h rfl)
  | .other text, .other text' =>
      if h : text = text' then isTrue (by rw [h]) else isFalse (by rintro ⟨⟩; exact h rfl)
  | .named _ _, .pointer _ => isFalse (by rintro ⟨⟩)
  | .named _ _, .func _ => isFalse (by rintro ⟨⟩)
  | .named _ _, .other _ => isFalse (by rintro ⟨⟩)
  | .pointer _, .named _ _ => isFalse (by rintro ⟨⟩)
  | .pointer _, .func _ => isFalse (by rintro ⟨⟩)
  | .pointer _, .other _ => isFalse (by rintro ⟨⟩)
  | .func _, .named _ _ => isFalse (by rintro ⟨⟩)
  | .func _, .pointer _ => isFalse (by rintro ⟨⟩)
  | .func _, .other _ => isFalse (by rintro ⟨⟩)
  | .other _, .named _ _ => isFalse (by rintro ⟨⟩)
  | .other _, .pointer _ => isFalse (by rintro ⟨⟩)
  | .other _, .func _ => isFalse (by rintro ⟨⟩)

def Signature.decEq : (first second : Signature) → Decidable (first = second)
  | ⟨params, results, variadic⟩, ⟨params', results', variadic'⟩ =>
      match decEqTys params params', decEqTys results results' with
      | isTrue h, isTrue h' =>
          if h'' : variadic = variadic' then isTrue (by rw [h, h', h''])
          else isFalse (by rintro ⟨⟩; exact h'' rfl)
      | isFalse h, _ => isFalse (by rintro ⟨⟩; exact h rfl)
      | _, isFalse h => isFalse (by rintro ⟨⟩; exact h rfl)

def decEqTys : (first second : List Ty) → Decidable (first = second)
  | [], [] => isTrue rfl
  | [], _ :: _ => isFalse (by rintro ⟨⟩)
  | _ :: _, [] => isFalse (by rintro ⟨⟩)
  | type :: types, type' :: types' =>
      match Ty.decEq type type', decEqTys types types' with
      | isTrue h, isTrue h' => isTrue (by rw [h, h'])
      | isFalse h, _ => isFalse (by rintro ⟨⟩; exact h rfl)
      | _, isFalse h => isFalse (by rintro ⟨⟩; exact h rfl)

end

instance : DecidableEq Ty := Ty.decEq

instance : DecidableEq Signature := Signature.decEq

/-! ## Questions about a type -/

namespace Ty

/-- Exactly the named type. -/
def isNamed (type : Ty) (package name : String) : Bool := type == .named package name

def isPointerTo (type : Ty) (package name : String) : Bool :=
  type == .pointer (.named package name)

def isError (type : Ty) : Bool := type.isNamed "" "error"

/-- The type with one pointer removed. -/
def deref : Ty → Ty
  | .pointer target => target
  | type => type

/-- The package and the name of a named type. -/
def name? : Ty → Option (String × String)
  | .named package name => some (package, name)
  | _ => none

def signature? : Ty → Option Signature
  | .func signature => some signature
  | _ => none

end Ty

/-! ## Text -/

mutual

def Ty.text : Ty → String
  | .named package name => if package.isEmpty then name else package ++ "." ++ name
  | .pointer target => "*" ++ target.text
  | .func signature => signature.text
  | .other text => text

def Signature.text : Signature → String
  | ⟨params, results, variadic⟩ =>
      let head := "func(" ++ ", ".intercalate (paramTexts variadic params) ++ ")"
      match textsOfTys results with
      | [] => head
      | [result] => head ++ " " ++ result
      | results => head ++ " (" ++ ", ".intercalate results ++ ")"

def textsOfTys : List Ty → List String
  | [] => []
  | type :: types => type.text :: textsOfTys types

/-- The texts of parameters; the last one of a variadic function is marked. -/
def paramTexts (variadic : Bool) : List Ty → List String
  | [] => []
  | [type] => [if variadic then "..." ++ type.text else type.text]
  | type :: types => type.text :: paramTexts variadic types

end

end TraceWeave.Types
