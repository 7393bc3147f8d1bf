/-!
Tables: entries in ascending order of their keys, one for each key.

`Table.get?_insert` and `Table.get?_modify` say what the operations do to the
entries; nothing else of their code matters to a caller.
-/

namespace TraceWeave.Order

/-- Entries by key, in ascending order. -/
structure Table (κ α : Type) where
  entries : List (κ × α) := []
  deriving Inhabited

namespace Table

variable {κ α : Type} [DecidableEq κ]

def empty : Table κ α := {}

/-- Looks a key up. -/
def get? (table : Table κ α) (key : κ) : Option α := table.entries.lookup key

def contains (table : Table κ α) (key : κ) : Bool := (table.get? key).isSome

def keys (table : Table κ α) : List κ := table.entries.map (·.1)

def values (table : Table κ α) : List α := table.entries.map (·.2)

def size (table : Table κ α) : Nat := table.entries.length

/-- Inserts into a list of entries, in place of an entry of the same key. -/
def insertEntry [Ord κ] (key : κ) (value : α) : List (κ × α) → List (κ × α)
  | [] => [(key, value)]
  | (key', value') :: rest =>
      if key = key' then (key, value) :: rest
      else if compare key key' = .lt then (key, value) :: (key', value') :: rest
      else (key', value') :: insertEntry key value rest

def insert [Ord κ] (table : Table κ α) (key : κ) (value : α) : Table κ α :=
  ⟨insertEntry key value table.entries⟩

/-- Changes the value of a key, if there is one. -/
def modify (table : Table κ α) (key : κ) (f : α → α) : Table κ α :=
  ⟨table.entries.map fun (key', value) => (key', if key = key' then f value else value)⟩

/-- Changes all values. -/
def map (f : α → α) (table : Table κ α) : Table κ α :=
  ⟨table.entries.map fun (key, value) => (key, f value)⟩

def ofList [Ord κ] (entries : List (κ × α)) : Table κ α :=
  entries.foldl (fun table entry => table.insert entry.1 entry.2) {}

theorem lookup_cons_eq_ite (key other : κ) (value : α) (entries : List (κ × α)) :
    ((key, value) :: entries).lookup other =
      if other = key then some value else entries.lookup other := by
  rw [List.lookup_cons]
  by_cases h : other = key
  · simp [h]
  · rw [beq_eq_false_iff_ne.2 h, if_neg h]

theorem mem_of_get? {table : Table κ α} {key : κ} {value : α} (h : table.get? key = some value) :
    (key, value) ∈ table.entries := by
  obtain ⟨front, back, hentries, -⟩ := List.lookup_eq_some_iff.1 h
  simp [hentries]

theorem lookup_insertEntry [Ord κ] (key other : κ) (value : α) (entries : List (κ × α)) :
    (insertEntry key value entries).lookup other =
      if other = key then some value else entries.lookup other := by
  induction entries with
  | nil => simp only [insertEntry, lookup_cons_eq_ite]
  | cons entry rest ih => grind [insertEntry, lookup_cons_eq_ite]

@[simp]
theorem get?_insert [Ord κ] (table : Table κ α) (key other : κ) (value : α) :
    (table.insert key value).get? other = if other = key then some value else table.get? other :=
  lookup_insertEntry key other value table.entries

theorem lookup_map_modify (key other : κ) (f : α → α) (entries : List (κ × α)) :
    (entries.map fun (key', value) => (key', if key = key' then f value else value)).lookup other =
      (entries.lookup other).map fun value => if other = key then f value else value := by
  induction entries with
  | nil => rfl
  | cons entry rest ih => grind [lookup_cons_eq_ite]

@[simp]
theorem get?_modify (table : Table κ α) (key other : κ) (f : α → α) :
    (table.modify key f).get? other =
      (table.get? other).map fun value => if other = key then f value else value :=
  lookup_map_modify key other f table.entries

theorem lookup_map_value (f : α → α) (other : κ) (entries : List (κ × α)) :
    (entries.map fun (key, value) => (key, f value)).lookup other = (entries.lookup other).map f := by
  induction entries with
  | nil => rfl
  | cons entry rest ih => grind [lookup_cons_eq_ite]

@[simp]
theorem get?_map (f : α → α) (table : Table κ α) (other : κ) :
    (table.map f).get? other = (table.get? other).map f :=
  lookup_map_value f other table.entries

/-! ## Order -/

/-- The keys are in ascending order. -/
def IsSorted [Ord κ] (table : Table κ α) : Prop :=
  table.entries.Pairwise fun entry entry' => compare entry.1 entry'.1 = .lt

theorem mem_insertEntry [Ord κ] {key : κ} {value : α} {entries : List (κ × α)} {entry : κ × α}
    (h : entry ∈ insertEntry key value entries) : entry = (key, value) ∨ entry ∈ entries := by
  induction entries with
  | nil => simpa [insertEntry] using h
  | cons first rest ih =>
      unfold insertEntry at h
      split at h
      · grind
      · split at h <;> grind

theorem isSorted_insert [Ord κ] [Std.TransOrd κ] [Std.LawfulEqOrd κ] {table : Table κ α}
    (h : table.IsSorted) (key : κ) (value : α) : (table.insert key value).IsSorted := by
  obtain ⟨entries⟩ := table
  simp only [IsSorted, insert] at h ⊢
  induction entries with
  | nil => simp [insertEntry]
  | cons first rest ih =>
      obtain ⟨key', value'⟩ := first
      rw [List.pairwise_cons] at h
      unfold insertEntry
      split
      · next heq =>
        subst heq
        exact List.pairwise_cons.2 h
      · next hne =>
        split
        · next hlt =>
          refine List.pairwise_cons.2 ⟨fun entry hmem => ?_, List.pairwise_cons.2 h⟩
          obtain rfl | hmem := List.mem_cons.1 hmem
          · exact hlt
          · exact Std.TransCmp.lt_trans hlt (h.1 entry hmem)
        · next hge =>
          have hgt : compare key' key = .lt := by
            cases hcompare : compare key key' with
            | lt => contradiction
            | eq => exact absurd (Std.LawfulEqOrd.eq_of_compare hcompare) hne
            | gt => exact Std.OrientedCmp.lt_of_gt hcompare
          refine List.pairwise_cons.2 ⟨fun entry hmem => ?_, ih h.2⟩
          obtain rfl | hmem := mem_insertEntry hmem
          · exact hgt
          · exact h.1 entry hmem

omit [DecidableEq κ] in
theorem nodup_keys [Ord κ] [Std.LawfulEqOrd κ] {table : Table κ α} (h : table.IsSorted) :
    table.keys.Nodup := by
  refine List.pairwise_map.2 (h.imp fun hlt heq => ?_)
  rw [heq] at hlt
  simp at hlt

theorem isSorted_ofList [Ord κ] [Std.TransOrd κ] [Std.LawfulEqOrd κ] (entries : List (κ × α)) :
    (ofList entries).IsSorted := by
  unfold ofList
  have hfold : ∀ table : Table κ α, table.IsSorted →
      (entries.foldl (fun table entry => table.insert entry.1 entry.2) table).IsSorted := by
    induction entries with
    | nil => exact fun table h => h
    | cons entry entries ih =>
        exact fun table h => ih _ (isSorted_insert h entry.1 entry.2)
  exact hfold {} .nil

end Table

end TraceWeave.Order
