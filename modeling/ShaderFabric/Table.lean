/-
# Tables

A table is a list of named entries in increasing order of their names, each name at most once.
The order of names is the order of their characters by code point, which is also the order of
their UTF-8 bytes.

* `Table.insert` keeps a table a table (`Table.sorted_insert`);
* `Table.find?_insert`: a name just inserted is found, every other name is found as before.
-/

namespace ShaderFabric

/-- Named entries, sorted by name when `Table.Sorted` holds. -/
abbrev Table (α : Type) := List (String × α)

namespace Table

variable {α β : Type}

/-- The names in order. -/
def names (table : Table α) : List String := table.map Prod.fst

/-- Increasing names, hence none twice. -/
def Sorted (table : Table α) : Prop := table.names.Pairwise (· < ·)

/-- The entry of a name. -/
def find? (table : Table α) (name : String) : Option α :=
  match table with
  | [] => none
  | (key, value) :: rest => if key = name then some value else find? rest name

/-- Whether a name has an entry. -/
def contains (table : Table α) (name : String) : Bool := (table.find? name).isSome

/-- Adds an entry, or replaces the one of the same name. -/
def insert (table : Table α) (name : String) (value : α) : Table α :=
  match table with
  | [] => [(name, value)]
  | (key, old) :: rest =>
    if name < key then (name, value) :: (key, old) :: rest
    else if name = key then (name, value) :: rest
    else (key, old) :: insert rest name value

/-- The table of a list of entries; of two entries of one name the later one stays. -/
def ofList (entries : List (String × α)) : Table α :=
  entries.foldl (fun table entry => table.insert entry.1 entry.2) []

/-- Every entry of `upper`, and those of `lower` whose names `upper` lacks. -/
def override (lower upper : Table α) : Table α :=
  upper.foldl (fun table entry => table.insert entry.1 entry.2) lower

/-- The same names with changed values. -/
def mapValues (f : α → β) (table : Table α) : Table β :=
  table.map fun entry => (entry.1, f entry.2)

/-! ## Lookup after insertion -/

@[simp] theorem find?_nil (name : String) : find? ([] : Table α) name = none := rfl

theorem find?_insert (table : Table α) (name other : String) (value : α) :
    (table.insert name value).find? other =
      if name = other then some value else table.find? other := by
  induction table with
  | nil => rfl
  | cons entry rest ih =>
    obtain ⟨key, old⟩ := entry
    unfold insert
    split
    · rfl
    · split
      · rename_i h
        subst h
        simp only [find?]
        split <;> rfl
      · rename_i h
        simp only [find?, ih]
        split
        · rename_i h'
          subst h'
          rw [if_neg h]
        · rfl

/-! ## Order after insertion -/

theorem mem_names_insert {table : Table α} {name other : String} {value : α}
    (h : other ∈ (table.insert name value).names) : other = name ∨ other ∈ table.names := by
  induction table with
  | nil => simpa [insert, names] using h
  | cons entry rest ih =>
    obtain ⟨key, old⟩ := entry
    unfold insert at h
    split at h
    · simpa [names] using h
    · split at h
      · rename_i h'
        simp only [names, List.map_cons, List.mem_cons] at h ⊢
        rcases h with h | h
        · exact .inl h
        · exact .inr (.inr h)
      · simp only [names, List.map_cons, List.mem_cons] at h ⊢
        rcases h with h | h
        · exact .inr (.inl h)
        · rcases ih (by simpa [names] using h) with h | h
          · exact .inl h
          · exact .inr (.inr (by simpa [names] using h))

theorem sorted_insert {table : Table α} (h : table.Sorted) (name : String) (value : α) :
    (table.insert name value).Sorted := by
  induction table with
  | nil => simp [insert, Sorted, names]
  | cons entry rest ih =>
    obtain ⟨key, old⟩ := entry
    simp only [Sorted, names, List.map_cons, List.pairwise_cons] at h
    unfold insert
    split
    · rename_i hlt
      simp only [Sorted, names, List.map_cons, List.pairwise_cons, List.mem_cons]
      refine ⟨?_, h.1, h.2⟩
      rintro other (rfl | hm)
      · exact hlt
      · exact String.lt_trans hlt (h.1 other hm)
    · split
      · rename_i heq
        subst heq
        simpa [Sorted, names] using h
      · rename_i hnlt hne
        have hlt : key < name := by
          rcases Decidable.em (key < name) with h' | h'
          · exact h'
          · exact absurd (String.le_antisymm (String.not_lt.mp h') (String.not_lt.mp hnlt)) hne
        have hrest := ih h.2
        simp only [Sorted, names, List.map_cons, List.pairwise_cons]
        refine ⟨?_, hrest⟩
        intro other hm
        rcases mem_names_insert hm with rfl | hm
        · exact hlt
        · exact h.1 other hm

end Table

end ShaderFabric
