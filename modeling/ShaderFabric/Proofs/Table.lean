/-
# What tables hold

Which entries a table has after an insertion, an overriding or an appending, and what of that a
lookup sees.

* `find?_override`, `find?_ofList_of_mem`: what is found among entries that are laid over others;
* `sorted_override`, `Sorted.nodup`: tables stay tables, and have each name once;
* `Rel`: two tables of the same names with related values;
* `map_eq_of_forall₂`, `exists_of_forall₂`: what related lists have in common.
-/
import Mathlib.Data.List.Forall2
import Mathlib.Data.List.Nodup
import ShaderFabric.Table

namespace ShaderFabric

namespace Table

variable {α : Type}

/-! ## 1. Lookup -/

theorem contains_of_mem {name : String} : ∀ {table : Table α},
    name ∈ table.names → table.contains name = true
  | [], h => by simp [names] at h
  | (key, value) :: rest, h => by
    simp only [contains, find?]
    split
    · rfl
    · rename_i hne
      rcases List.mem_cons.mp h with h | h
      · exact absurd h.symm hne
      · exact contains_of_mem h

theorem mem_of_find?_eq_some {name : String} {value : α} : ∀ {table : Table α},
    table.find? name = some value → (name, value) ∈ table
  | [], h => by simp at h
  | (key, old) :: rest, h => by
    simp only [find?] at h
    split at h
    · rename_i hkey
      cases h
      rw [hkey]
      exact List.mem_cons_self
    · exact List.mem_cons_of_mem _ (mem_of_find?_eq_some h)

/-- Of two tables one after the other the first has precedence. -/
theorem find?_append (first second : Table α) (name : String) :
    find? (first ++ second) name = (first.find? name).or (second.find? name) := by
  induction first with
  | nil => rfl
  | cons entry rest ih =>
    simp only [List.cons_append, find?, ih]
    split
    · rfl
    · rfl

/-! ## 2. Entries -/

theorem mem_insert {name : String} {value : α} {entry : String × α} :
    ∀ {table : Table α}, entry ∈ table.insert name value →
      entry = (name, value) ∨ entry ∈ table
  | [], h => by simpa [insert] using h
  | (key, old) :: rest, h => by
    unfold insert at h
    split at h
    · exact List.mem_cons.mp h
    · split at h
      · exact (List.mem_cons.mp h).imp_right (List.mem_cons_of_mem _)
      · rcases List.mem_cons.mp h with rfl | h
        · exact .inr List.mem_cons_self
        · exact (mem_insert h).imp_right (List.mem_cons_of_mem _)

theorem mem_override {entry : String × α} : ∀ {upper lower : Table α},
    entry ∈ override lower upper → entry ∈ lower ∨ entry ∈ upper
  | [], lower, h => .inl h
  | first :: rest, lower, h => by
    have later : entry ∈ override (lower.insert first.1 first.2) rest := h
    rcases mem_override later with h | h
    · rcases mem_insert h with rfl | h
      · exact .inr List.mem_cons_self
      · exact .inl h
    · exact .inr (List.mem_cons_of_mem _ h)

theorem mem_of_mem_ofList {entry : String × α} {entries : List (String × α)}
    (h : entry ∈ ofList entries) : entry ∈ entries :=
  (mem_override h).resolve_left List.not_mem_nil

/-! ## 3. Lookup in what lists make -/

/-- Of the entries of one name that are laid over a table, the last one is found. -/
theorem find?_override (name : String) : ∀ lower upper : Table α,
    (override lower upper).find? name = (find? upper.reverse name).or (lower.find? name)
  | lower, [] => rfl
  | lower, (key, value) :: rest => by
    have hlater : (override (lower.insert key value) rest).find? name = _ :=
      find?_override name (lower.insert key value) rest
    rw [List.reverse_cons, find?_append, Option.or_assoc]
    show (override (lower.insert key value) rest).find? name = _
    rw [hlater, find?_insert]
    congr 1
    simp only [find?]
    split
    · rfl
    · rfl

theorem mem_of_find?_ofList {name : String} {value : α} {entries : List (String × α)}
    (h : (ofList entries).find? name = some value) : (name, value) ∈ entries := by
  have hreverse : (override [] entries).find? name = some value := h
  rw [find?_override, find?_nil, Option.or_none] at hreverse
  exact List.mem_reverse.mp (mem_of_find?_eq_some hreverse)

theorem find?_eq_some_of_mem {name : String} {value : α} : ∀ {table : Table α},
    table.names.Nodup → (name, value) ∈ table → table.find? name = some value
  | (key, old) :: rest, hnodup, h => by
    have hkey := List.nodup_cons.mp hnodup
    rcases List.mem_cons.mp h with heq | h
    · cases heq
      exact if_pos rfl
    · have hne : key ≠ name := by
        rintro rfl
        exact hkey.1 (List.mem_map.mpr ⟨_, h, rfl⟩)
      rw [find?, if_neg hne]
      exact find?_eq_some_of_mem hkey.2 h

/-- Of entries with different names each one is found. -/
theorem find?_ofList_of_mem {name : String} {value : α} {entries : List (String × α)}
    (hnodup : (entries.map Prod.fst).Nodup) (h : (name, value) ∈ entries) :
    (ofList entries).find? name = some value := by
  have hreverse : (override [] entries).find? name = some value := by
    rw [find?_override, find?_nil, Option.or_none]
    refine find?_eq_some_of_mem ?_ (List.mem_reverse.mpr h)
    rw [names, List.map_reverse]
    exact List.nodup_reverse.mpr hnodup
  exact hreverse

/-! ## 4. Order -/

theorem sorted_override : ∀ {lower upper : Table α}, lower.Sorted → (override lower upper).Sorted
  | _, [], h => h
  | lower, (key, value) :: rest, h =>
    show (override (lower.insert key value) rest).Sorted from
      sorted_override (sorted_insert h key value)

theorem sorted_ofList (entries : List (String × α)) : (ofList entries).Sorted :=
  sorted_override (.nil : Sorted ([] : Table α))

/-- A table has each name once. -/
theorem Sorted.nodup {table : Table α} (h : table.Sorted) : table.names.Nodup := by
  refine List.Pairwise.imp ?_ h
  rintro name other hlt rfl
  exact String.lt_irrefl name hlt

/-- In a table a name has its entry wherever it is looked for from. -/
theorem find?_override_sorted {lower upper : Table α} (h : upper.Sorted) (name : String) :
    (override lower upper).find? name = (upper.find? name).or (lower.find? name) := by
  rw [find?_override]
  congr 1
  cases hfind : upper.find? name with
  | some value =>
    have hmem := List.mem_reverse.mpr (mem_of_find?_eq_some hfind)
    refine find?_eq_some_of_mem ?_ hmem
    rw [names, List.map_reverse]
    exact List.nodup_reverse.mpr h.nodup
  | none =>
    cases hback : find? upper.reverse name with
    | none => rfl
    | some value =>
      have hmem := List.mem_reverse.mp (mem_of_find?_eq_some hback)
      rw [find?_eq_some_of_mem h.nodup hmem] at hfind
      cases hfind

/-- A name after all others is put at the end. -/
theorem insert_of_last {name : String} {value : α} : ∀ {table : Table α},
    (∀ key ∈ table.names, key < name) → table.insert name value = table ++ [(name, value)]
  | [], _ => rfl
  | (key, old) :: rest, h => by
    obtain ⟨hkey, hrest⟩ := List.forall_mem_cons.mp h
    rw [insert, if_neg (String.lt_asymm hkey), if_neg (String.ne_of_lt hkey).symm,
      insert_of_last hrest]
    rfl

/-- **Entries in order are only appended.** -/
theorem override_of_sorted : ∀ {lower upper : Table α}, Sorted (lower ++ upper) →
    override lower upper = lower ++ upper
  | lower, [], _ => (List.append_nil lower).symm
  | lower, (name, value) :: rest, h => by
    have hlast : ∀ key ∈ lower.names, key < name := by
      rw [Sorted, names, List.map_append] at h
      intro key hkey
      exact (List.pairwise_append.mp h).2.2 key hkey name List.mem_cons_self
    rw [List.append_cons] at h ⊢
    show override (lower.insert name value) rest = _
    rw [insert_of_last hlast]
    exact override_of_sorted h

/-- The table of entries in order has just these entries. -/
theorem ofList_of_sorted {table : Table α} (h : table.Sorted) : ofList table = table :=
  @override_of_sorted α [] table h

/-! ## 5. Related tables -/

/-- Tables of the same names in the same order, with related values. -/
inductive Rel {α β : Type} (R : α → β → Prop) : Table α → Table β → Prop
  | nil : Rel R [] []
  | cons {name : String} {a : α} {b : β} {upper : Table α} {lower : Table β} (h : R a b)
    (rest : Rel R upper lower) : Rel R ((name, a) :: upper) ((name, b) :: lower)

namespace Rel

variable {α β : Type} {R : α → β → Prop} {s : Table α} {t : Table β}

theorem refl {R : α → α → Prop} : ∀ {table : Table α}, (∀ entry ∈ table, R entry.2 entry.2) →
    Rel R table table
  | [], _ => .nil
  | (name, a) :: _, h =>
    .cons (h (name, a) List.mem_cons_self)
      (refl fun entry hentry => h entry (List.mem_cons_of_mem _ hentry))

theorem append {s' : Table α} {t' : Table β} (h : Rel R s t) (h' : Rel R s' t') :
    Rel R (s ++ s') (t ++ t') := by
  induction h with
  | nil => exact h'
  | cons hab _ ih => exact .cons hab ih

theorem names_eq (h : Rel R s t) : s.map Prod.fst = t.map Prod.fst := by
  induction h with
  | nil => rfl
  | cons _ _ ih => rw [List.map_cons, List.map_cons, ih]

theorem contains_eq (h : Rel R s t) (name : String) :
    Table.contains s name = Table.contains t name := by
  induction h with
  | nil => rfl
  | cons _ _ ih =>
    unfold Table.contains at ih ⊢
    simp only [Table.find?]
    split
    · rfl
    · exact ih

theorem insert (h : Rel R s t) {name : String} {a : α} {b : β} (hab : R a b) :
    Rel R (Table.insert s name a) (Table.insert t name b) := by
  induction h with
  | nil => exact .cons hab .nil
  | cons hfirst hrest ih =>
    unfold Table.insert
    split
    · exact .cons hab (.cons hfirst hrest)
    · split
      · exact .cons hab hrest
      · exact .cons hfirst ih

/-- Every entry of the second table has its own in the first. -/
theorem exists_of_mem (h : Rel R s t) {name : String} {b : β} (hmem : (name, b) ∈ t) :
    ∃ a, (name, a) ∈ s ∧ R a b := by
  induction h with
  | nil => exact absurd hmem List.not_mem_nil
  | cons hab _ ih =>
    rcases List.mem_cons.mp hmem with heq | hmem
    · cases heq
      exact ⟨_, List.mem_cons_self, hab⟩
    · obtain ⟨a, ha, hr⟩ := ih hmem
      exact ⟨a, List.mem_cons_of_mem _ ha, hr⟩

theorem override {lower : Table α} {lower' : Table β} (hlower : Rel R lower lower')
    (h : Rel R s t) : Rel R (Table.override lower s) (Table.override lower' t) := by
  induction h generalizing lower lower' with
  | nil => exact hlower
  | cons hab _ ih => exact ih (hlower.insert hab)

end Rel

end Table

/-! ## 6. Related lists -/

section Lists

variable {α β γ : Type} {R : α → β → Prop} {s : List α} {t : List β}

/-- What related values have in common related lists have in common. -/
theorem map_eq_of_forall₂ {f : α → γ} {g : β → γ} (hfg : ∀ a b, R a b → f a = g b)
    (h : List.Forall₂ R s t) : s.map f = t.map g := by
  induction h with
  | nil => rfl
  | cons hab _ ih => rw [List.map_cons, List.map_cons, hfg _ _ hab, ih]

/-- Of related lists, what is in the second is related to something in the first. -/
theorem exists_of_forall₂ (h : List.Forall₂ R s t) {b : β} (hb : b ∈ t) : ∃ a ∈ s, R a b := by
  induction h with
  | nil => exact absurd hb List.not_mem_nil
  | @cons a' b' _ _ hfirst _ ih =>
    rcases List.mem_cons.mp hb with rfl | hb
    · exact ⟨a', List.mem_cons_self, hfirst⟩
    · obtain ⟨a, ha, hab⟩ := ih hb
      exact ⟨a, List.mem_cons_of_mem _ ha, hab⟩

end Lists

end ShaderFabric
