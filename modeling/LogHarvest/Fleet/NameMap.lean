/-!
# Values filed under names

Groups, members and log lists are filed under names, and whoever lists them sees
the names in ascending order (by code point).  A `NameMap` is the list of its
entries in that order, so two maps with the same entries are equal.

The main statements are the two look-up laws of `insert`: the new name finds the
new value, and every other name finds what it found before.
-/

namespace LogHarvest

/-- Values filed under distinct names, in ascending order of the names. -/
structure NameMap (α : Type) where
  entries : List (String × α)
  ascending : entries.Pairwise fun a b => a.1 < b.1
deriving DecidableEq

namespace NameMap

variable {α β : Type}

def empty : NameMap α := ⟨[], List.Pairwise.nil⟩

instance : Inhabited (NameMap α) := ⟨empty⟩

/-!
## Insertion
-/

def insertInto (name : String) (value : α) : List (String × α) → List (String × α)
  | [] => [(name, value)]
  | entry :: rest =>
      if name < entry.1 then (name, value) :: entry :: rest
      else if name = entry.1 then (name, value) :: rest
      else entry :: insertInto name value rest

theorem fst_of_mem_insertInto {name : String} {value : α} {entries : List (String × α)}
    {entry : String × α} (h : entry ∈ insertInto name value entries) :
    entry.1 = name ∨ entry ∈ entries := by
  induction entries with
  | nil =>
      simp only [insertInto, List.mem_singleton] at h
      exact Or.inl (by rw [h])
  | cons first rest ih =>
      simp only [insertInto] at h
      split at h
      · rcases List.mem_cons.1 h with h | h
        · exact Or.inl (by rw [h])
        · exact Or.inr h
      · split at h
        · rcases List.mem_cons.1 h with h | h
          · exact Or.inl (by rw [h])
          · exact Or.inr (List.mem_cons_of_mem first h)
        · rcases List.mem_cons.1 h with h | h
          · exact Or.inr (by rw [h]; exact List.mem_cons_self)
          · rcases ih h with h | h
            · exact Or.inl h
            · exact Or.inr (List.mem_cons_of_mem first h)

theorem pairwise_insertInto {name : String} {value : α} {entries : List (String × α)}
    (sorted : entries.Pairwise fun a b => a.1 < b.1) :
    (insertInto name value entries).Pairwise fun a b => a.1 < b.1 := by
  induction entries with
  | nil => exact List.pairwise_singleton _ _
  | cons first rest ih =>
      obtain ⟨above, sortedRest⟩ := List.pairwise_cons.1 sorted
      simp only [insertInto]
      split
      · rename_i before
        refine List.pairwise_cons.2 ⟨?_, sorted⟩
        intro entry mem
        rcases List.mem_cons.1 mem with rfl | mem
        · exact before
        · exact String.lt_trans before (above entry mem)
      · split
        · rename_i same
          refine List.pairwise_cons.2 ⟨?_, sortedRest⟩
          intro entry mem
          have := above entry mem
          rw [← same] at this
          exact this
        · rename_i notBefore notSame
          have after : first.1 < name :=
            Std.lt_of_le_of_ne (String.not_lt.1 notBefore) (Ne.symm notSame)
          refine List.pairwise_cons.2 ⟨?_, ih sortedRest⟩
          intro entry mem
          rcases fst_of_mem_insertInto mem with h | h
          · rw [h]; exact after
          · exact above entry h

def insert (m : NameMap α) (name : String) (value : α) : NameMap α :=
  ⟨insertInto name value m.entries, pairwise_insertInto m.ascending⟩

/-!
## Looking up
-/

def get? (m : NameMap α) (name : String) : Option α :=
  m.entries.lookup name

def contains (m : NameMap α) (name : String) : Bool :=
  (m.get? name).isSome

theorem lookup_insertInto_self (name : String) (value : α) (entries : List (String × α)) :
    (insertInto name value entries).lookup name = some value := by
  induction entries with
  | nil => simp [insertInto]
  | cons first rest ih =>
      obtain ⟨key, kept⟩ := first
      simp only [insertInto]
      split
      · simp
      · split
        · simp
        · rename_i notSame
          have skip : (name == key) = false := by simpa using notSame
          simp [List.lookup_cons, skip, ih]

theorem lookup_insertInto_of_ne {name other : String} (value : α)
    (entries : List (String × α)) (different : other ≠ name) :
    (insertInto name value entries).lookup other = entries.lookup other := by
  have skip : (other == name) = false := by simpa using different
  induction entries with
  | nil => simp [insertInto, List.lookup_cons, skip]
  | cons first rest ih =>
      obtain ⟨key, kept⟩ := first
      simp only [insertInto]
      split
      · simp [List.lookup_cons, skip]
      · split
        · rename_i same
          have skipKey : (other == key) = false := by
            have same : name = key := same
            rw [← same]
            exact skip
          simp [List.lookup_cons, skip, skipKey]
        · simp [List.lookup_cons, ih]

@[simp] theorem get?_insert_self (m : NameMap α) (name : String) (value : α) :
    (m.insert name value).get? name = some value :=
  lookup_insertInto_self name value m.entries

theorem get?_insert_of_ne (m : NameMap α) {name other : String} (value : α)
    (different : other ≠ name) : (m.insert name value).get? other = m.get? other :=
  lookup_insertInto_of_ne value m.entries different

/-!
## Lists and maps
-/

def ofList (entries : List (String × α)) : NameMap α :=
  entries.foldl (fun m entry => m.insert entry.1 entry.2) empty

def names (m : NameMap α) : List String :=
  m.entries.map Prod.fst

def values (m : NameMap α) : List α :=
  m.entries.map Prod.snd

def size (m : NameMap α) : Nat :=
  m.entries.length

def isEmpty (m : NameMap α) : Bool :=
  m.entries.isEmpty

end NameMap
end LogHarvest
