import LogHarvest.Fleet.NameMap

/-!
# Maps are what look-ups tell

A map lists its entries in ascending order, so it is known from its look-ups: an
entry is listed if and only if its name finds its value, and two maps in which
every name finds the same are one map.
-/

namespace LogHarvest
namespace NameMap

variable {α : Type}

theorem get?_eq_some_iff (m : NameMap α) (name : String) (value : α) :
    m.get? name = some value ↔ (name, value) ∈ m.entries := by
  obtain ⟨entries, ascending⟩ := m
  simp only [get?]
  induction entries with
  | nil => simp
  | cons first rest ih =>
      obtain ⟨key, kept⟩ := first
      obtain ⟨habove, hrest⟩ := List.pairwise_cons.1 ascending
      rw [List.lookup_cons, List.mem_cons]
      by_cases hname : name = key
      · subst hname
        simp only [beq_self_eq_true, Option.some.injEq, Prod.mk.injEq, true_and]
        constructor
        · intro hvalue
          exact Or.inl hvalue.symm
        · intro hlisted
          rcases hlisted with hvalue | hlater
          · exact hvalue.symm
          · exact absurd (habove _ hlater) (String.lt_irrefl name)
      · have hskip : (name == key) = false := by simpa using hname
        rw [hskip, ih hrest]
        constructor
        · exact Or.inr
        · intro hlisted
          rcases hlisted with hfirst | hlater
          · exact absurd (congrArg Prod.fst hfirst) hname
          · exact hlater

theorem mem_values_iff (m : NameMap α) (value : α) :
    value ∈ m.values ↔ ∃ name, m.get? name = some value := by
  simp only [values, List.mem_map, Prod.exists, exists_eq_right, get?_eq_some_iff]

theorem contains_iff (m : NameMap α) (name : String) :
    m.contains name = true ↔ ∃ value, m.get? name = some value := by
  rw [contains, Option.isSome_iff_exists]

theorem get?_insert (m : NameMap α) (name other : String) (value : α) :
    (m.insert name value).get? other = if other = name then some value else m.get? other := by
  split
  · rename_i hsame
    rw [hsame, get?_insert_self]
  · rename_i hdifferent
    exact get?_insert_of_ne m value hdifferent

theorem contains_insert (m : NameMap α) (name other : String) (value : α) :
    (m.insert name value).contains other = true ↔ other = name ∨ m.contains other = true := by
  rw [contains, contains, get?_insert]
  split
  · rename_i hsame
    simp [hsame]
  · rename_i hdifferent
    simp [hdifferent]

theorem mem_names_iff {m : NameMap α} {name : String} :
    name ∈ m.names ↔ m.contains name = true := by
  simp only [names, List.mem_map, Prod.exists, exists_eq_right, exists_and_right, contains_iff,
    get?_eq_some_iff]

theorem nodup_names (m : NameMap α) : m.names.Nodup := by
  rw [names, List.Nodup, List.pairwise_map]
  refine m.ascending.imp ?_
  intro a b hlt heq
  rw [heq] at hlt
  exact String.lt_irrefl b.1 hlt

theorem nodup_entries (m : NameMap α) : m.entries.Nodup := by
  refine (List.pairwise_map.1 m.nodup_names).imp ?_
  intro a b hne heq
  exact hne (congrArg Prod.fst heq)

theorem ext_get? {m m' : NameMap α} (hsame : ∀ name, m.get? name = m'.get? name) : m = m' := by
  have hmem : ∀ entry, entry ∈ m.entries ↔ entry ∈ m'.entries := by
    rintro ⟨name, value⟩
    rw [← get?_eq_some_iff, ← get?_eq_some_iff, hsame]
  have hasymm : ∀ a b : String × α, a.1 < b.1 → b.1 < a.1 → a = b := by
    intro a b hlt hgt
    exact absurd (String.lt_trans hlt hgt) (String.lt_irrefl a.1)
  have hperm : m.entries.Perm m'.entries :=
    (List.perm_ext_iff_of_nodup m.nodup_entries m'.nodup_entries).2 hmem
  have hentries : m.entries = m'.entries :=
    hperm.eq_of_pairwise (fun a b _ _ => hasymm a b) m.ascending m'.ascending
  cases m
  cases m'
  cases hentries
  rfl

/-!
## Lists of entries
-/

theorem insertInto_append {name : String} {value : α} {entries : List (String × α)}
    (hbefore : ∀ entry ∈ entries, entry.1 < name) :
    insertInto name value entries = entries ++ [(name, value)] := by
  induction entries with
  | nil => rfl
  | cons first rest ih =>
      obtain ⟨hfirst, hrest⟩ := List.forall_mem_cons.1 hbefore
      have hnot : ¬ name < first.1 := fun hless =>
        String.lt_irrefl name (String.lt_trans hless hfirst)
      have hne : name ≠ first.1 := by
        intro hsame
        rw [hsame] at hfirst
        exact String.lt_irrefl first.1 hfirst
      rw [insertInto, if_neg hnot, if_neg hne, ih hrest]
      rfl

theorem ofList_entries (m : NameMap α) : ofList m.entries = m := by
  have hfold : ∀ (rest : List (String × α)) (filed : NameMap α),
      (filed.entries ++ rest).Pairwise (fun a b => a.1 < b.1) →
        (rest.foldl (fun m entry => m.insert entry.1 entry.2) filed).entries =
          filed.entries ++ rest := by
    intro rest
    induction rest with
    | nil =>
        intro filed _
        rw [List.append_nil]
        rfl
    | cons entry rest ih =>
        intro filed hascending
        have hbefore : ∀ other ∈ filed.entries, other.1 < entry.1 := by
          intro other hother
          exact (List.pairwise_append.1 hascending).2.2 other hother entry List.mem_cons_self
        have hinserted : (filed.insert entry.1 entry.2).entries = filed.entries ++ [entry] :=
          insertInto_append hbefore
        have hsplit : filed.entries ++ entry :: rest = (filed.entries ++ [entry]) ++ rest := by simp
        rw [List.foldl_cons, ih, hinserted, hsplit]
        rw [hinserted, ← hsplit]
        exact hascending
  have hentries : (ofList m.entries).entries = m.entries := hfold m.entries empty m.ascending
  obtain ⟨entries, ascending⟩ := m
  generalize hfiled : ofList entries = filed at hentries
  obtain ⟨found, _⟩ := filed
  cases hentries
  rfl

end NameMap
end LogHarvest
