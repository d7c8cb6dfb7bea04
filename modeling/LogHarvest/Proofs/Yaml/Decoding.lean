import LogHarvest.Proofs.Yaml.Parsing
import LogHarvest.Yaml.Decode

/-!
# Reading a value back

A reader of documents tells what a value stands for, if it gets this from every node that
says the value.  Readers of scalars do so by the lemmas on plain scalars; a reader of a
sequence, a mapping or a record does so if the readers of its parts do.
-/

namespace LogHarvest
namespace Yaml

/-- Whatever node says the value, the reader gets this from it. -/
def Tells {α : Type} (read : Located → Except Fault α) (value : Value) (x : α) : Prop :=
  ∀ v : Located, Says v.node value → read v = .ok x

theorem Tells.map {α β : Type} {read : Located → Except Fault α} {value : Value} {x : α}
    (hread : Tells read value x) (f : α → β) :
    Tells (fun v => do return f (← read v)) value (f x) := by
  intro v hsaid
  show (read v >>= fun y => pure (f y)) = _
  rw [hread v hsaid]
  rfl

/-!
## Scalars
-/

theorem tells_text (text expected : String) :
    Tells (fun v => v.text expected) (.text text) text := by
  rintro ⟨node, path, marked⟩ (hsaid : Says node _)
  cases hsaid
  rfl

theorem tells_flag (value : Bool) : Tells Located.flag (.flag value) value := by
  rintro ⟨node, path, marked⟩ (hsaid : Says node _)
  cases hsaid
  cases value <;> rfl

theorem tells_number {value : Float} (hpos : 0 < value) :
    Tells Located.number (.number value) value := by
  rintro ⟨node, path, marked⟩ (hsaid : Says node _)
  cases hsaid
  simp only [Located.number, Located.unquoted?, Located.target, Option.bind_some,
    float?_render hpos]

theorem tells_natural {value bits : Nat} (hbits : bits ≤ 64) (hvalue : value < 2 ^ bits)
    (expected : String) : Tells (fun v => v.natural bits expected) (.natural value) value := by
  rintro ⟨node, path, marked⟩ (hsaid : Says node _)
  cases hsaid with
  | natural spot =>
      have hlarge : value < 2 ^ 64 :=
        Nat.lt_of_lt_of_le hvalue (Nat.pow_le_pow_right (by decide) hbits)
      show Located.natural ⟨_, path, marked⟩ bits expected = _
      unfold Located.natural Located.unquoted? Located.target
      dsimp only
      rw [Option.bind_some, natural64?_toDigits hlarge]
      exact if_pos hvalue

theorem tells_none {α : Type} (read : Located → Except Fault α) :
    Tells (fun v => v.optional read) .null none := by
  rintro ⟨node, path, marked⟩ (hsaid : Says node _)
  cases hsaid
  rfl

theorem tells_some {α : Type} {read : Located → Except Fault α} {value : Nat} {x : α}
    (hread : Tells read (.natural value) x) :
    Tells (fun v => v.optional read) (.natural value) (some x) := by
  rintro ⟨node, path, marked⟩ (hsaid : Says node _)
  have hfound := hread ⟨node, path, marked⟩ hsaid
  cases hsaid with
  | natural spot =>
      have hwritten : (String.ofList (Nat.toDigits 10 value)).isEmpty = false ∧
          Plain.isNull (String.ofList (Nat.toDigits 10 value)) = false := by
        have hdigits := Text.allDigits_toDigits value
        obtain ⟨first, rest, hcons⟩ := List.exists_cons_of_ne_nil (@Nat.toDigits_ne_nil value 10)
        have hfirst : Text.isDigit first = true := hdigits first (by rw [hcons]; simp)
        have hother : ∀ name : String, name.toList.head?.all (fun c => !Text.isDigit c) = true →
            String.ofList (first :: rest) ≠ name := by
          rintro name hname rfl
          rw [String.toList_ofList, List.head?_cons, Option.all_some, hfirst] at hname
          cases hname
        rw [hcons]
        constructor
        · rw [← Bool.not_eq_true, String.isEmpty_iff]
          exact hother "" rfl
        · unfold Plain.isNull
          rw [← Bool.not_eq_true, List.contains_iff_mem]
          intro hmem
          simp only [List.mem_cons, List.not_mem_nil, or_false] at hmem
          rcases hmem with h | h | h | h
          · exact hother "null" rfl h
          · exact hother "Null" rfl h
          · exact hother "NULL" rfl h
          · exact hother "~" rfl h
      show Located.optional ⟨_, path, marked⟩ read = _
      unfold Located.optional Located.target
      dsimp only
      rw [hwritten.1, hwritten.2, hfound]
      rfl

/-!
## Sequences and mappings
-/

theorem mapM_read {α : Type} {read : Located → Except Fault α} {write : α → Value} {v : Located}
    {xs : List α} (hxs : ∀ x ∈ xs, Tells read (write x) x) {nodes : List Node}
    (hsaid : AllSay nodes (xs.map write)) (first : Nat) :
    (nodes.zipIdx first).mapM (fun (node, index) => read (v.within (.item index) node)) =
    .ok xs := by
  induction xs generalizing nodes first with
  | nil =>
      cases hsaid
      rfl
  | cons x xs ih =>
      cases hsaid with
      | cons hnode hnodes =>
          have hfound := hxs x List.mem_cons_self (v.within (.item first) _) hnode
          rw [List.zipIdx_cons, List.mapM_cons,
            ih (fun y hy => hxs y (List.mem_cons_of_mem x hy)) hnodes]
          dsimp only
          rw [hfound]
          rfl

theorem tells_items {α : Type} {read : Located → Except Fault α} {write : α → Value} {xs : List α}
    (hxs : ∀ x ∈ xs, Tells read (write x) x) :
    Tells (fun v => v.items read) (.sequence (xs.map write)) xs := by
  rintro ⟨node, path, marked⟩ (hsaid : Says node _)
  cases hsaid with
  | sequence spot hnodes =>
      show Located.items ⟨_, path, marked⟩ read = _
      unfold Located.items Located.target
      dsimp only
      rw [mapM_read hxs hnodes 0]
      rfl

theorem mapM_readEntries {α : Type} {read : Located → Except Fault α} {write : α → Value}
    {v : Located} {xs : List (String × α)} (hxs : ∀ x ∈ xs, Tells read (write x.2) x.2)
    {nodes : List (Node × Node)} (hsaid : EntriesSay nodes (xs.map fun x => (x.1, write x.2))) :
    (nodes.mapM fun x => do
      let name ← Located.text { v with node := x.1 } "a string"
      return (name, ← read (v.within (Located.stepOf x.1) x.2))) = .ok xs := by
  induction xs generalizing nodes with
  | nil =>
      cases hsaid
      rfl
  | cons x xs ih =>
      cases hsaid with
      | @cons spot key node nodes value entries hnode hnodes =>
          have hfound := hxs x List.mem_cons_self (v.within (.key x.1) node) hnode
          rw [List.mapM_cons, ih (fun y hy => hxs y (List.mem_cons_of_mem x hy)) hnodes]
          show (do
            let y ← (do
              let name ← Except.ok x.1
              return (name, ← read (v.within (.key x.1) node)))
            let ys ← Except.ok xs
            pure (y :: ys)) = _
          rw [hfound]
          rfl

theorem tells_entries {α : Type} {read : Located → Except Fault α} {write : α → Value}
    {xs : List (String × α)} (hxs : ∀ x ∈ xs, Tells read (write x.2) x.2) :
    Tells (fun v => v.entries read) (.mapping (xs.map fun x => (x.1, write x.2))) xs := by
  rintro ⟨node, path, marked⟩ (hsaid : Says node _)
  cases hsaid with
  | @mapping spot nodes _ hnodes =>
      show Located.entries ⟨_, path, marked⟩ read = _
      unfold Located.entries Located.target
      dsimp only
      have hentries :=
        @mapM_readEntries _ _ _ ⟨.mapping spot nodes true, path, marked⟩ _ hxs _ hnodes
      rw [hentries]
      rfl

/-!
## Records
-/

inductive Fills {α : Type} (fields : List (Located.Field α)) : List (String × Value) → α → α → Prop
  | nil (x) : Fills fields [] x x
  | cons {name value rest x y z} (field)
      (hfield : fields.find? (fun f => f.name == name) = some field)
      (hread : Tells (field.read x) value y) (hrest : Fills fields rest y z) :
      Fills fields ((name, value) :: rest) x z

theorem Fills.done {α : Type} {fields : List (Located.Field α)} {x z : α} (hsame : x = z) :
    Fills fields [] x z := by
  rw [hsame]
  exact .nil z

theorem recordEntries_cons {α : Type} {v : Located} {fields : List (Located.Field α)}
    {field : Located.Field α} {key node : Node} {nodes : List (Node × Node)} {seen : List String}
    {name : String} {x y : α}
    (hname : Located.text { v with node := key } "field identifier" = .ok name)
    (hfield : fields.find? (fun f => f.name == name) = some field)
    (hfresh : seen.contains name = false)
    (hread : field.read x (v.within (Located.stepOf key) node) = .ok y) :
    v.recordEntries fields ((key, node) :: nodes) seen x =
      v.recordEntries fields nodes (name :: seen) y := by
  rw [Located.recordEntries, hname]
  simp only [bind, Except.bind, hfield, hfresh, Bool.false_eq_true, if_false, hread]

theorem recordEntries_eq {α : Type} {v : Located} {fields : List (Located.Field α)}
    {entries : List (String × Value)} {x z : α} (hfills : Fills fields entries x z)
    {nodes : List (Node × Node)} (hsaid : EntriesSay nodes entries) {seen : List String}
    (hfresh : ∀ name ∈ entries.map Prod.fst, name ∉ seen)
    (hdistinct : (entries.map Prod.fst).Nodup) :
    ∃ seen', v.recordEntries fields nodes seen x = .ok (seen', z) ∧
      ∀ name, name ∈ seen ∨ name ∈ entries.map Prod.fst → name ∈ seen' := by
  induction hfills generalizing nodes seen with
  | nil x =>
      cases hsaid
      refine ⟨seen, rfl, ?_⟩
      intro name hname
      simpa using hname
  | @cons name value rest x y z field hfield hread _ ih =>
      cases hsaid with
      | @cons spot _ node nodes _ _ hnode hnodes =>
          obtain ⟨hnew, hothers⟩ := List.nodup_cons.1 hdistinct
          have hfirst : seen.contains name = false := by
            rw [← Bool.not_eq_true, List.contains_iff_mem]
            exact hfresh name List.mem_cons_self
          have hrest : ∀ other ∈ rest.map Prod.fst, other ∉ name :: seen := by
            intro other hother hmem
            rcases List.mem_cons.1 hmem with rfl | hmem
            · exact hnew hother
            · exact hfresh other (List.mem_cons_of_mem _ hother) hmem
          obtain ⟨seen', hentries, hseen⟩ := ih hnodes hrest hothers
          refine ⟨seen', ?_, ?_⟩
          · exact (recordEntries_cons rfl hfield hfirst (hread _ hnode)).trans hentries
          · intro other hother
            apply hseen
            simp only [List.map_cons, List.mem_cons] at hother ⊢
            tauto

theorem record_mapping {α : Type} {v : Located} {fields : List (Located.Field α)} {spot : Spot}
    {nodes : List (Node × Node)} {seen : List String} {start x : α}
    (htarget : v.target = .mapping spot nodes true)
    (hentries : v.recordEntries fields nodes [] start = .ok (seen, x))
    (hgiven : fields.find? (fun f => f.required && !seen.contains f.name) = none)
    (expected : String) :
    v.record expected fields start = .ok x := by
  unfold Located.record
  simp only [bind, Except.bind, htarget, hentries, hgiven, Bool.not_true, Bool.false_eq_true,
    if_false]

/-- A record is read from a mapping that fills its fields. -/
theorem tells_record {α : Type} {fields : List (Located.Field α)} {entries : List (String × Value)}
    {start x : α} (hfills : Fills fields entries start x)
    (hdistinct : (entries.map Prod.fst).Nodup)
    (hrequired : ∀ field ∈ fields, field.required = true → field.name ∈ entries.map Prod.fst)
    (expected : String) : Tells (fun v => v.record expected fields start) (.mapping entries) x := by
  rintro ⟨node, path, marked⟩ (hsaid : Says node _)
  cases hsaid with
  | @mapping spot nodes _ hnodes =>
      obtain ⟨seen, hentries, hseen⟩ := @recordEntries_eq α ⟨.mapping spot nodes true, path, marked⟩
        _ _ _ _ hfills _ hnodes [] (by simp) hdistinct
      have hgiven : fields.find? (fun f => f.required && !seen.contains f.name) = none := by
        rw [List.find?_eq_none]
        intro field hfield
        simp only [Bool.and_eq_true, Bool.not_eq_true', not_and, Bool.not_eq_false]
        intro hrequires
        exact List.contains_iff_mem.2 (hseen _ (.inr (hrequired field hfield hrequires)))
      exact record_mapping rfl hentries hgiven expected

end Yaml
end LogHarvest
