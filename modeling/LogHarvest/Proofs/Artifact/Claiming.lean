import LogHarvest.Proofs.Artifact.Distinct
import Mathlib.Order.Bounds.Defs

/-!
# Which names a sink hands out

A sink gives every caller a name that nobody got before: the wanted name if it is free, or
else the fallback, or else the first numbered variant that is free.  The search for that
variant tries one number after the other and has no bound of its own.  It ends because
the variants of a name are all different, and so not all of them can have been handed out
(`search_freshNumber`).

What a caller gets only depends on the names that were handed out before, whatever they
were wanted as.  So the law of one call (`handsOut_choose`) is the law of each call in a
series of them (`handOut_lawful`).
-/

namespace LogHarvest
namespace Artifact
namespace Sink

/-!
## The search for a number
-/

/--
The search for a variant that was not handed out: from a number on it goes through so many
rounds and ends with the number that it found.
-/
inductive Search (claimed : List String) (base : String) : (n rounds found : Nat) → Prop
  | free {n : Nat} (hfree : numbered base n ∉ claimed) : Search claimed base n 1 n
  | taken {n rounds found : Nat} (htaken : numbered base n ∈ claimed)
      (hrest : Search claimed base (n + 1) rounds found) :
      Search claimed base n (rounds + 1) found

variable {claimed : List String} {base : String}

theorem search_of_taken {n rounds : Nat} (hfree : numbered base (n + rounds) ∉ claimed)
    (htaken : ∀ m < rounds, numbered base (n + m) ∈ claimed) :
    Search claimed base n (rounds + 1) (n + rounds) := by
  induction rounds generalizing n with
  | zero => exact .free hfree
  | succ rounds ih =>
      have hnext : n + 1 + rounds = n + (rounds + 1) := by omega
      refine .taken (htaken 0 (Nat.succ_pos rounds)) ?_
      rw [← hnext] at hfree ⊢
      refine ih hfree ?_
      intro m hm
      have hmember := htaken (m + 1) (Nat.succ_lt_succ hm)
      rwa [show n + (m + 1) = n + 1 + m by omega] at hmember

theorem exists_freshNumber (claimed : List String) (base : String) :
    ∃ n ≤ claimed.length, freshNumber claimed base = n + 1 ∧
      ∀ m < n, numbered base (m + 1) ∈ claimed := by
  unfold freshNumber
  dsimp only
  rw [List.find?_map]
  cases hfound : (List.range (claimed.length + 1)).find?
      ((fun n => !claimed.contains (numbered base n)) ∘ (· + 1)) with
  | some n =>
      obtain ⟨-, hmem, hbefore⟩ := List.find?_range_eq_some.1 hfound
      refine ⟨n, Nat.le_of_lt_succ (List.mem_range.1 hmem), rfl, ?_⟩
      intro m hm
      simpa using hbefore m hm
  | none =>
      refine ⟨claimed.length, Nat.le_refl _, rfl, ?_⟩
      intro m hm
      have htaken := List.find?_eq_none.1 hfound m (List.mem_range.2 (Nat.lt_succ_of_lt hm))
      simpa using htaken

theorem freshNumber_isLeast (claimed : List String) (base : String) :
    IsLeast {n | 0 < n ∧ numbered base n ∉ claimed} (freshNumber claimed base) := by
  obtain ⟨n, -, hnumber, hbelow⟩ := exists_freshNumber claimed base
  constructor
  · exact ⟨by rw [hnumber]; exact Nat.succ_pos n, numbered_freshNumber claimed base⟩
  · rintro k ⟨hpositive, hfree⟩
    by_contra hless
    obtain ⟨m, rfl⟩ := Nat.exists_eq_succ_of_ne_zero (Nat.ne_of_gt hpositive)
    exact hfree (hbelow m (by omega))

theorem search_freshNumber (claimed : List String) (base : String) :
    Search claimed base 1 (freshNumber claimed base) (freshNumber claimed base) := by
  obtain ⟨n, -, hnumber, hbelow⟩ := exists_freshNumber claimed base
  have hfree := numbered_freshNumber claimed base
  rw [hnumber] at hfree ⊢
  have hsearch : Search claimed base 1 (n + 1) (1 + n) := by
    refine search_of_taken (by rwa [Nat.add_comm]) ?_
    intro m hm
    rw [Nat.add_comm]
    exact hbelow m hm
  rwa [Nat.add_comm 1 n] at hsearch

theorem freshNumber_le (claimed : List String) (base : String) :
    freshNumber claimed base ≤ claimed.length + 1 := by
  obtain ⟨n, hn, hnumber, -⟩ := exists_freshNumber claimed base
  rw [hnumber]
  exact Nat.succ_le_succ hn

/-!
## One call
-/

/--
What a sink hands out for a wanted name and a fallback, once some names were handed out:
the wanted name, or the fallback, or the first variant that is found.
-/
inductive HandsOut (earlier : List String) (name : String) :
    (fallback : Option String) → (chosen : String) → Prop
  | wanted {fallback : Option String} (hfree : name ∉ earlier) :
      HandsOut earlier name fallback name
  | fallback {other : String} (htaken : name ∈ earlier) (hfree : other ∉ earlier) :
      HandsOut earlier name (some other) other
  | numbered {fallback : Option String} {k rounds : Nat} (htaken : name ∈ earlier)
      (hfallback : ∀ other ∈ fallback, other ∈ earlier)
      (hleast : IsLeast {n | 0 < n ∧ Sink.numbered (fallback.getD name) n ∉ earlier} k)
      (hsearch : Search earlier (fallback.getD name) 1 rounds k)
      (hrounds : rounds ≤ earlier.length + 1) :
      HandsOut earlier name fallback (Sink.numbered (fallback.getD name) k)

theorem handsOut_choose (claimed : List String) (name : String) (fallback : Option String) :
    HandsOut claimed name fallback (choose claimed name fallback) := by
  unfold choose
  dsimp only
  rw [List.find?_cons]
  by_cases hname : name ∈ claimed
  · rw [show (!claimed.contains name) = false by simpa using hname]
    have hnumbered : (∀ other ∈ fallback, other ∈ claimed) →
        HandsOut claimed name fallback
          (Sink.numbered (fallback.getD name) (freshNumber claimed (fallback.getD name))) :=
      fun htaken => .numbered hname htaken (freshNumber_isLeast _ _) (search_freshNumber _ _)
        (freshNumber_le _ _)
    cases fallback with
    | none => exact hnumbered nofun
    | some other =>
        by_cases hother : other ∈ claimed
        · simpa [hother] using hnumbered (by simpa using hother)
        · simpa [hother] using HandsOut.fallback hname hother
  · rw [show (!claimed.contains name) = true by simpa using hname]
    exact .wanted hname

/-!
## A series of calls
-/

def handOut : Sink → List (String × Option String) → List String
  | _, [] => []
  | sink, (name, fallback) :: rest =>
      let (chosen, after) := sink.claim name fallback
      chosen :: after.handOut rest

variable {sink : Sink} {calls : List (String × Option String)}

theorem length_handOut (sink : Sink) (calls : List (String × Option String)) :
    (sink.handOut calls).length = calls.length := by
  induction calls generalizing sink with
  | nil => rfl
  | cons call rest ih => exact congrArg (· + 1) (ih (sink.claim call.1 call.2).2)

theorem nodup_handOut (hnodup : sink.claimed.Nodup) (calls : List (String × Option String)) :
    ((sink.handOut calls).reverse ++ sink.claimed).Nodup := by
  induction calls generalizing sink with
  | nil => exact hnodup
  | cons call rest ih =>
      have hfresh := choose_not_mem sink.claimed call.1 call.2
      have hafter : (sink.claim call.1 call.2).2.claimed.Nodup :=
        List.nodup_cons.2 ⟨hfresh, hnodup⟩
      rw [handOut, List.reverse_cons, List.append_assoc]
      exact ih hafter

theorem handsOut_of_call (sink : Sink) {k : Nat} {name : String} {fallback : Option String}
    (hcall : calls[k]? = some (name, fallback)) :
    ∃ chosen, (sink.handOut calls)[k]? = some chosen ∧
      HandsOut (((sink.handOut calls).take k).reverse ++ sink.claimed) name fallback chosen := by
  induction calls generalizing sink k with
  | nil => cases hcall
  | cons call rest ih =>
      cases k with
      | zero =>
          cases hcall
          exact ⟨choose sink.claimed name fallback, rfl, handsOut_choose _ _ _⟩
      | succ k =>
          obtain ⟨chosen, hchosen, hhands⟩ := ih (sink.claim call.1 call.2).2 hcall
          refine ⟨chosen, hchosen, ?_⟩
          rw [handOut, List.take_succ_cons, List.reverse_cons, List.append_assoc]
          exact hhands

/--
However names are wanted from a new sink, every call gets one and none is handed out twice.
A call gets the name that it wants if nobody got it before, or else the fallback if nobody
got that, or else the variant of the fallback (of the name, if there is none) with the least
number whose variant nobody got.  To find it takes at most one round more than names were
handed out, so no number is ever tried that is greater than the number of the call.
-/
theorem handOut_lawful (folder : Path) (i : Instance) (calls : List (String × Option String)) :
    ((new folder i).handOut calls).length = calls.length ∧
      ((new folder i).handOut calls).Nodup ∧
      ∀ k name fallback, calls[k]? = some (name, fallback) →
        ∃ chosen, ((new folder i).handOut calls)[k]? = some chosen ∧
          HandsOut (((new folder i).handOut calls).take k).reverse name fallback chosen := by
  refine ⟨length_handOut _ _, ?_, ?_⟩
  · have hclaimed : (new folder i).claimed.Nodup := List.nodup_nil
    have hnodup := nodup_handOut hclaimed calls
    exact List.nodup_reverse.1 (List.nodup_append.1 hnodup).1
  · intro k name fallback hcall
    obtain ⟨chosen, hchosen, hhands⟩ := handsOut_of_call (new folder i) hcall
    refine ⟨chosen, hchosen, ?_⟩
    rwa [show (new folder i).claimed = [] from rfl, List.append_nil] at hhands

def lookalikes : List (String × Option String) :=
  [("a", none), ("a.1", none), ("a", none), ("a.2", some "a.1"), ("a", some "a.1"), ("", none),
    ("", some "")]

theorem handOut_lookalikes :
    (new "/run" ⟨"i-1", "", ""⟩).handOut lookalikes =
        ["a", "a.1", "a.2", "a.1.1", "a.1.2", "", ".1"] ∧
      lookalikes[4]? = some ("a", some "a.1") ∧
      HandsOut ["a.1.1", "a.2", "a.1", "a"] "a" (some "a.1") "a.1.2" := by
  have hnames : (new "/run" ⟨"i-1", "", ""⟩).handOut lookalikes =
      ["a", "a.1", "a.2", "a.1.1", "a.1.2", "", ".1"] := by decide +kernel
  have hlawful := handOut_lawful "/run" ⟨"i-1", "", ""⟩ lookalikes
  obtain ⟨chosen, hchosen, hhands⟩ := hlawful.2.2 4 "a" (some "a.1") rfl
  rw [hnames] at hchosen hhands
  cases hchosen
  exact ⟨hnames, rfl, hhands⟩

end Sink
end Artifact
end LogHarvest
