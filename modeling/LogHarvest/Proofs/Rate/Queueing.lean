import Mathlib.Tactic.FieldSimp
import Mathlib.Tactic.Linarith
import Mathlib.Tactic.Ring
import LogHarvest.Proofs.Rate.Crowd

/-!
# Who waits behind whom

When a reservation matures is fixed when it is made, from the balance at that time.
The books of a crowd say what the balance is: the capacity and what has come in, less
what was taken and not handed back, less what was spilt (`Crowd.Booked`).  So the time
between two reservations counts the tokens that were taken from the one to the other,
those that were spilt, and, the other way, those that were handed back (`due_sub`).

Two waits are a token's time apart exactly if no more tokens are handed back between
them than others are taken or spilt.  Whoever reserved before both of them and is then
called off takes that distance away, and a later caller may even be served first.
-/

namespace LogHarvest
namespace Rate

def Fate.returnedBy (k : Nat) : Fate → Bool
  | .returned after => after ≤ k
  | _ => false

def Fate.returnedWithin (i j : Nat) : Fate → Bool
  | .returned after => i < after && after ≤ j
  | _ => false

def Fate.isReturned : Fate → Bool
  | .returned _ => true
  | _ => false

namespace Crowd

def returnedBy (s : Crowd) (k : Nat) : Nat :=
  s.takes.countP fun take => take.fate.returnedBy k

def returnedWithin (s : Crowd) (i j : Nat) : Nat :=
  s.takes.countP fun take => take.fate.returnedWithin i j

/-- The books balance. -/
structure Booked (qps burst created : Rat) (s : Crowd) : Prop where
  rate : s.bucket.qps = qps
  capacity : s.bucket.burst = burst
  last : s.bucket.last ≤ s.now
  /-- What there was and what came in is there, was taken and kept, or was spilt. -/
  balance : s.bucket.balance + s.takes.length + s.spilt =
    burst + qps * (s.bucket.last - created) + s.returnedBy s.takes.length
  /-- A reservation matures when everything taken up to it has come in. -/
  due : ∀ (k : Nat) (take : Take) (due : Rat), s.takes[k]? = some take → take.due = some due →
    (k : Rat) + 1 + take.spilt = burst + qps * (due - created) + s.returnedBy k
  spilt : ∀ take ∈ s.takes, take.spilt ≤ s.spilt
  inOrder : (s.takes.map Take.spilt).Pairwise (· ≤ ·)
  /-- A token is handed back after it was taken. -/
  returned : ∀ (k : Nat) (take : Take) (after : Nat), s.takes[k]? = some take →
    take.fate = .returned after →
    k < after ∧ after ≤ s.takes.length

/-!
## What an act makes of the books
-/

section

variable {s : Crowd} {take : Take} {token : Nat} {qps burst created : Rat}

theorem exists_split {α : Type} {xs : List α} {k : Nat} {x : α} (hx : xs[k]? = some x) :
    ∃ front back, front.length = k ∧ xs = front ++ x :: back := by
  obtain ⟨hk, rfl⟩ := List.getElem?_eq_some_iff.1 hx
  refine ⟨xs.take k, xs.drop (k + 1), List.length_take_of_le (le_of_lt hk), ?_⟩
  rw [← List.drop_eq_getElem_cons hk, List.take_append_drop]

theorem takes_settled (htake : s.takes[token]? = some take) (fate : Fate) :
    ∃ front back, front.length = token ∧ s.takes = front ++ take :: back ∧
      (s.settled token take fate).takes = front ++ { take with fate := fate } :: back := by
  obtain ⟨front, back, hlength, htakes⟩ := exists_split htake
  refine ⟨front, back, hlength, htakes, ?_⟩
  change s.takes.set token _ = _
  rw [htakes, ← hlength, List.set_append_right _ _ (le_refl _), Nat.sub_self, List.set_cons_zero]

theorem turned_self (s : Crowd) : s.turned s.bucket 0 = s := by
  unfold turned
  rw [add_zero]

theorem length_settled (fate : Fate) :
    (s.settled token take fate).takes.length = s.takes.length :=
  List.length_set

theorem take_of_settled (htake : s.takes[token]? = some take) {fate : Fate} {k : Nat} {found : Take}
    (hfound : (s.settled token take fate).takes[k]? = some found) :
    ∃ old, s.takes[k]? = some old ∧ found.time = old.time ∧ found.due = old.due ∧
      found.spilt = old.spilt ∧ (found.fate = old.fate ∨ k = token ∧ found.fate = fate) := by
  change (s.takes.set token _)[k]? = _ at hfound
  rw [List.getElem?_set] at hfound
  by_cases hk : token = k
  · rw [if_pos hk, if_pos (List.getElem?_eq_some_iff.1 htake).1] at hfound
    cases hfound
    exact ⟨take, hk ▸ htake, rfl, rfl, rfl, .inr ⟨hk.symm, rfl⟩⟩
  · rw [if_neg hk] at hfound
    exact ⟨found, hfound, rfl, rfl, rfl, .inl rfl⟩

theorem map_settled {β : Type} {f : Take → β} (htake : s.takes[token]? = some take) (fate : Fate)
    (hf : f { take with fate := fate } = f take) :
    (s.settled token take fate).takes.map f = s.takes.map f := by
  obtain ⟨front, back, -, htakes, hsettled⟩ := takes_settled htake fate
  rw [hsettled, htakes, List.map_append, List.map_append, List.map_cons, List.map_cons, hf]

theorem returnedBy_settled (htake : s.takes[token]? = some take) (hpending : take.fate = .pending)
    (fate : Fate) (k : Nat) :
    (s.settled token take fate).returnedBy k = s.returnedBy k + (fate.returnedBy k).toNat := by
  obtain ⟨front, back, -, htakes, hsettled⟩ := takes_settled htake fate
  unfold returnedBy
  rw [hsettled, htakes, List.countP_append, List.countP_append, List.countP_cons, List.countP_cons,
    hpending]
  cases fate.returnedBy k <;> simp [Fate.returnedBy]
  omega

theorem returnedBy_took (due : Option Rat) (k : Nat) :
    (s.took due).returnedBy k = s.returnedBy k := by
  unfold returnedBy took
  rw [List.countP_append, List.countP_singleton]
  cases due <;> simp [Fate.returnedBy]

theorem take_of_took {due : Option Rat} {k : Nat} {found : Take}
    (hfound : (s.took due).takes[k]? = some found) :
    s.takes[k]? = some found ∨
      k = s.takes.length ∧
        found = ⟨s.now, due, s.spilt, if due.isSome then .pending else .granted⟩ := by
  change (s.takes ++ [_])[k]? = _ at hfound
  rcases Nat.lt_or_ge k s.takes.length with hless | hmore
  · rw [List.getElem?_append_left hless] at hfound
    exact .inl hfound
  · rw [List.getElem?_append_right hmore] at hfound
    obtain ⟨hk, hlast⟩ := List.getElem?_eq_some_iff.1 hfound
    rw [List.length_singleton, Nat.lt_one_iff] at hk
    rw [List.getElem_singleton] at hlast
    exact .inr ⟨by omega, hlast.symm⟩

theorem Booked.returnedBy_of_le (hbooked : s.Booked qps burst created) {k : Nat}
    (hk : s.takes.length ≤ k) : s.returnedBy k = s.returnedBy s.takes.length := by
  unfold returnedBy
  refine List.countP_congr fun take hmem => ?_
  obtain ⟨i, htake⟩ := List.mem_iff_getElem?.1 hmem
  cases hfate : take.fate with
  | returned after =>
      have hafter := (hbooked.returned i take after htake hfate).2
      simp only [Fate.returnedBy, decide_eq_true_eq]
      exact ⟨fun _ => hafter, fun _ => le_trans hafter hk⟩
  | granted => exact Iff.rfl
  | pending => exact Iff.rfl

theorem booked_start (qps burst created : Rat) :
    (start (.full qps burst created)).Booked qps burst created where
  rate := rfl
  capacity := rfl
  last := le_refl _
  balance := by
    change burst + (0 : Nat) + 0 = burst + qps * (created - created) + (0 : Nat)
    ring
  due := fun _ _ _ htake => nomatch htake
  spilt := fun _ hmem => nomatch hmem
  inOrder := .nil
  returned := fun _ _ _ htake => nomatch htake

theorem Booked.passed (hbooked : s.Booked qps burst created) {time : Rat} (htime : s.now ≤ time) :
    ({ s with now := time } : Crowd).Booked qps burst created :=
  { hbooked with last := le_trans hbooked.last htime }

theorem Booked.dated (hbooked : s.Booked qps burst created) :
    (s.turned (s.bucket.refill s.now) (s.bucket.excess s.now)).Booked qps burst created where
  rate := hbooked.rate
  capacity := hbooked.capacity
  last := le_refl _
  balance := by
    have hbefore := hbooked.balance
    have hrefill := Bucket.refill_balance_add_excess hbooked.last
    have hgain : (s.now - s.bucket.last) * s.bucket.qps =
        qps * (s.now - created) - qps * (s.bucket.last - created) := by
      rw [hbooked.rate]
      ring
    change (s.bucket.refill s.now).balance + s.takes.length + (s.spilt + s.bucket.excess s.now) =
      burst + qps * (s.now - created) + s.returnedBy s.takes.length
    linarith
  due := hbooked.due
  spilt := fun take hmem =>
    le_trans (hbooked.spilt take hmem) (le_add_of_nonneg_right (s.bucket.excess_nonneg s.now))
  inOrder := hbooked.inOrder
  returned := hbooked.returned

theorem Booked.taken (hbooked : s.Booked qps burst created) (hqps : 0 < qps) :
    ((s.turned (s.bucket.drawn s.now) (s.bucket.excess s.now)).took
      (s.bucket.drawn s.now).due?).Booked qps burst created := by
  set b := s.bucket.drawn s.now with hb
  set s' := (s.turned b (s.bucket.excess s.now)).took b.due? with hs'
  have hdated := hbooked.dated.balance
  have hdrawn : b.balance + 1 = (s.bucket.refill s.now).balance := sub_add_cancel _ _
  have hlength : s'.takes.length = s.takes.length + 1 := List.length_append
  have hreturned : ∀ k, s'.returnedBy k = s.returnedBy k := returnedBy_took b.due?
  change (s.bucket.refill s.now).balance + s.takes.length + s'.spilt =
    burst + qps * (s.now - created) + s.returnedBy s.takes.length at hdated
  refine
    { rate := hbooked.rate
      capacity := hbooked.capacity
      last := le_refl _
      balance := ?_
      due := fun k found due hfound hdue => ?_
      spilt := fun found hfound => ?_
      inOrder := ?_
      returned := fun k found after hfound hfate => ?_ }
  · rw [hlength, hreturned, hbooked.returnedBy_of_le (Nat.le_succ _)]
    change b.balance + ((s.takes.length + 1 : Nat) : Rat) + s'.spilt =
      burst + qps * (s.now - created) + s.returnedBy s.takes.length
    push_cast
    linarith
  · rw [hreturned]
    rcases take_of_took hfound with hold | ⟨rfl, rfl⟩
    · exact hbooked.due k found due hold hdue
    · obtain ⟨-, hmatured⟩ := Bucket.due?_eq_some_iff.1 hdue
      have hrate : b.qps = qps := hbooked.rate
      have hdebt : qps * (-b.balance / qps) = -b.balance := mul_div_cancel₀ _ (ne_of_gt hqps)
      have hpaid : qps * (due - created) = qps * (s.now - created) + -b.balance := by
        rw [← hmatured, ← hdebt, ← hrate]
        change b.qps * (s.now + -b.balance / b.qps - created) = _
        ring
      change (s.takes.length : Rat) + 1 + s'.spilt =
        burst + qps * (due - created) + s.returnedBy s.takes.length
      linarith
  · rcases List.mem_append.1 hfound with hold | hnew
    · exact hbooked.dated.spilt found hold
    · rw [List.mem_singleton.1 hnew]
      exact le_refl _
  · change ((s.takes ++ [_]).map Take.spilt).Pairwise _
    rw [List.map_append, List.map_singleton]
    refine List.pairwise_append.2 ⟨hbooked.inOrder, List.pairwise_singleton _ _, ?_⟩
    intro old hold new hnew
    obtain ⟨take, hmem, rfl⟩ := List.mem_map.1 hold
    rw [List.mem_singleton.1 hnew]
    exact hbooked.dated.spilt take hmem
  · rcases take_of_took hfound with hold | ⟨rfl, rfl⟩
    · have hbounds := hbooked.returned k found after hold hfate
      omega
    · dsimp only at hfate
      split at hfate <;> cases hfate

theorem Booked.settled (hbooked : s.Booked qps burst created)
    (htake : s.takes[token]? = some take) (hpending : take.fate = .pending) {fate : Fate}
    {bucket : Bucket Rat Rat} {excess : Rat} (hexcess : 0 ≤ excess)
    (hrate : bucket.qps = s.bucket.qps) (hcapacity : bucket.burst = s.bucket.burst)
    (hlast : bucket.last ≤ s.now)
    (hfate : fate = .granted ∨ fate = .returned s.takes.length)
    (hbalance : bucket.balance + excess = s.bucket.balance + (bucket.last - s.bucket.last) * qps +
      (fate.returnedBy s.takes.length).toNat) :
    ((s.turned bucket excess).settled token take fate).Booked qps burst created := by
  have htake' : (s.turned bucket excess).takes[token]? = some take := htake
  have hreturned : ∀ k, ((s.turned bucket excess).settled token take fate).returnedBy k =
      s.returnedBy k + (fate.returnedBy k).toNat := returnedBy_settled htake' hpending fate
  refine
    { rate := hrate.trans hbooked.rate
      capacity := hcapacity.trans hbooked.capacity
      last := hlast
      balance := ?_
      due := fun k found due hfound hdue => ?_
      spilt := fun found hfound => ?_
      inOrder := ?_
      returned := fun k found after hfound hback => ?_ }
  · have hbefore := hbooked.balance
    rw [length_settled, hreturned]
    change bucket.balance + s.takes.length + (s.spilt + excess) =
      burst + qps * (bucket.last - created) +
        ((s.returnedBy s.takes.length + (fate.returnedBy s.takes.length).toNat : Nat) : Rat)
    have hgain : (bucket.last - s.bucket.last) * qps =
        qps * (bucket.last - created) - qps * (s.bucket.last - created) := by ring
    push_cast
    linarith
  · obtain ⟨old, hold, -, hsame, hspilt, -⟩ := take_of_settled htake' hfound
    have hless : k < s.takes.length := (List.getElem?_eq_some_iff.1 hold).1
    have hlater : (fate.returnedBy k).toNat = 0 := by
      rcases hfate with rfl | rfl
      · rfl
      · simp only [Fate.returnedBy, not_le.2 hless, decide_false, Bool.toNat_false]
    rw [hreturned, hlater, hspilt]
    exact hbooked.due k old due hold (hsame ▸ hdue)
  · obtain ⟨k, hk⟩ := List.mem_iff_getElem?.1 hfound
    obtain ⟨old, hold, -, -, hspilt, -⟩ := take_of_settled htake' hk
    rw [hspilt]
    exact le_trans (hbooked.spilt old (List.mem_iff_getElem?.2 ⟨k, hold⟩))
      (le_add_of_nonneg_right hexcess)
  · rw [map_settled (f := Take.spilt) htake' fate rfl]
    exact hbooked.inOrder
  · rw [length_settled]
    obtain ⟨old, hold, -, -, -, hsame | ⟨rfl, hnew⟩⟩ := take_of_settled htake' hfound
    · exact hbooked.returned k old after hold (hsame ▸ hback)
    · rw [hback] at hnew
      rcases hfate with rfl | rfl
      · cases hnew
      · cases hnew
        exact ⟨(List.getElem?_eq_some_iff.1 hold).1, le_refl _⟩

theorem Booked.of_change (hbooked : s.Booked qps burst created) (hqps : 0 < qps) {s' : Crowd}
    (hchange : Change s s') : s'.Booked qps burst created := by
  cases hchange with
  | passed htime => exact hbooked.passed htime
  | dated => exact hbooked.dated
  | taken => exact hbooked.taken hqps
  | matured htake hpending =>
      rw [← s.turned_self]
      refine hbooked.settled htake hpending (le_refl 0) rfl rfl hbooked.last (.inl rfl) ?_
      simp only [Fate.returnedBy, Bool.toNat_false, sub_self, zero_mul, Nat.cast_zero, add_zero]
  | returned htake hpending =>
      refine hbooked.settled htake hpending (s.bucket.excessBack_nonneg s.now) rfl rfl (le_refl _)
        (.inr rfl) ?_
      have hback := Bucket.handBack_balance_add_excessBack hbooked.last
      rw [hbooked.rate] at hback
      simp only [Fate.returnedBy, le_refl, decide_true, Bool.toNat_true, Nat.cast_one]
      exact hback

theorem booked_of_reaches (hqps : 0 < qps)
    (hreach : (start (.full qps burst created)).Reaches s) : s.Booked qps burst created := by
  induction hreach with
  | here => exact booked_start qps burst created
  | act _ hstep ih =>
      exact ih.of_change hqps (change_of_step (by rw [ih.rate]; exact hqps) ih.last hstep)

/-!
## From one reservation to a later one
-/

theorem returnedBy_add_returnedWithin (s : Crowd) {i j : Nat} (hij : i ≤ j) :
    s.returnedBy i + s.returnedWithin i j = s.returnedBy j := by
  unfold returnedBy returnedWithin
  induction s.takes with
  | nil => rfl
  | cons take rest ih =>
      rw [List.countP_cons, List.countP_cons, List.countP_cons, ← ih]
      cases take.fate with
      | granted => simp [Fate.returnedBy, Fate.returnedWithin]
      | pending => simp [Fate.returnedBy, Fate.returnedWithin]
      | returned after =>
          simp only [Fate.returnedBy, Fate.returnedWithin, Bool.and_eq_true, decide_eq_true_eq]
          split <;> split <;> split <;> omega

/-- The time between two reservations counts all tokens that are accounted for in between. -/
theorem Booked.due_sub (hbooked : s.Booked qps burst created) {i j : Nat} (hij : i ≤ j)
    {u v : Take} (hu : s.takes[i]? = some u) (hv : s.takes[j]? = some v) {d e : Rat}
    (hd : u.due = some d) (he : v.due = some e) :
    qps * (e - d) + s.returnedWithin i j = ((j - i : Nat) : Rat) + (v.spilt - u.spilt) := by
  have hfirst := hbooked.due i u d hu hd
  have hsecond := hbooked.due j v e hv he
  rw [← s.returnedBy_add_returnedWithin hij] at hsecond
  push_cast [Nat.cast_sub hij] at hsecond ⊢
  linarith

theorem Booked.spilt_le (hbooked : s.Booked qps burst created) {i j : Nat} (hij : i < j)
    {u v : Take} (hu : s.takes[i]? = some u) (hv : s.takes[j]? = some v) : u.spilt ≤ v.spilt := by
  obtain ⟨hi, rfl⟩ := List.getElem?_eq_some_iff.1 hu
  obtain ⟨hj, rfl⟩ := List.getElem?_eq_some_iff.1 hv
  have hsorted := List.pairwise_iff_getElem.1 hbooked.inOrder i j (by simpa using hi)
    (by simpa using hj) hij
  simpa using hsorted

/-- Whoever reserved in between can only give back what was taken in between. -/
theorem Booked.returnedWithin_lt (hbooked : s.Booked qps burst created) {i j : Nat} (hij : i < j)
    (hkept : ∀ k ≤ i, ∀ take, s.takes[k]? = some take → take.fate.returnedWithin i j = false) :
    s.returnedWithin i j < j - i := by
  have hfront : (s.takes.take (i + 1)).countP (fun take => take.fate.returnedWithin i j) = 0 := by
    refine List.countP_eq_zero.2 fun take hmem => ?_
    obtain ⟨k, hk⟩ := List.mem_iff_getElem?.1 hmem
    rw [List.getElem?_take] at hk
    split at hk
    · rename_i hless
      rw [hkept k (by omega) take hk]
      exact Bool.false_ne_true
    · cases hk
  have hback : (s.takes.drop j).countP (fun take => take.fate.returnedWithin i j) = 0 := by
    refine List.countP_eq_zero.2 fun take hmem => ?_
    obtain ⟨k, hk⟩ := List.mem_iff_getElem?.1 hmem
    rw [List.getElem?_drop] at hk
    cases hfate : take.fate with
    | granted => exact Bool.false_ne_true
    | pending => exact Bool.false_ne_true
    | returned after =>
        have hafter := (hbooked.returned (j + k) take after hk hfate).1
        simp only [Fate.returnedWithin, Bool.and_eq_true, decide_eq_true_eq]
        omega
  have hsplit : s.takes = s.takes.take (i + 1) ++
      ((s.takes.drop (i + 1)).take (j - (i + 1)) ++ s.takes.drop j) := by
    conv =>
      lhs
      rw [← List.take_append_drop (i + 1) s.takes,
        ← List.take_append_drop (j - (i + 1)) (s.takes.drop (i + 1)), List.drop_drop]
    rw [Nat.add_sub_cancel' hij]
  have hmiddle : ((s.takes.drop (i + 1)).take (j - (i + 1))).countP
      (fun take => take.fate.returnedWithin i j) ≤ j - (i + 1) :=
    le_trans List.countP_le_length (List.length_take_le _ _)
  unfold returnedWithin
  rw [hsplit, List.countP_append, List.countP_append, hfront, hback]
  omega

end

/-- A caller had to wait for its token, and was not called off. -/
structure Waited (s : Crowd) (token : Nat) (take : Take) (due : Rat) : Prop where
  taken : s.takes[token]? = some take
  due : take.due = some due
  kept : take.fate.isReturned = false

/-- Whoever waits gets its token at least one token's time after all who reserved before. -/
def Spaced (s : Crowd) : Prop :=
  ∀ i j u v d e, i < j → s.Waited i u d → s.Waited j v e → d + 1 / s.bucket.qps ≤ e

/-- How long after the one wait the other ends, the later of them. -/
structure Apart (s : Crowd) (i j : Nat) (u v : Take) (d e : Rat) : Prop where
  /-- One token's time for each token taken or spilt meanwhile, less those handed back. -/
  measured : s.bucket.qps * (e - d) =
    ((j - i : Nat) : Rat) + (v.spilt - u.spilt) - s.returnedWithin i j
  spilt : u.spilt ≤ v.spilt
  /-- They are apart if no more is handed back than others take, or than is spilt. -/
  spaced_iff : d + 1 / s.bucket.qps ≤ e ↔
    (s.returnedWithin i j : Rat) ≤ ((j - i - 1 : Nat) : Rat) + (v.spilt - u.spilt)
  /-- In particular if nobody hands a token back that was taken before both. -/
  spaced : (∀ k < i, ∀ take, s.takes[k]? = some take →
    take.fate.returnedWithin i j = false) → d + 1 / s.bucket.qps ≤ e

/-- One token's time lies between two waits as far as the tokens taken before are kept. -/
theorem apart_of_reaches {qps burst created : Rat} {s : Crowd} {i j : Nat} {u v : Take} {d e : Rat}
    (hqps : 0 < qps) (hreach : (start (.full qps burst created)).Reaches s) (hij : i < j)
    (hu : s.Waited i u d) (hv : s.Waited j v e) : s.Apart i j u v d e := by
  have hbooked := booked_of_reaches hqps hreach
  have hmeasured := hbooked.due_sub (le_of_lt hij) hu.taken hv.taken hu.due hv.due
  have hspilt := hbooked.spilt_le hij hu.taken hv.taken
  have hone : ((j - i : Nat) : Rat) = ((j - i - 1 : Nat) : Rat) + 1 := by
    have hless : j - i = j - i - 1 + 1 := by omega
    exact_mod_cast hless
  have hspaced : d + 1 / qps ≤ e ↔
      (s.returnedWithin i j : Rat) ≤ ((j - i - 1 : Nat) : Rat) + (v.spilt - u.spilt) := by
    have htoken : d + 1 / qps ≤ e ↔ 1 ≤ qps * (e - d) := by
      rw [← le_sub_iff_add_le', div_le_iff₀ hqps, mul_comm]
    rw [htoken]
    constructor <;> intro hle <;> linarith
  refine
    { measured := by rw [hbooked.rate]; linarith
      spilt := hspilt
      spaced_iff := by rw [hbooked.rate]; exact hspaced
      spaced := fun hkept => ?_ }
  rw [hbooked.rate, hspaced]
  have hless : s.returnedWithin i j < j - i := by
    refine hbooked.returnedWithin_lt hij fun k hk take htake => ?_
    rcases Nat.lt_or_eq_of_le hk with hbefore | rfl
    · exact hkept k hbefore take htake
    · rw [hu.taken] at htake
      cases htake
      have hfate := hu.kept
      cases hcase : u.fate with
      | returned after =>
          rw [hcase] at hfate
          cases hfate
      | granted => rfl
      | pending => rfl
  have hmost : ((s.returnedWithin i j : Nat) : Rat) ≤ ((j - i - 1 : Nat) : Rat) := by
    have hle : s.returnedWithin i j ≤ j - i - 1 := by omega
    exact_mod_cast hle
  linarith

def leaving : List Act :=
  [.allow, .ask .wait false, .ask .acquire false, .ask .wait false, .giveUp 2, .ask .wait false]

def leavingTakes : List Take :=
  [⟨0, none, 0, .granted⟩, ⟨0, some 1, 0, .pending⟩, ⟨0, some 2, 0, .returned 4⟩,
    ⟨0, some 3, 0, .pending⟩, ⟨0, some 3, 0, .pending⟩]

theorem apart_leaving :
    ∃ s, (start (.full 1 1 0)).steps leaving = some s ∧ s.takes = leavingTakes ∧
      s.Waited 1 ⟨0, some 1, 0, .pending⟩ 1 ∧ s.Waited 4 ⟨0, some 3, 0, .pending⟩ 3 ∧
        s.returnedWithin 1 4 = 1 ∧
          s.Apart 1 4 ⟨0, some 1, 0, .pending⟩ ⟨0, some 3, 0, .pending⟩ 1 3 := by
  have hrun : ((start (.full 1 1 0)).steps leaving).map Crowd.takes = some leavingTakes := by
    decide +kernel
  obtain ⟨s, hsteps, htakes⟩ := Option.map_eq_some_iff.1 hrun
  have hreturned : s.returnedWithin 1 4 = 1 := by
    unfold returnedWithin
    rw [htakes]
    decide +kernel
  have hfirst : s.Waited 1 ⟨0, some 1, 0, .pending⟩ 1 := ⟨by rw [htakes]; rfl, rfl, rfl⟩
  have hlast : s.Waited 4 ⟨0, some 3, 0, .pending⟩ 3 := ⟨by rw [htakes]; rfl, rfl, rfl⟩
  exact ⟨s, hsteps, htakes, hfirst, hlast, hreturned,
    apart_of_reaches (by decide +kernel) (reaches_of_steps hsteps) (by decide) hfirst hlast⟩

def overtaking : List Act :=
  [.allow, .ask .wait false, .ask .wait false, .ask .wait false, .giveUp 1, .giveUp 2,
    .ask .wait false]

/-- The fourth caller is served before the third, who reserved earlier and was not called off. -/
theorem overtaking_not_spaced :
    ∃ s, (start (.full 1 1 0)).steps overtaking = some s ∧
      s.Waited 3 ⟨0, some 3, 0, .pending⟩ 3 ∧ s.Waited 4 ⟨0, some 2, 0, .pending⟩ 2 ∧
        ¬ s.Spaced := by
  have hrun : ((start (.full 1 1 0)).steps overtaking).map (fun s => (s.takes, s.bucket.qps)) =
      some ([⟨0, none, 0, .granted⟩, ⟨0, some 1, 0, .returned 4⟩, ⟨0, some 2, 0, .returned 4⟩,
        ⟨0, some 3, 0, .pending⟩, ⟨0, some 2, 0, .pending⟩], 1) := by
    decide +kernel
  obtain ⟨s, hsteps, hends⟩ := Option.map_eq_some_iff.1 hrun
  obtain ⟨htakes, hqps⟩ := Prod.mk.inj hends
  have hthird : s.Waited 3 ⟨0, some 3, 0, .pending⟩ 3 := ⟨by rw [htakes]; rfl, rfl, rfl⟩
  have hfourth : s.Waited 4 ⟨0, some 2, 0, .pending⟩ 2 := ⟨by rw [htakes]; rfl, rfl, rfl⟩
  refine ⟨s, hsteps, hthird, hfourth, fun hspaced => ?_⟩
  have hlate := hspaced 3 4 _ _ 3 2 (by decide) hthird hfourth
  rw [hqps] at hlate
  exact absurd hlate (by decide +kernel)

end Crowd
end Rate
end LogHarvest
