import LogHarvest.Proofs.Rate.Grants

/-!
# A crowd at a bucket

Any number of callers share a bucket.  They probe, and they ask; whoever has to wait
goes on when the reservation has matured, maybe late, or is called off and hands the
token back.  These acts can come in any order, and any caller can be called off at
any time, also before it asks (`Crowd.step`, `Crowd.Reaches`).

A crowd keeps books: every token that was taken, in the order of taking, with what
became of it, and what came in while the bucket had no room.  All acts come down to
five changes (`Crowd.Change`), and whatever they are, the books balance
(`Crowd.Booked`).  All amounts and times are exact.
-/

namespace LogHarvest
namespace Rate

namespace Bucket

/-- What does not fit in when the balance is brought up to date. -/
def excess (b : Bucket Rat Rat) (now : Rat) : Rat :=
  max 0 (b.balance + (now - b.last) * b.qps - b.burst)

def excessBack (b : Bucket Rat Rat) (now : Rat) : Rat :=
  b.excess now + max 0 ((b.refill now).balance + 1 - b.burst)

def due? (b : Bucket Rat Rat) : Option Rat :=
  if 0 ≤ b.balance then none else some b.matured

end Bucket

inductive Fate
  | granted
  | pending
  /-- Its caller was called off, when so many tokens had been taken. -/
  | returned (after : Nat)
deriving DecidableEq

structure Take where
  time : Rat
  /-- When the reservation matures, if the caller had to wait. -/
  due : Option Rat
  /-- What had been spilt by then. -/
  spilt : Rat
  fate : Fate
deriving DecidableEq

/-- A bucket with its books. -/
structure Crowd where
  bucket : Bucket Rat Rat
  now : Rat
  /-- The tokens that were taken, the first in front; a token is known by its place. -/
  takes : List Take
  /-- What came in while the bucket had no room for it. -/
  spilt : Rat

inductive Act
  | tick (time : Rat)
  | allow
  /-- Somebody asks, who may have been called off before. -/
  | ask (manner : Manner) (calledOff : Bool)
  | mature (token : Nat)
  /-- The caller that waits for a token is called off. -/
  | giveUp (token : Nat)

namespace Crowd

def start (bucket : Bucket Rat Rat) : Crowd :=
  ⟨bucket, bucket.last, [], 0⟩

def turned (s : Crowd) (bucket : Bucket Rat Rat) (excess : Rat) : Crowd :=
  { s with bucket := bucket, spilt := s.spilt + excess }

def took (s : Crowd) (due : Option Rat) : Crowd :=
  { s with
    takes := s.takes ++ [⟨s.now, due, s.spilt, if due.isSome then .pending else .granted⟩] }

def settled (s : Crowd) (token : Nat) (take : Take) (fate : Fate) : Crowd :=
  { s with takes := s.takes.set token { take with fate := fate } }

def probe (s : Crowd) : Bool × Crowd :=
  match s.bucket.allow s.now with
  | (true, bucket) => (true, (s.turned bucket (s.bucket.excess s.now)).took none)
  | (false, bucket) => (false, s.turned bucket (s.bucket.excess s.now))

def reserve (s : Crowd) : Crowd :=
  let (due, bucket) := s.bucket.reserve s.now
  (s.turned bucket (s.bucket.excess s.now)).took due

def ask (s : Crowd) (manner : Manner) (calledOff : Bool) : Crowd :=
  match manner with
  | .wait => if calledOff then s else s.reserve
  | .acquire =>
      match s.probe with
      | (true, s') => s'
      | (false, s') => if calledOff then s' else s'.reserve

def mature (s : Crowd) (token : Nat) : Option Crowd :=
  match s.takes[token]? with
  | some take =>
      if take.fate = .pending ∧ ∀ due ∈ take.due, due ≤ s.now then
        some (s.settled token take .granted)
      else none
  | none => none

def giveUp (s : Crowd) (token : Nat) : Option Crowd :=
  match s.takes[token]? with
  | some take =>
      if take.fate = .pending then
        some ((s.turned (s.bucket.handBack s.now) (s.bucket.excessBack s.now)).settled token take
          (.returned s.takes.length))
      else none
  | none => none

def step (s : Crowd) : Act → Option Crowd
  | .tick time => if s.now ≤ time then some { s with now := time } else none
  | .allow => some s.probe.2
  | .ask manner calledOff => some (s.ask manner calledOff)
  | .mature token => s.mature token
  | .giveUp token => s.giveUp token

def steps (s : Crowd) (acts : List Act) : Option Crowd :=
  acts.foldlM step s

inductive Reaches (s : Crowd) : Crowd → Prop
  | here : Reaches s s
  | act {a b : Crowd} {act : Act} : Reaches s a → a.step act = some b → Reaches s b

end Crowd

/-!
## What comes in is kept or spilt
-/

namespace Bucket

variable {b : Bucket Rat Rat} {now : Rat}

theorem excess_nonneg (b : Bucket Rat Rat) (now : Rat) : 0 ≤ b.excess now :=
  le_max_left _ _

theorem excessBack_nonneg (b : Bucket Rat Rat) (now : Rat) : 0 ≤ b.excessBack now :=
  add_nonneg (b.excess_nonneg now) (le_max_left _ _)

theorem cut_add_excess (burst amount : Rat) :
    min burst amount + max 0 (amount - burst) = amount := by
  rcases le_total burst amount with hmore | hless
  · rw [min_eq_left hmore, max_eq_right (sub_nonneg.2 hmore)]
    ring
  · rw [min_eq_right hless, max_eq_left (sub_nonpos.2 hless), add_zero]

theorem refill_balance_add_excess (hlast : b.last ≤ now) :
    (b.refill now).balance + b.excess now = b.balance + (now - b.last) * b.qps := by
  rw [refill_balance hlast]
  exact cut_add_excess _ _

theorem refill_balance_le (hlast : b.last ≤ now) : (b.refill now).balance ≤ b.burst := by
  rw [refill_balance hlast]
  exact min_le_left _ _

theorem handBack_balance (b : Bucket Rat Rat) (now : Rat) :
    (b.handBack now).balance = min b.burst ((b.refill now).balance + 1) := by
  change capped b.burst ((b.refill now).balance + 1) = _
  rcases le_or_gt ((b.refill now).balance + 1) b.burst with hmost | hmore
  · rw [capped_of_le hmost, min_eq_right hmost]
  · rw [capped_of_lt hmore, min_eq_left (le_of_lt hmore)]

theorem handBack_balance_add_excessBack (hlast : b.last ≤ now) :
    (b.handBack now).balance + b.excessBack now =
      b.balance + (now - b.last) * b.qps + 1 := by
  have hrefill := refill_balance_add_excess hlast
  have hcut := cut_add_excess b.burst ((b.refill now).balance + 1)
  rw [handBack_balance, excessBack]
  linarith

theorem excess_refill (hlast : b.last ≤ now) : (b.refill now).excess now = 0 := by
  have hcapped := refill_balance_le hlast
  have hnow : (b.refill now).last = now := rfl
  have hburst : (b.refill now).burst = b.burst := rfl
  unfold excess
  rw [hnow, hburst, sub_self, zero_mul, add_zero]
  exact max_eq_left (sub_nonpos.2 hcapped)

theorem reserve_eq (b : Bucket Rat Rat) (now : Rat) :
    b.reserve now = ((b.drawn now).due?, b.drawn now) := by
  unfold due?
  split
  · rename_i hpaid
    exact reserve_of_paid hpaid
  · rename_i howed
    exact reserve_of_owed (not_le.1 howed)

theorem cases_of_allow (b : Bucket Rat Rat) (now : Rat) :
    ((b.drawn now).due? = none ∧ b.allow now = (true, b.drawn now)) ∨
      b.allow now = (false, b.refill now) := by
  rcases le_or_gt 0 (b.drawn now).balance with hpaid | howed
  · exact .inl ⟨if_pos hpaid, allow_of_paid hpaid⟩
  · exact .inr (allow_of_owed howed)

theorem drawn_refill (hqps : 0 < b.qps) (hlast : b.last ≤ now) :
    (b.refill now).drawn now = b.drawn now := by
  unfold drawn
  rw [refill_refill hqps hlast (le_refl now)]

theorem due?_eq_some_iff {due : Rat} :
    b.due? = some due ↔ b.balance < 0 ∧ b.matured = due := by
  unfold due?
  split
  · rename_i hpaid
    exact ⟨nofun, fun howed => absurd howed.1 (not_lt.2 hpaid)⟩
  · rename_i howed
    exact ⟨fun hdue => ⟨not_le.1 howed, Option.some.inj hdue⟩, fun hdue => congrArg some hdue.2⟩

end Bucket

/-!
## The changes
-/

namespace Crowd

variable {s s' : Crowd}

theorem Reaches.trans {a b : Crowd} (hfirst : s.Reaches a) (hsecond : a.Reaches b) :
    s.Reaches b := by
  induction hsecond with
  | here => exact hfirst
  | act _ hstep ih => exact ih.act hstep

theorem reaches_of_step {act : Act} (hstep : s.step act = some s') : s.Reaches s' :=
  Reaches.here.act hstep

theorem reaches_of_steps {acts : List Act} (hsteps : s.steps acts = some s') : s.Reaches s' := by
  induction acts generalizing s with
  | nil =>
      cases hsteps
      exact .here
  | cons act rest ih =>
      unfold steps at hsteps
      rw [List.foldlM_cons] at hsteps
      cases hstep : s.step act with
      | none =>
          rw [hstep] at hsteps
          cases hsteps
      | some a =>
          rw [hstep] at hsteps
          exact (reaches_of_step hstep).trans (ih hsteps)

/-- What an act comes down to. -/
inductive Change (s : Crowd) : Crowd → Prop
  /-- Time passes, or nothing happens at all. -/
  | passed {time : Rat} : s.now ≤ time → Change s { s with now := time }
  /-- The balance is brought up to date. -/
  | dated : Change s (s.turned (s.bucket.refill s.now) (s.bucket.excess s.now))
  /-- A token is taken, in advance if the balance gets negative by that. -/
  | taken :
      Change s ((s.turned (s.bucket.drawn s.now) (s.bucket.excess s.now)).took
        (s.bucket.drawn s.now).due?)
  /-- A caller that waited gets its token. -/
  | matured {token : Nat} {take : Take} :
      s.takes[token]? = some take → take.fate = .pending →
        Change s (s.settled token take .granted)
  /-- A caller that waited hands its token back. -/
  | returned {token : Nat} {take : Take} :
      s.takes[token]? = some take → take.fate = .pending →
        Change s ((s.turned (s.bucket.handBack s.now) (s.bucket.excessBack s.now)).settled token
          take (.returned s.takes.length))

theorem change_reserve (s : Crowd) : Change s s.reserve := by
  unfold reserve
  rw [Bucket.reserve_eq]
  exact .taken

theorem cases_of_probe (s : Crowd) :
    ((s.bucket.drawn s.now).due? = none ∧
        s.probe = (true, (s.turned (s.bucket.drawn s.now) (s.bucket.excess s.now)).took none)) ∨
      s.probe = (false, s.turned (s.bucket.refill s.now) (s.bucket.excess s.now)) := by
  unfold probe
  rcases s.bucket.cases_of_allow s.now with ⟨hpaid, hallow⟩ | hallow
  · rw [hallow]
    exact .inl ⟨hpaid, rfl⟩
  · rw [hallow]
    exact .inr rfl

theorem change_probe (s : Crowd) : Change s s.probe.2 := by
  rcases s.cases_of_probe with ⟨hpaid, hprobe⟩ | hprobe
  · rw [hprobe, ← hpaid]
    exact .taken
  · rw [hprobe]
    exact .dated

/-- To probe in vain and to reserve comes to the same as to reserve. -/
theorem reserve_dated (hqps : 0 < s.bucket.qps) (hlast : s.bucket.last ≤ s.now) :
    (s.turned (s.bucket.refill s.now) (s.bucket.excess s.now)).reserve = s.reserve := by
  unfold reserve turned
  rw [Bucket.reserve_eq, Bucket.reserve_eq]
  dsimp only
  rw [Bucket.drawn_refill hqps hlast, Bucket.excess_refill hlast, add_zero]

theorem change_ask (hqps : 0 < s.bucket.qps) (hlast : s.bucket.last ≤ s.now) (manner : Manner)
    (calledOff : Bool) : Change s (s.ask manner calledOff) := by
  cases manner with
  | wait =>
      unfold ask
      cases calledOff with
      | true => exact .passed (le_refl s.now)
      | false => exact s.change_reserve
  | acquire =>
      have hchange := s.change_probe
      unfold ask
      rcases s.cases_of_probe with ⟨-, hprobe⟩ | hprobe
      · rw [hprobe] at hchange ⊢
        exact hchange
      · rw [hprobe] at hchange ⊢
        cases calledOff with
        | true => exact hchange
        | false =>
            dsimp only
            rw [reserve_dated hqps hlast]
            exact s.change_reserve

theorem change_of_step {act : Act} (hqps : 0 < s.bucket.qps) (hlast : s.bucket.last ≤ s.now)
    (hstep : s.step act = some s') : Change s s' := by
  cases act with
  | tick time =>
      unfold step at hstep
      dsimp only at hstep
      split at hstep
      · rename_i htime
        cases hstep
        exact .passed htime
      · cases hstep
  | allow =>
      cases hstep
      exact s.change_probe
  | ask manner calledOff =>
      cases hstep
      exact change_ask hqps hlast manner calledOff
  | mature token =>
      unfold step mature at hstep
      dsimp only at hstep
      split at hstep
      · rename_i take htake
        split at hstep
        · rename_i hmature
          cases hstep
          exact .matured htake hmature.1
        · cases hstep
      · cases hstep
  | giveUp token =>
      unfold step giveUp at hstep
      dsimp only at hstep
      split at hstep
      · rename_i take htake
        split at hstep
        · rename_i hpending
          cases hstep
          exact .returned htake hpending
        · cases hstep
      · cases hstep

end Crowd
end Rate
end LogHarvest
