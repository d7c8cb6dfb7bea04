import LogHarvest.Text.Decimal

/-!
# The token bucket

Remote calls are paid with tokens.  A bucket gains `qps` tokens per second up to
`burst`; a call takes one.  A caller who finds less than a token may reserve one
in advance: the balance goes below zero, and the reservation matures when the
debt is paid off, so callers who wait queue up one behind the other.

The bucket is written for any arithmetic that a `Meter` gives it.  The program
runs it on floating-point amounts and whole milliseconds; exact amounts and
times are the other instance.
-/

namespace LogHarvest
namespace Rate

/-- Arithmetic on amounts of tokens and on times. -/
class Meter (α : Type) (τ : outParam Type) extends Add α, Sub α, Mul α, Div α, Neg α where
  zero : α
  one : α
  /-- The first amount is at most the second. -/
  atMost : α → α → Bool
  /-- The seconds from the first time to the second, none if it comes earlier. -/
  between : τ → τ → α
  /-- The time so many seconds later. -/
  later : τ → α → τ

/-- A bucket: its rate, its capacity, its balance, and when that was brought up to date. -/
structure Bucket (α τ : Type) where
  qps : α
  burst : α
  balance : α
  last : τ

namespace Bucket

variable {α τ : Type} [Meter α τ]

/-- The amount, or the capacity if it is not at most that. -/
def capped (burst amount : α) : α :=
  if Meter.atMost amount burst then amount else burst

def full (qps burst : α) (now : τ) : Bucket α τ :=
  ⟨qps, burst, burst, now⟩

def refill (b : Bucket α τ) (now : τ) : Bucket α τ :=
  { b with
    balance := capped b.burst (b.balance + Meter.between b.last now * b.qps)
    last := now }

def allow (b : Bucket α τ) (now : τ) : Bool × Bucket α τ :=
  let b' := b.refill now
  if Meter.atMost Meter.one b'.balance then
    (true, { b' with balance := b'.balance - Meter.one })
  else (false, b')

/-- Takes a token in advance; the result is when the reservation matures, if not at once. -/
def reserve (b : Bucket α τ) (now : τ) : Option τ × Bucket α τ :=
  let b' := b.refill now
  let balance := b'.balance - Meter.one
  let due :=
    if Meter.atMost Meter.zero balance then none
    else some (Meter.later now (-balance / b'.qps))
  (due, { b' with balance := balance })

/-- Takes a token if there is one, and reserves one otherwise. -/
def acquire (b : Bucket α τ) (now : τ) : Option τ × Bucket α τ :=
  match b.allow now with
  | (true, b') => (none, b')
  | (false, b') => b'.reserve now

def handBack (b : Bucket α τ) (now : τ) : Bucket α τ :=
  let b' := b.refill now
  { b' with balance := capped b'.burst (b'.balance + Meter.one) }

end Bucket

/-!
## Floating-point amounts on a clock of milliseconds

A delay is rounded to whole nanoseconds, and a time to the next whole
millisecond.  A delay that is no time at all (negative, infinite or undefined)
lasts for thirty years, which no run reaches.
-/

/-- A time in whole milliseconds from the start of the clock. -/
abbrev Millis := Nat

def farAhead : Millis := 30 * 365 * 86400 * 1000

def roundedQuotient (numerator denominator : Nat) : Nat :=
  let whole := numerator / denominator
  let twice := 2 * (numerator % denominator)
  if twice < denominator || (twice == denominator && whole % 2 == 0) then whole else whole + 1

/-- The nanoseconds of a number of seconds, if that is a time that clocks can hold. -/
def nanoseconds? (seconds : Float) : Option Nat :=
  match Text.FloatShape.of seconds with
  | .zero _ => some 0
  | .finite false b =>
      let (up, down) := Text.Binary.powerParts 2 b.exponent
      let nanos := roundedQuotient (b.mantissa * up * Nat.pow 10 9) down
      if nanos < Nat.pow 2 63 * Nat.pow 10 9 then some nanos else none
  | _ => none

/-- A whole number of milliseconds in seconds, from whole seconds and the rest. -/
def inSeconds (ms : Nat) : Float :=
  Float.ofNat (ms / 1000) + Float.ofNat (ms % 1000 * 1000000) / 1000000000

instance : Meter Float Millis where
  zero := 0
  one := 1
  atMost a b := a ≤ b
  between start stop := inSeconds (stop - start)
  later now seconds :=
    match nanoseconds? seconds with
    | some nanos => (now * 1000000 + nanos + 999999) / 1000000
    | none => now + farAhead

/-- A full bucket for the settings of a run; at least one token fits in. -/
def Bucket.ofLimits (qps : Float) (burst : UInt32) (now : Millis) : Bucket Float Millis :=
  .full qps (Float.ofNat (max burst.toNat 1)) now

/-!
## Exact amounts on an exact clock
-/

instance : Meter Rat Rat where
  zero := 0
  one := 1
  atMost a b := a ≤ b
  between start stop := if start ≤ stop then stop - start else 0
  later now seconds := now + seconds

end Rate
end LogHarvest
