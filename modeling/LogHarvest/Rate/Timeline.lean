import LogHarvest.Rate.Bucket

/-!
# Callers on a timeline

Several callers share one bucket.  One of them, the lead, acts step by step and
moves the time forward when it waits; it can launch further callers, which wait
on their own until their reservation matures or they are called off.  Calling
off the lead calls off everyone.
-/

namespace LogHarvest
namespace Rate

def waitCancelled : String := "rate limiter wait cancelled"

inductive Manner
  /-- Always by a reservation. -/
  | wait
  /-- By a reservation only if there is no token. -/
  | acquire
deriving DecidableEq, Repr

structure Waiter (τ : Type) where
  serial : Nat
  id : String
  due : τ

structure Ended (τ : Type) where
  id : String
  granted : Bool
  time : τ

structure Timeline (α τ : Type) where
  bucket : Bucket α τ
  now : τ
  calledOff : Bool
  /-- The launched callers by identifier, the latest first. -/
  launched : List (String × Nat)
  waiting : List (Waiter τ)
  /-- The callers that ended, the latest first. -/
  ended : List (Ended τ)

inductive Move (τ : Type)
  | allow
  | ask (manner : Manner)
  | pass (time : τ)
  | launch (id : String) (manner : Manner)
  | callOff (id : String)

inductive Answer
  | nothing
  | token (granted : Bool)
  | wait (granted : Bool)
deriving DecidableEq, Repr

namespace Timeline

variable {α τ : Type} [Meter α τ] [LE τ] [DecidableLE τ]

def start (bucket : Bucket α τ) (now : τ) : Timeline α τ :=
  ⟨bucket, now, false, [], [], []⟩

/-- Moves the time forward; reservations that mature on the way end their callers. -/
def advance (l : Timeline α τ) (time : τ) : Timeline α τ :=
  let (mature, waiting) := l.waiting.partition fun w => w.due ≤ time
  { l with
    now := time
    waiting := waiting
    ended := mature.reverse.map (fun w => ⟨w.id, true, w.due⟩) ++ l.ended }

/-- Asks the bucket for a token: `none` if that was called off before. -/
def ask (l : Timeline α τ) (manner : Manner) : Option (Option τ) × Timeline α τ :=
  let reserve (bucket : Bucket α τ) : Option (Option τ) × Timeline α τ :=
    if l.calledOff then (none, { l with bucket := bucket })
    else
      let (due, bucket') := bucket.reserve l.now
      (some due, { l with bucket := bucket' })
  match manner with
  | .wait => reserve l.bucket
  | .acquire =>
      match l.bucket.allow l.now with
      | (true, bucket) => (some none, { l with bucket := bucket })
      | (false, bucket) => reserve bucket

def finish (l : Timeline α τ) (id : String) (granted : Bool) : Timeline α τ :=
  { l with ended := ⟨id, granted, l.now⟩ :: l.ended }

def callOffWhere (l : Timeline α τ) (leaves : Waiter τ → Bool) : Timeline α τ :=
  let (leaving, waiting) := l.waiting.partition leaves
  leaving.foldl
    (fun l' w => { l' with bucket := l'.bucket.handBack l'.now }.finish w.id false)
    { l with waiting := waiting }

def step (l : Timeline α τ) : Move τ → Answer × Timeline α τ
  | .allow =>
      let (granted, bucket) := l.bucket.allow l.now
      (.token granted, { l with bucket := bucket })
  | .ask manner =>
      match l.ask manner with
      | (none, l') => (.wait false, l')
      | (some none, l') => (.wait true, l')
      | (some (some due), l') => (.wait true, l'.advance due)
  | .pass time => (.nothing, l.advance time)
  | .launch id manner =>
      let serial := l.launched.length
      let l' := { l with launched := (id, serial) :: l.launched }
      match l'.ask manner with
      | (none, l'') => (.nothing, l''.finish id false)
      | (some none, l'') => (.nothing, l''.finish id true)
      | (some (some due), l'') =>
          let w : Waiter τ := ⟨serial, id, due⟩
          (.nothing, { l'' with waiting := l''.waiting ++ [w] }.advance l''.now)
  | .callOff id =>
      match l.launched.lookup id with
      | some serial => (.nothing, l.callOffWhere fun w => w.serial == serial)
      | none => (.nothing, { l with calledOff := true }.callOffWhere fun _ => true)

end Timeline
end Rate
end LogHarvest
