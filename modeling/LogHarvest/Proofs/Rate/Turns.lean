import LogHarvest.Proofs.Rate.Grants

/-!
# Callers one after the other

The law for the next take gives, call by call, the law for all takes of a sequence
of callers.  Callers who are denied leave no trace, and it does not matter in which
way the others ask.

On a timeline on which everyone who asks is launched, the callers end one after
the other, in the order of their calls and when the law says so.
-/

namespace LogHarvest
namespace Rate

def Caller.reserving (caller : Caller) : Caller :=
  { caller with manner := caller.manner.map fun _ => .wait }

namespace Bucket

def serveAll (b : Bucket Rat Rat) : List Caller → List (Caller × Option Rat)
  | [] => []
  | caller :: rest => (caller, (b.serve caller).1) :: (b.serve caller).2.serveAll rest

def takes (b : Bucket Rat Rat) (callers : List Caller) : List (Caller × Rat) :=
  (b.serveAll callers).filterMap fun served => served.2.map (served.1, ·)

def after (b : Bucket Rat Rat) (callers : List Caller) : Bucket Rat Rat :=
  callers.foldl (fun b' caller => (b'.serve caller).2) b

/-- Nobody calls before the bucket was brought up to date or before an earlier caller. -/
def Ordered (b : Bucket Rat Rat) (callers : List Caller) : Prop :=
  (b.last :: callers.map Caller.time).Pairwise (· ≤ ·)

variable {b : Bucket Rat Rat} {caller : Caller} {callers front rest : List Caller}

theorem Ordered.last_le (hordered : b.Ordered (caller :: rest)) : b.last ≤ caller.time :=
  (List.pairwise_cons.1 hordered).1 _ List.mem_cons_self

theorem Ordered.tail {b' : Bucket Rat Rat} (hordered : b.Ordered (caller :: rest))
    (hlast : b'.last = caller.time) : b'.Ordered rest := by
  unfold Ordered
  rw [hlast]
  exact (List.pairwise_cons.1 hordered).2

theorem dated_serve (hqps : 0 < b.qps) (hlast : b.last ≤ caller.time) :
    b.Dated (b.serve caller).2 caller.time := by
  rcases cases_of_serve hqps hlast with ⟨_, _, hserve⟩ | ⟨_, hserve⟩
  · rw [hserve]
    exact ⟨rfl, rfl, rfl⟩
  · rw [hserve]
    exact ⟨rfl, rfl, rfl⟩

theorem Ordered.serve (hqps : 0 < b.qps) (hordered : b.Ordered (caller :: rest)) :
    0 < (b.serve caller).2.qps ∧ (b.serve caller).2.Ordered rest := by
  have hdated := dated_serve hqps hordered.last_le
  exact ⟨hdated.qps ▸ hqps, hordered.tail hdated.last⟩

theorem Ordered.after (hqps : 0 < b.qps) (hordered : b.Ordered (front ++ rest)) :
    0 < (b.after front).qps ∧ (b.after front).Ordered rest := by
  induction front generalizing b with
  | nil => exact ⟨hqps, hordered⟩
  | cons caller front ih =>
      obtain ⟨hqps', hordered'⟩ := hordered.serve hqps
      exact ih hqps' hordered'

theorem serveAll_append (front rest : List Caller) :
    b.serveAll (front ++ rest) = b.serveAll front ++ (b.after front).serveAll rest := by
  induction front generalizing b with
  | nil => rfl
  | cons caller front ih => exact congrArg _ ih

theorem length_serveAll (callers : List Caller) : (b.serveAll callers).length = callers.length := by
  induction callers generalizing b with
  | nil => rfl
  | cons caller rest ih => exact congrArg (· + 1) ih

/-!
## Every take is granted by the law
-/

theorem takes_of_denied (hdenied : (b.serve caller).1 = none) :
    b.takes (caller :: rest) = (b.serve caller).2.takes rest := by
  unfold takes
  rw [serveAll, hdenied]
  rfl

theorem takes_of_granted {time : Rat} (hgranted : (b.serve caller).1 = some time) :
    b.takes (caller :: rest) = (caller, time) :: (b.serve caller).2.takes rest := by
  unfold takes
  rw [serveAll, hgranted]
  rfl

theorem takes_append (front rest : List Caller) :
    b.takes (front ++ rest) = b.takes front ++ (b.after front).takes rest := by
  unfold takes
  rw [serveAll_append, List.filterMap_append]

theorem takes_sublist (callers : List Caller) :
    ((b.takes callers).map Prod.fst).Sublist callers := by
  induction callers generalizing b with
  | nil => exact List.Sublist.refl []
  | cons caller rest ih =>
      cases hgranted : (b.serve caller).1 with
      | none => exact takes_of_denied hgranted ▸ ih.cons caller
      | some time => exact takes_of_granted hgranted ▸ ih.cons_cons caller

def takenAt (b : Bucket Rat Rat) (callers : List Caller) : List Rat :=
  (b.takes callers).map fun take => take.1.time

theorem sorted_takenAt (hordered : b.Ordered callers) :
    (b.takenAt callers).Pairwise (· ≤ ·) := by
  have hsublist := (takes_sublist (b := b) callers).map Caller.time
  rw [List.map_map] at hsublist
  exact (List.pairwise_cons.1 hordered).2.sublist hsublist

theorem Settled.grants {times : List Rat} (hsettled : b.Settled times)
    (hordered : b.Ordered callers) {k : Nat} {take : Caller × Rat}
    (htake : (b.takes callers)[k]? = some take) :
    take.2 = grantTime b.qps b.burst (times ++ b.takenAt callers) (times.length + k) := by
  induction callers generalizing b times k with
  | nil => cases htake
  | cons caller rest ih =>
      have hlast := hordered.last_le
      obtain ⟨_, hordered'⟩ := hordered.serve hsettled.positive
      unfold takenAt
      rcases cases_of_serve hsettled.positive hlast with ⟨_, _, hserve⟩ | ⟨_, hserve⟩
      · rw [takes_of_denied (by rw [hserve]), hserve] at htake ⊢
        rw [hserve] at hordered'
        exact ih (hsettled.refill hlast) hordered' htake
      · have hgrant := grantTime_drawn hsettled hlast
        rw [takes_of_granted (by rw [hserve]), hserve] at htake ⊢
        rw [hserve] at hordered'
        rw [List.map_cons, List.append_cons]
        have hlength : (times ++ [caller.time]).length = times.length + 1 := by simp
        cases k with
        | zero =>
            cases htake
            have hless : times.length < (times ++ [caller.time]).length := by omega
            exact (grantTime_append hless _).trans hgrant |>.symm
        | succ k =>
            have hrest := ih (hsettled.drawn hlast) hordered' htake
            rw [hlength, Nat.add_right_comm] at hrest
            exact hrest

/-!
## What makes no difference
-/

theorem serve_refill {now : Rat} (hqps : 0 < b.qps) (hlast : b.last ≤ now)
    (hlater : now ≤ caller.time) : (b.refill now).serve caller = b.serve caller := by
  have hsame := refill_refill hqps hlast hlater
  have hallow : (b.refill now).allow caller.time = b.allow caller.time := by
    unfold Bucket.allow
    rw [hsame]
  have hreserve : (b.refill now).reserve caller.time = b.reserve caller.time := by
    unfold Bucket.reserve
    rw [hsame]
  unfold serve acquire
  rw [hallow, hreserve]

/-- Later callers do not notice that somebody was denied. -/
theorem serveAll_of_denied (hqps : 0 < b.qps) (hordered : b.Ordered (caller :: rest))
    (hdenied : (b.serve caller).1 = none) :
    (b.serve caller).2.serveAll rest = b.serveAll rest := by
  rcases cases_of_serve hqps hordered.last_le with ⟨_, _, hserve⟩ | ⟨_, hserve⟩
  · rw [hserve]
    cases rest with
    | nil => rfl
    | cons next rest =>
        have hrest : (b.refill caller.time).Ordered (next :: rest) := hordered.tail rfl
        have hlater : caller.time ≤ next.time := hrest.last_le
        unfold serveAll
        rw [serve_refill hqps hordered.last_le hlater]
  · rw [hserve] at hdenied
    cases hdenied

theorem serve_reserving (hqps : 0 < b.qps) (hlast : b.last ≤ caller.time) :
    b.serve caller.reserving = b.serve caller := by
  cases hmanner : caller.manner with
  | none =>
      have hsame : caller.reserving = caller := by
        unfold Caller.reserving
        rw [hmanner, Option.map_none, ← hmanner]
      rw [hsame]
  | some manner =>
      have hreserving : caller.reserving.manner = some .wait := congrArg (Option.map _) hmanner
      rw [serve_of_manner hqps hlast hmanner]
      exact serve_of_manner hqps (show b.last ≤ caller.reserving.time from hlast) hreserving

theorem serveAll_reserving (hqps : 0 < b.qps) (hordered : b.Ordered callers) :
    b.serveAll (callers.map Caller.reserving) =
      (b.serveAll callers).map fun served => (served.1.reserving, served.2) := by
  induction callers generalizing b with
  | nil => rfl
  | cons caller rest ih =>
      obtain ⟨hqps', hordered'⟩ := hordered.serve hqps
      rw [List.map_cons, serveAll, serve_reserving hqps hordered.last_le, ih hqps' hordered']
      rfl

end Bucket

/-!
## On a timeline
-/

def Caller.move (caller : Caller) : Move Rat :=
  match caller.manner with
  | none => .allow
  | some manner => .launch caller.id manner

def Caller.answer (caller : Caller) (granted : Option Rat) : Answer :=
  match caller.manner with
  | none => .token granted.isSome
  | some _ => .nothing

def asked (takes : List (Caller × Rat)) : List (String × Rat) :=
  takes.filterMap fun take => take.1.manner.map fun _ => (take.1.id, take.2)

namespace Timeline

def callAll (l : Timeline Rat Rat) : List Caller → List Answer × Timeline Rat Rat
  | [] => ([], l)
  | caller :: rest =>
      let (answer, l') := (l.step (.pass caller.time)).2.step caller.move
      let (answers, l'') := l'.callAll rest
      (answer :: answers, l'')

/-- Of the grants, those up to now have ended and the others are waited for, in their order. -/
structure Shows (l : Timeline Rat Rat) (grants : List (String × Rat)) : Prop where
  on : l.calledOff = false
  ended : l.ended.reverse =
    (grants.filter fun grant => grant.2 ≤ l.now).map fun grant => ⟨grant.1, true, grant.2⟩
  waiting : l.waiting.map (fun w => (w.id, w.due)) =
    grants.filter fun grant => ¬ grant.2 ≤ l.now

variable {l : Timeline Rat Rat} {grants : List (String × Rat)} {time : Rat} {caller : Caller}
  {rest callers : List Caller}

theorem shows_start (b : Bucket Rat Rat) (now : Rat) : (start b now).Shows [] :=
  ⟨rfl, rfl, rfl⟩

theorem filter_le_eq_append {now : Rat} (hsorted : grants.Pairwise fun a b => a.2 ≤ b.2)
    (hnow : now ≤ time) :
    grants.filter (fun grant => grant.2 ≤ time) =
      grants.filter (fun grant => grant.2 ≤ now) ++
        (grants.filter fun grant => ¬ grant.2 ≤ now).filter fun grant => grant.2 ≤ time := by
  induction hsorted with
  | nil => rfl
  | @cons grant rest hfirst _ ih =>
      by_cases hpast : grant.2 ≤ now
      · have htime := le_trans hpast hnow
        simp only [List.filter_cons, hpast, htime, decide_true, not_true_eq_false, decide_false,
          if_true, ih]
        rfl
      · have hnone : rest.filter (fun later => later.2 ≤ now) = [] := by
          refine List.filter_eq_nil_iff.2 fun later hlater => ?_
          have hless := lt_of_lt_of_le (not_le.1 hpast) (hfirst later hlater)
          simp only [not_le.2 hless, decide_false, Bool.false_eq_true, not_false_eq_true]
        rw [hnone, List.nil_append] at ih
        simp only [List.filter_cons, hpast, decide_false, not_false_eq_true, decide_true, if_true,
          hnone, Bool.false_eq_true, if_false, List.nil_append]
        split
        · rw [ih]
        · exact ih

theorem advance_eq (l : Timeline Rat Rat) (time : Rat) :
    l.advance time =
      { l with
        now := time
        waiting := l.waiting.filter fun w => !decide (w.due ≤ time)
        ended := (l.waiting.filter fun w => w.due ≤ time).reverse.map
          (fun w => ⟨w.id, true, w.due⟩) ++ l.ended } := by
  unfold advance
  rw [List.partition_eq_filter_filter]
  rfl

theorem Shows.advance (hshows : l.Shows grants) (hsorted : grants.Pairwise fun a b => a.2 ≤ b.2)
    (htime : l.now ≤ time) : (l.advance time).Shows grants := by
  have hmature : ((l.waiting.filter fun w => w.due ≤ time).map fun w => (w.id, w.due)) =
      (grants.filter fun grant => ¬ grant.2 ≤ l.now).filter fun grant => grant.2 ≤ time := by
    rw [← hshows.waiting, List.filter_map]
    rfl
  have hlater : (grants.filter fun grant => ¬ grant.2 ≤ time) =
      (grants.filter fun grant => ¬ grant.2 ≤ l.now).filter fun grant => ¬ grant.2 ≤ time := by
    rw [List.filter_filter]
    refine List.filter_congr fun grant _ => ?_
    by_cases hless : grant.2 ≤ time
    · simp only [hless, not_true_eq_false, decide_false, Bool.false_and]
    · have hnow : ¬ grant.2 ≤ l.now := fun hnow => hless (le_trans hnow htime)
      simp only [hless, hnow, not_false_eq_true, decide_true, Bool.and_self]
  rw [advance_eq]
  refine ⟨hshows.on, ?_, ?_⟩
  · dsimp only
    rw [filter_le_eq_append hsorted htime, List.map_append, ← hshows.ended, ← hmature]
    simp only [List.reverse_append, List.map_reverse, List.reverse_reverse, List.map_map]
    rfl
  · dsimp only
    rw [hlater, ← hshows.waiting, List.filter_map]
    simp only [decide_not]
    rfl

theorem ask_eq (hon : l.calledOff = false) (hqps : 0 < l.bucket.qps)
    (hlast : l.bucket.last ≤ l.now) (manner : Manner) :
    l.ask manner =
      (some (l.bucket.reserve l.now).1, { l with bucket := (l.bucket.reserve l.now).2 }) := by
  cases manner with
  | wait =>
      unfold ask
      rw [hon]
      rfl
  | acquire =>
      have hacquire := Bucket.acquire_eq_reserve hqps hlast
      unfold Bucket.acquire at hacquire
      unfold ask
      dsimp only
      rw [hon, ← hacquire]
      rcases l.bucket.allow l.now with ⟨found, b'⟩
      cases found with
      | true => rfl
      | false => rfl

theorem step_launch_of_paid {id : String} {manner : Manner} (hon : l.calledOff = false)
    (hqps : 0 < l.bucket.qps) (hlast : l.bucket.last ≤ l.now)
    (hpaid : 0 ≤ (l.bucket.drawn l.now).balance) :
    l.step (.launch id manner) =
      (.nothing,
        { l with
          bucket := l.bucket.drawn l.now
          launched := (id, l.launched.length) :: l.launched
          ended := ⟨id, true, l.now⟩ :: l.ended }) := by
  have hask := ask_eq (l := { l with launched := (id, l.launched.length) :: l.launched }) hon hqps
    hlast manner
  dsimp only at hask
  rw [Bucket.reserve_of_paid hpaid] at hask
  unfold step
  dsimp only
  rw [hask]
  rfl

theorem step_launch_of_owed {id : String} {manner : Manner} (hon : l.calledOff = false)
    (hqps : 0 < l.bucket.qps) (hlast : l.bucket.last ≤ l.now)
    (howed : (l.bucket.drawn l.now).balance < 0) :
    l.step (.launch id manner) =
      (.nothing,
        { l with
          bucket := l.bucket.drawn l.now
          launched := (id, l.launched.length) :: l.launched
          waiting := l.waiting ++
            [(⟨l.launched.length, id, (l.bucket.drawn l.now).matured⟩ : Waiter Rat)]
        }.advance l.now) := by
  have hask := ask_eq (l := { l with launched := (id, l.launched.length) :: l.launched }) hon hqps
    hlast manner
  dsimp only at hask
  rw [Bucket.reserve_of_owed howed] at hask
  unfold step
  dsimp only
  rw [hask]

theorem Shows.launch {id : String} {manner : Manner} (hshows : l.Shows grants)
    (hqps : 0 < l.bucket.qps) (hlast : l.bucket.last ≤ l.now)
    (htime : time = max l.now (l.bucket.drawn l.now).matured)
    (hsorted : (grants ++ [(id, time)]).Pairwise fun a b => a.2 ≤ b.2) :
    ∃ l', l.step (.launch id manner) = (.nothing, l') ∧ l'.now = l.now ∧
      l'.bucket = l.bucket.drawn l.now ∧ l'.Shows (grants ++ [(id, time)]) := by
  rcases le_or_gt 0 (l.bucket.drawn l.now).balance with hpaid | howed
  · have hmatured : (l.bucket.drawn l.now).matured ≤ l.now := Bucket.matured_le hqps hpaid
    rw [max_eq_left hmatured] at htime
    refine ⟨_, step_launch_of_paid hshows.on hqps hlast hpaid, rfl, rfl, hshows.on, ?_, ?_⟩
    · rw [List.reverse_cons, hshows.ended, List.filter_append, List.map_append, htime]
      simp only [List.filter_cons, le_refl, decide_true, if_true, List.filter_nil,
        List.map_cons, List.map_nil]
    · dsimp only
      rw [hshows.waiting, List.filter_append, htime]
      simp only [List.filter_cons, le_refl, not_true_eq_false, decide_false, Bool.false_eq_true,
        if_false, List.filter_nil, List.append_nil]
  · have hmatured : l.now < (l.bucket.drawn l.now).matured :=
      Bucket.lt_matured (b := l.bucket.drawn l.now) hqps howed
    rw [max_eq_right (le_of_lt hmatured)] at htime
    refine ⟨_, step_launch_of_owed hshows.on hqps hlast howed, rfl, rfl, ?_⟩
    refine Shows.advance ⟨hshows.on, ?_, ?_⟩ hsorted (le_refl _)
    · dsimp only
      rw [hshows.ended, List.filter_append, htime]
      simp only [List.filter_cons, not_le.2 hmatured, decide_false, Bool.false_eq_true, if_false,
        List.filter_nil, List.append_nil]
    · dsimp only
      rw [List.map_append, hshows.waiting, List.filter_append, htime]
      simp only [List.filter_cons, not_le.2 hmatured, not_false_eq_true, decide_true, if_true,
        List.filter_nil, List.map_cons, List.map_nil]

theorem Shows.call (hshows : l.Shows grants) (hqps : 0 < l.bucket.qps)
    (hlast : l.bucket.last ≤ l.now) (htime : l.now ≤ caller.time)
    (hsorted : (grants ++ asked (l.bucket.takes [caller])).Pairwise fun a b => a.2 ≤ b.2) :
    ∃ l', (l.step (.pass caller.time)).2.step caller.move =
        (caller.answer (l.bucket.serve caller).1, l') ∧
      l'.now = caller.time ∧ l'.bucket = (l.bucket.serve caller).2 ∧
      l'.Shows (grants ++ asked (l.bucket.takes [caller])) := by
  have hlater := le_trans hlast htime
  have hpassed := hshows.advance (List.pairwise_append.1 hsorted).1 htime
  have htakes : l.bucket.takes [caller] = ((l.bucket.serve caller).1.map (caller, ·)).toList := by
    cases hgranted : (l.bucket.serve caller).1 with
    | none => exact Bucket.takes_of_denied hgranted
    | some time => exact Bucket.takes_of_granted hgranted
  change ∃ l', (l.advance caller.time).step caller.move = _ ∧ _
  rw [htakes] at hsorted ⊢
  cases hmanner : caller.manner with
  | none =>
      have hasked : asked ((l.bucket.serve caller).1.map (caller, ·)).toList = [] := by
        cases (l.bucket.serve caller).1 with
        | none => rfl
        | some time => exact List.filterMap_cons_none (by rw [hmanner]; rfl)
      refine ⟨{ l.advance caller.time with bucket := (l.bucket.serve caller).2 }, ?_, rfl, rfl, ?_⟩
      · have hstep : (l.advance caller.time).step .allow =
            (.token (l.bucket.allow caller.time).1,
              { l.advance caller.time with bucket := (l.bucket.allow caller.time).2 }) := rfl
        unfold Caller.move Caller.answer Bucket.serve
        rw [hmanner]
        dsimp only
        rw [hstep]
        rcases l.bucket.allow caller.time with ⟨found, b'⟩
        cases found with
        | true => rfl
        | false => rfl
      · rw [hasked, List.append_nil]
        exact ⟨hpassed.on, hpassed.ended, hpassed.waiting⟩
  | some manner =>
      have hserve := Bucket.serve_of_manner hqps hlater hmanner
      have hasked : ∀ time, asked [(caller, time)] = [(caller.id, time)] := fun time =>
        List.filterMap_cons_some (by rw [hmanner]; rfl)
      rw [hserve] at hsorted ⊢
      rw [Option.map_some, Option.toList_some, hasked] at hsorted ⊢
      unfold Caller.move Caller.answer
      rw [hmanner]
      exact hpassed.launch hqps hlater rfl hsorted

theorem Shows.callAll (hshows : l.Shows grants) (hqps : 0 < l.bucket.qps)
    (hlast : l.bucket.last ≤ l.now) (hordered : { l.bucket with last := l.now }.Ordered callers)
    (hsorted : (grants ++ asked (l.bucket.takes callers)).Pairwise fun a b => a.2 ≤ b.2) :
    (l.callAll callers).1 =
        (l.bucket.serveAll callers).map (fun served => served.1.answer served.2) ∧
      (l.callAll callers).2.Shows (grants ++ asked (l.bucket.takes callers)) ∧
      ∀ horizon, l.now ≤ horizon → (∀ caller ∈ callers, caller.time ≤ horizon) →
        (l.callAll callers).2.now ≤ horizon := by
  induction callers generalizing l grants with
  | nil => exact ⟨rfl, by rwa [← List.append_nil grants] at hshows, fun _ hnow _ => hnow⟩
  | cons caller rest ih =>
      have htime : l.now ≤ caller.time := hordered.last_le
      have htakes : asked (l.bucket.takes (caller :: rest)) =
          asked (l.bucket.takes [caller]) ++ asked ((l.bucket.serve caller).2.takes rest) := by
        rw [← List.singleton_append, Bucket.takes_append]
        exact List.filterMap_append
      rw [htakes, ← List.append_assoc] at hsorted ⊢
      have hdated := Bucket.dated_serve hqps (le_trans hlast htime)
      obtain ⟨l', hcall, hnow', hbucket, hshows'⟩ :=
        hshows.call hqps hlast htime (List.pairwise_append.1 hsorted).1
      rw [← hbucket] at hsorted hdated ⊢
      obtain ⟨hanswers, hshown, hend⟩ := ih hshows' (hdated.qps ▸ hqps)
        (le_of_eq (hdated.last.trans hnow'.symm)) (hordered.tail hnow') hsorted
      unfold Timeline.callAll Bucket.serveAll
      rw [hcall, List.map_cons, ← hbucket]
      refine ⟨congrArg _ hanswers, hshown, fun horizon _ hhorizon => ?_⟩
      obtain ⟨hfirst, hrest⟩ := List.forall_mem_cons.1 hhorizon
      exact hend horizon (hnow' ▸ hfirst) hrest

end Timeline

/-!
## The grants of a whole sequence
-/

/-- What comes of callers at a bucket, by the law for the times of their grants. -/
structure Lawful (b : Bucket Rat Rat) (callers : List Caller) : Prop where
  /-- Each take is granted at the time of the law. -/
  law : ∀ k take, (b.takes callers)[k]? = some take →
    take.2 = grantTime b.qps b.burst (b.takenAt callers) k
  /-- Tokens are granted in the order in which they are taken. -/
  inOrder : (b.takes callers).Pairwise fun take later => take.2 ≤ later.2
  /-- On a timeline each probe is answered as the bucket serves it. -/
  answers : ((Timeline.start b b.last).callAll callers).1 =
    (b.serveAll callers).map fun served => served.1.answer served.2
  /-- Everyone who asks ends there when the token is granted, in the order of the calls. -/
  ended : ∀ horizon, b.last ≤ horizon → (∀ caller ∈ callers, caller.time ≤ horizon) →
    (((Timeline.start b b.last).callAll callers).2.advance horizon).ended.reverse =
      ((asked (b.takes callers)).filter fun grant => grant.2 ≤ horizon).map
        fun grant => ⟨grant.1, true, grant.2⟩
  /-- The bucket can pay for these grants, -/
  affordable : Affordable b.qps b.burst (b.takenAt callers)
    (grantTime b.qps b.burst (b.takenAt callers))
  /-- and it could not pay for any that are earlier. -/
  least : ∀ grant, Affordable b.qps b.burst (b.takenAt callers) grant →
    ∀ k < (b.takenAt callers).length,
      grantTime b.qps b.burst (b.takenAt callers) k ≤ grant k
  /-- Whoever is denied could as well not have called. -/
  probes : ∀ front probe rest served later, callers = front ++ probe :: rest →
    served.length = front.length → b.serveAll callers = served ++ (probe, none) :: later →
      b.serveAll (front ++ rest) = served ++ later
  /-- It does not matter in which way somebody asks. -/
  manners : b.serveAll (callers.map Caller.reserving) =
    (b.serveAll callers).map fun served => (served.1.reserving, served.2)

section Sequence

variable {b : Bucket Rat Rat} {callers : List Caller}

theorem sorted_takes (hsettled : b.Settled []) (hordered : b.Ordered callers) :
    (b.takes callers).Pairwise fun take later => take.2 ≤ later.2 := by
  refine List.pairwise_iff_getElem.2 fun i k hi hk hless => ?_
  have hgrant := hsettled.grants hordered (List.getElem?_eq_getElem hi)
  have hlater := hsettled.grants hordered (List.getElem?_eq_getElem hk)
  rw [List.nil_append, List.length_nil, Nat.zero_add] at hgrant hlater
  rw [hgrant, hlater]
  have hlength : k < (b.takenAt callers).length := by
    rw [Bucket.takenAt, List.length_map]
    exact hk
  exact grantTime_mono hsettled.positive (Bucket.sorted_takenAt hordered) (le_of_lt hless) hlength

theorem sorted_asked {takes : List (Caller × Rat)}
    (hsorted : takes.Pairwise fun take later => take.2 ≤ later.2) :
    (asked takes).Pairwise fun a b => a.2 ≤ b.2 := by
  refine List.Pairwise.filterMap _ (fun take later hle grant hgrant next hnext => ?_) hsorted
  obtain ⟨_, _, rfl⟩ := Option.map_eq_some_iff.1 hgrant
  obtain ⟨_, _, rfl⟩ := Option.map_eq_some_iff.1 hnext
  exact hle

theorem serveAll_without {front rest : List Caller} {probe : Caller}
    {served later : List (Caller × Option Rat)} (hqps : 0 < b.qps)
    (hordered : b.Ordered (front ++ probe :: rest)) (hlength : served.length = front.length)
    (hserved : b.serveAll (front ++ probe :: rest) = served ++ (probe, none) :: later) :
    b.serveAll (front ++ rest) = served ++ later := by
  obtain ⟨hqps', hordered'⟩ := hordered.after hqps
  rw [Bucket.serveAll_append, Bucket.serveAll] at hserved
  obtain ⟨hfront, hrest⟩ :=
    List.append_inj hserved ((Bucket.length_serveAll front).trans hlength.symm)
  obtain ⟨hprobe, hlater⟩ := List.cons.inj hrest
  have hdenied : ((b.after front).serve probe).1 = none := congrArg Prod.snd hprobe
  rw [Bucket.serveAll_of_denied hqps' hordered' hdenied] at hlater
  rw [Bucket.serveAll_append, hfront, hlater]

end Sequence

/-- Tokens of a full bucket are granted exactly when the law says so. -/
theorem lawful_full {qps burst created : Rat} {callers : List Caller} (hqps : 0 < qps)
    (hburst : 1 ≤ burst) (hordered : (created :: callers.map Caller.time).Pairwise (· ≤ ·)) :
    Lawful (Bucket.full qps burst created) callers := by
  set b := Bucket.full qps burst created
  have hsettled : b.Settled [] := Bucket.settled_full hqps created
  have hcalls : b.Ordered callers := hordered
  have hsorted := sorted_takes hsettled hcalls
  obtain ⟨hanswers, hshows, hend⟩ := (Timeline.shows_start b b.last).callAll hqps (le_refl _)
    hcalls (sorted_asked hsorted)
  refine
    { law := fun k take htake => ?_
      inOrder := hsorted
      answers := hanswers
      ended := fun horizon hnow hhorizon => ?_
      affordable := affordable_grantTime hqps hburst
      least := fun grant hgrant k hk => hgrant.grantTime_le hqps hk
      probes := fun front probe rest served later hcallers hlength hserved => ?_
      manners := Bucket.serveAll_reserving hqps hcalls }
  · have hgrant := hsettled.grants hcalls htake
    rwa [List.nil_append, List.length_nil, Nat.zero_add] at hgrant
  · exact (hshows.advance (sorted_asked hsorted) (hend horizon hnow hhorizon)).ended
  · subst hcallers
    exact serveAll_without hqps hcalls hlength hserved

def turns : List Caller :=
  [⟨"a", 0, some .wait⟩, ⟨"b", 0, some .acquire⟩, ⟨"c", 0, none⟩, ⟨"d", 1/4, some .acquire⟩,
    ⟨"e", 1/2, some .wait⟩, ⟨"f", 3/4, none⟩, ⟨"g", 5, none⟩]

theorem lawful_turns :
    (0 : Rat) < 2 ∧ (1 : Rat) ≤ 2 ∧ (0 :: turns.map Caller.time).Pairwise (· ≤ ·) ∧
      ((Bucket.full 2 2 0).takes turns).map (fun take => (take.1.id, take.2)) =
        [("a", 0), ("b", 0), ("d", 1/2), ("e", 1), ("g", 5)] ∧
      Lawful (Bucket.full 2 2 0) turns := by
  have hqps : (0 : Rat) < 2 := by decide +kernel
  have hburst : (1 : Rat) ≤ 2 := by decide +kernel
  have hordered : (0 :: turns.map Caller.time).Pairwise (· ≤ ·) := by decide +kernel
  exact ⟨hqps, hburst, hordered, by decide +kernel, lawful_full hqps hburst hordered⟩

end Rate
end LogHarvest
