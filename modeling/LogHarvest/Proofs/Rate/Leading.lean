import LogHarvest.Proofs.Rate.Queueing
import LogHarvest.Rate.Timeline

/-!
# A timeline as a crowd

On a timeline one caller leads: it lets time pass, launches the others and calls them
off.  Whatever it does, a crowd can do the same, one act after the other, with the same
bucket and the same reservations waited for (`exists_follows`).  So what holds of every
crowd holds on every timeline.
-/

namespace LogHarvest
namespace Rate

namespace Timeline

def after (l : Timeline Rat Rat) (moves : List (Move Rat)) : Timeline Rat Rat :=
  moves.foldl (fun l' move => (l'.step move).2) l

def Forward (l : Timeline Rat Rat) : List (Move Rat) → Prop
  | [] => True
  | move :: rest => (∀ time, move = .pass time → l.now ≤ time) ∧ (l.step move).2.Forward rest

end Timeline

def Take.isPending (take : Take) : Bool :=
  take.fate == .pending

namespace Crowd

structure Tracks (s : Crowd) (bucket : Bucket Rat Rat) (now : Rat) (waiting : List (Waiter Rat)) :
    Prop where
  bucket : s.bucket = bucket
  now : s.now = now
  waiting : (s.takes.filter Take.isPending).map Take.due = waiting.map fun w => some w.due

variable {s : Crowd} {bucket : Bucket Rat Rat} {now : Rat} {waiting : List (Waiter Rat)}

theorem isPending_iff {take : Take} : take.isPending = true ↔ take.fate = .pending :=
  beq_iff_eq

/-!
## Waits that end
-/

def Ends (now : Rat) (change : Bucket Rat Rat → Bucket Rat Rat) (leaves : Waiter Rat → Bool) :
    Prop :=
  ∀ (s : Crowd) (token : Nat) (take : Take) (w : Waiter Rat), s.now = now →
    s.takes[token]? = some take → take.fate = .pending → take.due = some w.due →
      leaves w = true → ∃ s' fate, s.Reaches s' ∧ s'.now = now ∧ s'.bucket = change s.bucket ∧
        s'.takes = s.takes.set token { take with fate := fate } ∧ fate ≠ .pending

/-- The waits end one after the other, those of the later tokens later. -/
theorem exists_ended {change : Bucket Rat Rat → Bucket Rat Rat} {leaves : Waiter Rat → Bool}
    (hends : Ends now change leaves) {front back : List Take} (hnow : s.now = now)
    (htakes : s.takes = front ++ back)
    (hwaiting : (back.filter Take.isPending).map Take.due = waiting.map fun w => some w.due) :
    ∃ s' back', s.Reaches s' ∧ s'.now = now ∧ s'.takes = front ++ back' ∧
      s'.bucket = (waiting.filter leaves).foldl (fun b _ => change b) s.bucket ∧
      (back'.filter Take.isPending).map Take.due =
        (waiting.filter fun w => !leaves w).map fun w => some w.due := by
  -- The tokens are gone through in their order; `front` has those whose turn is over.
  induction back generalizing s front waiting with
  | nil =>
      have hnone : waiting = [] := List.map_eq_nil_iff.1 hwaiting.symm
      subst hnone
      exact ⟨s, [], .here, hnow, htakes, rfl, rfl⟩
  | cons take rest ih =>
      have hstay : ∀ (s' : Crowd) (take' : Take), s'.takes = front ++ take' :: rest →
          s'.takes = (front ++ [take']) ++ rest := fun s' take' h => by
        rw [h, List.append_assoc, List.singleton_append]
      cases hpending : take.isPending with
      | false =>
          have hsettled : ¬ take.isPending = true := Bool.not_eq_true _ ▸ hpending
          rw [List.filter_cons_of_neg hsettled] at hwaiting
          obtain ⟨s', back', hreach, hnow', htakes', hbucket, hwaiting'⟩ :=
            ih hnow (hstay s take htakes) hwaiting
          refine ⟨s', take :: back', hreach, hnow', ?_, hbucket, ?_⟩
          · rw [htakes', List.append_assoc, List.singleton_append]
          · rw [List.filter_cons_of_neg hsettled]
            exact hwaiting'
      | true =>
          rw [List.filter_cons_of_pos hpending, List.map_cons] at hwaiting
          obtain ⟨w, others, rfl, hdue, hothers⟩ := List.map_eq_cons_iff.1 hwaiting.symm
          cases hleaves : leaves w with
          | false =>
              obtain ⟨s', back', hreach, hnow', htakes', hbucket, hwaiting'⟩ :=
                ih hnow (hstay s take htakes) hothers.symm
              have hstays : ¬ leaves w = true := Bool.not_eq_true _ ▸ hleaves
              refine ⟨s', take :: back', hreach, hnow', ?_, ?_, ?_⟩
              · rw [htakes', List.append_assoc, List.singleton_append]
              · rw [hbucket, List.filter_cons_of_neg hstays]
              · rw [List.filter_cons_of_pos hpending, List.map_cons, hwaiting', ← hdue,
                  List.filter_cons_of_pos (by rw [hleaves]; rfl), List.map_cons]
          | true =>
              have htoken : s.takes[front.length]? = some take := by
                rw [htakes, List.getElem?_append_right (le_refl _), Nat.sub_self]
                rfl
              obtain ⟨a, fate, hfirst, hnow₁, hbucket₁, htakes₁, hfate⟩ :=
                hends s front.length take w hnow htoken (isPending_iff.1 hpending) hdue.symm hleaves
              rw [htakes, List.set_append_right _ _ (le_refl _), Nat.sub_self,
                List.set_cons_zero] at htakes₁
              obtain ⟨s', back', hreach, hnow', htakes', hbucket, hwaiting'⟩ :=
                ih hnow₁ (hstay a _ htakes₁) hothers.symm
              have hended : ¬ Take.isPending { take with fate := fate } = true :=
                fun hstill => hfate (isPending_iff.1 hstill)
              refine ⟨s', { take with fate := fate } :: back', hfirst.trans hreach, hnow', ?_, ?_,
                ?_⟩
              · rw [htakes', List.append_assoc, List.singleton_append]
              · rw [hbucket, List.filter_cons_of_pos hleaves, List.foldl_cons, hbucket₁]
              · rw [List.filter_cons_of_neg hended, hwaiting',
                  List.filter_cons_of_neg (by rw [hleaves]; exact Bool.false_ne_true)]

theorem Tracks.ended {change : Bucket Rat Rat → Bucket Rat Rat} {leaves : Waiter Rat → Bool}
    (htracks : s.Tracks bucket now waiting) (hends : Ends now change leaves) :
    ∃ s', s.Reaches s' ∧ s'.Tracks ((waiting.filter leaves).foldl (fun b _ => change b) bucket) now
      (waiting.filter fun w => !leaves w) := by
  obtain ⟨s', back, hreach, hnow, htakes, hbucket, hwaiting⟩ :=
    exists_ended hends htracks.now (List.nil_append s.takes).symm htracks.waiting
  refine ⟨s', hreach, by rw [hbucket, htracks.bucket], hnow, ?_⟩
  rw [htakes]
  exact hwaiting

theorem ends_mature (now : Rat) : Ends now (fun b => b) fun w => w.due ≤ now := by
  intro s token take w hnow htake hpending hdue hmature
  have hripe : take.fate = .pending ∧ ∀ due ∈ take.due, due ≤ s.now := by
    refine ⟨hpending, fun due hmem => ?_⟩
    rw [hdue, Option.mem_some_iff] at hmem
    rw [← hmem, hnow]
    exact of_decide_eq_true hmature
  have hstep : s.step (.mature token) = some (s.settled token take .granted) := by
    change s.mature token = _
    unfold mature
    rw [htake]
    exact if_pos hripe
  exact ⟨_, .granted, reaches_of_step hstep, hnow, rfl, rfl, nofun⟩

theorem ends_giveUp (now : Rat) (leaves : Waiter Rat → Bool) :
    Ends now (fun b => b.handBack now) leaves := by
  intro s token take w hnow htake hpending _ _
  have hstep : s.step (.giveUp token) =
      some ((s.turned (s.bucket.handBack s.now) (s.bucket.excessBack s.now)).settled token take
        (.returned s.takes.length)) := by
    change s.giveUp token = _
    unfold giveUp
    rw [htake]
    exact if_pos hpending
  refine ⟨_, _, reaches_of_step hstep, hnow, ?_, rfl, nofun⟩
  rw [← hnow]
  rfl

theorem Tracks.advance (htracks : s.Tracks bucket now waiting) {time : Rat} (htime : now ≤ time) :
    ∃ s', s.Reaches s' ∧
      s'.Tracks bucket time (waiting.filter fun w => !decide (w.due ≤ time)) := by
  have hstep : s.step (.tick time) = some { s with now := time } := by
    unfold step
    exact if_pos (htracks.now ▸ htime)
  have hlater : ({ s with now := time } : Crowd).Tracks bucket time waiting :=
    ⟨htracks.bucket, rfl, htracks.waiting⟩
  obtain ⟨s', hreach, htracks'⟩ := hlater.ended (ends_mature time)
  have hsame : (waiting.filter fun w => w.due ≤ time).foldl (fun b _ => b) bucket = bucket :=
    List.foldl_fixed _
  rw [hsame] at htracks'
  exact ⟨s', (reaches_of_step hstep).trans hreach, htracks'⟩

/-!
## Calls
-/

theorem pending_took (s : Crowd) (due : Option Rat) :
    ((s.took due).takes.filter Take.isPending).map Take.due =
      (s.takes.filter Take.isPending).map Take.due ++ due.toList.map some := by
  change ((s.takes ++ [_]).filter Take.isPending).map Take.due = _
  rw [List.filter_append, List.map_append]
  cases due <;> rfl

theorem Tracks.took (htracks : s.Tracks bucket now waiting) (due : Option Rat)
    (bucket' : Bucket Rat Rat) (excess : Rat) (serial : Nat) (id : String) :
    ((s.turned bucket' excess).took due).Tracks bucket' now
      (waiting ++ due.toList.map fun d => ⟨serial, id, d⟩) where
  bucket := rfl
  now := htracks.now
  waiting := by
    rw [pending_took, List.map_append, ← htracks.waiting, List.map_map]
    rfl

theorem tracks_append_nil :
    s.Tracks bucket now (waiting ++ []) ↔ s.Tracks bucket now waiting := by
  rw [List.append_nil]

theorem Tracks.ask {l : Timeline Rat Rat} (htracks : s.Tracks l.bucket l.now waiting)
    (manner : Manner) (serial : Nat) (id : String) :
    (s.ask manner l.calledOff).Tracks (l.ask manner).2.bucket l.now
      (waiting ++ (l.ask manner).1.join.toList.map fun d => ⟨serial, id, d⟩) := by
  have hreserve : ∀ s' : Crowd, s'.Tracks s'.bucket l.now waiting →
      s'.reserve.Tracks (s'.bucket.reserve l.now).2 l.now
        (waiting ++ (s'.bucket.reserve l.now).1.toList.map fun d => ⟨serial, id, d⟩) := by
    intro s' htracks'
    unfold reserve
    rw [htracks'.now]
    exact htracks'.took _ _ _ serial id
  unfold Crowd.ask Timeline.ask
  cases manner with
  | wait =>
      cases hoff : l.calledOff with
      | true => exact tracks_append_nil.2 htracks
      | false =>
          have hreserved := hreserve s ⟨rfl, htracks.now, htracks.waiting⟩
          rw [htracks.bucket] at hreserved
          exact hreserved
  | acquire =>
      unfold probe
      rw [htracks.bucket, htracks.now]
      rcases hallow : l.bucket.allow l.now with ⟨found, bucket'⟩
      cases found with
      | true => exact htracks.took none bucket' (l.bucket.excess l.now) serial id
      | false =>
          have hprobed : (s.turned bucket' (l.bucket.excess l.now)).Tracks bucket' l.now waiting :=
            ⟨rfl, htracks.now, htracks.waiting⟩
          cases hoff : l.calledOff with
          | true => exact tracks_append_nil.2 hprobed
          | false => exact hreserve _ hprobed

/-!
## Moves of the lead
-/

def Follows (s : Crowd) (l : Timeline Rat Rat) : Prop :=
  s.Tracks l.bucket l.now l.waiting

theorem callOffWhere_eq (l : Timeline Rat Rat) (leaves : Waiter Rat → Bool) :
    (l.callOffWhere leaves).bucket =
        (l.waiting.filter leaves).foldl (fun b _ => b.handBack l.now) l.bucket ∧
      (l.callOffWhere leaves).now = l.now ∧
      (l.callOffWhere leaves).waiting = l.waiting.filter fun w => !leaves w := by
  unfold Timeline.callOffWhere
  rw [List.partition_eq_filter_filter]
  dsimp only
  have hfold : ∀ (leaving : List (Waiter Rat)) (l' : Timeline Rat Rat),
      (leaving.foldl (fun l' w =>
          ({ l' with bucket := l'.bucket.handBack l'.now }.finish w.id false)) l').bucket =
        leaving.foldl (fun b _ => b.handBack l'.now) l'.bucket ∧
      (leaving.foldl (fun l' w =>
          ({ l' with bucket := l'.bucket.handBack l'.now }.finish w.id false)) l').now = l'.now ∧
      (leaving.foldl (fun l' w =>
          ({ l' with bucket := l'.bucket.handBack l'.now }.finish w.id false)) l').waiting =
        l'.waiting := by
    intro leaving
    induction leaving with
    | nil => exact fun l' => ⟨rfl, rfl, rfl⟩
    | cons w rest ih => exact fun l' => ih _
  exact hfold _ _

theorem Follows.callOffWhere {l : Timeline Rat Rat} (hfollows : s.Follows l)
    (leaves : Waiter Rat → Bool) : ∃ s', s.Reaches s' ∧ s'.Follows (l.callOffWhere leaves) := by
  obtain ⟨hbucket, hnow, hwaiting⟩ := callOffWhere_eq l leaves
  obtain ⟨s', hreach, htracks⟩ := hfollows.ended (ends_giveUp l.now leaves)
  refine ⟨s', hreach, ?_⟩
  unfold Follows
  rw [hbucket, hnow, hwaiting]
  exact htracks

theorem lt_due_of_ask {l : Timeline Rat Rat} (hqps : 0 < l.bucket.qps) {manner : Manner}
    {due : Rat} (hdue : (l.ask manner).1 = some (some due)) : l.now < due := by
  have hreserve : ∀ b : Bucket Rat Rat, 0 < b.qps → (b.reserve l.now).1 = some due →
      l.now < due := by
    intro b hb hreserved
    rw [Bucket.reserve_eq] at hreserved
    obtain ⟨howed, hmatured⟩ := Bucket.due?_eq_some_iff.1 hreserved
    rw [← hmatured]
    exact Bucket.lt_matured (b := b.drawn l.now) hb howed
  unfold Timeline.ask at hdue
  dsimp only at hdue
  cases manner with
  | wait =>
      dsimp only at hdue
      split at hdue
      · cases hdue
      · exact hreserve l.bucket hqps (Option.some.inj hdue)
  | acquire =>
      dsimp only at hdue
      rcases l.bucket.cases_of_allow l.now with ⟨-, hallow⟩ | hallow
      · rw [hallow] at hdue
        cases hdue
      · rw [hallow] at hdue
        dsimp only at hdue
        split at hdue
        · cases hdue
        · exact hreserve (l.bucket.refill l.now) hqps (Option.some.inj hdue)

theorem ask_same (l : Timeline Rat Rat) (manner : Manner) :
    (l.ask manner).2.now = l.now ∧ (l.ask manner).2.waiting = l.waiting := by
  unfold Timeline.ask
  dsimp only
  cases manner with
  | wait =>
      dsimp only
      split <;> exact ⟨rfl, rfl⟩
  | acquire =>
      dsimp only
      split
      · exact ⟨rfl, rfl⟩
      · split <;> exact ⟨rfl, rfl⟩

theorem advance_waiting (l : Timeline Rat Rat) (time : Rat) :
    (l.advance time).bucket = l.bucket ∧ (l.advance time).now = time ∧
      (l.advance time).waiting = l.waiting.filter fun w => !decide (w.due ≤ time) := by
  unfold Timeline.advance
  rw [List.partition_eq_filter_filter]
  exact ⟨rfl, rfl, rfl⟩

theorem Follows.advance {l : Timeline Rat Rat} {time : Rat} (hfollows : s.Follows l)
    (hlater : l.now ≤ time) : ∃ s', s.Reaches s' ∧ s'.Follows (l.advance time) := by
  obtain ⟨s', hreach, htracks⟩ := Tracks.advance hfollows hlater
  obtain ⟨hbucket, hnow, hwaiting⟩ := advance_waiting l time
  refine ⟨s', hreach, ?_⟩
  unfold Follows
  rw [hbucket, hnow, hwaiting]
  exact htracks

theorem Follows.ask {l l' : Timeline Rat Rat} {manner : Manner} {asked : Option (Option Rat)}
    (hfollows : s.Follows l) (hask : l.ask manner = (asked, l')) (serial : Nat) (id : String) :
    ∃ s', s.Reaches s' ∧ s'.Tracks l'.bucket l'.now
      (l'.waiting ++ asked.join.toList.map fun d => ⟨serial, id, d⟩) := by
  have htracks := Tracks.ask hfollows manner serial id
  obtain ⟨hnow, hwaiting⟩ := ask_same l manner
  rw [hask] at htracks hnow hwaiting
  rw [hnow, hwaiting]
  have hstep : s.step (.ask manner l.calledOff) = some (s.ask manner l.calledOff) := rfl
  exact ⟨_, reaches_of_step hstep, htracks⟩

theorem Follows.launch {l : Timeline Rat Rat} (hfollows : s.Follows l) (id : String)
    (manner : Manner) : ∃ s', s.Reaches s' ∧ s'.Follows (l.step (.launch id manner)).2 := by
  have hlaunched :
      s.Follows { l with launched := (id, l.launched.length) :: l.launched } := hfollows
  unfold Timeline.step
  dsimp only
  rcases hask : Timeline.ask { l with launched := (id, l.launched.length) :: l.launched } manner
    with ⟨asked, l'⟩
  obtain ⟨a, hasks, htracks⟩ := hlaunched.ask hask l.launched.length id
  match asked with
  | none | some none => exact ⟨a, hasks, tracks_append_nil.1 htracks⟩
  | some (some due) =>
      have hwaits : a.Follows { l' with
          waiting := l'.waiting ++ [⟨l.launched.length, id, due⟩] } := htracks
      obtain ⟨s', hpasses, hadvanced⟩ := hwaits.advance (le_refl l'.now)
      exact ⟨s', hasks.trans hpasses, hadvanced⟩

theorem Follows.lead {l : Timeline Rat Rat} (hfollows : s.Follows l) (hqps : 0 < l.bucket.qps)
    (manner : Manner) : ∃ s', s.Reaches s' ∧ s'.Follows (l.step (.ask manner)).2 := by
  unfold Timeline.step
  dsimp only
  rcases hask : l.ask manner with ⟨asked, l'⟩
  obtain ⟨a, hasks, htracks⟩ := hfollows.ask hask 0 ""
  match asked with
  | none | some none => exact ⟨a, hasks, tracks_append_nil.1 htracks⟩
  | some (some due) =>
      have hlater : l'.now < due := by
        have hnow := (ask_same l manner).1
        rw [hask] at hnow
        rw [hnow]
        exact lt_due_of_ask hqps (congrArg Prod.fst hask)
      have hwaits : a.Follows { l' with waiting := l'.waiting ++ [⟨0, "", due⟩] } := htracks
      obtain ⟨s', hpasses, hadvanced⟩ := hwaits.advance (le_of_lt hlater)
      refine ⟨s', hasks.trans hpasses, ?_⟩
      -- In the crowd the lead waits with the others, and at its time it is through.
      have hown : ([(⟨0, "", due⟩ : Waiter Rat)].filter fun w => !decide (w.due ≤ due)) = [] := by
        simp
      unfold Follows at hadvanced ⊢
      obtain ⟨hbucket, hnow, hwaiting⟩ := advance_waiting l' due
      rw [(advance_waiting _ _).1, (advance_waiting _ _).2.1, (advance_waiting _ _).2.2,
        List.filter_append, hown, List.append_nil] at hadvanced
      rw [hbucket, hnow, hwaiting]
      exact hadvanced

theorem Follows.step {l : Timeline Rat Rat} (hfollows : s.Follows l) (hqps : 0 < l.bucket.qps)
    (move : Move Rat) (hforward : ∀ time, move = .pass time → l.now ≤ time) :
    ∃ s', s.Reaches s' ∧ s'.Follows (l.step move).2 := by
  cases move with
  | allow =>
      have hstep : s.step .allow = some s.probe.2 := rfl
      refine ⟨s.probe.2, reaches_of_step hstep, ?_⟩
      unfold Timeline.step probe
      dsimp only
      rw [hfollows.bucket, hfollows.now]
      rcases l.bucket.allow l.now with ⟨found, bucket⟩
      cases found with
      | true =>
          exact tracks_append_nil.1 (hfollows.took none bucket (l.bucket.excess l.now) 0 "")
      | false => exact ⟨rfl, hfollows.now, hfollows.waiting⟩
  | ask manner => exact hfollows.lead hqps manner
  | pass time => exact hfollows.advance (hforward time rfl)
  | launch id manner => exact hfollows.launch id manner
  | callOff id =>
      unfold Timeline.step
      dsimp only
      split
      · exact hfollows.callOffWhere _
      · have hoff : s.Follows { l with calledOff := true } := hfollows
        exact hoff.callOffWhere _

/-- Every timeline with a full bucket is a crowd, whatever its lead does. -/
theorem exists_follows {qps burst created : Rat} {moves : List (Move Rat)} (hqps : 0 < qps)
    (hforward : (Timeline.start (.full qps burst created) created).Forward moves) :
    ∃ s, (start (.full qps burst created)).Reaches s ∧
      s.Follows ((Timeline.start (.full qps burst created) created).after moves) := by
  have hcourse : ∀ (moves : List (Move Rat)) (l : Timeline Rat Rat) (s : Crowd),
      (start (.full qps burst created)).Reaches s → s.Follows l → l.Forward moves →
        ∃ s', (start (.full qps burst created)).Reaches s' ∧ s'.Follows (l.after moves) := by
    intro moves
    induction moves with
    | nil => exact fun l s hreach hfollows _ => ⟨s, hreach, hfollows⟩
    | cons move rest ih =>
        intro l s hreach hfollows hforward
        have hrate : 0 < l.bucket.qps := by
          rw [← hfollows.bucket, (booked_of_reaches hqps hreach).rate]
          exact hqps
        obtain ⟨s', hmoves, hfollows'⟩ := hfollows.step hrate move hforward.1
        exact ih (l.step move).2 s' (hreach.trans hmoves) hfollows' hforward.2
  exact hcourse moves _ _ .here ⟨rfl, rfl, rfl⟩ hforward

example :
    ((Timeline.start (.full 1 1 0) 0).after
        [.allow, .launch "a" .wait, .launch "b" .wait, .launch "c" .wait, .callOff "a",
          .callOff "b", .launch "d" .wait, .pass 2, .pass 5]).ended.map
      (fun e => (e.id, e.granted, e.time)) =
        [("c", true, 3), ("d", true, 2), ("b", false, 0), ("a", false, 0)] := by
  decide +kernel

end Crowd
end Rate
end LogHarvest
