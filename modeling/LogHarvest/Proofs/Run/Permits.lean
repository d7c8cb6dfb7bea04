import LogHarvest.Proofs.Run.Calls

/-!
# Permits and sessions in a move

`cases_of_service` says what a move makes of permits and sessions.  A worker comes
to a permit when it begins or when another one ends, and gives it back when its
record is gone (`Served`).  In between its collector opens a session if the
connector lets it, and closes it (`Noted`).

The permits that are free and those that workers have are always as many as the limit
says, and the queue holds those who wait for one (`Permitted`).  Nobody waits while a
permit is free, so if somebody waits, somebody else has a permit.
-/

namespace LogHarvest

def Response.isPlain : Response → Bool
  | .connected (.ok _) | .closed => false
  | _ => true

namespace Run

variable {σ α τ : Type}

def Duty.seated : Duty τ → Bool
  | .active _ | .waiting .. | .unanswered _ | .sending _ => true
  | .unstarted _ | .queued _ | .ended => false

def Duty.isQueued : Duty τ → Bool
  | .queued _ => true
  | _ => false

def Event.opened? : Event τ → Option Nat
  | .opened worker => some worker
  | _ => none

def Event.closed? : Event τ → Option Nat
  | .closed worker => some worker
  | _ => none

def openAfter : List (Event τ) → List Nat
  | [] => []
  | .opened worker :: earlier => worker :: openAfter earlier
  | .closed worker :: earlier => (openAfter earlier).erase worker
  | _ :: earlier => openAfter earlier

namespace State

def opened (s : State σ α τ) : List Nat :=
  s.history.filterMap Event.opened?

def closed (s : State σ α τ) : List Nat :=
  s.history.filterMap Event.closed?

def sessions (s : State σ α τ) : List Nat :=
  openAfter s.history

/-!
## What a move leaves alone
-/

structure Aside (s t : State σ α τ) : Prop where
  workers : t.workers = s.workers
  permits : t.permits = s.permits
  queue : t.queue = s.queue
  filed : t.filed = s.filed
  opened : t.opened = s.opened
  closed : t.closed = s.closed
  sessions : t.sessions = s.sessions

theorem Aside.refl (s : State σ α τ) : s.Aside s := by
  constructor <;> rfl

theorem Aside.trans {s t u : State σ α τ} (hfirst : s.Aside t) (hsecond : t.Aside u) :
    s.Aside u where
  workers := hsecond.workers.trans hfirst.workers
  permits := hsecond.permits.trans hfirst.permits
  queue := hsecond.queue.trans hfirst.queue
  filed := hsecond.filed.trans hfirst.filed
  opened := hsecond.opened.trans hfirst.opened
  closed := hsecond.closed.trans hfirst.closed
  sessions := hsecond.sessions.trans hfirst.sessions

theorem aside_note (s : State σ α τ) {event : Event τ} (hfiled : event.filed? = none)
    (hopened : event.opened? = none) (hclosed : event.closed? = none) :
    s.Aside (s.note event) where
  workers := rfl
  permits := rfl
  queue := rfl
  filed := List.filterMap_cons_none hfiled
  opened := List.filterMap_cons_none hopened
  closed := List.filterMap_cons_none hclosed
  sessions := by
    cases event with
    | opened worker => cases hopened
    | closed worker => cases hclosed
    | _ => rfl

theorem Aside.note {s t : State σ α τ} (haside : s.Aside t) (event : Event τ) :
    (s.note event).Aside (t.note event) where
  workers := haside.workers
  permits := haside.permits
  queue := haside.queue
  filed := by
    have hsame : t.history.filterMap Event.filed? = s.history.filterMap Event.filed? := haside.filed
    simp only [State.filed, State.note, List.filterMap_cons, hsame]
  opened := by
    have hsame : t.history.filterMap Event.opened? = s.history.filterMap Event.opened? :=
      haside.opened
    simp only [State.opened, State.note, List.filterMap_cons, hsame]
  closed := by
    have hsame : t.history.filterMap Event.closed? = s.history.filterMap Event.closed? :=
      haside.closed
    simp only [State.closed, State.note, List.filterMap_cons, hsame]
  sessions := by
    have hsame : openAfter t.history = openAfter s.history := haside.sessions
    cases event <;> simp only [State.sessions, State.note, openAfter, hsame]

theorem aside_withTree (s : State σ α τ) (remote : σ) (tree : Tree) :
    s.Aside ({ s with remote := remote }.withTree tree) := by
  constructor <;> rfl

theorem aside_stopAll (s : State σ α τ) : s.Aside s.stopAll := by
  unfold stopAll
  split
  · exact .refl s
  · have hnote : Aside { s with calledOff := true } ({ s with calledOff := true }.note
        (.calledOff s.now)) := aside_note _ rfl rfl rfl
    exact Aside.trans (by constructor <;> rfl) hnote

theorem aside_afterCall {β : Type} (s : State σ α τ) (reply : Reply σ β) :
    s.Aside (s.afterCall reply) := by
  unfold afterCall
  have hafter := s.aside_withTree reply.after.state reply.after.tree
  split
  · exact hafter.trans (aside_stopAll _)
  · exact hafter

theorem aside_merge (s : State σ α τ) (r : Record) (next : Receiver) :
    s.Aside (s.merge r next) := by
  unfold merge
  split
  · rename_i a _
    have hmerged : Aside { s with aggregation := a, receiver := next }
        ({ s with aggregation := a, receiver := next }.note (.merged r)) := aside_note _ rfl rfl rfl
    have hbefore : s.Aside { s with aggregation := a, receiver := next } := by
      constructor <;> rfl
    dsimp only
    split
    · exact (hbefore.trans hmerged).trans (aside_note _ rfl rfl rfl)
    · exact hbefore.trans hmerged
  · constructor <;> rfl

theorem aside_receive {s s' : State σ α τ} (hreceive : s.receive = some s') : s.Aside s' := by
  rcases cases_of_receive hreceive with ⟨receiver, -, rfl⟩ | ⟨channel, r, next, -, rfl⟩ |
    ⟨calledOff, rfl⟩
  · constructor <;> rfl
  · have hchannel : s.Aside { s with channel := channel } := by
      constructor <;> rfl
    exact hchannel.trans (aside_merge _ r next)
  · constructor <;> rfl

/-!
## A worker's moves
-/

inductive Noted (setting : Setting σ) (s : State σ α τ) (w : Nat) (c : Collector) :
    Response → State σ α τ → Prop
  | plain {answer : Response} {t : State σ α τ} (hplain : answer.isPlain = true)
      (haside : s.Aside t) : Noted setting s w c answer t
  /-- The connector let the worker in. -/
  | opened {t : State σ α τ} (hduty : s.workers[w]? = some (.active c))
      (hrequest : c.request = .connect)
      (hverdict : (setting.connector.connect w c.subject s.around).verdict = .now (.ok ()))
      (haside : (s.note (.opened w)).Aside t) : Noted setting s w c (.connected (.ok ())) t
  | closed {t : State σ α τ} (hduty : s.workers[w]? = some (.active c))
      (hrequest : c.request = .close) (haside : (s.note (.closed w)).Aside t) :
      Noted setting s w c .closed t

inductive Served (setting : Setting σ) (s : State σ α τ) (w : Nat) : State σ α τ → Prop
  | skipped {c : Collector} (hduty : s.workers[w]? = some (.unstarted c)) :
      Served setting s w (s.assign w .ended)
  | unlimited {c : Collector} (hduty : s.workers[w]? = some (.unstarted c))
      (hpermits : s.permits = none) : Served setting s w (s.assign w (.active c))
  | admitted {c : Collector} {free : Nat} (hduty : s.workers[w]? = some (.unstarted c))
      (hpermits : s.permits = some (free + 1)) :
      Served setting s w ({ s with permits := some free }.assign w (.active c))
  | queued {c : Collector} (hduty : s.workers[w]? = some (.unstarted c))
      (hpermits : s.permits = some 0) :
      Served setting s w ({ s with queue := s.queue ++ [w] }.assign w (.queued c))
  | waits {c : Collector} {due : τ} {t : State σ α τ} (hduty : s.workers[w]? = some (.active c))
      (haside : s.Aside t) : Served setting s w (t.assign w (.waiting c due))
  | unanswered {c : Collector} {t : State σ α τ} (hduty : s.workers[w]? = some (.active c))
      (haside : s.Aside t) : Served setting s w (t.assign w (.unanswered c))
  | answered {c : Collector} {answer : Response} {t : State σ α τ}
      (hduty : s.workers[w]? = some (.active c) ∨ ∃ due, s.workers[w]? = some (.waiting c due))
      (hnoted : Noted setting s w c answer t) : Served setting s w (t.resume w c answer)
  | sent {r : Record} {t : State σ α τ} (hduty : s.workers[w]? = some (.sending r))
      (haside : s.Aside t) : Served setting s w (t.release w)

variable {setting : Setting σ} {s s' : State σ α τ} {w : Nat} {c : Collector}

theorem served_of_started (hduty : s.workers[w]? = some (.unstarted c))
    (hstarted : Started s w c s') : Served setting s w s' := by
  cases hstarted with
  | skipped _ => exact .skipped hduty
  | unlimited _ hpermits => exact .unlimited hduty hpermits
  | queued _ hpermits => exact .queued hduty hpermits
  | admitted _ hpermits => exact .admitted hduty hpermits

theorem served_of_pass {t : State σ α τ}
    (hduty : s.workers[w]? = some (.active c) ∨ ∃ due, s.workers[w]? = some (.waiting c due))
    (haside : s.Aside t) : Served setting s w (t.pass w c) := by
  unfold pass
  exact .answered hduty (.plain rfl (haside.trans (aside_note t rfl rfl rfl)))

theorem served_of_gated [Rate.Meter α τ] (hduty : s.workers[w]? = some (.active c))
    (hgated : Gated s w c s') : Served setting s w s' := by
  have haside : ∀ bucket, s.Aside { s with bucket := bucket } := by
    intro bucket
    constructor <;> rfl
  cases hgated with
  | free _ => exact served_of_pass (Or.inl hduty) (haside _)
  | refused _ _ => exact .answered (Or.inl hduty) (.plain rfl (haside _))
  | paid _ _ _ => exact served_of_pass (Or.inl hduty) (haside _)
  | owed _ _ _ => exact .waits hduty (haside _)

theorem served_of_acted [Rate.Meter α τ] (hduty : s.workers[w]? = some (.active c))
    (hacted : Acted setting s w c s') : Served setting s w s' := by
  have hafter : ∀ {β : Type} (reply : Reply σ β), s.Aside (s.afterCall reply) :=
    fun reply => aside_afterCall s reply
  cases hacted with
  | gate _ hgated => exact served_of_gated hduty hgated
  | letIn hrequest hverdict =>
      exact .answered (Or.inl hduty) (.opened hduty hrequest hverdict ((hafter _).note _))
  | keptOut hrequest hverdict => exact .answered (Or.inl hduty) (.plain rfl (hafter _))
  | leftOut hrequest hverdict => exact .unanswered hduty (hafter _)
  | ran hrequest hverdict => exact .answered (Or.inl hduty) (.plain rfl (hafter _))
  | ranOn hrequest hverdict => exact .unanswered hduty (hafter _)
  | saved hrequest =>
      exact .answered (Or.inl hduty) (.plain rfl (s.aside_withTree s.remote _))
  | closed hrequest =>
      exact .answered (Or.inl hduty) (.closed hduty hrequest ((s.aside_withTree _ _).note _))

section

variable [Rate.Meter α τ] [LE τ] [DecidableLE τ]

theorem served_of_work (hwork : s.work setting w = some s') : Served setting s w s' := by
  cases moved_of_work hwork with
  | began hduty hstarted => exact served_of_started hduty hstarted
  | acted hduty hacted => exact served_of_acted hduty hacted
  | matured hduty hdue => exact served_of_pass (Or.inr ⟨_, hduty⟩) (.refl s)
  | sent hduty hopen hroom =>
      refine .sent (t := { s with channel := _ }) hduty ?_
      constructor <;> rfl
  | dropped hduty hreturned => exact .sent hduty (.refl s)

theorem cases_of_service {m : Move τ} (hstep : s.step setting m = some s') :
    s.Aside s' ∨ ∃ w, Served setting s w s' := by
  unfold step at hstep
  cases m with
  | tick time =>
      dsimp only at hstep
      split at hstep
      · cases hstep
        exact Or.inl (by constructor <;> rfl)
      · cases hstep
  | callOff =>
      cases hstep
      exact Or.inl (aside_stopAll s)
  | work w => exact Or.inr ⟨w, served_of_work hstep⟩
  | giveUp w =>
      obtain ⟨c, due, hduty, -, rfl⟩ := gaveUp_of_giveUp hstep
      refine Or.inr ⟨w, .answered (Or.inr ⟨due, hduty⟩) (.plain rfl ?_)⟩
      constructor <;> rfl
  | receive => exact Or.inl (aside_receive hstep)

end

/-!
## Permits
-/

/-- Permits get neither lost nor more, and nobody waits for one while one is free. -/
structure Permitted (limit : Option Nat) (s : State σ α τ) : Prop where
  /-- Each permit is free, or a worker has it. -/
  total : s.permits.map (· + s.workers.countP Duty.seated) = limit
  queued : ∀ w, w ∈ s.queue ↔ s.workers[w]?.any Duty.isQueued = true
  nodup : s.queue.Nodup
  taken : s.queue = [] ∨ s.permits = some 0

variable {limit : Option Nat}

theorem Permitted.of_same {s s' : State σ α τ} (hpermitted : Permitted limit s)
    (hworkers : s'.workers = s.workers) (hpermits : s'.permits = s.permits)
    (hqueue : s'.queue = s.queue) : Permitted limit s' where
  total := by rw [hpermits, hworkers]; exact hpermitted.total
  queued := by rw [hqueue, hworkers]; exact hpermitted.queued
  nodup := by rw [hqueue]; exact hpermitted.nodup
  taken := by rw [hqueue, hpermits]; exact hpermitted.taken

theorem Permitted.of_aside (hpermitted : Permitted limit s) (haside : s.Aside s') :
    Permitted limit s' :=
  hpermitted.of_same haside.workers haside.permits haside.queue

theorem Permitted.of_note (hpermitted : Permitted limit s) (event : Event τ) :
    Permitted limit (s.note event) :=
  hpermitted.of_same rfl rfl rfl

theorem Permitted.queued_assign {old duty : Duty τ} (hpermitted : Permitted limit s)
    (hold : s.workers[w]? = some old) (hbefore : old.isQueued = false)
    (hafter : duty.isQueued = false) (i : Nat) :
    i ∈ s.queue ↔ (s.assign w duty).workers[i]?.any Duty.isQueued = true := by
  rw [hpermitted.queued i, duty_assign (lt_length_of_duty hold)]
  by_cases hi : i = w
  · rw [if_pos hi, hi, hold, Option.any_some, Option.any_some, hbefore, hafter]
  · rw [if_neg hi]

theorem exists_queued {workers : List (Duty τ)} {i : Nat}
    (hqueued : workers[i]?.any Duty.isQueued = true) : ∃ c, workers[i]? = some (.queued c) := by
  cases hduty : workers[i]? with
  | none =>
      rw [hduty] at hqueued
      cases hqueued
  | some duty =>
      rw [hduty] at hqueued
      cases duty with
      | queued c => exact ⟨c, rfl⟩
      | _ => cases hqueued

theorem Permitted.of_assign {old duty : Duty τ} (hpermitted : Permitted limit s)
    (hold : s.workers[w]? = some old) (hbefore : old.isQueued = false)
    (hafter : duty.isQueued = false) (hseated : duty.seated = old.seated) :
    Permitted limit (s.assign w duty) where
  total := by
    have hcount : (s.assign w duty).workers.countP Duty.seated + old.seated.toNat =
        s.workers.countP Duty.seated + duty.seated.toNat := countP_assign hold rfl
    rw [hseated] at hcount
    rw [Nat.add_right_cancel hcount]
    exact hpermitted.total
  queued := hpermitted.queued_assign hold hbefore hafter
  nodup := hpermitted.nodup
  taken := hpermitted.taken

theorem Permitted.of_resume {old : Duty τ} {answer : Response} (hpermitted : Permitted limit s)
    (hold : s.workers[w]? = some old) (hbefore : old.isQueued = false)
    (hseated : old.seated = true) : Permitted limit (s.resume w c answer) := by
  cases hrecord : (c.resume answer).record? with
  | none =>
      rw [resume_of_unfinished hrecord]
      exact hpermitted.of_assign hold hbefore rfl hseated.symm
  | some r =>
      rw [resume_of_finished hrecord]
      have hsending : Permitted limit (s.assign w (.sending r)) :=
        hpermitted.of_assign hold hbefore rfl hseated.symm
      exact hsending.of_note _

theorem Permitted.of_release {old : Duty τ} (hpermitted : Permitted limit s)
    (hold : s.workers[w]? = some old) (hbefore : old.isQueued = false)
    (hseated : old.seated = true) : Permitted limit (s.release w) := by
  have hone : (s.assign w .ended).workers.countP Duty.seated + 1 =
      s.workers.countP Duty.seated := by
    have hended : (s.assign w .ended).workers.countP Duty.seated + old.seated.toNat =
        s.workers.countP Duty.seated + 0 := countP_assign hold rfl
    rw [hseated] at hended
    exact hended
  have hqueued : ∀ i, i ∈ s.queue ↔
      (s.assign w .ended).workers[i]?.any Duty.isQueued = true :=
    hpermitted.queued_assign hold hbefore rfl
  have htotal := hpermitted.total
  unfold release
  dsimp only
  split
  · rename_i hnone
    rw [show s.permits = none from hnone] at htotal
    refine ⟨?_, hqueued, hpermitted.nodup, hpermitted.taken⟩
    rw [show (s.assign w .ended).permits = none from hnone]
    exact htotal
  · rename_i free hsome hempty
    rw [show s.permits = some free from hsome] at htotal
    refine ⟨?_, hqueued, hpermitted.nodup, Or.inl hempty⟩
    refine Eq.trans (congrArg some ?_) htotal
    dsimp only
    omega
  · rename_i free next queue hsome hqueue
    have hnext : s.queue = next :: queue := hqueue
    rw [hnext] at hqueued
    obtain ⟨hfresh, hrest⟩ := List.nodup_cons.1 (hnext ▸ hpermitted.nodup)
    have hfree : s.permits = some 0 := hpermitted.taken.resolve_left (by rw [hnext]; nofun)
    -- The first in the queue waits there, so the permit is not lost.
    obtain ⟨c, hduty⟩ := exists_queued ((hqueued next).1 List.mem_cons_self)
    rw [hduty]
    dsimp only
    have hturn : ({ s.assign w .ended with queue := queue }.assign next
        (.active c)).workers.countP Duty.seated + 0 =
        (s.assign w .ended).workers.countP Duty.seated + 1 := countP_assign hduty rfl
    refine ⟨?_, ?_, hrest, Or.inr hfree⟩
    · rw [Nat.add_zero] at hturn
      rw [hturn, hone]
      exact htotal
    · intro i
      rw [duty_assign (s := { s.assign w .ended with queue := queue }) (lt_length_of_duty hduty)]
      by_cases hi : i = next
      · rw [if_pos hi, hi]
        exact iff_of_false hfresh Bool.false_ne_true
      · rw [if_neg hi, ← hqueued i, List.mem_cons, or_iff_right hi]
        rfl

theorem Noted.permitted {answer : Response} {t : State σ α τ} (hpermitted : Permitted limit s)
    (hnoted : Noted setting s w c answer t) : Permitted limit t := by
  cases hnoted with
  | plain _ haside => exact hpermitted.of_aside haside
  | opened _ _ _ haside | closed _ _ haside =>
      exact (hpermitted.of_note _).of_aside haside

theorem Noted.workers {answer : Response} {t : State σ α τ}
    (hnoted : Noted setting s w c answer t) : t.workers = s.workers := by
  cases hnoted with
  | plain _ haside => exact haside.workers
  | opened _ _ _ haside => exact haside.workers
  | closed _ _ haside => exact haside.workers

theorem Permitted.of_served (hpermitted : Permitted limit s)
    (hserved : Served setting s w s') : Permitted limit s' := by
  cases hserved with
  | skipped hduty => exact hpermitted.of_assign hduty rfl rfl rfl
  | @unlimited c hduty hnone =>
      refine ⟨?_, hpermitted.queued_assign hduty rfl rfl, hpermitted.nodup, hpermitted.taken⟩
      have htotal := hpermitted.total
      rw [hnone] at htotal
      rw [show (s.assign w (.active c)).permits = none from hnone]
      exact htotal
  | @admitted c free hduty hsome =>
      have hempty : s.queue = [] := hpermitted.taken.resolve_right (by rw [hsome]; nofun)
      have hafter : ({ s with permits := some free }.assign w (.active c)).workers.countP
          Duty.seated + 0 = s.workers.countP Duty.seated + 1 := countP_assign hduty rfl
      refine ⟨?_, hpermitted.queued_assign hduty rfl rfl, hpermitted.nodup, Or.inl hempty⟩
      have htotal := hpermitted.total
      rw [hsome] at htotal
      refine Eq.trans (congrArg some ?_) htotal
      dsimp only
      omega
  | @queued c hduty hnone =>
      have hw : w ∉ s.queue := by
        rw [hpermitted.queued w, hduty]
        exact Bool.false_ne_true
      have hafter : ({ s with queue := s.queue ++ [w] }.assign w (.queued c)).workers.countP
          Duty.seated + 0 = s.workers.countP Duty.seated + 0 := countP_assign hduty rfl
      have hnodup : (s.queue ++ [w]).Nodup := by
        refine List.nodup_append.2 ⟨hpermitted.nodup, List.pairwise_singleton _ w, ?_⟩
        intro i hi j hj
        rw [List.mem_singleton.1 hj]
        exact ne_of_mem_of_not_mem hi hw
      refine ⟨?_, ?_, hnodup, Or.inr hnone⟩
      · rw [Nat.add_right_cancel hafter]
        exact hpermitted.total
      · intro i
        rw [duty_assign (s := { s with queue := s.queue ++ [w] }) (lt_length_of_duty hduty)]
        by_cases hi : i = w
        · rw [if_pos hi, hi]
          exact iff_of_true List.mem_append_cons_self rfl
        · rw [if_neg hi, ← hpermitted.queued i]
          simp [assign, hi]
  | waits hduty haside | unanswered hduty haside =>
      rw [← haside.workers] at hduty
      exact (hpermitted.of_aside haside).of_assign hduty rfl rfl rfl
  | @answered c answer t hduty hnoted =>
      have hbefore := hnoted.permitted hpermitted
      rw [← hnoted.workers] at hduty
      rcases hduty with hduty | ⟨due, hduty⟩
      · exact hbefore.of_resume hduty rfl rfl
      · exact hbefore.of_resume hduty rfl rfl
  | sent hduty haside =>
      rw [← haside.workers] at hduty
      exact (hpermitted.of_aside haside).of_release hduty rfl rfl

theorem permitted_start {store : FleetStore} {stages : List Protocol.Stage} {folder : Path}
    {bucket : Rate.Bucket α τ} {now : τ} {calledOff : Bool} {remote : σ} {limit : Option UInt64}
    (hlimit : store.config.limits.maxSessions = limit) :
    Permitted (limit.map UInt64.toNat)
      (start store stages folder bucket now calledOff remote) := by
  have hunstarted : ∀ duty ∈ (start store stages folder bucket now calledOff remote).workers,
      ∃ c, duty = .unstarted c := by
    intro duty hduty
    obtain ⟨c, -, rfl⟩ := List.mem_map.1 hduty
    exact ⟨c, rfl⟩
  refine ⟨?_, ?_, .nil, Or.inl rfl⟩
  · have hnone : (start store stages folder bucket now calledOff remote).workers.countP
        Duty.seated = 0 := by
      rw [List.countP_eq_zero]
      intro duty hduty
      obtain ⟨c, rfl⟩ := hunstarted duty hduty
      exact Bool.false_ne_true
    rw [hnone, start, hlimit]
    exact Option.map_id'
  · intro w
    refine iff_of_false List.not_mem_nil ?_
    intro hqueued
    obtain ⟨c, hduty⟩ := exists_queued hqueued
    obtain ⟨c', hunstarted⟩ := hunstarted _ (List.mem_of_getElem? hduty)
    cases hunstarted

theorem Permitted.of_reaches [Rate.Meter α τ] [LE τ] [DecidableLE τ]
    (hpermitted : Permitted limit s) (hreaches : s.Reaches setting s') : Permitted limit s' := by
  induction hreaches with
  | here => exact hpermitted
  | move _ hstep ih =>
      rcases cases_of_service hstep with haside | ⟨w, hserved⟩
      · exact ih.of_aside haside
      · exact ih.of_served hserved

/-- Whoever waits for a permit waits for somebody who has one, unless there are none at all. -/
theorem Permitted.exists_seated (hpermitted : Permitted limit s) (hlimit : limit ≠ some 0)
    (hqueued : s.workers[w]? = some (.queued c)) :
    ∃ (i : Nat) (duty : Duty τ), s.workers[i]? = some duty ∧ duty.seated = true := by
  have hw : w ∈ s.queue := (hpermitted.queued w).2 (by rw [hqueued]; rfl)
  have hfree : s.permits = some 0 := hpermitted.taken.resolve_left (List.ne_nil_of_mem hw)
  have htotal := hpermitted.total
  rw [hfree] at htotal
  have hpos : 0 < s.workers.countP Duty.seated := by
    refine Nat.pos_of_ne_zero ?_
    intro hzero
    rw [hzero] at htotal
    exact hlimit htotal.symm
  obtain ⟨duty, hmem, hseated⟩ := List.countP_pos_iff.1 hpos
  obtain ⟨i, hi⟩ := List.getElem?_of_mem hmem
  exact ⟨i, duty, hi, hseated⟩

end State
end Run
end LogHarvest
