import LogHarvest.Proofs.Run.FanIn
import LogHarvest.Proofs.Run.Permits

/-!
# Sessions are limited, and closed by those who opened them

Where a collector stands tells whether it has opened its session and whether it has
closed it (`Collector.Balanced`), whatever went wrong on the way.  A worker that may
have an open session has a permit.  So no more sessions are open than there are
permits, and a collector that has handed its record over has closed its session
once if it was let in, and otherwise not at all.
-/

namespace LogHarvest

/-- How often a collector has opened and closed a session by where it stands. -/
def Collector.Balanced (c : Collector) (opened closed : Nat) : Prop :=
  match c.phase with
  | .entering | .connecting => opened = 0 ∧ closed = 0
  | .between .. | .running .. | .saving .. | .closing _ => opened = 1 ∧ closed = 0
  | .finished _ => closed = opened ∧ opened ≤ 1

namespace Run

variable {σ α τ : Type}

def Duty.Balanced (duty : Duty τ) (opened closed : Nat) : Prop :=
  match duty with
  | .unstarted c | .queued c => c.phase = .entering ∧ opened = 0 ∧ closed = 0
  | .active c | .waiting c _ | .unanswered c => c.Balanced opened closed
  | .sending _ | .ended => closed = opened ∧ opened ≤ 1

def Duty.isThrough : Duty τ → Bool
  | .sending _ | .ended => true
  | _ => false

/-!
## Collectors
-/

section Collectors

variable {c : Collector} {opened closed : Nat}

theorem balanced_proceed (todo : List Errand) (paths : List Path)
    (hopened : opened = 1 ∧ closed = 0) :
    ({ c with phase := Collector.proceed todo paths } : Collector).Balanced opened closed := by
  cases todo <;> exact hopened

theorem balanced_digest {errand : Errand} {rest : List Errand} {paths : List Path}
    {output : Text.Bytes} (hopened : opened = 1 ∧ closed = 0) :
    (c.digest errand rest paths output).Balanced opened closed := by
  cases errand with
  | keep command => exact hopened
  | explore discovery => exact balanced_proceed _ _ hopened

theorem balanced_resume {answer : Response} (hplain : answer.isPlain = true)
    (hbalanced : c.Balanced opened closed) : (c.resume answer).Balanced opened closed := by
  obtain ⟨group, subject, stages, sink, phase⟩ := c
  have hnever : opened = 0 ∧ closed = 0 → closed = opened ∧ opened ≤ 1 := by
    rintro ⟨rfl, rfl⟩
    exact ⟨rfl, Nat.zero_le 1⟩
  cases phase with
  | entering =>
      cases answer with
      | calledOff => exact hnever hbalanced
      | _ => exact hbalanced
  | connecting =>
      cases answer with
      | connected result =>
          cases result with
          | ok _ => cases hplain
          | error cause => exact hnever hbalanced
      | _ => exact hbalanced
  | between errand rest paths => cases answer <;> exact hbalanced
  | running errand rest paths =>
      cases answer with
      | output result =>
          cases result with
          | ok output =>
              exact balanced_digest
                (c := ⟨group, subject, stages, sink, .running errand rest paths⟩)
                hbalanced
          | error cause => exact hbalanced
      | _ => exact hbalanced
  | saving name data rest paths =>
      cases answer with
      | saved result =>
          cases result with
          | ok path =>
              exact balanced_proceed
                (c := ⟨group, subject, stages, sink, .saving name data rest paths⟩) _ _ hbalanced
          | error fault => exact hbalanced
      | _ => exact hbalanced
  | closing result =>
      cases answer with
      | closed => cases hplain
      | _ => exact hbalanced
  | finished result => cases answer <;> exact hbalanced

theorem balanced_opened (hrequest : c.request = .connect) (hbalanced : c.Balanced opened closed) :
    (c.resume (.connected (.ok ()))).Balanced (opened + 1) closed := by
  obtain ⟨group, subject, stages, sink, phase⟩ := c
  cases phase with
  | connecting =>
      obtain ⟨rfl, rfl⟩ := hbalanced
      exact balanced_proceed (c := ⟨group, subject, stages, sink, .connecting⟩) _ _ ⟨rfl, rfl⟩
  | _ => cases hrequest

theorem balanced_closing (hrequest : c.request = .close) (hbalanced : c.Balanced opened closed) :
    opened = 1 ∧ closed = 0 := by
  obtain ⟨group, subject, stages, sink, phase⟩ := c
  cases phase with
  | closing result => exact hbalanced
  | _ => cases hrequest

theorem balanced_closed (hrequest : c.request = .close) (hbalanced : c.Balanced opened closed) :
    (c.resume .closed).Balanced opened (closed + 1) := by
  obtain ⟨group, subject, stages, sink, phase⟩ := c
  cases phase with
  | closing result =>
      obtain ⟨rfl, rfl⟩ := hbalanced
      exact ⟨rfl, Nat.le_refl 1⟩
  | _ => cases hrequest

theorem balanced_finished {r : Record} (hrecord : c.record? = some r)
    (hbalanced : c.Balanced opened closed) : closed = opened ∧ opened ≤ 1 := by
  obtain ⟨group, subject, stages, sink, phase⟩ := c
  cases phase with
  | finished result => exact hbalanced
  | _ => cases hrecord

end Collectors

namespace State

/-!
## Sessions and workers
-/

structure Balance (s : State σ α τ) : Prop where
  duties : ∀ w (duty : Duty τ), s.workers[w]? = some duty →
    duty.Balanced (s.opened.count w) (s.closed.count w)
  sessions : ∀ w, s.sessions.count w + s.closed.count w = s.opened.count w
  inside : ∀ w ∈ s.opened, w < s.workers.length
  through : ∀ w r, (w, r) ∈ s.returned →
    ∃ duty, s.workers[w]? = some duty ∧ duty.isThrough = true

theorem Balance.of_aside {s t : State σ α τ} (hbalance : Balance s) (haside : s.Aside t) :
    Balance t where
  duties := by
    rw [haside.workers, haside.opened, haside.closed]
    exact hbalance.duties
  sessions := by
    rw [haside.sessions, haside.opened, haside.closed]
    exact hbalance.sessions
  inside := by
    rw [haside.opened, haside.workers]
    exact hbalance.inside
  through := by
    rw [returned_congr haside.filed, haside.workers]
    exact hbalance.through

theorem Balance.not_returned {s : State σ α τ} {w : Nat} {duty : Duty τ} (hbalance : Balance s)
    (hduty : s.workers[w]? = some duty) (hnot : duty.isThrough = false) (r : Record) :
    (w, r) ∉ s.returned := by
  intro hmem
  obtain ⟨other, hother, hthrough⟩ := hbalance.through w r hmem
  rw [hduty] at hother
  cases hother
  rw [hnot] at hthrough
  cases hthrough

theorem Balance.of_duty {s s' : State σ α τ} {w : Nat} {duty : Duty τ} (hbalance : Balance s)
    (hduty : s'.workers[w]? = some duty) (hlength : s'.workers.length = s.workers.length)
    (hothers : ∀ i, i ≠ w → s'.workers[i]? = s.workers[i]?)
    (hself : duty.Balanced (s'.opened.count w) (s'.closed.count w))
    (hopened : ∀ i, i ≠ w → s'.opened.count i = s.opened.count i)
    (hclosed : ∀ i, i ≠ w → s'.closed.count i = s.closed.count i)
    (hsessions : ∀ i, s'.sessions.count i + s'.closed.count i = s'.opened.count i)
    (hreturned : ∀ i r, (i, r) ∈ s'.returned → duty.isThrough = true ∨ i ≠ w)
    (hbefore : ∀ i r, (i, r) ∈ s'.returned → i ≠ w → (i, r) ∈ s.returned) : Balance s' where
  duties := by
    intro i other hother
    by_cases hi : i = w
    · subst hi
      rw [hduty] at hother
      cases hother
      exact hself
    · rw [hothers i hi] at hother
      rw [hopened i hi, hclosed i hi]
      exact hbalance.duties i other hother
  sessions := hsessions
  inside := by
    intro i hi
    by_cases hself : i = w
    · rw [hself]
      exact (List.getElem?_eq_some_iff.1 hduty).1
    · rw [hlength]
      refine hbalance.inside i (List.count_pos_iff.1 ?_)
      rw [← hopened i hself]
      exact List.count_pos_iff.2 hi
  through := by
    intro i r hmem
    by_cases hi : i = w
    · subst hi
      refine ⟨duty, hduty, ?_⟩
      exact (hreturned i r hmem).resolve_right (fun h => h rfl)
    · rw [hothers i hi]
      exact hbalance.through i r (hbefore i r hmem hi)

theorem Balance.of_assign {s : State σ α τ} {w : Nat} {old duty : Duty τ} (hbalance : Balance s)
    (hold : s.workers[w]? = some old) (hnot : old.isThrough = false)
    (hself : duty.Balanced (s.opened.count w) (s.closed.count w)) :
    Balance (s.assign w duty) := by
  have hw := lt_length_of_duty hold
  have hassigned : (s.assign w duty).workers[w]? = some duty := by
    rw [duty_assign hw, if_pos rfl]
  refine hbalance.of_duty hassigned List.length_set ?_ hself (fun _ _ => rfl) (fun _ _ => rfl)
    hbalance.sessions ?_ (fun _ _ hmem _ => hmem)
  · intro i hi
    rw [duty_assign hw, if_neg hi]
  · intro i r hmem
    right
    rintro rfl
    exact hbalance.not_returned hold hnot r hmem

variable {setting : Setting σ} {s s' : State σ α τ} {w : Nat} {c : Collector}

/-!
## Answers
-/

theorem Noted.balanced {answer : Response} {t : State σ α τ} (hbalance : Balance s)
    (hcollector : c.Balanced (s.opened.count w) (s.closed.count w))
    (hnoted : Noted setting s w c answer t) :
    (c.resume answer).Balanced (t.opened.count w) (t.closed.count w) ∧
      (∀ i, i ≠ w → t.opened.count i = s.opened.count i) ∧
      (∀ i, i ≠ w → t.closed.count i = s.closed.count i) ∧
      (∀ i, t.sessions.count i + t.closed.count i = t.opened.count i) ∧
      t.filed = s.filed := by
  cases hnoted with
  | plain hplain haside =>
      rw [haside.opened, haside.closed, haside.sessions]
      exact ⟨balanced_resume hplain hcollector, fun _ _ => rfl, fun _ _ => rfl, hbalance.sessions,
        haside.filed⟩
  | opened _ hrequest _ haside =>
      have hopened : t.opened = w :: s.opened := haside.opened
      have hclosed : t.closed = s.closed := haside.closed
      have hsessions : t.sessions = w :: s.sessions := haside.sessions
      rw [hopened, hclosed, hsessions]
      refine ⟨?_, ?_, fun _ _ => rfl, ?_, haside.filed⟩
      · rw [List.count_cons_self]
        exact balanced_opened hrequest hcollector
      · intro i hi
        rw [List.count_cons_of_ne (Ne.symm hi)]
      · intro i
        have hcount := hbalance.sessions i
        rw [List.count_cons, List.count_cons]
        omega
  | closed _ hrequest haside =>
      have hopened : t.opened = s.opened := haside.opened
      have hclosed : t.closed = w :: s.closed := haside.closed
      have hsessions : t.sessions = s.sessions.erase w := haside.sessions
      rw [hopened, hclosed, hsessions]
      refine ⟨?_, fun _ _ => rfl, ?_, ?_, haside.filed⟩
      · rw [List.count_cons_self]
        exact balanced_closed hrequest hcollector
      · intro i hi
        rw [List.count_cons_of_ne (Ne.symm hi)]
      · intro i
        have hcount := hbalance.sessions i
        by_cases hi : i = w
        · -- The collector is about to close the session that it has opened.
          subst hi
          obtain ⟨hone, hzero⟩ := balanced_closing hrequest hcollector
          rw [List.count_erase_self, List.count_cons_self]
          omega
        · rw [List.count_erase_of_ne hi, List.count_cons_of_ne (Ne.symm hi)]
          exact hcount

theorem opened_resume (t : State σ α τ) (w : Nat) (c : Collector) (answer : Response) :
    (t.resume w c answer).opened = t.opened ∧ (t.resume w c answer).closed = t.closed ∧
      (t.resume w c answer).sessions = t.sessions := by
  rcases cases_of_resume t w c answer with hresume | ⟨r, hresume⟩ <;> rw [hresume]
  all_goals exact ⟨rfl, rfl, rfl⟩

theorem Balance.of_answered {answer : Response} {t : State σ α τ} {old : Duty τ}
    (hbalance : Balance s) (hold : s.workers[w]? = some old) (hcarries : old.isThrough = false)
    (hcollector : c.Balanced (s.opened.count w) (s.closed.count w))
    (hnoted : Noted setting s w c answer t) : Balance (t.resume w c answer) := by
  obtain ⟨hafter, hopened, hclosed, hsessions, hfiled⟩ := hnoted.balanced hbalance hcollector
  obtain ⟨hsame, hsame', hsame''⟩ := opened_resume t w c answer
  have hw := lt_length_of_duty hold
  rw [← hnoted.workers] at hw
  have hbefore : t.returned = s.returned := returned_congr hfiled
  refine hbalance.of_duty (duty_resume hw c answer w |>.trans (if_pos rfl)) ?_ ?_ ?_ ?_ ?_
    ?_ ?_ ?_
  · rw [length_workers_resume, hnoted.workers]
  · intro i hi
    exact duty_resume_of_ne hold hnoted.workers hi
  · rw [hsame, hsame']
    cases hrecord : (c.resume answer).record? with
    | none => exact hafter
    | some r => exact balanced_finished hrecord hafter
  · rw [hsame]
    exact hopened
  · rw [hsame']
    exact hclosed
  · rw [hsame, hsame', hsame'']
    exact hsessions
  · intro i r hmem
    cases hrecord : (c.resume answer).record? with
    | some r => exact Or.inl rfl
    | none =>
        right
        rintro rfl
        rw [resume_of_unfinished hrecord] at hmem
        rw [show (t.assign i _).returned = t.returned from rfl, hbefore] at hmem
        exact hbalance.not_returned hold hcarries r hmem
  · intro i r hmem hi
    rw [← hbefore]
    cases hrecord : (c.resume answer).record? with
    | none =>
        rw [resume_of_unfinished hrecord] at hmem
        exact hmem
    | some r' =>
        rw [resume_of_finished hrecord] at hmem
        rcases List.mem_cons.1 hmem with heq | hmem
        · exact absurd (congrArg Prod.fst heq) hi
        · exact hmem

/-!
## All moves
-/

theorem aside_release (s : State σ α τ) (w : Nat) :
    (s.release w).filed = s.filed ∧ (s.release w).opened = s.opened ∧
      (s.release w).closed = s.closed ∧ (s.release w).sessions = s.sessions := by
  obtain ⟨_, _, _, hrelease, -⟩ := exists_release s w
  rw [hrelease]
  exact ⟨rfl, rfl, rfl, rfl⟩

theorem Balance.of_release {r : Record} (hbalance : Balance s)
    (hold : s.workers[w]? = some (.sending r)) : Balance (s.release w) := by
  obtain ⟨hfiled, hopened, hclosed, hsessions⟩ := aside_release s w
  have hw := lt_length_of_duty hold
  have hself := hbalance.duties w _ hold
  -- A duty changes only for the worker that ends, and for one in the queue that gets its permit.
  have hduty : ∀ i duty, (s.release w).workers[i]? = some duty →
      (i = w ∧ duty = .ended) ∨ s.workers[i]? = some duty ∨
        ∃ c, s.workers[i]? = some (.queued c) ∧ duty = .active c := by
    intro i duty hafter
    have hassign := duty_assign hw .ended i
    rcases duty_release s w i with hsame | ⟨c, hqueued, hactive⟩
    · rw [hsame, hassign] at hafter
      split at hafter
      · rename_i hi
        cases hafter
        exact Or.inl ⟨hi, rfl⟩
      · exact Or.inr (Or.inl hafter)
    · rw [hactive] at hafter
      cases hafter
      rw [hassign] at hqueued
      split at hqueued
      · cases hqueued
      · exact Or.inr (Or.inr ⟨c, hqueued, rfl⟩)
  constructor
  case duties =>
    intro i duty hafter
    rw [hopened, hclosed]
    rcases hduty i duty hafter with ⟨rfl, rfl⟩ | hsame | ⟨c, hqueued, rfl⟩
    · exact hself
    · exact hbalance.duties i duty hsame
    · obtain ⟨hphase, hnone⟩ := hbalance.duties i _ hqueued
      change c.Balanced _ _
      unfold Collector.Balanced
      rw [hphase]
      exact hnone
  case sessions =>
    rw [hopened, hclosed, hsessions]
    exact hbalance.sessions
  case inside =>
    rw [hopened, length_workers_release]
    exact hbalance.inside
  case through =>
    intro i r' hmem
    rw [returned_congr hfiled] at hmem
    obtain ⟨duty, hbefore, hthrough⟩ := hbalance.through i r' hmem
    have hi : i < (s.release w).workers.length := by
      rw [length_workers_release]
      exact lt_length_of_duty hbefore
    refine ⟨_, List.getElem?_eq_getElem hi, ?_⟩
    rcases hduty i _ (List.getElem?_eq_getElem hi) with ⟨-, hended⟩ | hsame | ⟨c, hqueued, -⟩
    · rw [hended]
      rfl
    · rw [hbefore] at hsame
      cases hsame
      exact hthrough
    · rw [hbefore] at hqueued
      cases hqueued
      cases hthrough

theorem Balance.of_served (hbalance : Balance s) (hserved : Served setting s w s') :
    Balance s' := by
  have hactive : ∀ {c : Collector}, s.workers[w]? = some (.unstarted c) →
      c.Balanced (s.opened.count w) (s.closed.count w) := by
    intro c hduty
    obtain ⟨hphase, hnone⟩ := hbalance.duties w _ hduty
    unfold Collector.Balanced
    rw [hphase]
    exact hnone
  cases hserved with
  | skipped hduty =>
      refine hbalance.of_assign hduty rfl ?_
      obtain ⟨-, hopened, hclosed⟩ := hbalance.duties w _ hduty
      rw [hopened, hclosed]
      exact ⟨rfl, Nat.zero_le 1⟩
  | unlimited hduty _ => exact hbalance.of_assign hduty rfl (hactive hduty)
  | @admitted c free hduty _ =>
      have hbefore : Balance { s with permits := some free } :=
        ⟨hbalance.duties, hbalance.sessions, hbalance.inside, hbalance.through⟩
      exact hbefore.of_assign hduty rfl (hactive hduty)
  | queued hduty _ =>
      have hself := hbalance.duties w _ hduty
      have hbefore : Balance { s with queue := s.queue ++ [w] } :=
        ⟨hbalance.duties, hbalance.sessions, hbalance.inside, hbalance.through⟩
      exact hbefore.of_assign hduty rfl hself
  | waits hduty haside =>
      have hself := hbalance.duties w _ hduty
      rw [← haside.opened, ← haside.closed] at hself
      rw [← haside.workers] at hduty
      exact (hbalance.of_aside haside).of_assign hduty rfl hself
  | unanswered hduty haside =>
      have hself := hbalance.duties w _ hduty
      rw [← haside.opened, ← haside.closed] at hself
      rw [← haside.workers] at hduty
      exact (hbalance.of_aside haside).of_assign hduty rfl hself
  | answered hduty hnoted =>
      rcases hduty with hduty | ⟨due, hduty⟩
      · exact hbalance.of_answered hduty rfl (hbalance.duties w _ hduty) hnoted
      · exact hbalance.of_answered hduty rfl (hbalance.duties w _ hduty) hnoted
  | sent hduty haside =>
      rw [← haside.workers] at hduty
      exact (hbalance.of_aside haside).of_release hduty

theorem balance_start (store : FleetStore) (stages : List Protocol.Stage) (folder : Path)
    (bucket : Rate.Bucket α τ) (now : τ) (calledOff : Bool) (remote : σ) :
    Balance (start store stages folder bucket now calledOff remote) where
  duties := by
    intro w duty hduty
    obtain ⟨group, i, rfl⟩ := unstarted_of_start hduty
    exact ⟨rfl, rfl, rfl⟩
  sessions := fun _ => rfl
  inside := nofun
  through := nofun

theorem Balance.of_reaches [Rate.Meter α τ] [LE τ] [DecidableLE τ] (hbalance : Balance s)
    (hreaches : s.Reaches setting s') : Balance s' := by
  induction hreaches with
  | here => exact hbalance
  | move _ hstep ih =>
      rcases cases_of_service hstep with haside | ⟨w, hserved⟩
      · exact ih.of_aside haside
      · exact ih.of_served hserved

/-!
## What is open
-/

theorem length_le_countP {β : Type} {p : β → Bool} {l : List β} {places : List Nat}
    (hnodup : places.Nodup) (hall : ∀ i ∈ places, l[i]?.any p = true) :
    places.length ≤ l.countP p := by
  have hcount : ∀ l : List β,
      (List.range l.length).countP (fun i => l[i]?.any p) = l.countP p := by
    intro l
    induction l with
    | nil => rfl
    | cons x rest ih =>
        rw [List.length_cons, List.range_succ_eq_map, List.countP_cons, List.countP_map,
          List.countP_cons, ← ih]
        rfl
  rw [← hcount, List.countP_eq_length_filter]
  refine hnodup.length_le_of_subset ?_
  intro i hi
  refine List.mem_filter.2 ⟨?_, hall i hi⟩
  rw [List.mem_range]
  refine Decidable.byContradiction ?_
  intro hpast
  have hholds := hall i hi
  rw [List.getElem?_eq_none (Nat.le_of_not_lt hpast)] at hholds
  cases hholds

theorem Balance.seated (hbalance : Balance s) (hw : w ∈ s.sessions) :
    s.sessions.count w = 1 ∧ s.workers[w]?.any Duty.seated = true := by
  have hpos := List.count_pos_iff.2 hw
  have hcount := hbalance.sessions w
  have hopened : w ∈ s.opened := List.count_pos_iff.1 (by omega)
  obtain ⟨duty, hduty⟩ : ∃ duty, s.workers[w]? = some duty :=
    ⟨_, List.getElem?_eq_getElem (hbalance.inside w hopened)⟩
  have hself := hbalance.duties w duty hduty
  rw [hduty, Option.any_some]
  have hcollector : ∀ c : Collector, c.Balanced (s.opened.count w) (s.closed.count w) →
      s.sessions.count w = 1 := by
    intro c hbalanced
    unfold Collector.Balanced at hbalanced
    split at hbalanced <;> omega
  cases duty with
  | unstarted c | queued c =>
      obtain ⟨-, hself⟩ := hself
      omega
  | active c | waiting c due | unanswered c => exact ⟨hcollector c hself, rfl⟩
  | sending r | ended =>
      obtain ⟨hsame, -⟩ := hself
      omega

theorem Balance.nodup_sessions (hbalance : Balance s) : s.sessions.Nodup := by
  rw [List.nodup_iff_count]
  intro w
  by_cases hw : w ∈ s.sessions
  · exact Nat.le_of_eq (hbalance.seated hw).1
  · rw [List.count_eq_zero_of_not_mem hw]
    exact Nat.zero_le 1

theorem cases_of_sessions [Rate.Meter α τ] [LE τ] [DecidableLE τ] {m : Move τ}
    (hstep : s.step setting m = some s') :
    (s'.opened = s.opened ∧ s'.closed = s.closed) ∨
      (∃ w c, s.workers[w]? = some (.active c) ∧
        (setting.connector.connect w c.subject s.around).verdict = .now (.ok ()) ∧
        s'.opened = w :: s.opened ∧ s'.closed = s.closed) ∨
      ∃ w c, s.workers[w]? = some (.active c) ∧ c.request = .close ∧ s'.opened = s.opened ∧
        s'.closed = w :: s.closed := by
  rcases cases_of_service hstep with haside | ⟨w, hserved⟩
  · exact Or.inl ⟨haside.opened, haside.closed⟩
  · cases hserved with
    | skipped | unlimited | admitted | queued => exact Or.inl ⟨rfl, rfl⟩
    | waits _ haside | unanswered _ haside =>
        exact Or.inl ⟨haside.opened, haside.closed⟩
    | @sent r t _ haside =>
        obtain ⟨-, hopened, hclosed, -⟩ := aside_release t w
        exact Or.inl ⟨hopened.trans haside.opened, hclosed.trans haside.closed⟩
    | @answered c answer t _ hnoted =>
        obtain ⟨hopened, hclosed, -⟩ := opened_resume t w c answer
        rw [hopened, hclosed]
        cases hnoted with
        | plain _ haside => exact Or.inl ⟨haside.opened, haside.closed⟩
        | opened hduty _ hverdict haside =>
            exact Or.inr (Or.inl ⟨w, c, hduty, hverdict, haside.opened, haside.closed⟩)
        | closed hduty hrequest haside =>
            exact Or.inr (Or.inr ⟨w, c, hduty, hrequest, haside.opened, haside.closed⟩)

theorem Balance.length_sessions_le {n : Nat} (hbalance : Balance s)
    (hpermitted : Permitted (some n) s) : s.sessions.length ≤ n := by
  obtain ⟨free, -, hcount⟩ := Option.map_eq_some_iff.1 hpermitted.total
  have hseated := length_le_countP hbalance.nodup_sessions fun w hw => (hbalance.seated hw).2
  omega

end State
end Run

namespace Fleet

open Run State

variable {σ : Type} {setting : Setting σ} {stages : List Protocol.Stage} {endings : List String}
  {f : Fleet σ} {folder : Path} {s : State σ Float Rate.Millis}

/--
In every state of a run, whatever the connector and whoever called the run off: no more
sessions are open than the limit allows, and a collector that has handed its record over
has closed its session as often as it was let in, which is once at most.
-/
theorem sessions_limited (hfetching : f.Fetching setting stages endings folder s) :
    (∀ n, f.store.config.limits.maxSessions = some n → s.sessions.length ≤ n.toNat) ∧
      (∀ w, s.sessions.count w + s.closed.count w = s.opened.count w) ∧
      ∀ w r, (w, r) ∈ s.returned →
        s.closed.count w = s.opened.count w ∧ s.opened.count w ≤ 1 := by
  have hbalance : Balance s := (balance_start _ _ _ _ _ _ _).of_reaches hfetching.reached
  have hconfig : (f.prepared endings).store.config = f.store.config :=
    config_prepare f.store endings
  refine ⟨?_, hbalance.sessions, ?_⟩
  · intro n hlimit
    rw [← hconfig] at hlimit
    exact hbalance.length_sessions_le ((permitted_start hlimit).of_reaches hfetching.reached)
  · intro w r hmem
    obtain ⟨duty, hduty, hthrough⟩ := hbalance.through w r hmem
    have hself := hbalance.duties w duty hduty
    cases duty with
    | sending _ | ended => exact hself
    | _ => cases hthrough

def pairMidway : Option (State Account Float Rate.Millis) :=
  ((pair.prepared ["x"]).startRun [.fixed [⟨"uptime", "up.log", none⟩]]
      "/logs/demo-logsx").steps refusesSecond
    (.work 1 :: .work 0 :: List.replicate 3 (.work 1) ++ List.replicate 2 (.work 0))

theorem pairMidway_facts :
    (pairMidway.map fun s => (s.sessions, s.opened, s.returned.map Prod.fst)) =
      some ([0], [0], [1]) := by
  decide +kernel

theorem sessions_limited_pair :
    ∃ s, pair.Fetching refusesSecond [.fixed [⟨"uptime", "up.log", none⟩]] ["x"]
        "/logs/demo-logsx" s ∧
      s.sessions = [0] ∧ s.sessions.length ≤ 1 ∧
      ∃ r, (1, r) ∈ s.returned ∧ s.closed.count 1 = s.opened.count 1 := by
  obtain ⟨s, hs, hfacts⟩ := Option.map_eq_some_iff.1 pairMidway_facts
  simp only [Prod.mk.injEq] at hfacts
  obtain ⟨hsessions, -, hreturned⟩ := hfacts
  have hfetching : pair.Fetching refusesSecond [.fixed [⟨"uptime", "up.log", none⟩]] ["x"]
      "/logs/demo-logsx" s := ⟨by decide +kernel, reaches_of_steps hs⟩
  obtain ⟨⟨w, r⟩, hmem, hw⟩ : ∃ e ∈ s.returned, e.1 = 1 := by
    have hone : 1 ∈ s.returned.map Prod.fst := by
      rw [hreturned]
      exact List.mem_singleton_self 1
    obtain ⟨e, he, hfst⟩ := List.mem_map.1 hone
    exact ⟨e, he, hfst⟩
  obtain rfl : w = 1 := hw
  obtain ⟨hcap, -, hbalanced⟩ := sessions_limited hfetching
  exact ⟨s, hfetching, hsessions, hcap 1 rfl, r, hmem, (hbalanced 1 r hmem).1⟩

end Fleet
end LogHarvest
