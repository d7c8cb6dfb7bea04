import LogHarvest.Run.Fetch

/-!
# The courses of a run

A run can take any course: whatever moves are possible may come in any order.
`State.Reaches` relates a state to those that some course leads to, so what holds
of them holds whoever decides on the order.

The history of a run is read in parts: the records that were handed over, those
that were merged, and the configurations whose documents were written.

Runs that share a fleet make their moves in any order too, and so do others on the
same machine (`Site.Reaches`).
-/

namespace LogHarvest

theorem foldlM_induction {α β : Type} {step : α → β → Option α} {motive : α → Prop}
    (hkeeps : ∀ {a b : α} {x : β}, motive a → step a x = some b → motive b) {xs : List β}
    {first last : α} (hfirst : motive first) (hsteps : xs.foldlM step first = some last) :
    motive last := by
  induction xs generalizing first with
  | nil =>
      cases hsteps
      exact hfirst
  | cons x rest ih =>
      rw [List.foldlM_cons] at hsteps
      obtain ⟨next, hnext, hrest⟩ := Option.bind_eq_some_iff.1 hsteps
      exact ih (hkeeps hfirst hnext) hrest

namespace Run

variable {σ α τ : Type}

/-!
## The parts of a history

What happened last comes first, in each part as in the whole.
-/

def Event.filed? : Event τ → Option (Nat × Record × Artifact.Sink)
  | .returned worker record sink => some (worker, record, sink)
  | _ => none

def Event.merged? : Event τ → Option Record
  | .merged record => some record
  | _ => none

def Event.synced? : Event τ → Option FleetConfig
  | .synced config => some config
  | _ => none

namespace State

def filed (s : State σ α τ) : List (Nat × Record × Artifact.Sink) :=
  s.history.filterMap Event.filed?

def returned (s : State σ α τ) : List (Nat × Record) :=
  s.filed.map fun entry => (entry.1, entry.2.1)

def merged (s : State σ α τ) : List Record :=
  s.history.filterMap Event.merged?

def synced (s : State σ α τ) : List FleetConfig :=
  s.history.filterMap Event.synced?

def status (s : State σ α τ) : Status :=
  s.aggregation.store.config.status

/-!
## Courses
-/

/-- Some course leads from one state to the other. -/
inductive Reaches [Rate.Meter α τ] [LE τ] [DecidableLE τ] (setting : Setting σ)
    (s : State σ α τ) : State σ α τ → Prop
  | here : Reaches setting s s
  | move {a b : State σ α τ} {m : Move τ} :
      Reaches setting s a → a.step setting m = some b → Reaches setting s b

variable [Rate.Meter α τ] [LE τ] [DecidableLE τ] {setting : Setting σ}

theorem Reaches.trans {s a b : State σ α τ} (hfirst : s.Reaches setting a)
    (hsecond : a.Reaches setting b) : s.Reaches setting b := by
  induction hsecond with
  | here => exact hfirst
  | move _ hstep ih => exact ih.move hstep

theorem reaches_of_step {s a : State σ α τ} {m : Move τ} (hstep : s.step setting m = some a) :
    s.Reaches setting a :=
  Reaches.here.move hstep

theorem reaches_of_steps {s a : State σ α τ} {moves : List (Move τ)}
    (hsteps : s.steps setting moves = some a) : s.Reaches setting a :=
  foldlM_induction (fun hreaches hstep => hreaches.move hstep) .here hsteps

end State
end Run

namespace Fleet

variable {σ : Type}

theorem config_prepare (s : FleetStore) (endings : List String) :
    (prepare s endings).2.config = s.config := by
  unfold prepare
  dsimp only
  split
  · rfl
  · split
    · rfl
    · split
      · rfl
      · split <;> rfl

theorem prepare_eq_ok_iff {store store' : FleetStore} {endings : List String} {folder : Path} :
    prepare store endings = (.ok folder, store') ↔
      store.config.enabled = true ∧ store.config.validate = .ok () ∧
        exceedsPermits store.config = false ∧
        ∃ t tree, store.tree.makeFolders store.config.logDir = (.ok (), t) ∧
          Artifact.allocateFolder t store.config.logDir (folderStart store.config) endings =
            .ok (folder, tree) ∧
          store' = { store with tree := tree } := by
  unfold prepare
  constructor
  · intro hprepare
    dsimp only at hprepare
    split at hprepare
    · cases hprepare
    · rename_i henabled
      split at hprepare
      · cases hprepare
      · rename_i hvalid
        split at hprepare
        · cases hprepare
        · rename_i t hmade
          split at hprepare
          · cases hprepare
          · rename_i tree hallocate
            split at hprepare
            · cases hprepare
            · rename_i hpermits
              cases hprepare
              exact ⟨by simpa using henabled, hvalid, by simpa using hpermits, t, tree, hmade,
                hallocate, rfl⟩
  · rintro ⟨henabled, hvalid, hpermits, t, tree, hmade, hallocate, rfl⟩
    simp [henabled, hvalid, hpermits, hmade, hallocate]

def prepared (f : Fleet σ) (endings : List String) : Fleet σ :=
  { f with store := (prepare f.store endings).2 }

/-- A fetch that was prepared and got to a state of its run, by whatever course. -/
structure Fetching (setting : Run.Setting σ) (stages : List Protocol.Stage)
    (endings : List String) (f : Fleet σ) (folder : Path)
    (s : Run.State σ Float Rate.Millis) : Prop where
  prepared : (prepare f.store endings).1 = .ok folder
  reached : ((f.prepared endings).startRun stages folder).Reaches setting s

end Fleet

/-!
## Courses of runs that share a fleet
-/

namespace Site

variable {σ : Type}

inductive Move (σ : Type)
  | begin (setting : Run.Setting σ) (stages : List Protocol.Stage) (endings : List String)
  | run (k : Nat) (move : Run.Move Rate.Millis)
  /-- Others change the fleet; the configuration only while no run has it to itself. -/
  | others (fleet : Fleet σ)

def step (site : Site σ) : Move σ → Option (Site σ)
  | .begin setting stages endings =>
      let c := site.fleet.store.config
      if !site.isFree then none
      else
        match Artifact.allocateFolder site.fleet.store.tree c.logDir (Fleet.folderStart c)
            endings with
        | .error _ => none
        | .ok (folder, tree) => some (site.begin setting stages folder tree)
  | .run k move =>
      site.runs[k]?.bind fun begun =>
        ((begun.state.amid site.fleet).step begun.setting move).map (site.put k begun)
  | .others fleet =>
      let config := if site.isFree then fleet.store.config else site.fleet.store.config
      some { site with fleet := { fleet with store := { fleet.store with config := config } } }

def steps (site : Site σ) (moves : List (Move σ)) : Option (Site σ) :=
  moves.foldlM step site

inductive Reaches (site : Site σ) : Site σ → Prop
  | here : Reaches site site
  | move {a b : Site σ} {m : Move σ} : Reaches site a → a.step m = some b → Reaches site b

theorem Reaches.trans {site a b : Site σ} (hfirst : site.Reaches a) (hsecond : a.Reaches b) :
    site.Reaches b := by
  induction hsecond with
  | here => exact hfirst
  | move _ hstep ih => exact ih.move hstep

theorem reaches_of_step {site a : Site σ} {m : Move σ} (hstep : site.step m = some a) :
    site.Reaches a :=
  Reaches.here.move hstep

theorem reaches_of_steps {site a : Site σ} {moves : List (Move σ)}
    (hsteps : site.steps moves = some a) : site.Reaches a :=
  foldlM_induction (fun hreaches hstep => hreaches.move hstep) .here hsteps

end Site
end LogHarvest
