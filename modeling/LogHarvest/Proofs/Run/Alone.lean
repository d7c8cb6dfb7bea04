import LogHarvest.Proofs.Run.Moves
import LogHarvest.Proofs.Tree.Folders

/-!
# One instance on its own

`alone` is the protocol as it goes for one instance when there is no other: a session
is opened, the errands are carried out one after the other, and the paths of their
files are the result.  The hosts answer by what they were asked before.

A collector gets its answers one at a time, and much else may happen in between.
`Collector.prospect` says what it will come to if it is left alone from where it
stands.  The answer that it is waiting for changes nothing about that, and of the
files in the way only the folders matter.
-/

namespace LogHarvest
namespace Run

variable {σ : Type}

/-- Hosts that answer by the instance and by the commands issued to it before. -/
structure Hosts where
  connect : Instance → Except SessionFault Unit
  run : Instance → (issued : List String) → (line : String) → Except SessionFault Text.Bytes

structure Progress where
  sink : Artifact.Sink
  issued : List String
  tree : Tree
  paths : List Path

namespace Progress

def file (setting : Setting σ) (w : Nat) (name : String) (output : Text.Bytes) (p : Progress) :
    Except CollectFault Progress :=
  match setting.save w p.sink name output p.tree with
  | (.error fault, _) => .error fault
  | (.ok path, tree) => .ok { p with tree := tree, paths := p.paths ++ [path] }

def keep (setting : Setting σ) (w : Nat) (command : Protocol.LogCommand) (output : Text.Bytes)
    (p : Progress) : Except CollectFault Progress :=
  let (name, sink) := p.sink.claim command.fileName command.fallback
  { p with sink := sink }.file setting w name output

def ask (hosts : Hosts) (i : Instance) (line : String)
    (next : Text.Bytes → Progress → Except CollectFault Progress) (p : Progress) :
    Except CollectFault Progress :=
  match hosts.run i p.issued line with
  | .error cause => .error (.command line i.id cause)
  | .ok output => next output { p with issued := p.issued ++ [line] }

variable (hosts : Hosts) (setting : Setting σ) (w : Nat) (i : Instance)

def collect (p : Progress) (command : Protocol.LogCommand) : Except CollectFault Progress :=
  p.ask hosts i command.command (keep setting w command)

def follow : Errand → Text.Bytes → Progress → Except CollectFault Progress
  | .keep command => keep setting w command
  | .explore discovery => fun output p =>
      (discovery.expand (Text.decodeLossy output)).foldlM (collect hosts setting w i) p

def carryOut (p : Progress) (errand : Errand) : Except CollectFault Progress :=
  p.ask hosts i errand.line (follow hosts setting w i errand)

def complete (p : Progress) (errands : List Errand) : Collected :=
  (errands.foldlM (carryOut hosts setting w i) p).map paths

end Progress

def carryThrough (hosts : Hosts) (setting : Setting σ) (w : Nat) (i : Instance)
    (stages : List Protocol.Stage) (sink : Artifact.Sink) (tree : Tree) : Collected :=
  match hosts.connect i with
  | .error cause => .error (.connect i.id cause)
  | .ok () => Progress.complete hosts setting w i ⟨sink, [], tree, []⟩ (Errand.ofStages stages)

/-- The protocol on one instance that nobody disturbs. -/
def alone (hosts : Hosts) (setting : Setting σ) (w : Nat) (i : Instance)
    (stages : List Protocol.Stage) (folder : Path) (tree : Tree) : Collected :=
  carryThrough hosts setting w i stages (.new folder i) tree

/-!
## What only depends on the folders
-/

theorem toOption_eq_of_ok {ε α : Type} {a b : Except ε α} (hfirst : ∀ x, a = .ok x → b = .ok x)
    (hsecond : ∀ x, b = .ok x → a = .ok x) : a.toOption = b.toOption := by
  cases a with
  | ok x => rw [hfirst x rfl]
  | error fault =>
      cases b with
      | error fault' => rfl
      | ok x => cases hsecond x rfl

namespace Progress

structure Alike (p q : Progress) : Prop where
  sink : q.sink = p.sink
  issued : q.issued = p.issued
  tree : p.tree.SameFolders q.tree
  paths : q.paths = p.paths

def Steady (step : Progress → Except CollectFault Progress) : Prop :=
  ∀ p q p', Alike p q → step p = .ok p' → ∃ q', step q = .ok q' ∧ Alike p' q'

theorem Alike.symm {p q : Progress} (halike : Alike p q) : Alike q p :=
  ⟨halike.sink.symm, halike.issued.symm, halike.tree.symm, halike.paths.symm⟩

variable {hosts : Hosts} {setting : Setting σ} {w : Nat} {i : Instance}

theorem sameFolders_save (k : Artifact.Sink) (name : String) (data : Text.Bytes) (t : Tree) :
    t.SameFolders (setting.save w k name data t).2 := by
  unfold Setting.save
  exact Artifact.sameFolders_write k _ name data _ t

theorem save_eq_ok_of_sameFolders {t t' : Tree} (hsame : t.SameFolders t') {k : Artifact.Sink}
    {name : String} {data : Text.Bytes} {path : Path}
    (hsave : (setting.save w k name data t).1 = .ok path) :
    (setting.save w k name data t').1 = .ok path := by
  unfold Setting.save at hsave ⊢
  exact Artifact.write_eq_ok hsame hsave

theorem file_eq_ok_iff {p p' : Progress} {name : String} {output : Text.Bytes} :
    p.file setting w name output = .ok p' ↔
      ∃ path, (setting.save w p.sink name output p.tree).1 = .ok path ∧
        p' = { p with
          tree := (setting.save w p.sink name output p.tree).2
          paths := p.paths ++ [path] } := by
  unfold file
  cases setting.save w p.sink name output p.tree with
  | mk result tree =>
      cases result with
      | error fault => simp
      | ok path => simp [eq_comm]

theorem steady_file (name : String) (output : Text.Bytes) :
    Steady (file setting w name output) := by
  rintro p q p' halike hfile
  obtain ⟨path, hsave, rfl⟩ := file_eq_ok_iff.1 hfile
  have hsave' : (setting.save w q.sink name output q.tree).1 = .ok path := by
    rw [halike.sink]
    exact save_eq_ok_of_sameFolders halike.tree hsave
  have htree : (setting.save w p.sink name output p.tree).2.SameFolders
      (setting.save w q.sink name output q.tree).2 :=
    (sameFolders_save _ _ _ _).symm.trans (halike.tree.trans (sameFolders_save _ _ _ _))
  refine ⟨_, file_eq_ok_iff.2 ⟨path, hsave', rfl⟩, ?_⟩
  exact ⟨halike.sink, halike.issued, htree, congrArg (· ++ [path]) halike.paths⟩

theorem steady_keep (command : Protocol.LogCommand) (output : Text.Bytes) :
    Steady (keep setting w command output) := by
  intro p q p' halike hkeep
  unfold keep at hkeep ⊢
  rw [halike.sink]
  have hclaimed : Alike { p with sink := (p.sink.claim command.fileName command.fallback).2 }
      { q with sink := (p.sink.claim command.fileName command.fallback).2 } :=
    { halike with sink := rfl }
  exact steady_file _ output _ _ p' hclaimed hkeep

theorem steady_ask {line : String} {next : Text.Bytes → Progress → Except CollectFault Progress}
    (hnext : ∀ output, Steady (next output)) : Steady (ask hosts i line next) := by
  intro p q p' halike hask
  unfold ask at hask ⊢
  rw [halike.issued]
  cases hrun : hosts.run i p.issued line with
  | error cause =>
      rw [hrun] at hask
      cases hask
  | ok output =>
      rw [hrun] at hask
      have hissued : Alike { p with issued := p.issued ++ [line] }
          { q with issued := p.issued ++ [line] } :=
        { halike with issued := rfl }
      exact hnext output _ _ p' hissued hask

theorem steady_foldlM {β : Type} {step : Progress → β → Except CollectFault Progress}
    (hstep : ∀ b, Steady fun p => step p b) (bs : List β) : Steady (bs.foldlM step) := by
  intro p q p' halike hfold
  -- `Steady` speaks of a function of one argument, and a fold is one only up to unfolding.
  change bs.foldlM step p = .ok p' at hfold
  change ∃ q', bs.foldlM step q = .ok q' ∧ Alike p' q'
  induction bs generalizing p q with
  | nil =>
      cases hfold
      exact ⟨q, rfl, halike⟩
  | cons b rest ih =>
      rw [List.foldlM_cons] at hfold
      cases hfirst : step p b with
      | error fault =>
          rw [hfirst] at hfold
          cases hfold
      | ok next =>
          rw [hfirst] at hfold
          obtain ⟨next', hfirst', halike'⟩ := hstep b p q next halike hfirst
          replace hfirst' : step q b = .ok next' := hfirst'
          obtain ⟨q', hrest, hlast⟩ := ih next next' halike' hfold
          refine ⟨q', ?_, hlast⟩
          rw [List.foldlM_cons, hfirst']
          exact hrest

theorem steady_collect (command : Protocol.LogCommand) :
    Steady fun p => p.collect hosts setting w i command :=
  steady_ask (steady_keep command)

theorem steady_carryOut (errand : Errand) :
    Steady fun p => p.carryOut hosts setting w i errand := by
  refine steady_ask fun output => ?_
  cases errand with
  | keep command => exact steady_keep command output
  | explore discovery => exact steady_foldlM steady_collect _

theorem complete_eq_ok {p q : Progress} (halike : Alike p q) {errands : List Errand}
    {paths : List Path} (hcomplete : p.complete hosts setting w i errands = .ok paths) :
    q.complete hosts setting w i errands = .ok paths := by
  unfold complete at hcomplete ⊢
  cases hfold : errands.foldlM (carryOut hosts setting w i) p with
  | error fault =>
      rw [hfold] at hcomplete
      cases hcomplete
  | ok p' =>
      rw [hfold] at hcomplete
      cases hcomplete
      obtain ⟨q', hfold', halike'⟩ := steady_foldlM steady_carryOut errands p q p' halike hfold
      replace hfold' : errands.foldlM (carryOut hosts setting w i) q = .ok q' := hfold'
      rw [hfold', ← halike'.paths]
      rfl

/-- Whether errands succeed, and with which paths, is decided by the folders. -/
theorem toOption_complete {p q : Progress} (halike : Alike p q) (errands : List Errand) :
    (p.complete hosts setting w i errands).toOption =
      (q.complete hosts setting w i errands).toOption :=
  toOption_eq_of_ok (fun _ => complete_eq_ok halike) (fun _ => complete_eq_ok halike.symm)

/-!
## Errand after errand
-/

theorem complete_append (p : Progress) (errands later : List Errand) :
    p.complete hosts setting w i (errands ++ later) =
      (errands.foldlM (carryOut hosts setting w i) p).bind fun q =>
        q.complete hosts setting w i later := by
  unfold complete
  rw [List.foldlM_append]
  cases errands.foldlM (carryOut hosts setting w i) p <;> rfl

theorem complete_cons (p : Progress) (errand : Errand) (later : List Errand) :
    p.complete hosts setting w i (errand :: later) =
      (p.carryOut hosts setting w i errand).bind fun q =>
        q.complete hosts setting w i later := by
  unfold complete
  rw [List.foldlM_cons]
  cases p.carryOut hosts setting w i errand <;> rfl

end Progress

/-!
## What a collector will come to
-/

/-- What a collector comes to if it is left alone after it has issued some commands. -/
def prospect (hosts : Hosts) (setting : Setting σ) (w : Nat) (c : Collector)
    (issued : List String) (tree : Tree) : Collected :=
  match c.phase with
  | .entering | .connecting => carryThrough hosts setting w c.subject c.stages c.sink tree
  | .between errand rest paths | .running errand rest paths =>
      Progress.complete hosts setting w c.subject ⟨c.sink, issued, tree, paths⟩ (errand :: rest)
  | .saving name data rest paths =>
      (Progress.file setting w name data ⟨c.sink, issued, tree, paths⟩).bind fun p =>
        p.complete hosts setting w c.subject rest
  | .closing result | .finished result => result

variable {hosts : Hosts} {setting : Setting σ} {w : Nat} {c : Collector} {issued : List String}
  {tree : Tree}

theorem prospect_proceed (todo : List Errand) (paths : List Path) :
    prospect hosts setting w { c with phase := Collector.proceed todo paths } issued tree =
      Progress.complete hosts setting w c.subject ⟨c.sink, issued, tree, paths⟩ todo := by
  cases todo <;> rfl

theorem prospect_passed :
    prospect hosts setting w (c.resume .passed) issued tree =
      prospect hosts setting w c issued tree := by
  obtain ⟨group, i, stages, sink, phase⟩ := c
  cases phase <;> rfl

theorem prospect_connected (hrequest : c.request = .connect) :
    prospect hosts setting w (c.resume (.connected (hosts.connect c.subject))) [] tree =
      prospect hosts setting w c issued tree := by
  obtain ⟨group, i, stages, sink, phase⟩ := c
  cases phase with
  | connecting =>
      change _ = carryThrough hosts setting w i stages sink tree
      cases hconnect : hosts.connect i with
      | error cause =>
          rw [carryThrough, hconnect]
          rfl
      | ok _ =>
          rw [carryThrough, hconnect]
          exact prospect_proceed (c := ⟨group, i, stages, sink, .connecting⟩) _ _
  | _ => cases hrequest

theorem prospect_digest {errand : Errand} {output : Text.Bytes}
    (hrun : hosts.run c.subject issued errand.line = .ok output) (rest : List Errand)
    (paths : List Path) :
    prospect hosts setting w (c.digest errand rest paths output) (issued ++ [errand.line]) tree =
      Progress.complete hosts setting w c.subject ⟨c.sink, issued, tree, paths⟩
        (errand :: rest) := by
  simp only [Progress.complete_cons, Progress.carryOut, Progress.ask, hrun]
  cases errand with
  | keep command => rfl
  | explore discovery =>
      refine (prospect_proceed _ paths).trans ?_
      rw [Progress.complete_append, List.foldlM_map]
      rfl

theorem prospect_output {line : String} (hrequest : c.request = .run line) :
    prospect hosts setting w (c.resume (.output (hosts.run c.subject issued line)))
        (issued ++ [line]) tree =
      prospect hosts setting w c issued tree := by
  obtain ⟨group, i, stages, sink, phase⟩ := c
  cases phase with
  | running errand rest paths =>
      cases hrequest
      cases hrun : hosts.run i issued errand.line with
      | error cause =>
          change _ = Progress.complete hosts setting w i _ (errand :: rest)
          simp only [Progress.complete_cons, Progress.carryOut, Progress.ask, hrun]
          rfl
      | ok output =>
          exact prospect_digest (c := ⟨group, i, stages, sink, .running errand rest paths⟩) hrun
            rest paths
  | _ => cases hrequest

theorem prospect_saved {name : String} {data : Text.Bytes} (hrequest : c.request = .save name data)
    {tree' : Tree} (hsame : tree.SameFolders tree') :
    (prospect hosts setting w
        (c.resume (.saved (setting.save w c.sink name data tree').1)) issued tree).toOption =
      (prospect hosts setting w c issued tree).toOption := by
  obtain ⟨group, i, stages, sink, phase⟩ := c
  cases phase with
  | saving name data rest paths =>
      cases hrequest
      change _ = ((Progress.file setting w name data ⟨sink, issued, tree, paths⟩).bind fun p =>
        p.complete hosts setting w i rest).toOption
      cases hsave : (setting.save w sink name data tree').1 with
      | error fault =>
          cases hfile : Progress.file setting w name data ⟨sink, issued, tree, paths⟩ with
          | error fault' => rfl
          | ok p =>
              obtain ⟨path, hpath, -⟩ := Progress.file_eq_ok_iff.1 hfile
              rw [Progress.save_eq_ok_of_sameFolders hsame hpath] at hsave
              cases hsave
      | ok path =>
          have hfile : Progress.file setting w name data ⟨sink, issued, tree, paths⟩ = .ok
              ⟨sink, issued, (setting.save w sink name data tree).2, paths ++ [path]⟩ :=
            Progress.file_eq_ok_iff.2
              ⟨path, Progress.save_eq_ok_of_sameFolders hsame.symm hsave, rfl⟩
          have halike : Progress.Alike ⟨sink, issued, tree, paths ++ [path]⟩
              ⟨sink, issued, (setting.save w sink name data tree).2, paths ++ [path]⟩ :=
            ⟨rfl, rfl, Progress.sameFolders_save sink name data tree, rfl⟩
          rw [hfile]
          refine Eq.trans ?_ (Progress.toOption_complete halike rest)
          exact congrArg Except.toOption
            (prospect_proceed (c := ⟨group, i, stages, sink, .saving name data rest paths⟩) rest _)
  | _ => cases hrequest

theorem prospect_closed (hrequest : c.request = .close) (others : List String) :
    prospect hosts setting w (c.resume .closed) others tree =
      prospect hosts setting w c issued tree := by
  obtain ⟨group, i, stages, sink, phase⟩ := c
  cases phase with
  | closing result => rfl
  | _ => cases hrequest

end Run
end LogHarvest
