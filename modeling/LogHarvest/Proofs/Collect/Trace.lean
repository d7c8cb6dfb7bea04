import LogHarvest.Proofs.Collect.Filing
import Mathlib.Data.List.Induction

/-!
# What a collector issues

A collector on its own is told one answer after the other.  `Circumstances` fixes all of
them in advance: what the gate says each time, what comes of the connection, what every
command gives, and what becomes of every file.  Commands and files are counted from one; at
the gate the connection counts too, as number zero.

`Circumstances.plan` is what the stages come to when the listings are known.  Whatever the
circumstances are, the collector carries out the plan from its start, and the first thing
that goes wrong ends it (`ends_by_plan`).
-/

namespace LogHarvest

inductive Fate
  | kept
  | notCreated (cause : IoFault)
  | notFilled (cause : IoFault)

namespace Fate

def fault? (id : String) (path : Path) : Fate → Option CollectFault
  | .kept => none
  | .notCreated cause => some (.createFile path id cause)
  | .notFilled cause => some (.writeFile path id cause)

def result (id : String) (path : Path) (fate : Fate) : Except CollectFault Path :=
  match fate.fault? id path with
  | none => .ok path
  | some fault => .error fault

end Fate

/-- All that a collector meets on its way. -/
structure Circumstances where
  /-- The gate before the connection and before each command lets the collector pass. -/
  gate : Nat → Bool
  connect : Except SessionFault Unit
  output : Nat → Except SessionFault Text.Bytes
  /-- The random letters for a file, where its name needs some. -/
  suffix : Nat → String
  fate : Nat → Fate

/-- A collector with the commands that it issued, the first in front. -/
structure Attempt where
  collector : Collector
  issued : List String

def Attempt.tell (a : Attempt) (answer : Response) : Attempt :=
  let c := a.collector.resume answer
  match c.request with
  | .run line => ⟨c, a.issued ++ [line]⟩
  | _ => ⟨c, a.issued⟩

def Attempt.inPhase (c : Collector) (issued : List String) (phase : Phase) : Attempt :=
  ⟨{ c with phase := phase }, issued⟩

def Errand.isKept : Errand → Bool
  | .keep _ => true
  | .explore _ => false

def Artifact.Sink.after (sink : Sink) : Errand → Sink
  | .keep command => (sink.claim command.fileName command.fallback).2
  | .explore _ => sink

namespace Circumstances

variable (k : Circumstances)

/-!
## Courses
-/

def gateAnswer (n : Nat) : Response :=
  if k.gate n then .passed else .calledOff

def pathFor (sink : Artifact.Sink) (name : String) : Path :=
  sink.pathFor (k.suffix sink.claimed.length) name

def fateIn (sink : Artifact.Sink) : Fate :=
  k.fate sink.claimed.length

def answer? (a : Attempt) : Option Response :=
  let sink := a.collector.sink
  match a.collector.phase with
  | .entering => some (k.gateAnswer 0)
  | .connecting => some (.connected k.connect)
  | .between .. => some (k.gateAnswer (a.issued.length + 1))
  | .running .. => some (.output (k.output a.issued.length))
  | .saving name .. => some (.saved ((k.fateIn sink).result sink.id (k.pathFor sink name)))
  | .closing _ => some .closed
  | .finished _ => none

inductive Leads (k : Circumstances) (a : Attempt) : Attempt → Prop
  | here : Leads k a a
  | tell {b : Attempt} {answer : Response} :
      Leads k a b → k.answer? b = some answer → Leads k a (b.tell answer)

/-- The collector comes to its end with a record; no other way is open to it. -/
def Ends (k : Circumstances) (first : Attempt) (issued : List String) (r : Record) : Prop :=
  ∃ last, k.Leads first last ∧ last.issued = issued ∧ last.collector.record? = some r ∧
    ∀ a, k.Leads first a → k.Leads a last

/-!
## Plans
-/

def text (n : Nat) : String :=
  match k.output n with
  | .ok output => Text.decodeLossy output
  | .error _ => ""

def found (n : Nat) (discovery : Protocol.Discovery) : List Errand :=
  (discovery.expand (k.text (n + 1))).map .keep

/--
The stages in order, flattened: a fixed stage gives its commands, a discovery its listing
and then what the listing leads to.
-/
def plan (n : Nat) : List Protocol.Stage → List Errand
  | [] => []
  | .fixed commands :: rest => commands.map .keep ++ plan (n + commands.length) rest
  | .discover discovery :: rest =>
      let found := k.found n discovery
      .explore discovery :: found ++ plan (n + 1 + found.length) rest

def path? (sink : Artifact.Sink) : Errand → Option Path
  | .keep command =>
      let (name, sink) := sink.claim command.fileName command.fallback
      some (k.pathFor sink name)
  | .explore _ => none

def paths (sink : Artifact.Sink) : List Errand → List Path
  | [] => []
  | errand :: rest => (k.path? sink errand).toList ++ paths (sink.after errand) rest

/-- What goes wrong with an errand: the gate, the command, or the file of its output. -/
def fault? (id : String) (sink : Artifact.Sink) (n : Nat) (errand : Errand) :
    Option CollectFault :=
  if !k.gate (n + 1) then some (.cancelled id)
  else
    match k.output (n + 1) with
    | .error cause => some (.command errand.line id cause)
    | .ok _ => (k.path? sink errand).bind fun path => (k.fateIn (sink.after errand)).fault? id path

def faultAfter (id : String) (sink : Artifact.Sink) (done : List Errand) (errand : Errand) :
    Option CollectFault :=
  k.fault? id (done.foldl Artifact.Sink.after sink) done.length errand

def Smooth (id : String) (sink : Artifact.Sink) (errands : List Errand) : Prop :=
  ∀ done errand rest, errands = done ++ errand :: rest → k.faultAfter id sink done errand = none

/-!
## One way only
-/

variable {k : Circumstances} {a b c : Attempt}

theorem gateAnswer_of_true {n : Nat} (hgate : k.gate n = true) : k.gateAnswer n = .passed := by
  rw [gateAnswer, hgate, if_pos rfl]

theorem gateAnswer_of_false {n : Nat} (hgate : k.gate n = false) :
    k.gateAnswer n = .calledOff := by
  rw [gateAnswer, hgate, if_neg Bool.false_ne_true]

theorem Leads.trans (hfirst : k.Leads a b) (hsecond : k.Leads b c) : k.Leads a c := by
  induction hsecond with
  | here => exact hfirst
  | tell _ hanswer ih => exact ih.tell hanswer

theorem leads_of_answer? {answer : Response} (hanswer : k.answer? a = some answer) :
    k.Leads a (a.tell answer) :=
  Leads.here.tell hanswer

theorem Leads.cases_first (hleads : k.Leads a c) :
    c = a ∨ ∃ answer, k.answer? a = some answer ∧ k.Leads (a.tell answer) c := by
  induction hleads with
  | here => exact Or.inl rfl
  | tell _ hanswer ih =>
      right
      rcases ih with rfl | ⟨first, hfirst, hrest⟩
      · exact ⟨_, hanswer, .here⟩
      · exact ⟨first, hfirst, hrest.tell hanswer⟩

theorem Leads.to_end (hend : k.answer? c = none) (hleads : k.Leads a c) (hpoint : k.Leads a b) :
    k.Leads b c := by
  induction hpoint with
  | here => exact hleads
  | tell _ hanswer ih =>
      rcases ih.cases_first with rfl | ⟨answer, hanswer', hrest⟩
      · rw [hend] at hanswer
        cases hanswer
      · rw [hanswer] at hanswer'
        cases hanswer'
        exact hrest

theorem answer?_of_record? {r : Record} (hrecord : a.collector.record? = some r) :
    k.answer? a = none := by
  unfold answer?
  rw [(Collector.record?_eq_some_iff.1 hrecord).1]

theorem ends_of_leads {r : Record} (hleads : k.Leads a c) (hrecord : c.collector.record? = some r) :
    k.Ends a c.issued r :=
  ⟨c, hleads, rfl, hrecord, fun _ hpoint => hleads.to_end (answer?_of_record? hrecord) hpoint⟩

theorem Leads.ends {issued : List String} {r : Record} (hleads : k.Leads a b)
    (hends : k.Ends b issued r) : k.Ends a issued r := by
  obtain ⟨last, hlast, rfl, hrecord, -⟩ := hends
  exact ends_of_leads (hleads.trans hlast) hrecord

theorem Ends.unique {issued issued' : List String} {r r' : Record} (hends : k.Ends a issued r)
    (hends' : k.Ends a issued' r') : issued = issued' ∧ r = r' := by
  obtain ⟨last, hlast, rfl, hrecord, -⟩ := hends
  obtain ⟨last', hlast', rfl, hrecord', hall'⟩ := hends'
  have hsame : last' = last := by
    rcases (hall' last hlast).cases_first with hsame | ⟨answer, hanswer, -⟩
    · exact hsame
    · rw [answer?_of_record? hrecord] at hanswer
      cases hanswer
  subst hsame
  exact ⟨rfl, Option.some.inj (hrecord.symm.trans hrecord')⟩

/-!
## Plans of errands

A collector does not see its plan: it has errands to do, and a listing adds to them.
-/

def next (k : Circumstances) (n : Nat) (rest : List Errand) : Errand → List Errand
  | .keep _ => rest
  | .explore discovery => k.found n discovery ++ rest

/-- What errands come to when the listings are known. -/
def unfolded (k : Circumstances) (n : Nat) : List Errand → List Errand
  | [] => []
  | .keep command :: rest => .keep command :: unfolded k (n + 1) rest
  | .explore discovery :: rest =>
      let found := k.found n discovery
      .explore discovery :: found ++ unfolded k (n + 1 + found.length) rest

theorem unfolded_keeps_append (commands : List Protocol.LogCommand) (n : Nat)
    (rest : List Errand) :
    k.unfolded n (commands.map .keep ++ rest) =
      commands.map .keep ++ k.unfolded (n + commands.length) rest := by
  induction commands generalizing n with
  | nil => rfl
  | cons command more ih =>
      rw [List.map_cons, List.cons_append, unfolded, ih, List.length_cons, List.cons_append,
        Nat.add_assoc, Nat.add_comm 1]

theorem unfolded_cons (n : Nat) (errand : Errand) (rest : List Errand) :
    k.unfolded n (errand :: rest) = errand :: k.unfolded (n + 1) (k.next n rest errand) := by
  cases errand with
  | keep command => rfl
  | explore discovery =>
      rw [unfolded, next, found, unfolded_keeps_append, List.length_map]
      rfl

theorem unfolded_eq_nil {n : Nat} {errands : List Errand} (hnone : k.unfolded n errands = []) :
    errands = [] := by
  cases errands with
  | nil => rfl
  | cons errand rest =>
      rw [unfolded_cons] at hnone
      cases hnone

theorem unfolded_eq_cons {n : Nat} {todo rest : List Errand} {errand : Errand}
    (hplan : k.unfolded n todo = errand :: rest) :
    ∃ others, todo = errand :: others ∧ k.unfolded (n + 1) (k.next n others errand) = rest := by
  cases todo with
  | nil => cases hplan
  | cons first others =>
      rw [unfolded_cons] at hplan
      obtain ⟨rfl, hrest⟩ := List.cons.inj hplan
      exact ⟨others, rfl, hrest⟩

theorem plan_eq_unfolded (n : Nat) (stages : List Protocol.Stage) :
    k.plan n stages = k.unfolded n (Errand.ofStages stages) := by
  induction stages generalizing n with
  | nil => rfl
  | cons stage rest ih =>
      have hstages : Errand.ofStages (stage :: rest) =
          Errand.ofStage stage ++ Errand.ofStages rest :=
        rfl
      cases stage with
      | fixed commands => rw [plan, ih, hstages, Errand.ofStage, unfolded_keeps_append]
      | discover discovery =>
          rw [plan, ih, hstages, Errand.ofStage, List.singleton_append, unfolded]

/-!
## One errand
-/

theorem fault?_eq_none_iff {id : String} {sink : Artifact.Sink} {n : Nat} {errand : Errand} :
    k.fault? id sink n errand = none ↔
      k.gate (n + 1) = true ∧ ∃ output, k.output (n + 1) = .ok output ∧
        ∀ path, k.path? sink errand = some path →
          (k.fateIn (sink.after errand)).fault? id path = none := by
  unfold fault?
  cases k.gate (n + 1) with
  | false => simp
  | true =>
      cases k.output (n + 1) with
      | error cause => simp
      | ok output => simp

theorem cases_of_fault? {id : String} {sink : Artifact.Sink} {n : Nat} {errand : Errand}
    {fault : CollectFault} (hfault : k.fault? id sink n errand = some fault) :
    (k.gate (n + 1) = false ∧ fault = .cancelled id) ∨
      (k.gate (n + 1) = true ∧ ∃ cause, k.output (n + 1) = .error cause ∧
        fault = .command errand.line id cause) ∨
      (k.gate (n + 1) = true ∧ ∃ output command, k.output (n + 1) = .ok output ∧
        errand = .keep command ∧
        (k.fateIn (sink.after (.keep command))).fault? id (k.pathFor (sink.after (.keep command))
          (sink.claim command.fileName command.fallback).1) = some fault) := by
  unfold fault? at hfault
  cases hgate : k.gate (n + 1) with
  | false =>
      rw [hgate] at hfault
      cases hfault
      exact Or.inl ⟨rfl, rfl⟩
  | true =>
      right
      cases houtput : k.output (n + 1) with
      | error cause =>
          rw [hgate, houtput] at hfault
          cases hfault
          exact Or.inl ⟨rfl, cause, rfl, rfl⟩
      | ok output =>
          rw [hgate, houtput] at hfault
          cases errand with
          | explore discovery => cases hfault
          | keep command => exact Or.inr ⟨rfl, output, command, rfl, rfl, hfault⟩

theorem request_proceed (c : Collector) (todo : List Errand) (paths : List Path) (line : String) :
    ({ c with phase := Collector.proceed todo paths } : Collector).request ≠ .run line := by
  cases todo <;> exact nofun

theorem tell_of_resume {answer : Response} {c : Collector}
    (hresume : a.collector.resume answer = c) (hrequest : ∀ line, c.request ≠ .run line) :
    a.tell answer = ⟨c, a.issued⟩ := by
  unfold Attempt.tell
  dsimp only
  rw [hresume]
  split
  · rename_i line hline
    exact absurd hline (hrequest line)
  · rfl

theorem leads_of_resume {answer : Response} {c : Collector} (hanswer : k.answer? a = some answer)
    (hresume : a.collector.resume answer = c) (hrequest : ∀ line, c.request ≠ .run line) :
    k.Leads a ⟨c, a.issued⟩ := by
  rw [← tell_of_resume hresume hrequest]
  exact leads_of_answer? hanswer

section Errands

variable {c : Collector} {errand : Errand} {rest : List Errand} {earlier : List Path}
  {issued : List String}

theorem leads_running (hgate : k.gate (issued.length + 1) = true) :
    k.Leads (.inPhase c issued (.between errand rest earlier))
      (.inPhase c (issued ++ [errand.line]) (.running errand rest earlier)) := by
  have hanswer : k.answer? (.inPhase c issued (.between errand rest earlier)) = some .passed :=
    congrArg some (gateAnswer_of_true hgate)
  exact leads_of_answer? hanswer

theorem ends_of_closing (result : Collected) :
    k.Ends (.inPhase c issued (.closing result)) issued ⟨c.group, c.subject.id, result⟩ := by
  have hleads : k.Leads (.inPhase c issued (.closing result))
      (.inPhase c issued (.finished result)) := leads_of_resume rfl rfl nofun
  exact ends_of_leads hleads rfl

theorem ends_of_told {phase : Phase} {answer : Response} {fault : CollectFault}
    (hanswer : k.answer? (.inPhase c issued phase) = some answer)
    (htold : ({ c with phase := phase } : Collector).resume answer =
      { c with phase := .closing (.error fault) }) :
    k.Ends (.inPhase c issued phase) issued (.failure c.group c.subject.id fault) := by
  have hleads : k.Leads (.inPhase c issued phase) (.inPhase c issued (.closing (.error fault))) :=
    leads_of_resume hanswer htold nofun
  exact hleads.ends (ends_of_closing _)

theorem ends_of_gate (hgate : k.gate (issued.length + 1) = false) :
    k.Ends (.inPhase c issued (.between errand rest earlier)) issued
      (.failure c.group c.subject.id (.cancelled c.subject.id)) :=
  ends_of_told (congrArg some (gateAnswer_of_false hgate)) rfl

theorem answer?_running {n : Nat} {output : Except SessionFault Text.Bytes}
    (hn : issued.length = n) (houtput : k.output n = output) :
    k.answer? (.inPhase c issued (.running errand rest earlier)) = some (.output output) := by
  rw [← houtput, ← hn]
  rfl

theorem ends_of_output {cause : SessionFault} (houtput : k.output issued.length = .error cause) :
    k.Ends (.inPhase c issued (.running errand rest earlier)) issued
      (.failure c.group c.subject.id (.command errand.line c.subject.id cause)) :=
  ends_of_told (answer?_running rfl houtput) rfl

theorem leads_explored {n : Nat} {discovery : Protocol.Discovery} {output : Text.Bytes}
    (hn : issued.length = n + 1) (houtput : k.output (n + 1) = .ok output) :
    k.Leads (.inPhase c issued (.running (.explore discovery) rest earlier))
      (.inPhase c issued (Collector.proceed (k.next n rest (.explore discovery)) earlier)) := by
  refine leads_of_resume (answer?_running hn houtput) ?_ (request_proceed c _ _)
  rw [next, found, text, houtput]
  rfl

theorem leads_saving {n : Nat} {command : Protocol.LogCommand} {output : Text.Bytes}
    (hn : issued.length = n + 1) (houtput : k.output (n + 1) = .ok output) :
    k.Leads (.inPhase c issued (.running (.keep command) rest earlier))
      (.inPhase { c with sink := c.sink.after (.keep command) } issued
        (.saving (c.sink.claim command.fileName command.fallback).1 output rest earlier)) :=
  leads_of_resume (answer?_running hn houtput) rfl nofun

theorem answer?_saving {name : String} {data : Text.Bytes} (hid : c.sink.id = c.subject.id) :
    k.answer? (.inPhase c issued (.saving name data rest earlier)) =
      some (.saved ((k.fateIn c.sink).result c.subject.id (k.pathFor c.sink name))) := by
  rw [← hid]
  rfl

theorem leads_saved {name : String} {data : Text.Bytes} (hid : c.sink.id = c.subject.id)
    (hkept : (k.fateIn c.sink).fault? c.subject.id (k.pathFor c.sink name) = none) :
    k.Leads (.inPhase c issued (.saving name data rest earlier))
      (.inPhase c issued (Collector.proceed rest (earlier ++ [k.pathFor c.sink name]))) := by
  refine leads_of_resume (answer?_saving hid) ?_ (request_proceed c _ _)
  rw [Fate.result, hkept]
  rfl

theorem ends_of_saving {name : String} {data : Text.Bytes} {fault : CollectFault}
    (hid : c.sink.id = c.subject.id)
    (hlost : (k.fateIn c.sink).fault? c.subject.id (k.pathFor c.sink name) = some fault) :
    k.Ends (.inPhase c issued (.saving name data rest earlier)) issued
      (.failure c.group c.subject.id fault) := by
  refine ends_of_told (answer?_saving hid) ?_
  rw [Fate.result, hlost]
  rfl

theorem id_after (sink : Artifact.Sink) (errand : Errand) : (sink.after errand).id = sink.id := by
  cases errand <;> rfl

theorem leads_of_fault?_none (hid : c.sink.id = c.subject.id)
    (hfault : k.fault? c.subject.id c.sink issued.length errand = none) :
    k.Leads (.inPhase c issued (.between errand rest earlier))
      (.inPhase { c with sink := c.sink.after errand } (issued ++ [errand.line])
        (Collector.proceed (k.next issued.length rest errand)
          (earlier ++ (k.path? c.sink errand).toList))) := by
  have hlength : (issued ++ [errand.line]).length = issued.length + 1 := List.length_append
  obtain ⟨hgate, output, houtput, hkept⟩ := fault?_eq_none_iff.1 hfault
  refine (leads_running hgate).trans ?_
  cases errand with
  | explore discovery =>
      rw [path?, Option.toList_none, List.append_nil]
      exact leads_explored hlength houtput
  | keep command => exact (leads_saving hlength houtput).trans (leads_saved hid (hkept _ rfl))

theorem ends_of_fault? (hid : c.sink.id = c.subject.id) {fault : CollectFault}
    (hfault : k.fault? c.subject.id c.sink issued.length errand = some fault) :
    k.Ends (.inPhase c issued (.between errand rest earlier))
      (issued ++ if k.gate (issued.length + 1) then [errand.line] else [])
      (.failure c.group c.subject.id fault) := by
  have hlength : (issued ++ [errand.line]).length = issued.length + 1 := List.length_append
  rcases cases_of_fault? hfault with ⟨hgate, rfl⟩ | ⟨hgate, cause, houtput, rfl⟩ |
    ⟨hgate, output, command, houtput, rfl, hlost⟩
  · rw [hgate, if_neg Bool.false_ne_true, List.append_nil]
    exact ends_of_gate hgate
  · rw [hgate, if_pos rfl]
    rw [← hlength] at houtput
    exact (leads_running hgate).ends (ends_of_output houtput)
  · rw [hgate, if_pos rfl]
    exact (leads_running hgate).ends
      ((leads_saving hlength houtput).ends (ends_of_saving hid hlost))

end Errands

/-!
## Errands one after the other
-/

theorem smooth_nil (id : String) (sink : Artifact.Sink) : k.Smooth id sink [] := by
  intro done errand rest hnone
  cases done <;> cases hnone

theorem smooth_concat {id : String} {sink : Artifact.Sink} {done : List Errand} {errand : Errand} :
    k.Smooth id sink (done ++ [errand]) ↔
      k.Smooth id sink done ∧ k.faultAfter id sink done errand = none := by
  constructor
  · intro hsmooth
    refine ⟨?_, hsmooth done errand [] rfl⟩
    rintro front first back rfl
    exact hsmooth front first (back ++ [errand]) (by rw [List.append_assoc, List.cons_append])
  · rintro ⟨hsmooth, hlast⟩ front first back hparts
    rcases List.eq_nil_or_concat back with rfl | ⟨back, last, rfl⟩
    · obtain ⟨rfl, hsame⟩ := List.append_inj' hparts rfl
      cases hsame
      exact hlast
    · rw [List.concat_eq_append, ← List.cons_append, ← List.append_assoc] at hparts
      obtain ⟨rfl, -⟩ := List.append_inj' hparts rfl
      exact hsmooth front first back rfl

theorem smooth_or_fault (id : String) (sink : Artifact.Sink) (errands : List Errand) :
    k.Smooth id sink errands ∨
      ∃ done errand rest fault, errands = done ++ errand :: rest ∧ k.Smooth id sink done ∧
        k.faultAfter id sink done errand = some fault := by
  induction errands using List.reverseRecOn with
  | nil => exact Or.inl (smooth_nil id sink)
  | append_singleton done errand ih =>
      rcases ih with hsmooth | ⟨front, first, back, fault, rfl, hfront, hfault⟩
      · cases hfault : k.faultAfter id sink done errand with
        | none => exact Or.inl (smooth_concat.2 ⟨hsmooth, hfault⟩)
        | some fault => exact Or.inr ⟨done, errand, [], fault, rfl, hsmooth, hfault⟩
      · refine Or.inr ⟨front, first, back ++ [errand], fault, ?_, hfront, hfault⟩
        rw [List.append_assoc, List.cons_append]

theorem paths_concat (sink : Artifact.Sink) (done : List Errand) (errand : Errand) :
    k.paths sink (done ++ [errand]) =
      k.paths sink done ++ (k.path? (done.foldl Artifact.Sink.after sink) errand).toList := by
  induction done generalizing sink with
  | nil => exact List.append_nil _
  | cons first rest ih =>
      rw [List.cons_append, paths, paths, ih, List.foldl_cons, List.append_assoc]

theorem length_paths (sink : Artifact.Sink) (errands : List Errand) :
    (k.paths sink errands).length = errands.countP Errand.isKept := by
  induction errands generalizing sink with
  | nil => rfl
  | cons errand rest ih =>
      rw [paths, List.length_append, ih, List.countP_cons, Nat.add_comm]
      cases errand <;> rfl

theorem id_foldl_after (sink : Artifact.Sink) (errands : List Errand) :
    (errands.foldl Artifact.Sink.after sink).id = sink.id := by
  induction errands generalizing sink with
  | nil => rfl
  | cons errand rest ih => rw [List.foldl_cons, ih, id_after]

variable {c : Collector} {done : List Errand}

def reached (k : Circumstances) (c : Collector) (done todo : List Errand) : Attempt :=
  .inPhase { c with sink := done.foldl Artifact.Sink.after c.sink } (done.map Errand.line)
    (Collector.proceed todo (k.paths c.sink done))

theorem leads_of_faultAfter_none (hid : c.sink.id = c.subject.id) {errand : Errand}
    {rest : List Errand} (hfault : k.faultAfter c.subject.id c.sink done errand = none) :
    k.Leads (k.reached c done (errand :: rest))
      (k.reached c (done ++ [errand]) (k.next done.length rest errand)) := by
  have hlength : (done.map Errand.line).length = done.length := List.length_map _
  rw [faultAfter, ← hlength] at hfault
  rw [reached, reached, List.foldl_append, List.map_append, paths_concat, ← hlength]
  exact leads_of_fault?_none ((id_foldl_after _ _).trans hid) hfault

theorem ends_of_faultAfter (hid : c.sink.id = c.subject.id) {errand : Errand}
    {rest : List Errand} {fault : CollectFault}
    (hfault : k.faultAfter c.subject.id c.sink done errand = some fault) :
    k.Ends (k.reached c done (errand :: rest))
      (done.map Errand.line ++ if k.gate (done.length + 1) then [errand.line] else [])
      (.failure c.group c.subject.id fault) := by
  have hlength : (done.map Errand.line).length = done.length := List.length_map _
  rw [faultAfter, ← hlength] at hfault
  rw [reached, ← hlength]
  exact ends_of_fault? ((id_foldl_after _ _).trans hid) hfault

theorem leads_of_smooth (hid : c.sink.id = c.subject.id) {todo rest : List Errand}
    (hplan : k.unfolded 0 todo = done ++ rest) (hsmooth : k.Smooth c.subject.id c.sink done) :
    ∃ todo', k.unfolded done.length todo' = rest ∧
      k.Leads (k.reached c [] todo) (k.reached c done todo') := by
  induction done using List.reverseRecOn generalizing rest with
  | nil => exact ⟨todo, hplan, .here⟩
  | append_singleton done errand ih =>
      obtain ⟨hdone, hfault⟩ := smooth_concat.1 hsmooth
      rw [List.append_assoc, List.singleton_append] at hplan
      obtain ⟨todo', htodo', hleads⟩ := ih hplan hdone
      obtain ⟨others, rfl, hrest⟩ := unfolded_eq_cons htodo'
      rw [List.length_append, List.length_singleton]
      exact ⟨_, hrest, hleads.trans (leads_of_faultAfter_none hid hfault)⟩

theorem ends_of_smooth (hid : c.sink.id = c.subject.id) {todo : List Errand}
    (hsmooth : k.Smooth c.subject.id c.sink (k.unfolded 0 todo)) :
    k.Ends (k.reached c [] todo) ((k.unfolded 0 todo).map Errand.line)
      (.success c.group c.subject.id (k.paths c.sink (k.unfolded 0 todo))) := by
  obtain ⟨todo', hnone, hleads⟩ := leads_of_smooth hid (List.append_nil _).symm hsmooth
  rw [unfolded_eq_nil hnone] at hleads
  exact hleads.ends (ends_of_closing _)

theorem ends_of_first_fault (hid : c.sink.id = c.subject.id) {todo rest : List Errand}
    {errand : Errand} {fault : CollectFault} (hplan : k.unfolded 0 todo = done ++ errand :: rest)
    (hsmooth : k.Smooth c.subject.id c.sink done)
    (hfault : k.faultAfter c.subject.id c.sink done errand = some fault) :
    k.Ends (k.reached c [] todo)
      (done.map Errand.line ++ if k.gate (done.length + 1) then [errand.line] else [])
      (.failure c.group c.subject.id fault) := by
  obtain ⟨todo', htodo', hleads⟩ := leads_of_smooth hid hplan hsmooth
  obtain ⟨others, rfl, -⟩ := unfolded_eq_cons htodo'
  exact hleads.ends (ends_of_faultAfter hid hfault)

/-!
## Collectors that have not begun
-/

variable {group : String} {i : Instance} {stages : List Protocol.Stage} {folder : Path}

theorem ends_of_no_entry (hgate : k.gate 0 = false) :
    k.Ends ⟨.new group i stages folder, []⟩ [] (.failure group i.id (.cancelled i.id)) := by
  have hanswer : k.answer? ⟨.new group i stages folder, []⟩ = some .calledOff :=
    congrArg some (gateAnswer_of_false hgate)
  exact ends_of_leads (leads_of_resume hanswer rfl nofun) rfl

theorem leads_connecting (hgate : k.gate 0 = true) :
    k.Leads ⟨.new group i stages folder, []⟩
      (.inPhase (.new group i stages folder) [] .connecting) := by
  have hanswer : k.answer? ⟨.new group i stages folder, []⟩ = some .passed :=
    congrArg some (gateAnswer_of_true hgate)
  exact leads_of_resume hanswer rfl nofun

theorem ends_of_no_connection (hgate : k.gate 0 = true) {cause : SessionFault}
    (hconnect : k.connect = .error cause) :
    k.Ends ⟨.new group i stages folder, []⟩ [] (.failure group i.id (.connect i.id cause)) := by
  refine (leads_connecting hgate).ends ?_
  have hanswer : k.answer? (.inPhase (.new group i stages folder) [] .connecting) =
      some (.connected (.error cause)) := by
    rw [← hconnect]
    rfl
  exact ends_of_leads (leads_of_resume hanswer rfl nofun) rfl

theorem leads_errands (hgate : k.gate 0 = true) (hconnect : k.connect = .ok ()) :
    k.Leads ⟨.new group i stages folder, []⟩
      (.inPhase (.new group i stages folder) []
        (Collector.proceed (Errand.ofStages stages) [])) := by
  refine (leads_connecting hgate).trans ?_
  have hanswer : k.answer? (.inPhase (.new group i stages folder) [] .connecting) =
      some (.connected (.ok ())) := by
    rw [← hconnect]
    rfl
  exact leads_of_resume hanswer rfl (request_proceed _ _ _)

theorem ends_by_smooth (hgate : k.gate 0 = true) (hconnect : k.connect = .ok ())
    (hsmooth : k.Smooth i.id (.new folder i) (k.plan 0 stages)) :
    k.Ends ⟨.new group i stages folder, []⟩ ((k.plan 0 stages).map Errand.line)
      (.success group i.id (k.paths (.new folder i) (k.plan 0 stages))) := by
  rw [plan_eq_unfolded] at hsmooth ⊢
  exact (leads_errands hgate hconnect).ends
    (ends_of_smooth (c := .new group i stages folder) rfl hsmooth)

theorem ends_by_fault (hgate : k.gate 0 = true) (hconnect : k.connect = .ok ())
    {errand : Errand} {rest : List Errand} {fault : CollectFault}
    (hplan : k.plan 0 stages = done ++ errand :: rest)
    (hsmooth : k.Smooth i.id (.new folder i) done)
    (hfault : k.faultAfter i.id (.new folder i) done errand = some fault) :
    k.Ends ⟨.new group i stages folder, []⟩
      (done.map Errand.line ++ if k.gate (done.length + 1) then [errand.line] else [])
      (.failure group i.id fault) := by
  rw [plan_eq_unfolded] at hplan
  exact (leads_errands hgate hconnect).ends
    (ends_of_first_fault (c := .new group i stages folder) rfl hplan hsmooth hfault)

theorem isOk_iff {issued : List String} {r : Record}
    (hends : k.Ends ⟨.new group i stages folder, []⟩ issued r) :
    r.isOk = true ↔ k.gate 0 = true ∧ k.connect = .ok () ∧
      k.Smooth i.id (.new folder i) (k.plan 0 stages) := by
  cases hgate : k.gate 0 with
  | false =>
      rw [(hends.unique (ends_of_no_entry hgate)).2]
      exact ⟨nofun, nofun⟩
  | true =>
      cases hconnect : k.connect with
      | error cause =>
          rw [(hends.unique (ends_of_no_connection hgate hconnect)).2]
          exact ⟨nofun, nofun⟩
      | ok _ =>
          rcases smooth_or_fault (k := k) i.id (.new folder i) (k.plan 0 stages) with
            hsmooth | ⟨done, errand, rest, fault, hplan, hsmooth, hfault⟩
          · rw [(hends.unique (ends_by_smooth hgate hconnect hsmooth)).2]
            exact ⟨fun _ => ⟨rfl, rfl, hsmooth⟩, fun _ => rfl⟩
          · rw [(hends.unique (ends_by_fault hgate hconnect hplan hsmooth hfault)).2]
            refine ⟨nofun, fun hall => ?_⟩
            rw [hall.2.2 done errand rest hplan] at hfault
            cases hfault

/--
Whatever a collector meets, it comes to one end.  If the gate or the connection fails at
once, it issues nothing.  Otherwise it issues the stages in order, flattened by what its
listings give, up to and with the first command that fails or whose output cannot be kept,
or up to the first one that the gate stops; that failure is what it hands in.  It succeeds
exactly if nothing at all goes wrong, and then has one path for each kept output, in order.
-/
theorem ends_by_plan (k : Circumstances) (group : String) (i : Instance)
    (stages : List Protocol.Stage) (folder : Path) :
    let first : Attempt := ⟨.new group i stages folder, []⟩
    let sink := Artifact.Sink.new folder i
    let plan := k.plan 0 stages
    (k.gate 0 = false → k.Ends first [] (.failure group i.id (.cancelled i.id))) ∧
    (k.gate 0 = true → ∀ cause, k.connect = .error cause →
      k.Ends first [] (.failure group i.id (.connect i.id cause))) ∧
    (k.gate 0 = true → k.connect = .ok () →
      (k.Smooth i.id sink plan →
        k.Ends first (plan.map Errand.line) (.success group i.id (k.paths sink plan))) ∧
      (∀ done errand rest fault, plan = done ++ errand :: rest → k.Smooth i.id sink done →
        k.faultAfter i.id sink done errand = some fault →
        k.Ends first
          (done.map Errand.line ++ if k.gate (done.length + 1) then [errand.line] else [])
          (.failure group i.id fault)) ∧
      (k.Smooth i.id sink plan ∨ ∃ done errand rest fault, plan = done ++ errand :: rest ∧
        k.Smooth i.id sink done ∧ k.faultAfter i.id sink done errand = some fault)) ∧
    (∀ issued r, k.Ends first issued r →
      (r.isOk = true ↔ k.gate 0 = true ∧ k.connect = .ok () ∧ k.Smooth i.id sink plan)) ∧
    (k.paths sink plan).length = plan.countP Errand.isKept := by
  refine ⟨ends_of_no_entry, fun hgate _ => ends_of_no_connection hgate, ?_,
    fun _ _ => isOk_iff, length_paths _ _⟩
  intro hgate hconnect
  exact ⟨ends_by_smooth hgate hconnect, fun _ _ _ _ => ends_by_fault hgate hconnect,
    smooth_or_fault _ _ _⟩

def unreadable : Circumstances where
  gate _ := true
  connect := .ok ()
  output n := if n = 1 then .ok (Text.encode "/var/log/a\n/var/log/b\n") else .error .closed
  suffix _ := ""
  fate _ := .kept

theorem ends_by_plan_unreadable :
    unreadable.Ends ⟨.new "g" ⟨"i-1", "", ""⟩ [.discover .varLogFiles] "/run", []⟩
      ["sudo find /var/log ! -type d", "sudo cat /var/log/a"]
      (.failure "g" "i-1" (.command "sudo cat /var/log/a" "i-1" .closed)) := by
  obtain ⟨-, -, hplan, -⟩ :=
    ends_by_plan unreadable "g" ⟨"i-1", "", ""⟩ [.discover .varLogFiles] "/run"
  obtain ⟨-, hfault, -⟩ := hplan rfl rfl
  refine hfault [.explore .varLogFiles] (.keep (Protocol.readCommand "/var/log/a"))
    [.keep (Protocol.readCommand "/var/log/b")] _ ?_ ?_ ?_
  · decide +kernel
  · exact smooth_concat.2 ⟨smooth_nil _ _, rfl⟩
  · decide +kernel

end Circumstances
end LogHarvest
