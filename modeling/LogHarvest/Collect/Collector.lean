import LogHarvest.Artifact.Sink
import LogHarvest.Collect.Record
import LogHarvest.Protocol.Listing

/-!
# Collectors

A collector carries out the protocol on one instance.  It does nothing by itself:
it says what it wants next (`request`) and goes on when it gets an answer
(`resume`).  Whoever drives it decides when an answer comes and what it is, so
one definition serves a run of many collectors in any order as well as a
collector on its own.

Before the connection and before every command it asks to pass the rate gate.
A failure ends its work; whatever happened, a session that was opened is closed.
-/

namespace LogHarvest

/-- A command that a collector still has to carry out. -/
inductive Errand
  /-- Run a command and keep its output. -/
  | keep (command : Protocol.LogCommand)
  /-- Run a listing and carry out the commands that it leads to. -/
  | explore (discovery : Protocol.Discovery)
deriving DecidableEq, Repr

namespace Errand

def line : Errand → String
  | .keep command => command.command
  | .explore discovery => discovery.command

def ofStage : Protocol.Stage → List Errand
  | .fixed commands => commands.map keep
  | .discover discovery => [explore discovery]

def ofStages (stages : List Protocol.Stage) : List Errand :=
  stages.flatMap ofStage

end Errand

abbrev Collected := Except CollectFault (List Path)

inductive Phase
  /-- Before the rate gate, with no session. -/
  | entering
  | connecting
  /-- Before the rate gate, with a session and an errand. -/
  | between (errand : Errand) (rest : List Errand) (paths : List Path)
  | running (errand : Errand) (rest : List Errand) (paths : List Path)
  /-- An output is to be kept under a name. -/
  | saving (name : String) (data : Text.Bytes) (rest : List Errand) (paths : List Path)
  | closing (result : Collected)
  | finished (result : Collected)

structure Collector where
  group : String
  subject : Instance
  stages : List Protocol.Stage
  sink : Artifact.Sink
  phase : Phase

inductive Request
  | gate
  | connect
  | run (line : String)
  | save (name : String) (data : Text.Bytes)
  | close
  | nothing
deriving DecidableEq, Repr

inductive Response
  | passed
  /-- The run was called off while the collector waited at the gate. -/
  | calledOff
  | connected (result : Except SessionFault Unit)
  | output (result : Except SessionFault Text.Bytes)
  | saved (result : Except CollectFault Path)
  | closed

namespace Collector

def new (group : String) (i : Instance) (stages : List Protocol.Stage) (folder : Path) :
    Collector :=
  ⟨group, i, stages, .new folder i, .entering⟩

def request (c : Collector) : Request :=
  match c.phase with
  | .entering | .between .. => .gate
  | .connecting => .connect
  | .running errand _ _ => .run errand.line
  | .saving name data _ _ => .save name data
  | .closing _ => .close
  | .finished _ => .nothing

/-- Goes on with the errands that are left, or closes the session if there are none. -/
def proceed (todo : List Errand) (paths : List Path) : Phase :=
  match todo with
  | [] => .closing (.ok paths)
  | errand :: rest => .between errand rest paths

def digest (c : Collector) (errand : Errand) (rest : List Errand) (paths : List Path)
    (output : Text.Bytes) : Collector :=
  match errand with
  | .keep command =>
      let (name, sink) := c.sink.claim command.fileName command.fallback
      { c with sink := sink, phase := .saving name output rest paths }
  | .explore discovery =>
      let found := (discovery.expand (Text.decodeLossy output)).map Errand.keep
      { c with phase := proceed (found ++ rest) paths }

def resume (c : Collector) (response : Response) : Collector :=
  match c.phase, response with
  | .entering, .passed => { c with phase := .connecting }
  | .entering, .calledOff =>
      { c with phase := .finished (.error (.cancelled c.subject.id)) }
  | .connecting, .connected (.ok ()) =>
      { c with phase := proceed (Errand.ofStages c.stages) [] }
  | .connecting, .connected (.error cause) =>
      { c with phase := .finished (.error (.connect c.subject.id cause)) }
  | .between errand rest paths, .passed => { c with phase := .running errand rest paths }
  | .between .., .calledOff =>
      { c with phase := .closing (.error (.cancelled c.subject.id)) }
  | .running errand rest paths, .output (.ok output) => c.digest errand rest paths output
  | .running errand _ _, .output (.error cause) =>
      { c with phase := .closing (.error (.command errand.line c.subject.id cause)) }
  | .saving _ _ rest paths, .saved (.ok path) =>
      { c with phase := proceed rest (paths ++ [path]) }
  | .saving .., .saved (.error fault) => { c with phase := .closing (.error fault) }
  | .closing result, .closed => { c with phase := .finished result }
  | _, _ => c

def record? (c : Collector) : Option Record :=
  match c.phase with
  | .finished result => some ⟨c.group, c.subject.id, result⟩
  | _ => none

end Collector
end LogHarvest
