import LogHarvest.Protocol.Command
import LogHarvest.Session.Connector
import LogHarvest.Text.Blank

/-!
# Rehearsed sessions

A fleet can be tried out without hosts: a rehearsal answers commands from a
script, fails where the script says so, and keeps account of what was asked.  A
command without a line in the script is answered with a canned output.
-/

namespace LogHarvest

/-- A text that a command on an instance may contain. -/
structure Cue where
  id : String
  pattern : String
deriving DecidableEq, Repr

def Cue.fits (cue : Cue) (i : Instance) (line : String) : Bool :=
  cue.id == i.id && Text.occursIn cue.pattern.toList line.toList

structure Script where
  /-- Outputs by command, the latest first. -/
  outputs : List (String × Text.Bytes)
  /-- Outputs by instance and command, the latest first. -/
  ownOutputs : List ((String × String) × Text.Bytes)
  refusing : List String
  /-- Commands that fail on the instance, by instance, the latest first. -/
  failing : List (String × String)
  /-- Instances whose commands are never answered. -/
  hanging : List String
  connectFaults : List (String × SessionFault)
  commandFaults : List (Cue × SessionFault)
  callOffAfter : List Cue
  /-- An instance whose connection waits for so many closed sessions and calls off the run. -/
  callOffOnConnect : Option (String × Nat)

def cannedUnits : String :=
  "kubelet.service                loaded    active   running Kubernetes Kubelet\n" ++
  "containerd.service             loaded    active   running containerd container runtime\n" ++
  "auth-rpcgss-module.service     loaded    inactive dead    " ++
    "Kernel Module supporting RPCSEC_GSS\n" ++
  "● display-manager.service      not-found inactive dead    display-manager.service\n"

def cannedFiles : String := "/var/log/messages\n/var/log/cloud-init.log\n"

def cannedOutput : String := "canned output\n"

def Script.canned : Script where
  outputs :=
    [(Protocol.listUnits, Text.encode cannedUnits),
     (Protocol.listLogFiles, Text.encode cannedFiles)]
  ownOutputs := []
  refusing := []
  failing := []
  hanging := []
  connectFaults := []
  commandFaults := []
  callOffAfter := []
  callOffOnConnect := none

structure Account where
  connects : Nat
  closes : Nat
  /-- Instance and command of each command, the latest first. -/
  issued : List (String × String)
deriving DecidableEq, Repr

namespace Account

def zero : Account := ⟨0, 0, []⟩

def issuedFor (a : Account) (id : String) : List String :=
  (a.issued.reverse.filter fun entry => entry.1 == id).map Prod.snd

end Account

namespace Script

def outputOf (s : Script) (i : Instance) (line : String) : Text.Bytes :=
  let own := s.ownOutputs.lookup (i.id, line)
  (own.orElse fun _ => s.outputs.lookup line).getD (Text.encode cannedOutput)

def connect (s : Script) (i : Instance) (w : Surroundings Account) : Reply Account Unit :=
  let attempt : Reply Account Unit :=
    match s.connectFaults.lookup i.id with
    | some fault => .fail fault w
    | none =>
        if s.refusing.contains i.id then .fail (.connect i.target "connection refused") w
        else .ok () { w with state := { w.state with connects := w.state.connects + 1 } }
  match s.callOffOnConnect with
  | some (id, closes) =>
      if id == i.id then
        if w.state.closes < closes then .later w
        else ⟨.now (.error .closed), true, w⟩
      else attempt
  | none => attempt

def result (s : Script) (i : Instance) (line : String) : Except SessionFault Text.Bytes :=
  match s.commandFaults.find? fun entry => entry.1.fits i line with
  | some (_, fault) => .error fault
  | none =>
      let fails :=
        match s.failing.lookup i.id with
        | some pattern => Text.occursIn pattern.toList line.toList
        | none => false
      if fails then .error (.command line (some 1) "permission denied")
      else .ok (s.outputOf i line)

def run (s : Script) (i : Instance) (line : String) (w : Surroundings Account) :
    Reply Account Text.Bytes :=
  let noted := { w with state := { w.state with issued := (i.id, line) :: w.state.issued } }
  if s.hanging.contains i.id then ⟨.never, false, noted⟩
  else ⟨.now (s.result i line), s.callOffAfter.any fun cue => cue.fits i line, noted⟩

def close (w : Surroundings Account) : Surroundings Account :=
  { w with state := { w.state with closes := w.state.closes + 1 } }

def connector (s : Script) : Connector Account where
  connect _ := s.connect
  run _ i line _ := s.run i line
  close _ _ := close

end Script
end LogHarvest
