import LogHarvest.Fleet.Config
import LogHarvest.Session.Program

/-!
# Sessions over ssh

Every command on an instance is one run of the `ssh` program.  To connect is only
to probe: a command that does nothing is run until it succeeds once or has failed
as often as the settings allow, with a pause between two attempts.
-/

namespace LogHarvest
namespace Ssh

def probeLine : String := "true"

def pause : Nat := 2000

def noAddress : String := "instance has neither public IP nor public DNS name"

def arguments (r : RemoteAccess) (target line : String) : List String :=
  ["-o", "BatchMode=yes", "-o", "StrictHostKeyChecking=no", "-o", "UserKnownHostsFile=/dev/null",
    "-o", "LogLevel=ERROR", "-o", "ConnectTimeout=" ++ toString r.connectTimeout.toNat,
    "-p", toString r.port.toNat] ++
  (if r.keyPath.isEmpty then [] else ["-i", r.keyPath]) ++
  [r.user ++ "@" ++ target, line]

inductive Deed
  /-- The program was launched for a command, or was to be. -/
  | tried (line : String) (millis : Nat)
  | paused
deriving DecidableEq, Repr

def Deed.millis : Deed → Nat
  | .tried _ millis => millis
  | .paused => pause

structure Trial (σ α : Type) where
  result : Except SessionFault α
  deeds : List Deed
  after : Surroundings σ

def Trial.millis {σ α : Type} (t : Trial σ α) : Nat :=
  t.deeds.foldr (fun deed n => deed.millis + n) 0

/-- What a finished program says about the command that it was run for. -/
def resultOf (line : String) (secs : Nat) (ran : Ran) : Except SessionFault Text.Bytes :=
  let failure (code : Option Int) : Except SessionFault Text.Bytes :=
    .error (.command line code (Text.trim (Text.decodeLossy ran.err)))
  match ran.ending with
  | .exited 0 => .ok ran.out
  | .exited status => failure (some status)
  | .signalled => failure none
  | .unfinished => .error (.timeout line secs)

variable {σ : Type}

def exec (launch : Launcher σ) (r : RemoteAccess) (target line : String) (secs : Nat)
    (w : Surroundings σ) : Trial σ Text.Bytes :=
  match launch r.program (arguments r target line) (secs * 1000) w with
  | (.error cause, w) => ⟨.error (.io cause), [.tried line 0], w⟩
  | (.ok ran, w) => ⟨resultOf line secs ran, [.tried line ran.millis], w⟩

/-- Probes a target, and up to `more` times again after a failure and a pause. -/
def probe (launch : Launcher σ) (r : RemoteAccess) (target : String) :
    (more : Nat) → Surroundings σ → Trial σ Unit
  | 0, w =>
      let trial := exec launch r target probeLine r.connectTimeout.toNat w
      match trial.result with
      | .ok _ => ⟨.ok (), trial.deeds, trial.after⟩
      | .error fault => ⟨.error (.connect target fault.message), trial.deeds, trial.after⟩
  | more + 1, w =>
      let trial := exec launch r target probeLine r.connectTimeout.toNat w
      match trial.result with
      | .ok _ => ⟨.ok (), trial.deeds, trial.after⟩
      | .error _ =>
          let next := probe launch r target more trial.after
          ⟨next.result, trial.deeds ++ .paused :: next.deeds, next.after⟩

structure Session where
  target : String
  isOpen : Bool
deriving DecidableEq, Repr

def connect (launch : Launcher σ) (r : RemoteAccess) (i : Instance) (w : Surroundings σ) :
    Trial σ Session :=
  if i.target.isEmpty then ⟨.error (.connect i.id noAddress), [], w⟩
  else
    let trial := probe launch r i.target (r.connectRetries.toNat - 1) w
    ⟨trial.result.map fun _ => ⟨i.target, true⟩, trial.deeds, trial.after⟩

namespace Session

def run (launch : Launcher σ) (r : RemoteAccess) (s : Session) (line : String)
    (w : Surroundings σ) : Trial σ Text.Bytes :=
  if s.isOpen then exec launch r s.target line r.commandTimeout.toNat w
  else ⟨.error .closed, [], w⟩

def close (s : Session) : Session :=
  { s with isOpen := false }

end Session

def connector (launch : Launcher σ) (r : RemoteAccess) : Connector σ where
  connect _ i w :=
    let trial := connect launch r i w
    ⟨.now (trial.result.map fun _ => ()), false, trial.after⟩
  run _ i line _ w :=
    let trial := Session.run launch r ⟨i.target, true⟩ line w
    ⟨.now trial.result, false, trial.after⟩
  close _ _ w := w

end Ssh
end LogHarvest
