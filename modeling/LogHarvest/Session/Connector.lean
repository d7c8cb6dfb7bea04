import LogHarvest.Fleet.Instance
import LogHarvest.Session.Fault
import LogHarvest.Tree.Basic

/-!
# Connectors

A connector opens sessions to instances and runs commands on them.  It has a
state of its own, and it may touch files.  A call is answered at once, or later,
or never.
-/

namespace LogHarvest

/-- What a connector's calls act on: its own state and the files. -/
structure Surroundings (σ : Type) where
  state : σ
  tree : Tree

inductive Verdict (α : Type)
  | now (result : Except SessionFault α)
  /-- Not yet; the call had no effect, and has to be made again. -/
  | later
  /-- The call was made and is never answered. -/
  | never

structure Reply (σ α : Type) where
  verdict : Verdict α
  callsOff : Bool
  after : Surroundings σ

namespace Reply

variable {σ α : Type}

def ok (value : α) (after : Surroundings σ) : Reply σ α :=
  ⟨.now (.ok value), false, after⟩

def fail (fault : SessionFault) (after : Surroundings σ) : Reply σ α :=
  ⟨.now (.error fault), false, after⟩

def later (after : Surroundings σ) : Reply σ α :=
  ⟨.later, false, after⟩

end Reply

/--
How sessions are opened, used and closed.  Every session has a number of its own,
which tells two sessions to the same instance apart.
-/
structure Connector (σ : Type) where
  connect : (session : Nat) → Instance → Surroundings σ → Reply σ Unit
  /-- Runs a command; the flag asks for a detailed report of it. -/
  run : (session : Nat) → Instance → (line : String) → (verbose : Bool) → Surroundings σ →
    Reply σ Text.Bytes
  close : (session : Nat) → Instance → Surroundings σ → Surroundings σ

end LogHarvest
