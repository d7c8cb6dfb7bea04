import LogHarvest.Session.Connector

/-!
# Programs

Sessions are opened by a program of the machine that runs are started on.  This
module says what comes of a program that is launched: what it wrote, how it ended,
and how long that took.
-/

namespace LogHarvest

inductive Ending
  | exited (status : Nat)
  /-- A signal ended it. -/
  | signalled
  /-- It was still running when its time was up. -/
  | unfinished
deriving DecidableEq, Repr

structure Ran where
  out : Text.Bytes
  err : Text.Bytes
  ending : Ending
  millis : Nat
deriving DecidableEq, Repr

/--
How programs are launched: with a path, arguments, and the milliseconds after which
they are given up.  A program that cannot be started has a cause for that.
-/
abbrev Launcher (σ : Type) :=
  (program : Path) → (arguments : List String) → (limit : Nat) → Surroundings σ →
    Except IoFault Ran × Surroundings σ

end LogHarvest
