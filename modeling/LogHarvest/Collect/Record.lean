import LogHarvest.Collect.Fault

/-!
# The record of one instance

A collector hands in one record: the paths of the files it wrote, or why it gave
up.
-/

namespace LogHarvest

instance decidableEqExcept {ε α : Type} [DecidableEq ε] [DecidableEq α] :
    DecidableEq (Except ε α)
  | .error a, .error b => decidable_of_iff (a = b) (by simp)
  | .ok a, .ok b => decidable_of_iff (a = b) (by simp)
  | .error _, .ok _ => isFalse nofun
  | .ok _, .error _ => isFalse nofun

structure Record where
  group : String
  id : String
  outcome : Except CollectFault (List Path)
deriving DecidableEq

namespace Record

def success (group id : String) (paths : List Path) : Record :=
  ⟨group, id, .ok paths⟩

def failure (group id : String) (fault : CollectFault) : Record :=
  ⟨group, id, .error fault⟩

def isOk (r : Record) : Bool :=
  match r.outcome with
  | .ok _ => true
  | .error _ => false

end Record
end LogHarvest
