import LogHarvest.Fleet.Fault
import LogHarvest.Fleet.Instance
import LogHarvest.Fleet.NameMap

/-!
# The status of a fleet

A fleet consists of groups.  A group has members, filed under their identifiers,
and for the members whose logs were collected the paths of those logs.  Logs are
recorded once: a second record for the same instance is refused and changes
nothing.
-/

namespace LogHarvest

structure Group where
  members : NameMap Instance
  logs : NameMap (List Path)
deriving DecidableEq

def Group.empty : Group := ⟨.empty, .empty⟩

structure Status where
  groups : NameMap Group
deriving DecidableEq

namespace Status

def empty : Status := ⟨.empty⟩

instance : Inhabited Status := ⟨empty⟩

/-- Adds a member to a group, which is founded if it is not there. -/
def addInstance (s : Status) (group : String) (i : Instance) : Status :=
  let g := (s.groups.get? group).getD .empty
  ⟨s.groups.insert group { g with members := g.members.insert i.id i }⟩

def expected (s : Status) : Nat :=
  s.groups.values.foldr (fun g n => g.members.size + n) 0

def collected (s : Status) : Nat :=
  s.groups.values.foldr (fun g n => g.logs.size + n) 0

def logsFor (s : Status) (group id : String) : Option (List Path) :=
  (s.groups.get? group).bind fun g => g.logs.get? id

def allPaths (s : Status) : List Path :=
  s.groups.values.flatMap fun g => g.logs.values.flatten

def record (s : Status) (group id : String) (paths : List Path) : Except FleetFault Status :=
  match s.groups.get? group with
  | none => .error (.unknownGroup group)
  | some g =>
      if g.logs.contains id then .error (.duplicateInstance group id)
      else .ok ⟨s.groups.insert group { g with logs := g.logs.insert id paths }⟩

end Status
end LogHarvest
