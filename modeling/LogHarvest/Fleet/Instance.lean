/-!
# Instances

An instance is one remote machine.  It is known by its identifier and reached
under a public address, or under a public name if it has no address.
-/

namespace LogHarvest

structure Instance where
  id : String
  publicIp : String
  publicName : String
deriving DecidableEq, Repr, Inhabited

namespace Instance

/-- Where the instance is reached: its address, or else its name. -/
def target (i : Instance) : String :=
  if i.publicIp.isEmpty then i.publicName else i.publicIp

end Instance
end LogHarvest
