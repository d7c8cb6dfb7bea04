import LogHarvest.Fleet.Status
import LogHarvest.Text.Ascii
import LogHarvest.Text.Decimal

/-!
# The configuration of a fleet

The configuration says where logs go, how instances are reached, how fast they
may be asked, and which instances there are.  It also holds the logs collected so
far, so that one document describes the fleet and its state.
-/

namespace LogHarvest

structure RemoteAccess where
  user : String
  keyPath : Path
  program : Path
  port : UInt16
  connectTimeout : UInt64
  commandTimeout : UInt64
  connectRetries : UInt32
deriving DecidableEq

def RemoteAccess.default : RemoteAccess where
  user := "ec2-user"
  keyPath := ""
  program := "ssh"
  port := 22
  connectTimeout := 15
  commandTimeout := 120
  connectRetries := 3

structure FetchLimits where
  /-- Remote calls per second in the long run. -/
  qps : Float
  /-- Remote calls that may come at once. -/
  burst : UInt32
  /-- Open sessions at a time, without a limit if none is given. -/
  maxSessions : Option UInt64

def FetchLimits.default : FetchLimits := ⟨150, 10, none⟩

structure FleetConfig where
  name : String
  logDir : Path
  logLevel : String
  enabled : Bool
  remote : RemoteAccess
  limits : FetchLimits
  status : Status
  /-- Where the document is; not part of the document. -/
  path : Path

namespace FleetConfig

def new (name : String) (logDir path : Path) : FleetConfig where
  name := name
  logDir := logDir
  logLevel := "info"
  enabled := true
  remote := .default
  limits := .default
  status := .empty
  path := path

def validate (c : FleetConfig) : Except FleetFault Unit :=
  if (Text.trim c.name).isEmpty then .error (.invalidConfig "empty name")
  else if c.logDir.isEmpty then .error (.invalidConfig "empty log_dir")
  else if !(0 < c.limits.qps) then
    .error (.invalidConfig
      ("fetch.qps must be positive, got " ++ Text.plainStyle.render c.limits.qps))
  else if c.limits.burst == 0 then .error (.invalidConfig "fetch.burst must be at least 1")
  else if c.limits.maxSessions == some 0 then
    .error (.invalidConfig "fetch.max_sessions must be at least 1")
  else .ok ()

structure Accepted (c : FleetConfig) : Prop where
  name : (Text.trim c.name).isEmpty = false
  logDir : c.logDir.isEmpty = false
  qps : 0 < c.limits.qps
  burst : c.limits.burst ≠ 0
  maxSessions : c.limits.maxSessions ≠ some 0

theorem validate_eq_ok_iff {c : FleetConfig} : c.validate = .ok () ↔ c.Accepted := by
  fun_cases validate c with
  | case1 hname => exact ⟨nofun, fun h => absurd hname (Bool.eq_false_iff.1 h.name)⟩
  | case2 _ hlogDir => exact ⟨nofun, fun h => absurd hlogDir (Bool.eq_false_iff.1 h.logDir)⟩
  | case3 _ _ hqps => exact ⟨nofun, fun h => absurd h.qps (by simpa using hqps)⟩
  | case4 _ _ _ hburst => exact ⟨nofun, fun h => absurd (eq_of_beq hburst) h.burst⟩
  | case5 _ _ _ _ hnone => exact ⟨nofun, fun h => absurd (eq_of_beq hnone) h.maxSessions⟩
  | case6 hname hlogDir hqps hburst hsome =>
      refine ⟨fun _ => ?_, fun _ => rfl⟩
      exact
        { name := Bool.eq_false_iff.2 hname
          logDir := Bool.eq_false_iff.2 hlogDir
          qps := by simpa using hqps
          burst := by simpa using hburst
          maxSessions := by simpa using hsome }

/-- The level of detail asked for is the highest, in any mixture of cases. -/
def verbose (c : FleetConfig) : Bool :=
  c.logLevel.toList.map Text.lowered == "debug".toList

/-- The document to use: the one named, else the one that the environment names. -/
def choosePath (named environment : Option String) : Path :=
  (named.orElse fun _ => environment).getD "fleetlog.yaml"

end FleetConfig
end LogHarvest
