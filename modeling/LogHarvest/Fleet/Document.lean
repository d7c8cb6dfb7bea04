import LogHarvest.Fleet.Config
import LogHarvest.Yaml.Decode
import LogHarvest.Yaml.Value

/-!
# The document of a fleet

A configuration is kept as a YAML document.  The writer puts down every setting;
the reader fills in the settings that a document leaves out, and passes over
what it does not know.

Fields of a record are listed in the order in which they are written, and in
which a missing one is noticed.
-/

namespace LogHarvest

open Yaml (Value Located)

/-!
## Writing
-/

def Instance.toValue (i : Instance) : Value :=
  .mapping
    [("instance_id", .text i.id), ("public_ip", .text i.publicIp),
      ("public_dns_name", .text i.publicName)]

/-- A group as a value; it has no list of logs as long as there are none. -/
def Group.toValue (g : Group) : Value :=
  let members := g.members.entries.map fun (id, i) => (id, i.toValue)
  let logs := g.logs.entries.map fun (id, paths) => (id, Value.sequence (paths.map .text))
  .mapping
    (("instances", .mapping members) ::
      (if logs.isEmpty then [] else [("logs", .mapping logs)]))

def Status.toValue (s : Status) : Value :=
  .mapping [("groups", .mapping (s.groups.entries.map fun (name, g) => (name, g.toValue)))]

def RemoteAccess.toValue (r : RemoteAccess) : Value :=
  .mapping
    [("user_name", .text r.user), ("private_key_path", .text r.keyPath),
      ("ssh_binary", .text r.program), ("port", .natural r.port.toNat),
      ("connect_timeout_secs", .natural r.connectTimeout.toNat),
      ("command_timeout_secs", .natural r.commandTimeout.toNat),
      ("connect_retries", .natural r.connectRetries.toNat)]

def FetchLimits.toValue (l : FetchLimits) : Value :=
  .mapping
    [("qps", .number l.qps), ("burst", .natural l.burst.toNat),
      ("max_sessions", match l.maxSessions with | none => .null | some n => .natural n.toNat)]

def FleetConfig.toValue (c : FleetConfig) : Value :=
  .mapping
    [("name", .text c.name), ("log_dir", .text c.logDir), ("log_level", .text c.logLevel),
      ("enable", .flag c.enabled), ("remote_access", c.remote.toValue),
      ("fetch", c.limits.toValue), ("status", c.status.toValue)]

def FleetConfig.document (c : FleetConfig) : String :=
  c.toValue.render

/-!
## Reading
-/

def Instance.read (v : Located) : Except Yaml.Fault Instance :=
  v.record "struct Instance"
    [⟨"instance_id", true, fun i v => return { i with id := ← v.text "a string" }⟩,
      ⟨"public_ip", false, fun i v => return { i with publicIp := ← v.text "a string" }⟩,
      ⟨"public_dns_name", false, fun i v => return { i with publicName := ← v.text "a string" }⟩]
    ⟨"", "", ""⟩

def readPaths (v : Located) : Except Yaml.Fault (List Path) :=
  v.items fun v => v.text "path string"

def Group.read (v : Located) : Except Yaml.Fault Group :=
  v.record "struct GroupStatus"
    [⟨"instances", false, fun g v =>
        return { g with members := .ofList (← v.entries Instance.read) }⟩,
      ⟨"logs", false, fun g v => return { g with logs := .ofList (← v.entries readPaths) }⟩]
    .empty

def Status.read (v : Located) : Except Yaml.Fault Status :=
  v.record "struct FleetStatus"
    [⟨"groups", false, fun _ v => return ⟨.ofList (← v.entries Group.read)⟩⟩]
    .empty

def RemoteAccess.read (v : Located) : Except Yaml.Fault RemoteAccess :=
  v.record "struct RemoteAccessConf"
    [⟨"user_name", true, fun r v => return { r with user := ← v.text "a string" }⟩,
      ⟨"private_key_path", true, fun r v => return { r with keyPath := ← v.text "path string" }⟩,
      ⟨"ssh_binary", false, fun r v => return { r with program := ← v.text "a string" }⟩,
      ⟨"port", false, fun r v => return { r with port := .ofNat (← v.natural 16 "u16") }⟩,
      ⟨"connect_timeout_secs", false, fun r v =>
        return { r with connectTimeout := .ofNat (← v.natural 64 "u64") }⟩,
      ⟨"command_timeout_secs", false, fun r v =>
        return { r with commandTimeout := .ofNat (← v.natural 64 "u64") }⟩,
      ⟨"connect_retries", false, fun r v =>
        return { r with connectRetries := .ofNat (← v.natural 32 "u32") }⟩]
    .default

def FetchLimits.read (v : Located) : Except Yaml.Fault FetchLimits :=
  v.record "struct FetchConf"
    [⟨"qps", false, fun l v => return { l with qps := ← v.number }⟩,
      ⟨"burst", false, fun l v => return { l with burst := .ofNat (← v.natural 32 "u32") }⟩,
      ⟨"max_sessions", false, fun l v => do
        let n ← v.optional fun v => v.natural 64 "usize"
        return { l with maxSessions := n.map .ofNat }⟩]
    .default

def FleetConfig.read (v : Located) : Except Yaml.Fault FleetConfig :=
  v.record "struct FleetConfig"
    [⟨"name", true, fun c v => return { c with name := ← v.text "a string" }⟩,
      ⟨"log_dir", true, fun c v => return { c with logDir := ← v.text "path string" }⟩,
      ⟨"log_level", false, fun c v => return { c with logLevel := ← v.text "a string" }⟩,
      ⟨"enable", false, fun c v => return { c with enabled := ← v.flag }⟩,
      ⟨"remote_access", false, fun c v => return { c with remote := ← RemoteAccess.read v }⟩,
      ⟨"fetch", false, fun c v => return { c with limits := ← FetchLimits.read v }⟩,
      ⟨"status", false, fun c v => return { c with status := ← Status.read v }⟩]
    (.new "" "" "")

def FleetConfig.ofDocument (text : String) : Except Yaml.Fault FleetConfig :=
  (Yaml.Document.ofText text).decode FleetConfig.read

end LogHarvest
