import LogHarvest.Collect.Tally
import LogHarvest.Fleet.Document
import LogHarvest.Tree.Basic

/-!
# Keeping the configuration

The configuration is kept in a file.  To write it, the whole document goes into a
second file beside the first, and then takes its place in one step: whatever
happens on the way, the file holds the old document or the new one.

A `FleetStore` is a configuration with the files it lives among.  It may hold
mishaps that lie ahead, one for each time that the document is written.
-/

namespace LogHarvest

/-- What goes wrong while a document is written. -/
inductive Mishap
  /-- The second file cannot be opened, and nothing is written. -/
  | opening (cause : IoFault)
  /-- Only so many bytes get into the second file. -/
  | writing (cause : IoFault) (written : Nat)
  /-- The second file stays where it is. -/
  | renaming (cause : IoFault)
deriving DecidableEq, Repr

namespace FleetConfig

def draftPath (c : FleetConfig) : Path :=
  c.path ++ ".tmp"

def bytes (c : FleetConfig) : Text.Bytes :=
  Text.encode c.document

def sync (c : FleetConfig) (mishap : Option Mishap) (t : Tree) :
    Except FleetFault Unit × Tree :=
  let failed (cause : IoFault) : Except FleetFault Unit := .error (.sync c.path cause)
  match t.create c.draftPath with
  | .error cause => (failed cause, t)
  | .ok (place, created) =>
      match mishap with
      | some (.opening cause) => (failed cause, t)
      | some (.writing cause written) =>
          (failed cause, created.fill place (c.bytes.take written))
      | some (.renaming cause) => (failed cause, created.fill place c.bytes)
      | none =>
          let filled := created.fill place c.bytes
          match filled.rename c.draftPath c.path with
          | .error cause => (failed cause, filled)
          | .ok renamed => (.ok (), renamed)

def load (t : Tree) (path : Path) : Except FleetFault FleetConfig := do
  let content ← (t.read path).mapError (.readConfig path)
  match Text.decode? content with
  | none => .error (.readConfig path .notText)
  | some text =>
      let c ← (ofDocument text).mapError .document
      let c := { c with path := path }
      c.validate
      return c

end FleetConfig

structure FleetStore where
  config : FleetConfig
  tree : Tree
  /-- What goes wrong the next times that the document is written. -/
  mishaps : List (Option Mishap)

namespace FleetStore

def sync (s : FleetStore) : Except FleetFault Unit × FleetStore :=
  let (result, tree) := s.config.sync s.mishaps.head?.join s.tree
  (result, { s with tree := tree, mishaps := s.mishaps.tail })

def setStatus (s : FleetStore) (status : Status) : FleetStore :=
  { s with config := { s.config with status := status } }

instance : StatusStore FleetStore where
  status s := s.config.status
  setStatus := setStatus
  sync := sync

end FleetStore
end LogHarvest
