import LogHarvest.Fleet.Store
import LogHarvest.Proofs.Fleet.Documents
import LogHarvest.Proofs.Fleet.Lookup
import LogHarvest.Proofs.Text.Utf8
import LogHarvest.Proofs.Yaml.Decoding

/-!
# A configuration that was written is read back

Every part of a configuration is read from the value that it is written as, so the
document of a configuration describes the configuration again.  Whoever loads the file
behind a document that was written gets the very configuration.
-/

namespace LogHarvest

open Yaml (Value Located Tells Fills tells_record tells_text tells_natural)

/-!
## Parts
-/

theorem Instance.tells (i : Instance) : Tells Instance.read i.toValue i := by
  refine tells_record (x := i) ?_ (by simp) (by simp) _
  refine .cons _ rfl ((tells_text _ _).map _) ?_
  refine .cons _ rfl ((tells_text _ _).map _) ?_
  refine .cons _ rfl ((tells_text _ _).map _) ?_
  exact .nil _

theorem tells_paths (paths : List Path) : Tells readPaths (.sequence (paths.map .text)) paths :=
  Yaml.tells_items fun path _ => tells_text path "path string"

theorem Group.tells (g : Group) : Tells Group.read g.toValue g := by
  have hmembers : Tells (fun v => v.entries Instance.read)
      (.mapping (g.members.entries.map fun entry => (entry.1, entry.2.toValue)))
        g.members.entries :=
    Yaml.tells_entries fun entry _ => Instance.tells entry.2
  have hlogs : Tells (fun v => v.entries readPaths)
      (.mapping (g.logs.entries.map fun entry => (entry.1, .sequence (entry.2.map .text))))
        g.logs.entries :=
    @Yaml.tells_entries _ readPaths (fun paths => .sequence (paths.map .text)) _ fun entry _ =>
      tells_paths entry.2
  cases hnone : g.logs.entries.isEmpty with
  | true =>
      -- The list of logs is left out, and stays as it is in an empty group.
      have hempty : .empty = g.logs := by
        rw [← g.logs.ofList_entries, List.isEmpty_iff.1 hnone]
        rfl
      have hvalue : g.toValue = .mapping [("instances", .mapping
          (g.members.entries.map fun entry => (entry.1, entry.2.toValue)))] := by
        unfold Group.toValue
        simp only [List.isEmpty_map, hnone, if_true]
      rw [hvalue]
      refine tells_record (x := g) ?_ (by simp) (by simp) _
      refine .cons _ rfl (hmembers.map _) ?_
      exact .done (by simp only [NameMap.ofList_entries, Group.empty, hempty])
  | false =>
      have hvalue : g.toValue = .mapping [("instances", .mapping
          (g.members.entries.map fun entry => (entry.1, entry.2.toValue))), ("logs", .mapping
            (g.logs.entries.map fun entry => (entry.1, .sequence (entry.2.map .text))))] := by
        unfold Group.toValue
        simp only [List.isEmpty_map, hnone, Bool.false_eq_true, if_false]
      rw [hvalue]
      refine tells_record (x := g) ?_ (by simp) (by simp) _
      refine .cons _ rfl (hmembers.map _) ?_
      refine .cons _ rfl (hlogs.map _) ?_
      exact .done (by simp only [NameMap.ofList_entries])

theorem Status.tells (s : Status) : Tells Status.read s.toValue s := by
  have hgroups : Tells (fun v => v.entries Group.read)
      (.mapping (s.groups.entries.map fun entry => (entry.1, entry.2.toValue))) s.groups.entries :=
    Yaml.tells_entries fun entry _ => Group.tells entry.2
  refine tells_record (x := s) ?_ (by simp) (by simp) _
  refine .cons _ rfl (hgroups.map _) ?_
  exact .done (by simp only [NameMap.ofList_entries])

theorem RemoteAccess.tells (r : RemoteAccess) : Tells RemoteAccess.read r.toValue r := by
  refine tells_record (x := r) ?_ (by simp) (by simp) _
  refine .cons _ rfl ((tells_text _ _).map _) ?_
  refine .cons _ rfl ((tells_text _ _).map _) ?_
  refine .cons _ rfl ((tells_text _ _).map _) ?_
  refine .cons _ rfl ((tells_natural (by decide) r.port.toNat_lt _).map _) ?_
  refine .cons _ rfl ((tells_natural (by decide) r.connectTimeout.toNat_lt _).map _) ?_
  refine .cons _ rfl ((tells_natural (by decide) r.commandTimeout.toNat_lt _).map _) ?_
  refine .cons _ rfl ((tells_natural (by decide) r.connectRetries.toNat_lt _).map _) ?_
  exact .done (by simp only [UInt16.ofNat_toNat, UInt32.ofNat_toNat, UInt64.ofNat_toNat])

theorem FetchLimits.tells {l : FetchLimits} (hpos : 0 < l.qps) :
    Tells FetchLimits.read l.toValue l := by
  obtain ⟨qps, burst, sessions⟩ := l
  refine tells_record ?_ (by simp) (by simp) _
  refine .cons _ rfl ((Yaml.tells_number hpos).map _) ?_
  refine .cons _ rfl ((tells_natural (by decide) burst.toNat_lt _).map _) ?_
  cases sessions with
  | none =>
      refine .cons _ rfl ((Yaml.tells_none _).map _) ?_
      exact .done (by simp only [UInt32.ofNat_toNat, Option.map_none])
  | some n =>
      refine .cons _ rfl ((Yaml.tells_some (tells_natural (Nat.le_refl 64) n.toNat_lt _)).map _) ?_
      exact .done (by simp only [UInt32.ofNat_toNat, UInt64.ofNat_toNat, Option.map_some])

theorem FleetConfig.tells {c : FleetConfig} (hpos : 0 < c.limits.qps) :
    Tells FleetConfig.read c.toValue { c with path := "" } := by
  refine tells_record ?_ (by simp) (by simp) _
  refine .cons _ rfl ((tells_text _ _).map _) ?_
  refine .cons _ rfl ((tells_text _ _).map _) ?_
  refine .cons _ rfl ((tells_text _ _).map _) ?_
  refine .cons _ rfl ((Yaml.tells_flag _).map _) ?_
  refine .cons _ rfl ((RemoteAccess.tells c.remote).map _) ?_
  refine .cons _ rfl ((FetchLimits.tells hpos).map _) ?_
  refine .cons _ rfl ((Status.tells c.status).map _) ?_
  exact .nil _

/-!
## Documents
-/

namespace FleetConfig

theorem positive_entries {α : Type} {write : α → Value} (hwrite : ∀ x, (write x).Positive)
    (entries : List (String × α)) :
    (Value.mapping (entries.map fun entry => (entry.1, write entry.2))).Positive := by
  rw [Value.Positive, Yaml.entriesPositive_iff]
  intro entry hentry
  obtain ⟨found, -, rfl⟩ := List.mem_map.1 hentry
  exact hwrite found.2

theorem positive_paths (paths : List Path) : (Value.sequence (paths.map .text)).Positive := by
  rw [Value.Positive, Yaml.allPositive_iff]
  intro item hitem
  obtain ⟨path, -, rfl⟩ := List.mem_map.1 hitem
  exact trivial

theorem positive_group (g : Group) : g.toValue.Positive := by
  have hinstance (i : Instance) : i.toValue.Positive := ⟨trivial, trivial, trivial, trivial⟩
  have hmembers := positive_entries hinstance g.members.entries
  have hlogs := positive_entries positive_paths g.logs.entries
  unfold Group.toValue
  refine ⟨hmembers, ?_⟩
  split
  · trivial
  · exact ⟨hlogs, trivial⟩

theorem positive_limits {l : FetchLimits} (hpos : 0 < l.qps) : l.toValue.Positive := by
  unfold FetchLimits.toValue
  refine ⟨hpos, trivial, ?_, trivial⟩
  split <;> trivial

/-- The only number in a document is the rate of calls. -/
theorem positive_toValue {c : FleetConfig} (hpos : 0 < c.limits.qps) : c.toValue.Positive := by
  have hgroups := positive_entries positive_group c.status.groups.entries
  have hlimits := positive_limits hpos
  have hremote : c.remote.toValue.Positive :=
    ⟨trivial, trivial, trivial, trivial, trivial, trivial, trivial, trivial⟩
  have hstatus : c.status.toValue.Positive := ⟨hgroups, trivial⟩
  exact ⟨trivial, trivial, trivial, trivial, hremote, hlimits, hstatus, trivial⟩

theorem ofDocument_document {c : FleetConfig} (hpos : 0 < c.limits.qps) :
    ofDocument c.document = .ok { c with path := "" } := by
  have hpositive := positive_toValue hpos
  have htells := FleetConfig.tells hpos
  unfold ofDocument document
  unfold toValue at hpositive htells ⊢
  rw [Value.Positive] at hpositive
  obtain ⟨node, hdocument, hsaid⟩ := Yaml.ofText_render (List.cons_ne_nil _ _) hpositive
  have hread := htells ⟨node, [], []⟩ hsaid
  rw [hdocument]
  unfold Yaml.Document.decode
  dsimp only
  rw [hread]
  rfl

/-!
## Files
-/

theorem load_of_content {c : FleetConfig} (hvalid : c.validate = .ok ()) {t : Tree}
    (hcontent : t.content? c.path = some c.bytes) : load t c.path = .ok c := by
  have hdocument := ofDocument_document (validate_eq_ok_iff.1 hvalid).qps
  have hdecode : Text.decode? c.bytes = some c.document := Text.decode?_encode c.document
  unfold load
  simp only [Tree.read_eq_ok_iff.2 hcontent, hdecode, hdocument, Except.mapError, bind, Except.bind,
    pure, Except.pure]
  rw [show ({ c with path := c.path } : FleetConfig).validate = .ok () from hvalid]

end FleetConfig

theorem Tree.exists_rename {t t' renamed : Tree} (hsame : t.SameFolders t')
    {source destination : Path} {place place' : Place} {content content' : Text.Bytes}
    {runnable runnable' : Bool}
    (hsource : t.locate source = .ok (place, .file content runnable))
    (hsource' : t'.locate source = .ok (place', .file content' runnable'))
    (hrename : t.rename source destination = .ok renamed) :
    ∃ renamed', t'.rename source destination = .ok renamed' := by
  obtain ⟨_, _, goal, hlocate, htarget, hname, haccepted, -⟩ := rename_eq_ok_iff.1 hrename
  cases hsource.symm.trans hlocate
  obtain ⟨hslash, hgoal⟩ := haccepted nofun
  refine ⟨_, rename_eq_ok_iff.2 ⟨_, _, goal, hsource', target_eq_ok hsame htarget, hname,
    fun _ => ⟨hslash, ?_⟩, rfl⟩⟩
  rw [hsame.folders]
  exact hgoal

namespace FleetConfig

theorem locate_draft {c : FleetConfig} {t created : Tree} {place : Place}
    (hcreate : t.create c.draftPath = .ok (place, created)) (data : Text.Bytes) :
    ∃ runnable, (created.fill place data).locate c.draftPath =
        .ok (place, .file data runnable) := by
  obtain ⟨htarget, hslash, -⟩ :=
    Tree.openForWriting_eq_ok_iff.1 (Tree.create_eq_ok_iff.1 hcreate).1
  exact ⟨_, Tree.locate_eq_ok_iff.2
    ⟨Tree.target_eq_ok (Tree.sameFolders_create_fill hcreate data) htarget,
      Tree.get?_create_fill hcreate data, fun _ => hslash⟩⟩

theorem sync_again {c : FleetConfig} {mishap : Option Mishap} {t : Tree}
    (hok : (c.sync mishap t).1 = .ok ()) : (c.sync none (c.sync mishap t).2).1 = .ok () := by
  have hsame := sameFolders_sync c mishap t
  have hwritten := c.written_sync mishap t
  generalize c.sync mishap t = result at hwritten hok hsame
  cases hwritten with
  | untouched cause => cases hok
  | drafted hcreate cause written => cases hok
  | @replaced place created renamed hcreate hrename =>
      obtain ⟨created', hcreate'⟩ := Tree.exists_create hsame hcreate
      obtain ⟨runnable, hlocate⟩ := locate_draft hcreate c.bytes
      obtain ⟨runnable', hlocate'⟩ := locate_draft hcreate' c.bytes
      have hfilled := Tree.sameFolders_create_fill hcreate c.bytes
      have hfilled' := Tree.sameFolders_create_fill hcreate' c.bytes
      obtain ⟨renamed', hrename'⟩ := Tree.exists_rename
        ((hfilled.symm.trans hsame).trans hfilled') hlocate hlocate' hrename
      unfold sync
      rw [hcreate']
      dsimp only
      rw [hrename']

/--
What is written is read back: behind a document that was written, the configuration is
loaded as it was.  The document can be written again, and whatever happens then, the file
holds the same text.
-/
theorem load_of_sync {c : FleetConfig} (hvalid : c.validate = .ok ()) {mishap : Option Mishap}
    {t : Tree} (hsync : (c.sync mishap t).1 = .ok ()) :
    load (c.sync mishap t).2 c.path = .ok c ∧
      (c.sync mishap t).2.read c.path = .ok (Text.encode c.document) ∧
        (c.sync none (c.sync mishap t).2).1 = .ok () ∧
          ∀ later, (c.sync later (c.sync mishap t).2).2.read c.path =
            .ok (Text.encode c.document) := by
  have hcontent := content?_of_sync_ok hsync
  refine ⟨load_of_content hvalid hcontent, Tree.read_eq_ok_iff.2 hcontent, sync_again hsync, ?_⟩
  intro later
  apply Tree.read_eq_ok_iff.2
  cases hlater : (c.sync later (c.sync mishap t).2).1 with
  | error fault =>
      rw [content?_of_sync_error hlater]
      exact hcontent
  | ok done => exact content?_of_sync_ok hlater

def oddlyNamed : FleetConfig where
  name := "true"
  logDir := "/logs: #1"
  logLevel := ""
  enabled := true
  remote := { RemoteAccess.default with user := "007", keyPath := "first\n second\n" }
  limits := ⟨1 / 0, 1, some 2⟩
  status := ⟨NameMap.empty
    |>.insert "~" ⟨NameMap.empty.insert "i-1" ⟨"i-1", "", "- a"⟩, .empty⟩
    |>.insert "null" ⟨.empty, NameMap.empty.insert "? b" ["", "tab\t", "it's"]⟩⟩
  path := "fleet.yaml"

theorem load_of_sync_oddlyNamed :
    oddlyNamed.validate = .ok () ∧ (oddlyNamed.sync none .empty).1 = .ok () ∧
      load (oddlyNamed.sync none .empty).2 "fleet.yaml" = .ok oddlyNamed :=
  ⟨rfl, rfl, (@load_of_sync oddlyNamed rfl none .empty rfl).1⟩

end FleetConfig
end LogHarvest
