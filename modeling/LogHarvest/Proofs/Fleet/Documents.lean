import LogHarvest.Proofs.Tree.Components
import LogHarvest.Proofs.Tree.Contents

/-!
# Whatever happens while a document is written

`FleetConfig.Amid` relates the files before a document is written to those at any
moment of it: nothing was done, so many bytes are in the second file, or that has
taken the document's place.  Whoever looks at such a moment finds the content that
was there before or the new document, and nothing in between.
-/

namespace LogHarvest

open LogHarvest.Tree

/-!
## Taking a place
-/

theorem Tree.content?_rename {t renamed : Tree} {source destination : Path} {origin : Place}
    {content : Text.Bytes} {runnable : Bool} (hsource : t.target source = .ok origin)
    (hfile : t.get? origin = some (.file content runnable))
    (hrename : t.rename source destination = .ok renamed) :
    renamed.content? destination = some content := by
  have hsame := sameFolders_rename hsource (hasFolder_eq_false hfile) hrename
  obtain ⟨place, node, goal, hlocate, htarget, -, haccepted, rfl⟩ := rename_eq_ok_iff.1 hrename
  obtain ⟨hplace, hnode⟩ := locate_eq_ok hlocate
  obtain rfl : origin = place := Except.ok.inj (hsource.symm.trans hplace)
  obtain rfl : .file content runnable = node := Option.some.inj (hfile.symm.trans hnode)
  obtain ⟨hslash, hgoal⟩ := haccepted nofun
  refine content?_eq_some_iff.2 ⟨goal, runnable, target_eq_ok hsame htarget, ?_, hslash⟩
  rw [get?_put, if_neg (ne_nil_of_hasFolder hgoal), if_pos rfl]

namespace FleetConfig

inductive Amid (c : FleetConfig) (t : Tree) : Tree → Prop
  | untouched : Amid c t t
  | drafted {place : Place} {created : Tree}
      (hcreate : t.create c.draftPath = .ok (place, created)) (written : Nat) :
      Amid c t (created.fill place (c.bytes.take written))
  | replaced {place : Place} {created renamed : Tree}
      (hcreate : t.create c.draftPath = .ok (place, created))
      (hrename : (created.fill place c.bytes).rename c.draftPath c.path = .ok renamed) :
      Amid c t renamed

theorem target_draftPath_ne {c : FleetConfig} {t : Tree} {place : Place}
    (htarget : t.target c.draftPath = .ok place) : t.target c.path ≠ .ok place :=
  target_append_ne (by simp) (by decide) htarget

theorem content?_drafted {c : FleetConfig} {t created : Tree} {place : Place}
    (hcreate : t.create c.draftPath = .ok (place, created)) (data : Text.Bytes) :
    (created.fill place data).content? c.path = t.content? c.path :=
  (content?_create_fill hcreate (target_draftPath_ne (target_of_create hcreate)) data).2

theorem content?_replaced {c : FleetConfig} {t created renamed : Tree} {place : Place}
    (hcreate : t.create c.draftPath = .ok (place, created))
    (hrename : (created.fill place c.bytes).rename c.draftPath c.path = .ok renamed) :
    renamed.content? c.path = some c.bytes := by
  have hfilled := sameFolders_create_fill hcreate c.bytes
  exact content?_rename (target_eq_ok hfilled (target_of_create hcreate))
    (get?_create_fill hcreate c.bytes) hrename

/-- At any moment the document is the old one or the new one. -/
theorem Amid.content? {c : FleetConfig} {t t' : Tree} (hamid : c.Amid t t') :
    t'.content? c.path = t.content? c.path ∨ t'.content? c.path = some c.bytes := by
  cases hamid with
  | untouched => exact Or.inl rfl
  | drafted hcreate written => exact Or.inl (content?_drafted hcreate _)
  | replaced hcreate hrename => exact Or.inr (content?_replaced hcreate hrename)

theorem amid_sync (c : FleetConfig) (mishap : Option Mishap) (t : Tree) :
    c.Amid t (c.sync mishap t).2 := by
  have hwritten := c.written_sync mishap t
  generalize c.sync mishap t = result at hwritten
  cases hwritten with
  | untouched cause => exact .untouched
  | drafted hcreate cause written => exact .drafted hcreate written
  | replaced hcreate hrename => exact .replaced hcreate hrename

theorem content?_of_sync_error {c : FleetConfig} {mishap : Option Mishap} {t : Tree}
    {fault : FleetFault} (hfault : (c.sync mishap t).1 = .error fault) :
    (c.sync mishap t).2.content? c.path = t.content? c.path := by
  have hwritten := c.written_sync mishap t
  generalize c.sync mishap t = result at hwritten hfault
  cases hwritten with
  | untouched cause => rfl
  | drafted hcreate cause written => exact content?_drafted hcreate _
  | replaced hcreate hrename => cases hfault

theorem content?_of_sync_ok {c : FleetConfig} {mishap : Option Mishap} {t : Tree}
    (hok : (c.sync mishap t).1 = .ok ()) :
    (c.sync mishap t).2.content? c.path = some c.bytes := by
  have hwritten := c.written_sync mishap t
  generalize c.sync mishap t = result at hwritten hok
  cases hwritten with
  | untouched cause => cases hok
  | drafted hcreate cause written => cases hok
  | replaced hcreate hrename => exact content?_replaced hcreate hrename

end FleetConfig
end LogHarvest
