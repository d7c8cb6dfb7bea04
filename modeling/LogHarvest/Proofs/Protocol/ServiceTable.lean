import Mathlib.Data.List.Forall2
import LogHarvest.Proofs.Text.Quoting
import LogHarvest.Proofs.Text.Words
import LogHarvest.Protocol.Listing

/-!
# Tables of services

A table has lines about services and other lines.  A line about a service has its words in
the order of the columns, with a bullet in front if the service is in a particular state;
another line has too few words for that.  Reading the text of a table gives the units that
are there and not inactive, whatever white space and line ends the table has, and each of
them gets one command that the shell reads back as intended.
-/

namespace LogHarvest
namespace Protocol

open Text

structure Bullet where
  text : String
  listed : text ∈ bullets

structure ServiceLine where
  margin : Padding
  bullet : Option (Bullet × Gap)
  unit : Word
  load : NextWord
  active : NextWord
  sub : NextWord
  description : NextWord
  more : List NextWord
  trailing : Padding
  unmarked : unit.text ∉ bullets

structure OtherLine extends Line where
  short : (rowFields text).length < fewestFields

inductive TableLine
  | service (line : ServiceLine)
  | other (line : OtherLine)

theorem word_of_mem_bullets :
    ∀ text ∈ bullets, text ≠ "" ∧ text.toList.any isBlank = false := by
  decide

def Bullet.word (bullet : Bullet) : Word where
  text := bullet.text
  nonempty := (word_of_mem_bullets bullet.text bullet.listed).1
  solid := (word_of_mem_bullets bullet.text bullet.listed).2

namespace ServiceLine

def columns (line : ServiceLine) : List NextWord :=
  line.load :: line.active :: line.sub :: line.description :: line.more

def wordLine (line : ServiceLine) : WordLine :=
  match line.bullet with
  | none => ⟨line.margin, line.unit, line.columns, line.trailing⟩
  | some (bullet, gap) =>
      ⟨line.margin, bullet.word, ⟨gap, line.unit⟩ :: line.columns, line.trailing⟩

/-- The service is there and active, so its journal is worth having. -/
def Wanted (line : ServiceLine) : Prop :=
  line.load.word.text ≠ "not-found" ∧ line.active.word.text ≠ "inactive"

instance (line : ServiceLine) : Decidable line.Wanted :=
  inferInstanceAs (Decidable (_ ∧ _))

end ServiceLine

namespace TableLine

def line : TableLine → Line
  | .service line => line.wordLine.line
  | .other line => line.toLine

def service? : TableLine → Option ServiceLine
  | .service line => some line
  | .other _ => none

end TableLine

abbrev ServiceTable : Type :=
  Page TableLine

namespace ServiceTable

def text (table : ServiceTable) : String :=
  Page.text TableLine.line table

def services (table : ServiceTable) : List ServiceLine :=
  table.entries.filterMap TableLine.service?

def wantedUnits (table : ServiceTable) : List String :=
  (table.services.filter fun line => line.Wanted).map fun line => line.unit.text

end ServiceTable

/-!
## Reading one line
-/

theorem rowFields_serviceLine (line : ServiceLine) :
    rowFields line.wordLine.line.text =
      line.unit.text :: line.columns.map fun n => n.word.text := by
  rw [rowFields, WordLine.words_line]
  unfold ServiceLine.wordLine
  cases line.bullet with
  | none =>
      rw [WordLine.words]
      exact if_neg fun hlisted => line.unmarked (List.contains_iff_mem.1 hlisted)
  | some marked =>
      rw [WordLine.words]
      exact if_pos (List.contains_iff_mem.2 marked.1.listed)

theorem unitOf?_serviceLine (line : ServiceLine) :
    unitOf? line.wordLine.line.text = if line.Wanted then some line.unit.text else none := by
  have henough : ¬ (line.sub.word.text :: line.description.word.text ::
      line.more.map fun n => n.word.text).length + 3 < fewestFields := by
    simp [fewestFields]
  rw [unitOf?, rowFields_serviceLine]
  simp only [ServiceLine.columns, List.map_cons]
  have hout : (line.load.word.text == "not-found" || line.active.word.text == "inactive") = true ↔
      ¬ line.Wanted := by
    rw [Bool.or_eq_true, beq_iff_eq, beq_iff_eq, ServiceLine.Wanted, not_and_or, not_not, not_not]
  rw [if_neg henough]
  by_cases hwanted : line.Wanted
  · rw [if_pos hwanted, if_neg fun h => hout.1 h hwanted]
  · rw [if_neg hwanted, if_pos (hout.2 hwanted)]

theorem unitOf?_otherLine (line : OtherLine) : unitOf? line.text = none := by
  have hshort := line.short
  unfold unitOf?
  split
  · rename_i unit load active rest hfields
    rw [hfields] at hshort
    exact if_pos hshort
  · rfl

theorem unitOf?_tableLine (entry : TableLine) :
    unitOf? entry.line.text =
      entry.service?.bind fun line => if line.Wanted then some line.unit.text else none := by
  cases entry with
  | service line => exact unitOf?_serviceLine line
  | other line => exact unitOf?_otherLine line

theorem unitOf?_append_return (cs : List Char) :
    unitOf? (String.ofList (cs ++ ['\r'])) = unitOf? (String.ofList cs) := by
  rw [unitOf?, unitOf?, rowFields, rowFields, words_append_return]

/-!
## Reading the table
-/

theorem selectedUnits_text (table : ServiceTable) :
    selectedUnits table.text = table.wantedUnits := by
  have hread := Page.filterMap_lines TableLine.line (by rfl) unitOf?_append_return table
  rw [selectedUnits, ServiceTable.text, hread, ServiceTable.wantedUnits, ServiceTable.services]
  induction table.entries with
  | nil => rfl
  | cons entry rest ih =>
      rw [List.filterMap_cons, List.filterMap_cons, ih, unitOf?_tableLine]
      cases entry.service? with
      | none => rfl
      | some line =>
          by_cases hwanted : line.Wanted <;> simp [hwanted]

structure OnceEach (units distinct : List String) : Prop where
  mem_iff : ∀ unit, unit ∈ distinct ↔ unit ∈ units
  ordered : distinct.Pairwise fun u v => units.idxOf u < units.idxOf v

theorem mem_firsts {unit : String} {units : List String} :
    unit ∈ firsts units ↔ unit ∈ units := by
  induction units with
  | nil => rfl
  | cons u rest ih =>
      rw [firsts, List.mem_cons, List.mem_cons, List.mem_filter, ih, bne_iff_ne]
      by_cases hu : unit = u <;> simp [hu]

theorem onceEach_firsts (units : List String) : OnceEach units (firsts units) where
  mem_iff _ := mem_firsts
  ordered := by
    induction units with
    | nil => exact List.Pairwise.nil
    | cons u rest ih =>
        -- In front of the list every other element moves on by one place.
        have hlater : ∀ v ∈ (firsts rest).filter fun y => y != u,
            (u :: rest).idxOf v = rest.idxOf v + 1 := by
          intro v hmem
          have hne : v ≠ u := bne_iff_ne.1 (List.mem_filter.1 hmem).2
          exact List.idxOf_cons_ne rest hne.symm
        rw [firsts, List.pairwise_cons]
        constructor
        · intro v hmem
          rw [List.idxOf_cons_self, hlater v hmem]
          exact Nat.zero_lt_succ _
        · refine (ih.filter _).imp_of_mem fun {v w} hv hw hlt => ?_
          rw [hlater v hv, hlater w hw]
          exact Nat.succ_lt_succ hlt

/-!
## The commands
-/

/-- To the shell, the command asks for the journal of the unit and for nothing else. -/
def AsksForJournal (unit : String) (command : LogCommand) : Prop :=
  readWords command.command =
    some ["sudo", "journalctl", "--no-pager", "--output=cat", "-u", unit]

theorem asksForJournal (unit : String) : AsksForJournal unit (journalCommand unit) :=
  readWords_append_quoteWord ["sudo", "journalctl", "--no-pager", "--output=cat", "-u"]
    (by rfl) (by decide) unit

/--
Whatever white space, line ends and other lines a table has, the units that are found are
those of its services that are there and active, and each gets one command, in the order in
which they come first, which the shell reads as words of which the unit is the last.
-/
theorem journals_of_table (table : ServiceTable) :
    selectedUnits table.text = table.wantedUnits ∧
      ∃ units, OnceEach table.wantedUnits units ∧
        List.Forall₂ AsksForJournal units (journalCommands table.text) := by
  refine ⟨selectedUnits_text table, firsts table.wantedUnits, onceEach_firsts _, ?_⟩
  rw [journalCommands, selectedUnits_text, List.forall₂_map_right_iff]
  exact List.forall₂_same.2 fun unit _ => asksForJournal unit

example : ∃ table : ServiceTable,
    table.text = " ● a.service loaded active up A\r\nb.service not-found dead down B\nrest" ∧
      table.wantedUnits = ["a.service"] := by
  let gap : Gap := ⟨⟨⟨" ", by decide⟩, by decide⟩, by decide⟩
  let nothing : Padding := ⟨⟨"", by decide⟩, by decide⟩
  let first : ServiceLine :=
    ⟨gap.toPadding, some (⟨"●", by decide⟩, gap), ⟨"a.service", by decide, by decide⟩,
      ⟨gap, ⟨"loaded", by decide, by decide⟩⟩, ⟨gap, ⟨"active", by decide, by decide⟩⟩,
      ⟨gap, ⟨"up", by decide, by decide⟩⟩, ⟨gap, ⟨"A", by decide, by decide⟩⟩, [], nothing,
      by decide⟩
  let second : ServiceLine :=
    ⟨nothing, none, ⟨"b.service", by decide, by decide⟩,
      ⟨gap, ⟨"not-found", by decide, by decide⟩⟩, ⟨gap, ⟨"dead", by decide, by decide⟩⟩,
      ⟨gap, ⟨"down", by decide, by decide⟩⟩, ⟨gap, ⟨"B", by decide, by decide⟩⟩, [], nothing,
      by decide⟩
  exact ⟨⟨[(.service first, .returnFeed), (.service second, .feed)],
    .other ⟨⟨"rest", by decide⟩, by decide⟩⟩, by decide, by decide⟩

end Protocol
end LogHarvest
