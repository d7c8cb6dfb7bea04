import Mathlib.Data.List.Forall2
import LogHarvest.Proofs.Text.Quoting
import LogHarvest.Proofs.Text.Words
import LogHarvest.Protocol.Listing

/-!
# Listings of files

A listing has a path on each line, and blank lines.  Reading its text gives every path as it
is, with all characters that it has, whatever line ends the listing has: one command for
each path, which the shell reads back as intended.  The names for the output have no
slashes: they are the last component of the path or the flattened path.
-/

namespace LogHarvest

namespace Text

/-!
## Ends that are left out
-/

theorem dropLast_append_of_leaves {leaves : Char → Bool} (cs : List Char) {c : Char}
    (hc : leaves c = true) : dropLast leaves (cs ++ [c]) = dropLast leaves cs := by
  rw [dropLast, List.reverse_append, List.reverse_singleton, List.singleton_append,
    List.dropWhile_cons_of_pos hc]
  rfl

theorem dropLast_of_stays {leaves : Char → Bool} {cs : List Char}
    (hcs : ∀ c ∈ cs.getLast?, leaves c = false) : dropLast leaves cs = cs := by
  rw [dropLast]
  cases hrev : cs.reverse with
  | nil => rw [List.reverse_eq_nil_iff.1 hrev]; rfl
  | cons c rest =>
      have hlast : cs.getLast? = some c := by
        rw [List.getLast?_eq_head?_reverse, hrev]
        rfl
      have hc : ¬ leaves c = true := Bool.not_eq_true _ ▸ hcs c hlast
      rw [List.dropWhile_cons_of_neg hc, ← hrev, List.reverse_reverse]

theorem mem_of_mem_dropLast {leaves : Char → Bool} {cs : List Char} {c : Char}
    (hmem : c ∈ dropLast leaves cs) : c ∈ cs :=
  List.mem_reverse.1 ((List.dropWhile_suffix leaves).subset (List.mem_reverse.1 hmem))

end Text

namespace Path

/-!
## The last component
-/

/--
The last component is a name: neither the parent folder nor the folder itself, which does
not count behind a name.
-/
structure EndsIn (path : Path) (name : String) : Prop where
  named : name ≠ "." ∧ name ≠ ".."
  parts : ∃ front dots, components path = front ++ name :: dots ∧ ∀ part ∈ dots, part = "."

theorem getLast?_steps_eq_some_iff {path : Path} {name : String} :
    (steps path).getLast? = some name ↔
      name ≠ "." ∧ ∃ front dots, components path = front ++ name :: dots ∧
        ∀ part ∈ dots, part = "." := by
  rw [steps, List.getLast?_filter, List.find?_eq_some_iff_append, bne_iff_ne]
  refine and_congr_right fun _ => ⟨?_, ?_⟩
  · rintro ⟨dots, front, hparts, hdots⟩
    refine ⟨front.reverse, dots.reverse, ?_, fun part hmem => ?_⟩
    · rw [← List.reverse_reverse (components path), hparts]
      simp
    · simpa using hdots part (List.mem_reverse.1 hmem)
  · rintro ⟨front, dots, hparts, hdots⟩
    refine ⟨dots.reverse, front.reverse, ?_, fun part hmem => ?_⟩
    · rw [hparts]
      simp
    · simpa using hdots part (List.mem_reverse.1 hmem)

theorem fileName_eq_some_iff {path : Path} {name : String} :
    fileName path = some name ↔ EndsIn path name := by
  have hlast : fileName path = some name ↔ (steps path).getLast? = some name ∧ name ≠ ".." := by
    unfold fileName
    cases (steps path).getLast? with
    | none => simp
    | some part =>
        rw [Option.some_inj]
        by_cases hparent : part = ".."
        · simp only [hparent, beq_self_eq_true, if_true]
          exact ⟨nofun, fun ⟨hname, hne⟩ => absurd hname.symm hne⟩
        · simp only [beq_eq_false_iff_ne.2 hparent, Bool.false_eq_true, if_false, Option.some_inj]
          exact ⟨fun hname => ⟨hname, hname ▸ hparent⟩, And.left⟩
  rw [hlast, getLast?_steps_eq_some_iff]
  constructor
  · rintro ⟨⟨hself, hparts⟩, hparent⟩
    exact ⟨⟨hself, hparent⟩, hparts⟩
  · rintro ⟨⟨hself, hparent⟩, hparts⟩
    exact ⟨⟨hself, hparts⟩, hparent⟩

theorem slash_not_mem_of_endsIn {path : Path} {name : String} (hends : EndsIn path name) :
    '/' ∉ name.toList := by
  obtain ⟨front, dots, hparts, -⟩ := hends.parts
  have hmem : name ∈ components path := by
    rw [hparts]
    exact List.mem_append_right front List.mem_cons_self
  obtain ⟨piece, hpiece, rfl⟩ := List.mem_map.1 hmem
  intro hslash
  rw [String.toList_ofList] at hslash
  cases Text.plain_of_mem_pieces (List.mem_filter.1 hpiece).1 _ hslash

end Path

namespace Protocol

open Text

structure ListedPath extends Line where
  visible : isAllBlank text = false
  unreturned : text.toList.getLast? ≠ some '\r'

inductive ListingLine
  | file (path : ListedPath)
  | blank (padding : Padding)

namespace ListingLine

def line : ListingLine → Line
  | .file path => path.toLine
  | .blank padding => padding.toLine

def path? : ListingLine → Option Path
  | .file path => some path.text
  | .blank _ => none

end ListingLine

abbrev Listing : Type :=
  Page ListingLine

namespace Listing

def text (listing : Listing) : String :=
  Page.text ListingLine.line listing

def paths (listing : Listing) : List Path :=
  listing.entries.filterMap ListingLine.path?

end Listing

/-!
## Reading one line
-/

theorem pathOf?_append_return (cs : List Char) :
    pathOf? (String.ofList (cs ++ ['\r'])) = pathOf? (String.ofList cs) := by
  rw [pathOf?, pathOf?, String.toList_ofList, String.toList_ofList,
    dropLast_append_of_leaves cs (by rfl)]

theorem pathOf?_listedPath (path : ListedPath) : pathOf? path.text = some path.text := by
  have hstays : ∀ c ∈ path.text.toList.getLast?, (c == '\r') = false := by
    intro c hlast
    rw [beq_eq_false_iff_ne]
    rintro rfl
    exact path.unreturned hlast
  rw [pathOf?, dropLast_of_stays hstays, String.ofList_toList]
  exact if_neg (Bool.not_eq_true _ ▸ path.visible)

theorem pathOf?_padding (padding : Padding) : pathOf? padding.text = none := by
  have hblank : isAllBlank (String.ofList (dropLast (· == '\r') padding.text.toList)) = true := by
    rw [isAllBlank, String.toList_ofList, List.all_eq_true]
    exact fun c hmem => padding.isBlank_of_mem c (mem_of_mem_dropLast hmem)
  simp only [pathOf?, hblank, if_true]

theorem pathOf?_listingLine (entry : ListingLine) : pathOf? entry.line.text = entry.path? := by
  cases entry with
  | file path => exact pathOf?_listedPath path
  | blank padding => exact pathOf?_padding padding

theorem filterMap_pathOf? (listing : Listing) :
    (lines listing.text).filterMap pathOf? = listing.paths := by
  rw [Listing.text, Page.filterMap_lines ListingLine.line (by rfl) pathOf?_append_return,
    Listing.paths]
  exact congrArg (List.filterMap · listing.entries) (funext pathOf?_listingLine)

/-!
## The commands
-/

theorem slash_not_mem_flatName (path : Path) : '/' ∉ (flatName path).toList := by
  rw [flatName, String.toList_ofList]
  intro hmem
  obtain ⟨c, -, hc⟩ := List.mem_map.1 hmem
  split at hc
  · cases hc
  · rename_i hplain
    exact hplain (beq_iff_eq.2 hc)

/-- The name for the content of a file: the last component, or else the flattened path. -/
inductive NameFor (path : Path) : String → Prop
  | last {name : String} (hends : path.EndsIn name) : NameFor path name
  | flat (hends : ∀ name, ¬ path.EndsIn name) : NameFor path (flatName path)

theorem nameFor_getD (path : Path) : NameFor path (path.fileName.getD (flatName path)) := by
  cases hname : path.fileName with
  | some name => exact .last (Path.fileName_eq_some_iff.1 hname)
  | none =>
      refine .flat fun name hends => ?_
      cases hname.symm.trans (Path.fileName_eq_some_iff.2 hends)

theorem NameFor.slash_not_mem {path : Path} {name : String} (hname : NameFor path name) :
    '/' ∉ name.toList := by
  cases hname with
  | last hends => exact Path.slash_not_mem_of_endsIn hends
  | flat _ => exact slash_not_mem_flatName path

/--
To the shell, the command asks for the content of the file and for nothing else, and the
names that its output may get have no slashes.
-/
structure AsksForContent (path : Path) (command : LogCommand) : Prop where
  words : readWords command.command = some ["sudo", "cat", path]
  fileName : NameFor path command.fileName
  fallback : command.fallback = some (flatName path)
  noSlash : ∀ name ∈ command.fileName :: command.fallback.toList, '/' ∉ name.toList

theorem asksForContent (path : Path) : AsksForContent path (readCommand path) where
  words := readWords_append_quoteWord ["sudo", "cat"] (by rfl) (by decide) path
  fileName := nameFor_getD path
  fallback := rfl
  noSlash := by
    rw [readCommand, Option.toList_some, List.forall_mem_cons, List.forall_mem_singleton]
    exact ⟨(nameFor_getD path).slash_not_mem, slash_not_mem_flatName path⟩

/--
Whatever line ends and blank lines a listing has, each of its paths gets one command, in the
listing's order, which the shell reads as words of which the path is the last.
-/
theorem commands_of_listing (listing : Listing) :
    List.Forall₂ AsksForContent listing.paths (readCommands listing.text) := by
  rw [readCommands, filterMap_pathOf?, List.forall₂_map_right_iff]
  exact List.forall₂_same.2 fun path _ => asksForContent path

example : ∃ listing : Listing,
    listing.text = "/var/log/a b\r\n \n../x/.." ∧
      (readCommands listing.text).map LogCommand.fileName = ["a b", "..-x-.."] :=
  ⟨⟨[(.file ⟨⟨"/var/log/a b", by decide⟩, by decide, by decide⟩, .returnFeed),
      (.blank ⟨⟨" ", by decide⟩, by decide⟩, .feed)],
    .file ⟨⟨"../x/..", by decide⟩, by decide, by decide⟩⟩, by decide, by decide⟩

end Protocol
end LogHarvest
