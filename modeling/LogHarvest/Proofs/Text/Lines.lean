import LogHarvest.Proofs.Text.Pieces

/-!
# Pages of lines

A line of a page ends in a line feed, alone or behind a carriage return, and the last line
has no end.  Whoever cuts the page into lines gets them back, except that a carriage return
of a line's own before a lone line feed counts as a part of the end.  So a reader of lines
that does not care for a carriage return at the end, and takes nothing from an empty line,
takes from the page what the lines have.
-/

namespace LogHarvest
namespace Text

structure Line where
  text : String
  unbroken : '\n' ∉ text.toList

inductive LineEnd
  | feed
  | returnFeed
deriving DecidableEq, Repr

def LineEnd.front : LineEnd → List Char
  | .feed => []
  | .returnFeed => ['\r']

/-- Things that are lines, with their ends; the last has none. -/
structure Page (α : Type) where
  ended : List (α × LineEnd)
  last : α

namespace Page

variable {α : Type}

def entries (page : Page α) : List α :=
  page.ended.map Prod.fst ++ [page.last]

def charsOf (line : α → Line) (ended : List (α × LineEnd)) (last : α) : List Char :=
  match ended with
  | [] => (line last).text.toList
  | (entry, lineEnd) :: rest =>
      (line entry).text.toList ++ lineEnd.front ++ '\n' :: charsOf line rest last

def text (line : α → Line) (page : Page α) : String :=
  String.ofList (charsOf line page.ended page.last)

end Page

/-!
## Cutting a text at its line feeds
-/

theorem endedLines_cons {rest : List (List Char)} (piece : List Char) (hrest : rest ≠ []) :
    endedLines (piece :: rest) = dropReturn piece :: endedLines rest := by
  cases rest with
  | nil => exact absurd rfl hrest
  | cons next rest => rfl

theorem pieces_of_unbroken {cs : List Char} (hcs : '\n' ∉ cs) : pieces (· == '\n') cs = [cs] := by
  refine pieces_of_plain fun c hmem => beq_eq_false_iff_ne.2 ?_
  rintro rfl
  exact hcs hmem

theorem linesOf_of_unbroken {cs : List Char} (hcs : '\n' ∉ cs) :
    linesOf cs = if cs.isEmpty then [] else [cs] := by
  rw [linesOf, pieces_of_unbroken hcs]
  rfl

theorem linesOf_append_feed {cs : List Char} (hcs : '\n' ∉ cs) (rest : List Char) :
    linesOf (cs ++ '\n' :: rest) = dropReturn cs :: linesOf rest := by
  rw [linesOf, pieces_append_separator cs rest (by rfl), pieces_of_unbroken hcs,
    List.singleton_append, endedLines_cons cs (pieces_ne_nil _ rest)]
  rfl

theorem dropReturn_cases (cs : List Char) :
    dropReturn cs = cs ∨ cs = dropReturn cs ++ ['\r'] := by
  fun_induction dropReturn cs with
  | case1 => exact Or.inl rfl
  | case2 => exact Or.inr rfl
  | case3 c rest hlast ih =>
      rcases ih with hsame | hmore
      · exact Or.inl (by rw [hsame])
      · exact Or.inr (by rw [List.cons_append, ← hmore])

theorem LineEnd.front_unbroken (lineEnd : LineEnd) : '\n' ∉ lineEnd.front := by
  cases lineEnd <;> decide

/-!
## Reading a page
-/

section Reading

variable {α β : Type} {read : String → Option β}

/-- The carriage returns of a line, its own and its end's, do not matter to such a reader. -/
theorem read_dropReturn
    (hreturn : ∀ cs, read (String.ofList (cs ++ ['\r'])) = read (String.ofList cs))
    (text : String) (lineEnd : LineEnd) :
    read (String.ofList (dropReturn (text.toList ++ lineEnd.front))) = read text := by
  have hdrop (cs : List Char) : read (String.ofList (dropReturn cs)) = read (String.ofList cs) := by
    rcases dropReturn_cases cs with hsame | hmore
    · rw [hsame]
    · conv => rhs; rw [hmore, hreturn]
  rw [hdrop]
  cases lineEnd with
  | feed => rw [LineEnd.front, List.append_nil, String.ofList_toList]
  | returnFeed => rw [LineEnd.front, hreturn, String.ofList_toList]

theorem filterMap_linesOf (line : α → Line) (hempty : read "" = none)
    (hreturn : ∀ cs, read (String.ofList (cs ++ ['\r'])) = read (String.ofList cs))
    (ended : List (α × LineEnd)) (last : α) :
    ((linesOf (Page.charsOf line ended last)).map String.ofList).filterMap read =
      (ended.map Prod.fst ++ [last]).filterMap fun entry => read (line entry).text := by
  induction ended with
  | nil =>
      rw [Page.charsOf, linesOf_of_unbroken (line last).unbroken]
      split
      · -- A last line without characters is not on the page.
        rename_i hnothing
        have htext : (line last).text = "" :=
          String.toList_eq_nil_iff.1 (List.isEmpty_iff.1 hnothing)
        simp [htext, hempty]
      · rw [List.map_singleton, String.ofList_toList]
        rfl
  | cons entry rest ih =>
      obtain ⟨entry, lineEnd⟩ := entry
      have hunbroken : '\n' ∉ (line entry).text.toList ++ lineEnd.front :=
        List.not_mem_append (line entry).unbroken lineEnd.front_unbroken
      rw [Page.charsOf, linesOf_append_feed hunbroken, List.map_cons, List.filterMap_cons,
        read_dropReturn hreturn, ih, List.map_cons, List.cons_append, List.filterMap_cons]

theorem Page.filterMap_lines (line : α → Line) (hempty : read "" = none)
    (hreturn : ∀ cs, read (String.ofList (cs ++ ['\r'])) = read (String.ofList cs))
    (page : Page α) :
    (lines (page.text line)).filterMap read =
      page.entries.filterMap fun entry => read (line entry).text := by
  rw [lines, Page.text, String.toList_ofList]
  exact filterMap_linesOf line hempty hreturn page.ended page.last

end Reading

end Text
end LogHarvest
