import LogHarvest.Proofs.Yaml.Cursor
import LogHarvest.Yaml.ScalarText
import LogHarvest.Yaml.Value

/-!
# Reading quoted scalars

Between quotes a text is spelled by units, each of which stands for one character, and
by white space between them.  The relation `Spelled` says so, and whatever is spelled is
read.
-/

namespace LogHarvest
namespace Yaml

def isWhite (c : Char) : Bool :=
  isSpace c || isBreak c

theorem isWhite_space : isWhite ' ' = true := by decide

/-!
## White space
-/

@[simp] theorem length_spaces (n : Nat) : (spaces n).length = n := List.length_replicate

theorem spaces_succ (n : Nat) : spaces (n + 1) = ' ' :: spaces n := rfl

theorem unbroken_spaces (n : Nat) : Unbroken (spaces n) := unbroken_replicate rfl n

theorem takeGap_outside {tabsFrom fuel : Nat} {g : Gap} {p : Cursor}
    (hrest : StartsOutside isWhite p.rest) : takeGap tabsFrom (fuel + 1) g p = some (g, p) := by
  unfold takeGap
  cases hcases : p.rest with
  | nil => rfl
  | cons c rest =>
      have hc : (isSpace c || isBreak c) = false := hrest c (by rw [hcases]; rfl)
      rw [Bool.or_eq_false_iff] at hc
      simp [hc.1, hc.2]

theorem takeGap_blanks {tabsFrom fuel n : Nat} {g : Gap} {p : Cursor} {rest : List Char}
    (hrest : p.rest = spaces n ++ rest) (houtside : StartsOutside isWhite rest) (hfuel : n < fuel) :
    takeGap tabsFrom fuel g p =
      some (if g.broken then g else { g with blanks := g.blanks ++ spaces n },
        p.past (spaces n)) := by
  induction n generalizing fuel g p with
  | zero =>
      obtain ⟨more, rfl⟩ : ∃ more, fuel = more + 1 := ⟨fuel - 1, by omega⟩
      have hrest : p.rest = rest := hrest
      rw [takeGap_outside (by rw [hrest]; exact houtside)]
      simp [spaces]
  | succ n ih =>
      obtain ⟨more, rfl⟩ : ∃ more, fuel = more + 1 := ⟨fuel - 1, by omega⟩
      rw [spaces_succ, List.cons_append] at hrest
      have hskip : p.skip = p.past [' '] := (Cursor.past_single (by decide)).symm
      have hafter : (p.past [' ']).rest = spaces n ++ rest := Cursor.rest_past hrest
      unfold takeGap
      rw [hrest]
      simp only [show isSpace ' ' = true from rfl, if_true, hskip,
        show (' ' == '\t') = false from rfl, Bool.false_and, Bool.false_eq_true, if_false]
      rw [ih hafter (by omega), ih hafter (by omega), spaces_succ]
      split
      · rfl
      · rw [List.append_assoc]
        rfl

theorem takeGap_break {tabsFrom fuel : Nat} {g : Gap} {p : Cursor} {b : Char} {bs rest : List Char}
    (hbs : AllBreaks (b :: bs)) (hrest : p.rest = b :: rest) :
    takeGap tabsFrom (fuel + 1) g p =
      takeGap tabsFrom fuel
        (if g.broken then { g with more := g.more ++ [b] }
          else { g with blanks := [], first := [b], broken := true })
        (p.past [b]) := by
  have hb := hbs b List.mem_cons_self
  have hspace : isSpace b = false := by rcases hb with rfl | rfl | rfl <;> decide
  rw [takeGap, hrest]
  simp only [hspace, hbs.isBreak List.mem_cons_self, Cursor.takeBreak_eq hrest hb,
    Bool.false_eq_true, if_false, if_true]
  cases g.broken <;> rfl

theorem takeGap_breaks {tabsFrom fuel n : Nat} {blanks first found : List Char} {p : Cursor}
    {bs rest : List Char} (hbs : AllBreaks bs) (hrest : p.rest = bs ++ (spaces n ++ rest))
    (houtside : StartsOutside isWhite rest) (hfuel : bs.length + n < fuel) :
    takeGap tabsFrom fuel ⟨blanks, first, found, true⟩ p =
      some (⟨blanks, first, found ++ bs, true⟩, p.past (bs ++ spaces n)) := by
  induction bs generalizing fuel found p with
  | nil =>
      rw [takeGap_blanks hrest houtside (by simpa using hfuel), if_pos rfl, List.append_nil]
      rfl
  | cons b more ih =>
      obtain ⟨fuel, rfl⟩ : ∃ less, fuel = less + 1 := ⟨fuel - 1, by omega⟩
      have hafter : (p.past [b]).rest = more ++ (spaces n ++ rest) := Cursor.rest_past hrest
      rw [takeGap_break hbs hrest, if_pos rfl,
        ih (fun c hc => hbs c (List.mem_cons_of_mem b hc)) hafter (by simp at hfuel; omega),
        List.cons_append, Cursor.past_cons, List.append_assoc]
      rfl

/-- White space over lines: the first break stands by itself. -/
theorem takeGap_lines {tabsFrom fuel n : Nat} {p : Cursor} {b : Char} {bs rest : List Char}
    (hbs : AllBreaks (b :: bs)) (hrest : p.rest = b :: bs ++ (spaces n ++ rest))
    (houtside : StartsOutside isWhite rest) (hfuel : bs.length + n + 1 < fuel) :
    takeGap tabsFrom fuel .none p = some (⟨[], [b], bs, true⟩, p.past (b :: bs ++ spaces n)) := by
  obtain ⟨fuel, rfl⟩ : ∃ less, fuel = less + 1 := ⟨fuel - 1, by omega⟩
  have hafter : (p.past [b]).rest = bs ++ (spaces n ++ rest) := Cursor.rest_past hrest
  rw [takeGap_break hbs hrest, List.cons_append, Cursor.past_cons]
  exact takeGap_breaks (fun c hc => hbs c (List.mem_cons_of_mem b hc)) hafter houtside (by omega)

/-!
## What is spelled is read
-/

structure Stands (single : Bool) (u : List Char) (c : Char) : Prop where
  /-- Between single quotes a break stands in no unit. -/
  unbroken : single = true → isBreak c = false
  starts : u ≠ [] ∧ StartsOutside isWhite u
  reads : ∀ {fuel acc p rest}, p.rest = u ++ rest →
    takeQuotedRun single (fuel + 1) acc p = takeQuotedRun single fuel (c :: acc) (p.past u)

/-- The text between quotes and what it is spelled by; later lines are indented. -/
inductive Spelled (single : Bool) (indent : Nat) : List Char → List Char → Prop
  | nil : Spelled single indent [] []
  | unit {c u text written} :
      Stands single u c → Spelled single indent text written →
        Spelled single indent (c :: text) (u ++ written)
  | blanks {n text written} :
      StartsOutside isWhite written → Spelled single indent text written →
        Spelled single indent (spaces (n + 1) ++ text) (spaces (n + 1) ++ written)
  | lines {b bs text written} :
      single = true → AllBreaks (b :: bs) → b ≠ '\n' → StartsOutside isWhite written →
        Spelled single indent text written →
          Spelled single indent (b :: bs ++ text) (b :: bs ++ (spaces indent ++ written))

def quoteOf (single : Bool) : Char :=
  if single then '\'' else '"'

def resumeQuoted (single : Bool) (fuel : Nat) :
    Option (List Char × RunEnd × Cursor) → Option (List Char × Cursor)
  | none => none
  | some (acc, ending, p) =>
      if p.sees (quoteOf single) then some (acc, p.skip)
      else
        let gap : Gap :=
          match ending with
          | .plain => .none
          | .escapedBreak => { Gap.none with broken := true }
        match takeGap 0 (p.left + 1) gap p with
        | none => none
        | some (gap', p') => takeQuotedFrom single fuel (gap'.sense.reverse ++ acc) p'

theorem takeQuotedFrom_succ (single : Bool) (fuel : Nat) (acc : List Char) (p : Cursor) :
    takeQuotedFrom single (fuel + 1) acc p =
      if p.atDocumentMarker || p.rest.isEmpty then none
      else resumeQuoted single fuel (takeQuotedRun single (p.left + 1) acc p) := by
  rw [takeQuotedFrom]
  rcases takeQuotedRun single (p.left + 1) acc p with _ | ⟨acc', ending, p'⟩ <;> rfl

theorem isWhite_quoteOf (single : Bool) : isWhite (quoteOf single) = false := by
  cases single <;> rfl

theorem resumeQuoted_gap {single : Bool} {fuel runFuel : Nat} {acc : List Char} {p : Cursor}
    (hwhite : ∃ c rest, p.rest = c :: rest ∧ isWhite c = true) {gap : Gap} {p' : Cursor}
    (hgap : takeGap 0 (p.left + 1) .none p = some (gap, p')) :
    resumeQuoted single fuel (takeQuotedRun single (runFuel + 1) acc p) =
      takeQuotedFrom single fuel (gap.sense.reverse ++ acc) p' := by
  obtain ⟨c, rest, hrest, hc⟩ := hwhite
  have hrun : takeQuotedRun single (runFuel + 1) acc p = some (acc, .plain, p) := by
    unfold takeQuotedRun
    rw [hrest]
    exact if_pos hc
  have hquote : p.sees (quoteOf single) = false := by
    unfold Cursor.sees
    rw [hrest, List.head?_cons, beq_eq_false_iff_ne]
    intro heq
    rw [Option.some.inj heq, isWhite_quoteOf] at hc
    cases hc
  rw [hrun]
  unfold resumeQuoted
  simp only [hquote, hgap, Bool.false_eq_true, if_false]

theorem takeQuotedFrom_eq {single : Bool} {fuel : Nat} (acc : List Char) {p : Cursor}
    (hcolumn : 0 < p.column) (hrest : p.rest ≠ []) :
    takeQuotedFrom single (fuel + 1) acc p =
      resumeQuoted single fuel (takeQuotedRun single (p.left + 1) acc p) := by
  have hmarker : p.atDocumentMarker = false := by
    have hzero : (p.column == 0) = false := beq_eq_false_iff_ne.2 (Nat.ne_of_gt hcolumn)
    simp [Cursor.atDocumentMarker, Cursor.atMarker, hzero]
  rw [takeQuotedFrom_succ, hmarker, Bool.false_or, List.isEmpty_eq_false_iff.2 hrest]
  rfl

theorem resumeQuoted_quote {single : Bool} {rest : List Char}
    (hsingle : single = true → rest.head? ≠ some '\'') {p : Cursor}
    (hrest : p.rest = quoteOf single :: rest) (runFuel fuel : Nat) (acc : List Char) :
    resumeQuoted single fuel (takeQuotedRun single (runFuel + 1) acc p) =
      some (acc, p.past [quoteOf single]) := by
  have hrun : takeQuotedRun single (runFuel + 1) acc p = some (acc, .plain, p) := by
    unfold takeQuotedRun
    rw [hrest]
    cases single with
    | false => rfl
    | true =>
        have hhead : (rest.head? == some '\'') = false := beq_eq_false_iff_ne.2 (hsingle rfl)
        simp [quoteOf, hhead, isSpace, isBreak]
  have hquote : p.sees (quoteOf single) = true := by
    simp [Cursor.sees, hrest]
  have hbreak : isBreak (quoteOf single) = false := by cases single <;> rfl
  rw [hrun, Cursor.past_single hbreak]
  exact if_pos hquote

theorem startsOutside_quote {written : List Char} (houtside : StartsOutside isWhite written)
    (single : Bool) (rest : List Char) :
    StartsOutside isWhite (written ++ quoteOf single :: rest) := by
  intro c hc
  cases written with
  | nil =>
      rw [← Option.some.inj hc]
      exact isWhite_quoteOf single
  | cons d more => exact houtside c hc

theorem resumeQuoted_white {single : Bool} {fuel runFuel : Nat} {acc : List Char} {p : Cursor}
    {white next : List Char} (hrest : p.rest = white ++ next) (hnext : next ≠ [])
    (hwhite : ∃ c more, white = c :: more ∧ isWhite c = true) {gap : Gap}
    (hgap : takeGap 0 (p.left + 1) .none p = some (gap, p.past white))
    (hcolumn : 0 < (p.past white).column) :
    resumeQuoted single (fuel + 1) (takeQuotedRun single (runFuel + 1) acc p) =
      resumeQuoted single fuel (takeQuotedRun single ((p.past white).left + 1)
        (gap.sense.reverse ++ acc) (p.past white)) := by
  have hsome : (p.past white).rest ≠ [] := by
    rw [Cursor.rest_past hrest]
    exact hnext
  obtain ⟨c, more, rfl, hc⟩ := hwhite
  rw [resumeQuoted_gap ⟨c, _, hrest, hc⟩ hgap, takeQuotedFrom_eq _ hcolumn hsome]

theorem resumeQuoted_spelled {single : Bool} {indent : Nat} (hindent : 0 < indent)
    {text written : List Char} (hspelled : Spelled single indent text written) {rest : List Char}
    (hsingle : single = true → rest.head? ≠ some '\'') {p : Cursor}
    (hrest : p.rest = written ++ quoteOf single :: rest) (hfits : p.Fits) {runFuel fuel : Nat}
    (hrunFuel : written.length < runFuel) (hfuel : written.length ≤ fuel) (acc : List Char) :
    resumeQuoted single fuel (takeQuotedRun single runFuel acc p) =
      some (text.reverse ++ acc, p.past (written ++ [quoteOf single])) := by
  have hsome : ∀ written, written ++ quoteOf single :: rest ≠ [] := fun _ =>
    List.append_ne_nil_of_right_ne_nil _ (List.cons_ne_nil _ _)
  induction hspelled generalizing p runFuel fuel acc with
  | nil =>
      obtain ⟨runFuel, rfl⟩ : ∃ less, runFuel = less + 1 := ⟨runFuel - 1, by omega⟩
      exact resumeQuoted_quote hsingle hrest runFuel fuel acc
  | @unit c u text written hunit hspelled ih =>
      obtain ⟨runFuel, rfl⟩ : ∃ less, runFuel = less + 1 := ⟨runFuel - 1, by omega⟩
      rw [List.append_assoc] at hrest
      have hlength : 0 < u.length := List.length_pos_iff.2 hunit.starts.1
      rw [List.length_append] at hrunFuel hfuel
      rw [hunit.reads hrest, ih (Cursor.rest_past hrest) (hfits.past hrest) (by omega) (by omega),
        List.append_assoc, Cursor.past_append _ u, List.reverse_cons, List.append_assoc]
      rfl
  | @blanks n text written houtside hspelled ih =>
      obtain ⟨runFuel, rfl⟩ : ∃ less, runFuel = less + 1 := ⟨runFuel - 1, by omega⟩
      rw [List.length_append, length_spaces] at hrunFuel hfuel
      obtain ⟨fuel, rfl⟩ : ∃ less, fuel = less + 1 := ⟨fuel - 1, by omega⟩
      rw [List.append_assoc] at hrest
      have hafter := Cursor.rest_past hrest
      have hcolumn : 0 < (p.past (spaces (n + 1))).column := by
        rw [Cursor.column_past (unbroken_spaces _), length_spaces]
        omega
      have hgap : takeGap 0 (p.left + 1) .none p =
          some (⟨spaces (n + 1), [], [], false⟩, p.past (spaces (n + 1))) :=
        takeGap_blanks hrest (startsOutside_quote houtside single rest)
          (by simpa using hfits.length_lt hrest)
      rw [resumeQuoted_white hrest (hsome written) ⟨' ', _, rfl, isWhite_space⟩ hgap hcolumn,
        ih hafter (hfits.past hrest) ((hfits.past hrest).length_lt hafter) (by omega),
        List.append_assoc, Cursor.past_append _ (spaces (n + 1)), List.reverse_append,
        List.append_assoc]
      rfl
  | @lines b bs text written _ hbs hfirst houtside hspelled ih =>
      -- The breaks and the indentation behind them are one gap, which stands for the breaks.
      obtain ⟨runFuel, rfl⟩ : ∃ less, runFuel = less + 1 := ⟨runFuel - 1, by omega⟩
      simp only [List.length_append, List.length_cons, length_spaces] at hrunFuel hfuel
      obtain ⟨fuel, rfl⟩ : ∃ less, fuel = less + 1 := ⟨fuel - 1, by omega⟩
      rw [List.append_assoc, List.append_assoc] at hrest
      have hwhole : p.rest = (b :: bs ++ spaces indent) ++ (written ++ quoteOf single :: rest) := by
        rw [hrest, List.append_assoc]
      have hafter := Cursor.rest_past hwhole
      have hcolumn : 0 < (p.past (b :: bs ++ spaces indent)).column := by
        rw [(Cursor.past_breaks hbs (unbroken_spaces _) p).1, length_spaces]
        exact hindent
      have hgap : takeGap 0 (p.left + 1) .none p =
          some (⟨[], [b], bs, true⟩, p.past (b :: bs ++ spaces indent)) :=
        takeGap_lines hbs hrest (startsOutside_quote houtside single rest) (by
          have := hfits.length_lt hwhole
          simp at this
          omega)
      have hsense : (⟨[], [b], bs, true⟩ : Gap).sense = b :: bs := by
        simp [Gap.sense, hfirst]
      have hwhite : isWhite b = true := by simp [isWhite, hbs.isBreak]
      rw [resumeQuoted_white hwhole (hsome written) ⟨b, _, rfl, hwhite⟩ hgap hcolumn,
        ih hafter (hfits.past hwhole) ((hfits.past hwhole).length_lt hafter) (by omega), hsense,
        ← Cursor.past_append, ← List.append_assoc, ← List.reverse_append]
      simp only [List.append_assoc]

theorem takeQuoted_spelled {single : Bool} {indent : Nat} (hindent : 0 < indent)
    {text written : List Char} (hspelled : Spelled single indent text written) {rest : List Char}
    (hsingle : single = true → rest.head? ≠ some '\'') {p : Cursor} (hfits : p.Fits)
    (hrest : p.rest = quoteOf single :: written ++ quoteOf single :: rest) :
    takeQuoted single p =
      some (String.ofList text, p.past (quoteOf single :: written ++ [quoteOf single])) := by
  have hbreak : isBreak (quoteOf single) = false := by cases single <;> rfl
  have hskip : p.skip = p.past [quoteOf single] := (Cursor.past_single hbreak).symm
  rw [List.cons_append] at hrest
  have hafter : (p.past [quoteOf single]).rest = written ++ quoteOf single :: rest :=
    Cursor.rest_past hrest
  have hfits' : (p.past [quoteOf single]).Fits := hfits.past hrest
  have hcolumn : 0 < (p.past [quoteOf single]).column := by
    rw [Cursor.past_single hbreak]
    exact Nat.succ_pos _
  have hsome : (p.past [quoteOf single]).rest ≠ [] := by
    rw [hafter]
    simp
  have hlength : written.length ≤ p.left := by
    rw [hfits.left, hrest, List.length_cons, List.length_append]
    omega
  unfold takeQuoted
  rw [hskip, takeQuotedFrom_eq _ hcolumn hsome,
    resumeQuoted_spelled hindent hspelled hsingle hafter hfits' (hfits'.length_lt hafter) hlength,
    ← Cursor.past_append]
  simp

end Yaml
end LogHarvest
