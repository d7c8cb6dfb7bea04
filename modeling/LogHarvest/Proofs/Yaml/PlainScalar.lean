import LogHarvest.Proofs.Yaml.Quoted
import LogHarvest.Yaml.Style

/-!
# Reading plain scalars

A text that can be written plainly consists of words with blanks between them, and no
word is taken for an indicator.  It is read up to the colon behind it, if it is a key, or
up to the next line, if that line is no part of it.
-/

namespace LogHarvest
namespace Yaml

/-- Words with blanks between them, none of which starts or ends a plain scalar. -/
inductive Worded : List Char → Prop
  | nil : Worded []
  | char {c text} :
      isWhite c = false → (c = ':' → atGap text = false) → Worded text → Worded (c :: text)
  | gap {n c text} :
      isWhite c = false → c ≠ '#' → Worded (c :: text) → Worded (spaces (n + 1) ++ c :: text)

def resumePlain (indent fuel : Nat) (acc : List Char) (gap : Gap) :
    Option (List Char × Cursor) → Option (List Char × Bool × Cursor)
  | none => none
  | some (run, p) =>
      let acc' := if run.isEmpty then acc else run ++ gap.sense.reverse ++ acc
      let gap' := if run.isEmpty then gap else .none
      match p.rest with
      | [] => some (acc', gap'.broken, p)
      | c :: _ =>
          if !(isSpace c || isBreak c) then some (acc', gap'.broken, p)
          else
            match takeGap indent (p.left + 1) gap' p with
            | none => none
            | some (gap'', p') =>
                if p'.column < indent then some (acc', gap''.broken, p')
                else takePlainFrom false indent fuel acc' gap'' p'

theorem takePlainFrom_succ (indent fuel : Nat) (acc : List Char) (gap : Gap) (p : Cursor) :
    takePlainFrom false indent (fuel + 1) acc gap p =
      if p.atDocumentMarker || p.sees '#' then some (acc, gap.broken, p)
      else resumePlain indent fuel acc gap (takePlainRun false (p.left + 1) [] p) := by
  rw [takePlainFrom]
  simp only [Bool.not_false, Bool.true_and, decide_eq_true_eq]
  rcases takePlainRun false (p.left + 1) [] p with _ | ⟨run, p'⟩ <;> rfl

theorem takePlainRun_white {fuel : Nat} {run : List Char} {p : Cursor} {c : Char} {rest : List Char}
    (hrest : p.rest = c :: rest) (hc : isWhite c = true) :
    takePlainRun false (fuel + 1) run p = some (run, p) := by
  rw [takePlainRun, hrest]
  exact if_pos hc

theorem takePlainRun_char {fuel : Nat} {run : List Char} {p : Cursor} {c : Char} {rest : List Char}
    (hrest : p.rest = c :: rest) (hc : isWhite c = false) (hcolon : c = ':' → atGap rest = false) :
    takePlainRun false (fuel + 1) run p = takePlainRun false fuel (c :: run) (p.past [c]) := by
  have hwhite : (isSpace c || isBreak c) = false := hc
  have hbreak : isBreak c = false := (Bool.or_eq_false_iff.1 hc).2
  have hends : (c == ':' && atGap rest) = false := by
    by_cases h : c = ':'
    · rw [hcolon h, Bool.and_false]
    · simp [h]
  rw [takePlainRun, Cursor.past_single hbreak]
  simp only [hrest, hwhite, hends, isLostColon, Bool.false_and, Bool.or_false, Bool.false_eq_true,
    if_false]

theorem resumePlain_gap {indent fuel : Nat} {acc run : List Char} (hrun : run ≠ []) {gap gap' : Gap}
    {p p' : Cursor} {c : Char} {rest : List Char} (hrest : p.rest = c :: rest)
    (hc : isWhite c = true) (hgap : takeGap indent (p.left + 1) .none p = some (gap', p')) :
    resumePlain indent fuel acc gap (some (run, p)) =
      if p'.column < indent then some (run ++ gap.sense.reverse ++ acc, gap'.broken, p')
      else takePlainFrom false indent fuel (run ++ gap.sense.reverse ++ acc) gap' p' := by
  have hwhite : (isSpace c || isBreak c) = true := hc
  have hempty : run.isEmpty = false := List.isEmpty_eq_false_iff.2 hrun
  unfold resumePlain
  simp only [hrest, hempty, hgap, hwhite, Bool.false_eq_true, if_false, Bool.not_true]

theorem resumePlain_worded {indent : Nat} {ending taken : List Char} {crossed : Bool}
    (hend : ∀ {p : Cursor} {run acc gap fuel runFuel}, p.rest = ending → p.Fits → run ≠ [] →
      resumePlain indent fuel acc gap (takePlainRun false (runFuel + 1) run p) =
        some (run ++ gap.sense.reverse ++ acc, crossed, p.past taken))
    {text : List Char} (hworded : Worded text) {p : Cursor} (hfits : p.Fits)
    (hrest : p.rest = text ++ ending) {run : List Char}
    (hstart : run ≠ [] ∨ StartsOutside isWhite text ∧ text ≠ [])
    (hcolumn : indent ≤ p.column + 1) (hfirst : run ≠ [] → indent ≤ p.column)
    {runFuel fuel : Nat} (hrunFuel : text.length < runFuel) (hfuel : text.length ≤ fuel)
    (acc : List Char) (gap : Gap) :
    resumePlain indent fuel acc gap (takePlainRun false runFuel run p) =
      some (text.reverse ++ (run ++ gap.sense.reverse ++ acc), crossed,
        p.past (text ++ taken)) := by
  induction hworded generalizing p run runFuel fuel acc gap with
  | nil =>
      obtain ⟨runFuel, rfl⟩ : ∃ less, runFuel = less + 1 := ⟨runFuel - 1, by omega⟩
      exact hend hrest hfits (hstart.resolve_right fun h => h.2 rfl)
  | @char c text hc hcolon hmore ih =>
      obtain ⟨runFuel, rfl⟩ : ∃ less, runFuel = less + 1 := ⟨runFuel - 1, by omega⟩
      rw [List.length_cons] at hrunFuel hfuel
      rw [List.cons_append] at hrest
      have hbreak : isBreak c = false := (Bool.or_eq_false_iff.1 hc).2
      have hcolon' : c = ':' → atGap (text ++ ending) = false := by
        intro h
        have hgap := hcolon h
        cases text with
        | nil => exact absurd hgap (by decide)
        | cons d more => exact hgap
      have hafter : (p.past [c]).column = p.column + 1 := by
        rw [Cursor.past_single hbreak]
        rfl
      rw [takePlainRun_char hrest hc hcolon', ih (hfits.past hrest) (Cursor.rest_past hrest)
        (.inl (List.cons_ne_nil c run)) (by omega) (fun _ => by omega) (by omega) (by omega),
        List.cons_append, Cursor.past_cons _ c, List.reverse_cons, List.append_assoc _ [c]]
      rfl
  | @gap n c text hc hhash hmore ih =>
      -- The run ends here; the words behind the blanks are read in a run of their own.
      obtain ⟨runFuel, rfl⟩ : ∃ less, runFuel = less + 1 := ⟨runFuel - 1, by omega⟩
      rw [List.length_append, length_spaces] at hrunFuel hfuel
      obtain ⟨fuel, rfl⟩ : ∃ less, fuel = less + 1 := ⟨fuel - 1, by omega⟩
      have hrun : run ≠ [] := hstart.resolve_right fun h => absurd (h.1 ' ' rfl) (by decide)
      rw [List.append_assoc] at hrest
      have houtside : StartsOutside isWhite (c :: text ++ ending) := by
        intro d hd
        rw [← Option.some.inj hd]
        exact hc
      have hafter := Cursor.rest_past hrest
      have hcolumn' : (p.past (spaces (n + 1))).column = p.column + (n + 1) := by
        rw [Cursor.column_past (unbroken_spaces _), length_spaces]
      have hgap : takeGap indent (p.left + 1) .none p =
          some (⟨spaces (n + 1), [], [], false⟩, p.past (spaces (n + 1))) :=
        takeGap_blanks hrest houtside (by simpa using hfits.length_lt hrest)
      have hindent := hfirst hrun
      have hmarker : (p.past (spaces (n + 1))).atDocumentMarker = false := by
        have hzero : ((p.past (spaces (n + 1))).column == 0) = false :=
          beq_eq_false_iff_ne.2 (by omega)
        simp [Cursor.atDocumentMarker, Cursor.atMarker, hzero]
      have hsees : (p.past (spaces (n + 1))).sees '#' = false := by
        unfold Cursor.sees
        rw [hafter]
        simpa using hhash
      rw [takePlainRun_white hrest isWhite_space, resumePlain_gap hrun hrest isWhite_space hgap,
        if_neg (by omega), takePlainFrom_succ, hmarker, hsees, if_neg (by decide),
        ih (hfits.past hrest) hafter
          (.inr ⟨fun d hd => houtside d (by simpa using hd), List.cons_ne_nil c text⟩)
          (by omega) (fun h => absurd rfl h) ((hfits.past hrest).length_lt hafter) (by omega),
        List.append_assoc (spaces (n + 1)), Cursor.past_append _ (spaces (n + 1)),
        List.reverse_append, List.append_assoc _ (spaces (n + 1)).reverse]
      rfl

/-!
## Texts that can be written plainly
-/

structure Plainly (text : List Char) : Prop where
  worded : Worded text
  some : text ≠ []
  starts : StartsOutside isWhite text
  /-- A reader does not take the start of the text for an indicator. -/
  indicator : hasIndicator text = false
  shown : ∀ c ∈ text, isShown c = true

theorem worded_of_inner {text : List Char} {gap : Bool}
    (hinner : hasInnerIndicator gap text = false)
    (hwhite : ∀ c ∈ text, isWhite c = true → c = ' ') (hlast : text.getLast? ≠ some ' ') :
    Worded text := by
  induction text generalizing gap with
  | nil => exact .nil
  | cons c text ih =>
      unfold hasInnerIndicator at hinner
      simp only [Bool.or_eq_false_iff] at hinner
      obtain ⟨⟨hcolon, -⟩, hmore⟩ := hinner
      have hwhite' : ∀ d ∈ text, isWhite d = true → d = ' ' :=
        fun d hd => hwhite d (List.mem_cons_of_mem c hd)
      have hworded : Worded text := by
        apply ih hmore hwhite'
        cases text with
        | nil => simp
        | cons d more => rwa [List.getLast?_cons_cons] at hlast
      cases hc : isWhite c with
      | false =>
          refine .char hc (fun h => ?_) hworded
          simpa [h] using hcolon
      | true =>
          have hspace := hwhite c List.mem_cons_self hc
          subst hspace
          cases hworded with
          | nil => exact absurd rfl hlast
          | @char d more hd hdcolon hdmore =>
              refine @Worded.gap 0 d more hd ?_ (.char hd hdcolon hdmore)
              rintro rfl
              simp [hasInnerIndicator, isSpace] at hmore
          | @gap n d more hd hhash hdmore => exact @Worded.gap (n + 1) d more hd hhash hdmore

theorem plainly_of_allowsPlain {text : List Char} (hplain : allowsPlain text = true)
    (hsome : text ≠ []) : Plainly text := by
  unfold allowsPlain needsEscapes at hplain
  simp only [Bool.and_eq_true, Bool.not_eq_true', Bool.or_eq_false_iff] at hplain
  obtain ⟨⟨⟨⟨⟨hshown, -⟩, hbreak⟩, hindicator⟩, hhead⟩, hlast⟩ := hplain
  have hshown : ∀ c ∈ text, isShown c = true := by
    intro c hc
    simpa using List.any_eq_false.1 hshown c hc
  have hwhite : ∀ c ∈ text, isWhite c = true → c = ' ' := by
    intro c hc hcwhite
    have htab : c ≠ '\t' := by
      rintro rfl
      exact absurd (hshown '\t' hc) (by decide)
    have hcbreak : isBreak c = false := by simpa using List.any_eq_false.1 hbreak c hc
    simpa [isWhite, isSpace, hcbreak, htab] using hcwhite
  cases text with
  | nil => exact absurd rfl hsome
  | cons c rest =>
      have hc : isWhite c = false := by
        rw [← Bool.not_eq_true]
        intro hcwhite
        have hspace := hwhite c List.mem_cons_self hcwhite
        subst hspace
        rw [List.head?_cons, Option.any_some] at hhead
        exact absurd hhead (by decide)
      have hfirst := hindicator
      unfold hasIndicator at hfirst
      simp only [Bool.or_eq_false_iff] at hfirst
      obtain ⟨⟨-, hmark⟩, hinner⟩ := hfirst
      have hcolon : c = ':' → atGap rest = false := by
        rintro rfl
        simpa using hmark
      have hworded : Worded rest := by
        apply worded_of_inner hinner fun d hd => hwhite d (List.mem_cons_of_mem c hd)
        intro hspace
        cases rest with
        | nil => cases hspace
        | cons d more =>
            rw [List.getLast?_cons_cons, hspace] at hlast
            exact absurd hlast (by decide)
      refine ⟨.char hc hcolon hworded, hsome, ?_, hindicator, hshown⟩
      intro d hd
      rw [← Option.some.inj hd]
      exact hc

/-!
## The ends of a plain scalar
-/

def isMarkerChar (c : Char) : Bool :=
  c == '-' || c == '.'

theorem atMarker_of_plainly {text rest : List Char} (hplain : Plainly text)
    (houtside : StartsOutside isMarkerChar rest) {p : Cursor} (hrest : p.rest = text ++ rest)
    {m : Char} (hm : m = '-' ∨ m = '.') : p.atMarker m = false := by
  have hother : ∀ c ∈ rest.head?, c ≠ m := by
    rintro c hc rfl
    have hnot := houtside c hc
    rcases hm with rfl | rfl <;> exact absurd hnot (by decide)
  have hindicator := hplain.indicator
  have htake : ((text ++ rest).take 3 == [m, m, m]) = false := by
    rw [beq_eq_false_iff_ne]
    intro heq
    match text, hplain.some with
    | [c], _ =>
        cases rest with
        | nil => simp at heq
        | cons d more =>
            simp only [List.singleton_append, List.take_succ_cons, List.cons.injEq] at heq
            exact hother d rfl heq.2.1
    | [c, d], _ =>
        cases rest with
        | nil => simp at heq
        | cons e more =>
            simp only [List.cons_append, List.nil_append, List.take_succ_cons, List.cons.injEq]
              at heq
            exact hother e rfl heq.2.2.1
    | c :: d :: e :: more, _ =>
        simp only [List.cons_append, List.take_succ_cons, List.take_zero] at heq
        unfold hasIndicator at hindicator
        simp only [Bool.or_eq_false_iff, List.take_succ_cons, List.take_zero, heq] at hindicator
        rcases hm with rfl | rfl
        · exact absurd hindicator.1.1.1.1 (by decide)
        · exact absurd hindicator.1.1.1.2 (by decide)
  unfold Cursor.atMarker
  rw [hrest, htake, Bool.and_false, Bool.false_and]

theorem ne_of_plainly {c : Char} {rest : List Char} (hplain : Plainly (c :: rest)) {d : Char}
    (hd : d ∈ "#,[]\x7b\x7d&*!|>'\"%@\x60".toList) : c ≠ d := by
  rintro rfl
  have hindicator := hplain.indicator
  unfold hasIndicator at hindicator
  simp only [Bool.or_eq_false_iff] at hindicator
  have hnot := hindicator.1.1.2
  rw [List.contains_iff_mem.2 hd] at hnot
  cases hnot

theorem takePlain_worded {indent : Nat} {ending taken : List Char} {crossed : Bool}
    (hend : ∀ {p : Cursor} {run acc gap fuel runFuel}, p.rest = ending → p.Fits → run ≠ [] →
      resumePlain indent fuel acc gap (takePlainRun false (runFuel + 1) run p) =
        some (run ++ gap.sense.reverse ++ acc, crossed, p.past taken))
    (houtside : StartsOutside isMarkerChar ending) {text : List Char} (hplain : Plainly text)
    {p : Cursor} (hfits : p.Fits) (hrest : p.rest = text ++ ending)
    (hcolumn : indent ≤ p.column + 1) :
    takePlain false indent p = some (String.ofList text, crossed, p.past (text ++ taken)) := by
  have hmarker : p.atDocumentMarker = false := by
    unfold Cursor.atDocumentMarker
    rw [atMarker_of_plainly hplain houtside hrest (.inl rfl),
      atMarker_of_plainly hplain houtside hrest (.inr rfl)]
    rfl
  have hhash : p.sees '#' = false := by
    obtain ⟨c, more, rfl⟩ := List.exists_cons_of_ne_nil hplain.some
    have hne : c ≠ '#' := ne_of_plainly hplain (by decide)
    simp [Cursor.sees, hrest, hne]
  have hlength := hfits.length_lt hrest
  unfold takePlain
  rw [takePlainFrom_succ, hmarker, hhash, if_neg (by decide),
    resumePlain_worded hend hplain.worded hfits hrest (.inr ⟨hplain.starts, hplain.some⟩) hcolumn
      (fun h => absurd rfl h) hlength (by omega)]
  simp [Gap.none, Gap.sense]

theorem takePlain_key {indent : Nat} {text rest : List Char} (hplain : Plainly text)
    (hgap : atGap rest = true) {p : Cursor} (hfits : p.Fits) (hrest : p.rest = text ++ ':' :: rest)
    (hcolumn : indent ≤ p.column + 1) :
    takePlain false indent p = some (String.ofList text, false, p.past text) := by
  have hend : ∀ {p : Cursor} {run acc gap fuel runFuel}, p.rest = ':' :: rest → p.Fits → run ≠ [] →
      resumePlain indent fuel acc gap (takePlainRun false (runFuel + 1) run p) =
        some (run ++ gap.sense.reverse ++ acc, false, p.past []) := by
    intro p run acc gap fuel runFuel hending _ hrun
    have hstop : takePlainRun false (runFuel + 1) run p = some (run, p) := by
      rw [takePlainRun]
      simp [hending, hgap, isLostColon, isSpace, isBreak]
    have hwhite : (isSpace ':' || isBreak ':') = false := by decide
    rw [hstop]
    simp [resumePlain, hending, hwhite, hrun, Gap.none]
  have houtside : StartsOutside isMarkerChar (':' :: rest) :=
    fun c hc => by rw [← Option.some.inj hc]; decide
  have hword := takePlain_worded hend houtside hplain hfits hrest hcolumn
  rwa [List.append_nil] at hword

/-- A plain scalar ends where the next line is indented less. -/
theorem takePlain_line {indent n : Nat} {text rest : List Char} (hplain : Plainly text)
    (houtside : StartsOutside isWhite rest) (hn : n < indent) {p : Cursor} (hfits : p.Fits)
    (hrest : p.rest = text ++ '\n' :: (spaces n ++ rest)) (hcolumn : indent ≤ p.column + 1) :
    takePlain false indent p =
      some (String.ofList text, true, p.past (text ++ '\n' :: spaces n)) := by
  have hend : ∀ {p : Cursor} {run acc gap fuel runFuel},
      p.rest = '\n' :: (spaces n ++ rest) → p.Fits → run ≠ [] →
      resumePlain indent fuel acc gap (takePlainRun false (runFuel + 1) run p) =
        some (run ++ gap.sense.reverse ++ acc, true, p.past ('\n' :: spaces n)) := by
    intro p run acc gap fuel runFuel hending hfits hrun
    have hbreak : AllBreaks ['\n'] := fun c hc => .inl (List.mem_singleton.1 hc)
    have hlength : n + 1 < p.left + 1 := by
      rw [hfits.left, hending, List.length_cons, List.length_append, length_spaces]
      omega
    have hgap : takeGap indent (p.left + 1) .none p =
        some (⟨[], ['\n'], [], true⟩, p.past ('\n' :: spaces n)) :=
      takeGap_lines hbreak hending houtside (by simpa using hlength)
    have hafter : (p.past ('\n' :: spaces n)).column = n :=
      (Cursor.past_breaks hbreak (unbroken_spaces n) p).1.trans (length_spaces n)
    rw [takePlainRun_white hending rfl, resumePlain_gap hrun hending rfl hgap, hafter, if_pos hn]
  have houtside' : StartsOutside isMarkerChar ('\n' :: (spaces n ++ rest)) :=
    fun c hc => by rw [← Option.some.inj hc]; decide
  exact takePlain_worded hend houtside' hplain hfits hrest hcolumn

end Yaml
end LogHarvest
