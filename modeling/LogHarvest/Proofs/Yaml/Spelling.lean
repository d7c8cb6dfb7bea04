import LogHarvest.Proofs.Text.Digits
import LogHarvest.Proofs.Yaml.Quoted

/-!
# Quoting spells the text

Every character between double quotes has a unit that stands for it, be it an escape
with a letter or with hexadecimal digits.  Between single quotes the characters stand for
themselves, the quotes are doubled, and the lines behind breaks are indented.
-/

namespace LogHarvest
namespace Yaml

/-!
## Hexadecimal digits
-/

theorem hexValue?_toUpper {d : Nat} (hd : d < 16) : hexValue? d.digitChar.toUpper = some d := by
  revert d
  decide

theorem mapM_hexValue?_toDigits (n : Nat) :
    ∃ values, ((Nat.toDigits 16 n).map Char.toUpper).mapM hexValue? = some values ∧
      Text.digitsValue 16 values = n := by
  induction n using Nat.strong_induction_on with
  | _ n ih =>
      rw [Nat.toDigits_eq_if (by decide)]
      split
      · rename_i hsmall
        refine ⟨[n], ?_, by simp [Text.digitsValue]⟩
        simp [hexValue?_toUpper hsmall]
      · rename_i hlarge
        obtain ⟨values, hvalues, hworth⟩ := ih (n / 16) (by omega)
        refine ⟨values ++ [n % 16], ?_, ?_⟩
        · rw [List.map_append, List.mapM_append, hvalues]
          simp [hexValue?_toUpper (Nat.mod_lt n (show 16 > 0 by decide))]
        · rw [Text.digitsValue_append, hworth]
          show n / 16 * 16 ^ 1 + (0 * 16 + n % 16) = n
          omega

theorem codePoint?_hexDigits (width : Nat) (c : Char) :
    codePoint? (hexDigits width c.toNat) = some c := by
  obtain ⟨values, hvalues, hworth⟩ := mapM_hexValue?_toDigits c.toNat
  have hzeros : ∀ k, (List.replicate k '0').mapM hexValue? = some (List.replicate k 0) := by
    intro k
    induction k with
    | zero => rfl
    | succ k ih =>
        rw [List.replicate_succ, List.mapM_cons, ih]
        rfl
  have hvalid : c.toNat < 0xD800 ∨ 0xDFFF < c.toNat ∧ c.toNat < 0x110000 := c.valid
  have hvalue : Text.digitsValue 16
      (List.replicate (width - ((Nat.toDigits 16 c.toNat).map Char.toUpper).length) 0 ++ values) =
        c.toNat := by
    have hnone : ∀ k, Text.digitsValue 16 (List.replicate k 0) = 0 := by
      intro k
      induction k with
      | zero => rfl
      | succ k ih =>
          rw [List.replicate_succ', Text.digitsValue_append, ih]
          rfl
    rw [Text.digitsValue_append, hnone, hworth, Nat.zero_mul, Nat.zero_add]
  have hcheck : ((decide (0xD800 ≤ c.toNat) && decide (c.toNat ≤ 0xDFFF)) ||
      decide (0x10FFFF < c.toNat)) = false := by
    simp only [Bool.or_eq_false_iff, Bool.and_eq_false_iff, decide_eq_false_iff_not]
    omega
  unfold codePoint? hexDigits
  rw [List.mapM_append, hzeros, hvalues]
  unfold Text.digitsValue at hvalue
  simp only [Option.pure_def, Option.bind_eq_bind, Option.bind_some, hvalue, hcheck,
    Char.ofNat_toNat]
  rfl

theorem length_hexDigits {width n : Nat} (hwidth : 0 < width) (hn : n < 16 ^ width) :
    (hexDigits width n).length = width := by
  have hle := (Nat.length_toDigits_le_iff (by decide) hwidth).2 hn
  unfold hexDigits
  rw [List.length_append, List.length_replicate, List.length_map]
  omega

theorem shown_hexDigits (width n : Nat) :
    ∀ c ∈ hexDigits width n, isShown c = true ∧ isBreak c = false := by
  have hdigit : ∀ d < 16,
      isShown d.digitChar.toUpper = true ∧ isBreak d.digitChar.toUpper = false := by
    decide
  have hdigits : ∀ c ∈ (Nat.toDigits 16 n).map Char.toUpper,
      isShown c = true ∧ isBreak c = false := by
    induction n using Nat.strong_induction_on with
    | _ n ih =>
        rw [Nat.toDigits_eq_if (by decide)]
        split
        · rename_i hsmall
          simpa using hdigit n hsmall
        · rename_i hlarge
          have hlast := hdigit _ (Nat.mod_lt n (show 16 > 0 by decide))
          intro c hc
          rw [List.map_append, List.mem_append] at hc
          rcases hc with hfront | hback
          · exact ih (n / 16) (by omega) c hfront
          · rw [List.map_singleton, List.mem_singleton] at hback
            rw [hback]
            exact hlast
  intro c hc
  rcases List.mem_append.1 hc with hzero | hmem
  · rw [List.eq_of_mem_replicate hzero]
    decide
  · exact hdigits c hmem

theorem unbroken_hexDigits (width n : Nat) : Unbroken (hexDigits width n) :=
  fun c hc => (shown_hexDigits width n c hc).2

/-!
## Between double quotes
-/

theorem stands_escape {d : Char} {digits : List Char} {c : Char} (hd : isBreak d = false)
    (hreads : ∀ {p : Cursor} {rest}, p.rest = '\\' :: d :: digits ++ rest →
      takeEscape p = some (c, p.past ('\\' :: d :: digits))) :
    Stands false ('\\' :: d :: digits) c := by
  refine ⟨fun hsingle => (Bool.false_ne_true hsingle).elim, ⟨by simp, ?_⟩, ?_⟩
  · intro e he
    rw [← Option.some.inj he]
    decide
  · intro fuel acc p rest hrest
    have hescape := hreads hrest
    have hwhite : (isSpace '\\' || isBreak '\\') = false := by decide
    rw [List.cons_append, List.cons_append] at hrest
    rw [takeQuotedRun]
    simp [hrest, hwhite, hd, atLineEnd, hescape]

theorem simpleEscape?_of_letter {c letter : Char} (hletter : escapeLetter? c = some letter) :
    simpleEscape? letter = some c ∧ isBreak letter = false := by
  unfold escapeLetter? at hletter
  split at hletter
  all_goals
    cases hletter
  all_goals decide

theorem stands_letter {c letter : Char} (hletter : escapeLetter? c = some letter) :
    Stands false ['\\', letter] c := by
  obtain ⟨hmeaning, hbreak⟩ := simpleEscape?_of_letter hletter
  apply stands_escape hbreak
  intro p rest hrest
  have hunbroken : Unbroken ['\\', letter] := .cons rfl (.cons hbreak (by simp [Unbroken]))
  unfold takeEscape
  rw [Cursor.past_unbroken hunbroken, hrest]
  simp [hmeaning]

theorem stands_digits {c mark : Char} {width : Nat} (hmark : escapeDigits? mark = some width)
    (hsize : c.toNat < 16 ^ width) : Stands false ('\\' :: mark :: hexDigits width c.toNat) c := by
  have hwidth : 0 < width ∧ isBreak mark = false ∧ simpleEscape? mark = none := by
    unfold escapeDigits? at hmark
    split at hmark
    · cases hmark; decide
    · cases hmark; decide
    · cases hmark; decide
    · cases hmark
  have hlength := length_hexDigits hwidth.1 hsize
  apply stands_escape hwidth.2.1
  intro p rest hrest
  have hunbroken : Unbroken ('\\' :: mark :: hexDigits width c.toNat) :=
    .cons rfl (.cons hwidth.2.1 (unbroken_hexDigits width _))
  have htake : (hexDigits width c.toNat ++ rest).take width = hexDigits width c.toNat := by
    rw [List.take_append_of_le_length (Nat.le_of_eq hlength.symm),
      List.take_of_length_le (Nat.le_of_eq hlength)]
  have hpast : p.past ('\\' :: mark :: hexDigits width c.toNat) = p.skipMany (2 + width) := by
    rw [Cursor.past_unbroken hunbroken, List.length_cons, List.length_cons, hlength,
      Nat.add_comm 2]
  unfold takeEscape
  rw [hpast, hrest]
  simp [hwidth.2.2, hmark, htake, codePoint?_hexDigits, hlength]

theorem stands_escaped {c : Char} (hspace : c ≠ ' ') : Stands false (escaped c) c := by
  unfold escaped
  split
  · rename_i hplain
    simp only [Bool.and_eq_true, bne_iff_ne, Bool.not_eq_true'] at hplain
    obtain ⟨⟨⟨hshown, hbreak⟩, hquote⟩, hslash⟩ := hplain
    have htab : c ≠ '\t' := by
      rintro rfl
      exact absurd hshown (by decide)
    have hwhite : isWhite c = false := by simp [isWhite, isSpace, hspace, htab, hbreak]
    refine ⟨fun _ => hbreak, ⟨by simp, ?_⟩, ?_⟩
    · intro d hd
      rw [← Option.some.inj hd]
      exact hwhite
    · intro fuel acc p rest hrest
      have hwhite : (isSpace c || isBreak c) = false := hwhite
      rw [List.cons_append] at hrest
      rw [takeQuotedRun, Cursor.past_single hbreak]
      simp [hrest, hwhite, hquote, hslash]
  · split
    · rename_i letter hletter
      exact stands_letter hletter
    · dsimp only
      split
      · rename_i hsize
        exact stands_digits rfl (by omega)
      · split
        · exact stands_digits rfl (by omega)
        · have hvalid : c.toNat < 0xD800 ∨ 0xDFFF < c.toNat ∧ c.toNat < 0x110000 := c.valid
          exact stands_digits rfl (by omega)

theorem shown_letter {c letter : Char} (hletter : escapeLetter? c = some letter) :
    isShown letter = true := by
  unfold escapeLetter? at hletter
  split at hletter
  all_goals
    cases hletter
  all_goals decide

theorem shown_escaped (c : Char) : ∀ d ∈ escaped c, isShown d = true ∧ isBreak d = false := by
  have hcons : ∀ {mark : Char} {digits : List Char}, isShown mark = true → isBreak mark = false →
      (∀ d ∈ digits, isShown d = true ∧ isBreak d = false) →
        ∀ d ∈ '\\' :: mark :: digits, isShown d = true ∧ isBreak d = false := by
    intro mark digits hshown hbreak hdigits
    exact List.forall_mem_cons.2 ⟨by decide, List.forall_mem_cons.2 ⟨⟨hshown, hbreak⟩, hdigits⟩⟩
  unfold escaped
  split
  · rename_i hplain
    simp only [Bool.and_eq_true, Bool.not_eq_true'] at hplain
    simpa using hplain.1.1
  · split
    · rename_i letter hletter
      exact hcons (shown_letter hletter) (simpleEscape?_of_letter hletter).2 (by simp)
    · dsimp only
      split
      · exact hcons (by decide) (by decide) (shown_hexDigits _ _)
      · split
        · exact hcons (by decide) (by decide) (shown_hexDigits _ _)
        · exact hcons (by decide) (by decide) (shown_hexDigits _ _)

/-- An escape takes no more than four characters for each byte of what it stands for. -/
theorem length_escaped_le (c : Char) : (escaped c).length ≤ 4 * c.utf8Size := by
  have hpos := c.utf8Size_pos
  unfold escaped
  split
  · show 1 ≤ _
    omega
  · rename_i hescaped
    split
    · show 2 ≤ _
      omega
    · rename_i hletter
      dsimp only
      split
      · rename_i hsize
        rw [List.length_cons, List.length_cons, length_hexDigits (by decide) (by omega)]
        omega
      · rename_i hbyte
        have hlarge : 1 < c.utf8Size := by
          have hmore : c.utf8Size ≠ 1 := by
            intro hone
            have hle : c.toNat ≤ 0x7F := Char.utf8Size_eq_one_iff.1 hone
            omega
          omega
        split
        · rename_i hsize
          rw [List.length_cons, List.length_cons, length_hexDigits (by decide) (by omega)]
          omega
        · -- A character beyond the first plane shows itself, so it needs no escape.
          rename_i hplane
          exfalso
          apply hescaped
          have hshown : isShown c = true := by
            unfold isShown
            simp only [Bool.or_eq_true, Bool.and_eq_true, decide_eq_true_eq]
            omega
          have hother : ∀ d : Char, d.toNat ≤ 0xFFFF → c ≠ d := by
            rintro d hd rfl
            exact hplane hd
          simp [hshown, isBreak, hother '\n' (by decide), hother '\r' (by decide),
            hother '\x85' (by decide), hother '\u2028' (by decide), hother '\u2029' (by decide),
            hother '"' (by decide), hother '\\' (by decide)]

theorem Spelled.space {single : Bool} {indent : Nat} {text written : List Char}
    (hspelled : Spelled single indent text written)
    (hbreak : single = true → StartsOutside isBreak text) :
    Spelled single indent (' ' :: text) (' ' :: written) := by
  cases hspelled with
  | nil => exact @Spelled.blanks single indent 0 [] [] (by simp [StartsOutside]) .nil
  | @unit c u text written hunit hmore =>
      refine @Spelled.blanks single indent 0 _ _ ?_ (.unit hunit hmore)
      obtain ⟨d, more, rfl⟩ := List.exists_cons_of_ne_nil hunit.starts.1
      exact hunit.starts.2
  | @blanks n text written houtside hmore =>
      exact @Spelled.blanks single indent (n + 1) _ _ houtside hmore
  | @lines b bs text written hsingle hbs hfirst houtside hmore =>
      have hb := hbreak hsingle b rfl
      rw [hbs.isBreak List.mem_cons_self] at hb
      cases hb

theorem spelled_double (indent : Nat) (text : List Char) :
    Spelled false indent text (text.flatMap escaped) := by
  induction text with
  | nil => exact .nil
  | cons c text ih =>
      rw [List.flatMap_cons]
      by_cases hspace : c = ' '
      · rw [hspace]
        exact ih.space fun hsingle => (Bool.false_ne_true hsingle).elim
      · exact .unit (stands_escaped hspace) ih

theorem takeQuoted_double {text rest : List Char} {p : Cursor} (hfits : p.Fits)
    (hrest : p.rest = '"' :: text.flatMap escaped ++ ['"'] ++ rest) :
    takeQuoted false p =
      some (String.ofList text, p.past ('"' :: text.flatMap escaped ++ ['"'])) := by
  rw [List.append_assoc] at hrest
  exact takeQuoted_spelled Nat.one_pos (spelled_double 1 text)
    (fun hsingle => (Bool.false_ne_true hsingle).elim) hfits hrest

/-!
## Between single quotes
-/

def doubled (c : Char) : List Char :=
  if c == '\'' then ['\'', '\''] else [c]

def singleBody (indent : Nat) (text : List Char) : List Char :=
  indented indent false (text.flatMap doubled) ++
    (if text.getLast?.any isBreak then spaces indent else [])

theorem singleQuoted_eq (indent : Nat) (text : List Char) :
    singleQuoted indent text = '\'' :: singleBody indent text ++ ['\''] := by
  unfold singleQuoted singleBody doubled
  simp

theorem stands_doubled {c : Char} (hc : isWhite c = false) : Stands true (doubled c) c := by
  have hbreak : isBreak c = false := (Bool.or_eq_false_iff.1 hc).2
  have hwhite : (isSpace c || isBreak c) = false := hc
  unfold doubled
  split
  · rename_i hquote
    rw [beq_iff_eq] at hquote
    subst hquote
    refine ⟨fun _ => hbreak, ⟨by simp, ?_⟩, ?_⟩
    · intro d hd
      rw [← Option.some.inj hd]
      exact hc
    · intro fuel acc p rest hrest
      have hpast : p.past ['\'', '\''] = p.skipMany 2 :=
        Cursor.past_unbroken (.cons hbreak (.cons hbreak (by simp [Unbroken]))) p
      rw [List.cons_append, List.cons_append] at hrest
      rw [takeQuotedRun, hpast]
      simp [hrest, hwhite]
  · rename_i hquote
    rw [beq_iff_eq] at hquote
    refine ⟨fun _ => hbreak, ⟨by simp, ?_⟩, ?_⟩
    · intro d hd
      rw [← Option.some.inj hd]
      exact hc
    · intro fuel acc p rest hrest
      rw [List.cons_append] at hrest
      rw [takeQuotedRun, Cursor.past_single hbreak]
      simp [hrest, hwhite, hquote]

theorem indented_unbroken {indent : Nat} {cs : List Char} (hcs : Unbroken cs) (rest : List Char) :
    indented indent false (cs ++ rest) = cs ++ indented indent false rest := by
  induction cs with
  | nil => rfl
  | cons c more ih =>
      rw [List.cons_append, indented, if_neg (by rw [hcs c List.mem_cons_self]; decide),
        ih fun d hd => hcs d (List.mem_cons_of_mem c hd)]
      simp

theorem indented_self (indent : Nat) {cs : List Char} (hcs : Unbroken cs) :
    indented indent false cs = cs := by
  have hwhole : indented indent false (cs ++ []) = cs ++ indented indent false [] :=
    indented_unbroken hcs []
  simpa [indented] using hwhole

theorem indented_true (indent : Nat) (cs : List Char) :
    indented indent true cs =
      (if cs.head?.any (fun c => !isBreak c) then spaces indent else []) ++
        indented indent false cs := by
  cases cs with
  | nil => rfl
  | cons c rest =>
      unfold indented
      cases hc : isBreak c <;> simp [hc]

theorem isBreak_head?_doubled (text : List Char) :
    (text.flatMap doubled).head?.any (fun c => !isBreak c) =
      text.head?.any fun c => !isBreak c := by
  cases text with
  | nil => rfl
  | cons c rest =>
      rw [List.flatMap_cons]
      unfold doubled
      split
      · rename_i hquote
        rw [beq_iff_eq] at hquote
        subst hquote
        rfl
      · rfl

theorem singleBody_cons {c : Char} (hc : isBreak c = false) (indent : Nat) (text : List Char) :
    singleBody indent (c :: text) = doubled c ++ singleBody indent text := by
  have hunbroken : Unbroken (doubled c) := by
    unfold doubled
    split
    · exact .cons rfl (.cons rfl (by simp [Unbroken]))
    · exact .cons hc (by simp [Unbroken])
  have hlast : (c :: text).getLast?.any isBreak = text.getLast?.any isBreak := by
    cases text with
    | nil => simp [hc]
    | cons d more => rw [List.getLast?_cons_cons]
  unfold singleBody
  rw [List.flatMap_cons, indented_unbroken hunbroken, hlast, List.append_assoc]

/-- Behind a break, the next line is indented, be it only for the closing quote. -/
theorem singleBody_break {b : Char} (hb : isBreak b = true) (indent : Nat) (text : List Char) :
    singleBody indent (b :: text) =
      b :: ((if text.head?.any isBreak then [] else spaces indent) ++ singleBody indent text) := by
  have hdoubled : doubled b = [b] := by
    unfold doubled
    rw [if_neg]
    intro hquote
    rw [beq_iff_eq] at hquote
    subst hquote
    exact absurd hb (by decide)
  unfold singleBody
  rw [List.flatMap_cons, hdoubled, List.singleton_append, indented, if_pos hb, indented_true,
    isBreak_head?_doubled]
  cases text with
  | nil => simp [hb, indented]
  | cons c more =>
      rw [List.getLast?_cons_cons]
      cases hc : isBreak c <;> simp [hc]

/-!
## Texts that can stand between single quotes
-/

theorem adjacent_cons (first second : Char → Bool) (c : Char) (text : List Char) :
    adjacent first second (c :: text) =
      (first c && text.head?.any second || adjacent first second text) := by
  cases text with
  | nil => simp [adjacent]
  | cons d more => rw [adjacent]; rfl

/-- The text can stand between single quotes, on one line or on lines of their own. -/
structure Quotable (text : List Char) : Prop where
  shown : ∀ c ∈ text, isShown c = true
  unended : '\n' ∉ text
  spaceBreak : adjacent isPlainSpace isBreak text = false
  breakSpace : adjacent isBreak isPlainSpace text = false

theorem Quotable.tail {c : Char} {text : List Char} (hquotable : Quotable (c :: text)) :
    Quotable text where
  shown d hd := hquotable.shown d (List.mem_cons_of_mem c hd)
  unended hmem := hquotable.unended (List.mem_cons_of_mem c hmem)
  spaceBreak := by
    have h := hquotable.spaceBreak
    rw [adjacent_cons, Bool.or_eq_false_iff] at h
    exact h.2
  breakSpace := by
    have h := hquotable.breakSpace
    rw [adjacent_cons, Bool.or_eq_false_iff] at h
    exact h.2

theorem Spelled.line {indent : Nat} {text written : List Char}
    (hspelled : Spelled true indent text written) {b : Char} (hb : b = '\u2028' ∨ b = '\u2029')
    (hspace : StartsOutside isPlainSpace text) :
    Spelled true indent (b :: text)
      (b :: ((if text.head?.any isBreak then [] else spaces indent) ++ written)) := by
  have hne : b ≠ '\n' := by rcases hb with rfl | rfl <;> decide
  have hone : AllBreaks [b] := fun c hc => by
    rw [List.mem_singleton.1 hc]
    exact .inr hb
  cases hspelled with
  | nil => exact @Spelled.lines true indent b [] [] [] rfl hone hne (by simp [StartsOutside]) .nil
  | @unit c u text written hunit hmore =>
      have hstart : StartsOutside isWhite (u ++ written) := by
        obtain ⟨d, more, rfl⟩ := List.exists_cons_of_ne_nil hunit.starts.1
        exact hunit.starts.2
      rw [List.head?_cons, Option.any_some, hunit.unbroken rfl]
      exact @Spelled.lines true indent b [] _ _ rfl hone hne hstart (.unit hunit hmore)
  | @blanks n text written houtside hmore => exact absurd (hspace ' ' rfl) (by decide)
  | @lines d bs text written _ hbs hfirst houtside hmore =>
      have hall : AllBreaks (b :: d :: bs) := by
        intro c hc
        rcases List.mem_cons.1 hc with rfl | hmem
        · exact .inr hb
        · exact hbs c hmem
      have hbreak : (d :: bs ++ text).head?.any isBreak = true := hbs.isBreak List.mem_cons_self
      rw [hbreak]
      exact @Spelled.lines true indent b (d :: bs) _ _ rfl hall hne houtside hmore

theorem spelled_single (indent : Nat) {text : List Char} (hquotable : Quotable text) :
    Spelled true indent text (singleBody indent text) := by
  induction text with
  | nil => exact .nil
  | cons c text ih =>
      have hmore := ih hquotable.tail
      have hshown := hquotable.shown c List.mem_cons_self
      have hspaceBreak := hquotable.spaceBreak
      have hbreakSpace := hquotable.breakSpace
      rw [adjacent_cons, Bool.or_eq_false_iff, Bool.and_eq_false_iff] at hspaceBreak hbreakSpace
      cases hbreak : isBreak c with
      | false =>
          rw [singleBody_cons hbreak]
          by_cases hspace : c = ' '
          · subst hspace
            exact hmore.space fun _ =>
              startsOutside_of_any (hspaceBreak.1.resolve_left (by decide))
          · have htab : c ≠ '\t' := by
              rintro rfl
              exact absurd hshown (by decide)
            have hwhite : isWhite c = false := by simp [isWhite, isSpace, hspace, htab, hbreak]
            exact .unit (stands_doubled hwhite) hmore
      | true =>
          rw [singleBody_break hbreak]
          have hb : c = '\u2028' ∨ c = '\u2029' := by
            refine (break_of_shown hshown hbreak).resolve_left ?_
            rintro rfl
            exact hquotable.unended List.mem_cons_self
          exact hmore.line hb
            (startsOutside_of_any (hbreakSpace.1.resolve_left (by rw [hbreak]; decide)))

theorem takeQuoted_single {indent : Nat} (hindent : 0 < indent) {text rest : List Char}
    (hquotable : Quotable text) (hnext : rest.head? ≠ some '\'') {p : Cursor} (hfits : p.Fits)
    (hrest : p.rest = singleQuoted indent text ++ rest) :
    takeQuoted true p = some (String.ofList text, p.past (singleQuoted indent text)) := by
  rw [singleQuoted_eq, List.append_assoc] at hrest
  rw [singleQuoted_eq]
  exact takeQuoted_spelled hindent (spelled_single indent hquotable) (fun _ => hnext) hfits hrest

end Yaml
end LogHarvest
