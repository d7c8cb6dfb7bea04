import LogHarvest.Proofs.Text.Number
import LogHarvest.Yaml.Style

/-!
# Numbers as plain scalars

A number or a natural can be written plainly, and its text as a plain scalar means the
number again.
-/

namespace LogHarvest
namespace Yaml

open Text (AllDigits isDigit isNumeral)

/-!
## Naturals
-/

theorem hexValue?_of_isDigit {c : Char} (hc : isDigit c = true) :
    hexValue? c = some (Text.digitValue c) := by
  unfold hexValue? Text.digitValue
  exact if_pos hc

theorem mapM_hexValue? {cs : List Char} (hcs : AllDigits cs) :
    cs.mapM hexValue? = some (cs.map Text.digitValue) := by
  induction cs with
  | nil => rfl
  | cons c rest ih =>
      rw [List.mapM_cons, hexValue?_of_isDigit (hcs c List.mem_cons_self),
        ih fun d hd => hcs d (List.mem_cons_of_mem c hd)]
      rfl

theorem natural?_digits {cs : List Char} (hcs : AllDigits cs) (hne : cs ≠ []) :
    Plain.natural? 10 cs = some (Text.decimalValue cs) := by
  have hless : ∀ c, isDigit c = true → Text.digitValue c < 10 := by
    intro c hc
    unfold isDigit at hc
    rw [Bool.and_eq_true, decide_eq_true_iff, decide_eq_true_iff] at hc
    have hupper : c.toNat ≤ '9'.toNat := hc.2
    have hnine : '9'.toNat = 57 ∧ '0'.toNat = 48 := by decide
    unfold Text.digitValue
    omega
  have hall : ∀ c ∈ cs, Text.digitValue c < 10 := fun c hc => hless c (hcs c hc)
  unfold Plain.natural?
  rw [mapM_hexValue? hcs]
  simpa [hne, Text.decimalValue] using hall

theorem isPadded_toDigits (n : Nat) : Plain.isPadded (Nat.toDigits 10 n) = false := by
  have hdigits := Text.allDigits_toDigits n
  have hsign : Plain.unsigned (Nat.toDigits 10 n) = Nat.toDigits 10 n := by
    unfold Plain.unsigned
    split
    · rename_i heq
      exact absurd (hdigits '+' (by simp [heq])) (by decide)
    · rename_i heq
      exact absurd (hdigits '-' (by simp [heq])) (by decide)
    · rfl
  unfold Plain.isPadded
  rw [hsign]
  split
  · rename_i heq
    rcases Nat.eq_zero_or_pos n with rfl | hpos
    · cases heq
    · exact absurd (by simp [heq]) (Text.head?_toDigits_ne_zero hpos)
  · rfl

theorem magnitude?_toDigits (n : Nat) : Plain.magnitude? (Nat.toDigits 10 n) = some n := by
  have hdigits := Text.allDigits_toDigits n
  have hvalue : Plain.natural? 10 (Nat.toDigits 10 n) = some n := by
    rw [natural?_digits hdigits Nat.toDigits_ne_nil, Text.decimalValue_toDigits]
  have hpadded := isPadded_toDigits n
  generalize Nat.toDigits 10 n = digits at hdigits hvalue hpadded
  unfold Plain.magnitude?
  have hletter : ∀ c rest, digits = '0' :: c :: rest → isDigit c = true := by
    rintro c rest rfl
    exact hdigits c (by simp)
  split
  · exact absurd (hletter _ _ rfl) (by decide)
  · exact absurd (hletter _ _ rfl) (by decide)
  · exact absurd (hletter _ _ rfl) (by decide)
  · simp [hpadded, hvalue]

theorem natural64?_toDigits {n : Nat} (hn : n < 2 ^ 64) :
    Plain.natural64? (String.ofList (Nat.toDigits 10 n)) = some n := by
  have hdigits := Text.allDigits_toDigits n
  have hvalue := magnitude?_toDigits n
  unfold Plain.natural64?
  rw [String.toList_ofList]
  generalize Nat.toDigits 10 n = digits at hdigits hvalue
  have hsize : n < Nat.pow 2 64 := hn
  split
  · exact absurd (hdigits '+' List.mem_cons_self) (by decide)
  · show (Plain.magnitude? digits).filter (· < Nat.pow 2 64) = some n
    rw [hvalue, Option.filter_some, if_pos (decide_eq_true hsize)]

/-!
## Numbers
-/

theorem render_infinite : Text.documentStyle.render (1 / 0) = ".inf" := by
  have hshape : Text.FloatShape.of (1 / 0) = .infinite false := by
    unfold Text.FloatShape.of
    rw [Text.toBits_infinite]
    rfl
  unfold Text.NumberStyle.render
  rw [hshape]
  rfl

theorem float?_render {x : Float} (hpos : 0 < x) :
    Plain.float? (Text.documentStyle.render x) = some x := by
  rcases Text.readFloat?_render hpos with rfl | ⟨hfinite, d, htext, hread⟩
  · rw [render_infinite]
    rfl
  · obtain ⟨-, first, rest, hlayOut, hfirst⟩ := Text.layOut_numeral d
    have hname : ∀ name : String, name.toList.head? = some '.' →
        (String.ofList (first :: rest) == name) = false := by
      intro name hdot
      rw [beq_eq_false_iff_ne]
      rintro rfl
      rw [String.toList_ofList] at hdot
      rw [Option.some.inj hdot] at hfirst
      exact absurd hfirst (by decide)
    have hwhole : Text.documentStyle.render x = String.ofList (first :: rest) := by
      rw [← hlayOut, ← htext, String.ofList_toList]
    rw [hlayOut] at hread
    have hinfinity : Plain.infinity? (first :: rest) = none := by
      unfold Plain.infinity?
      split
      · rename_i heq
        rw [(List.cons.inj heq).1] at hfirst
        exact absurd hfirst (by decide)
      · rename_i heq
        rw [(List.cons.inj heq).1] at hfirst
        exact absurd hfirst (by decide)
      · simp only [List.contains_cons, List.contains_nil, hname ".inf" rfl, hname ".Inf" rfl,
          hname ".INF" rfl]
        rfl
    unfold Plain.float?
    rw [hwhole, String.toList_ofList, hinfinity, hread]
    simp only [List.contains_cons, List.contains_nil, hname ".nan" rfl, hname ".NaN" rfl,
      hname ".NAN" rfl]
    simp [hfinite]

/-!
## Plain scalars
-/

theorem hasInnerIndicator_eq_false {cs : List Char} (hcs : ∀ c ∈ cs, c ≠ ':' ∧ c ≠ '#')
    (gap : Bool) : hasInnerIndicator gap cs = false := by
  induction cs generalizing gap with
  | nil => rfl
  | cons c rest ih =>
      obtain ⟨hcolon, hhash⟩ := hcs c List.mem_cons_self
      unfold hasInnerIndicator
      rw [ih fun d hd => hcs d (List.mem_cons_of_mem c hd)]
      simp [hcolon, hhash]

theorem adjacent_eq_false {first second : Char → Bool} {cs : List Char}
    (hcs : ∀ c ∈ cs, first c = false) : adjacent first second cs = false := by
  induction cs with
  | nil => rfl
  | cons c rest ih =>
      cases rest with
      | nil => rfl
      | cons d more =>
          unfold adjacent
          rw [hcs c List.mem_cons_self, ih fun e he => hcs e (List.mem_cons_of_mem c he)]
          rfl

theorem isShown_of_isNumeral {c : Char} (hc : isNumeral c = true) : isShown c = true := by
  unfold isNumeral isDigit at hc
  simp only [Bool.or_eq_true, Bool.and_eq_true, decide_eq_true_eq, beq_iff_eq] at hc
  rcases hc with ((hdigit | rfl) | rfl) | rfl
  · have hlow : '0'.toNat ≤ c.toNat := hdigit.1
    have hhigh : c.toNat ≤ '9'.toNat := hdigit.2
    have hends : '9'.toNat = 57 ∧ '0'.toNat = 48 := by decide
    unfold isShown
    simp only [Bool.or_eq_true, Bool.and_eq_true, decide_eq_true_eq]
    omega
  all_goals decide

theorem ne_of_numerals {cs : List Char} (hall : ∀ c ∈ cs, isNumeral c = true) {x : Char}
    (hx : isNumeral x = false) : ∀ c ∈ cs, c ≠ x := by
  rintro c hc rfl
  rw [hall c hc] at hx
  cases hx

theorem hasIndicator_of_numerals {first : Char} {rest : List Char} (hfirst : isDigit first = true)
    (hall : ∀ c ∈ first :: rest, isNumeral c = true) : hasIndicator (first :: rest) = false := by
  have hmark : ∀ marks : List Char, marks.all (fun c => !isDigit c) = true →
      marks.contains first = false := by
    intro marks hmarks
    rw [← Bool.not_eq_true, List.contains_iff_mem]
    intro hmem
    have hnot := List.all_eq_true.1 hmarks first hmem
    rw [hfirst] at hnot
    cases hnot
  have htake : ∀ c others, isDigit c = false →
      ((first :: rest).take 3 == c :: others) = false := by
    intro c others hc
    rw [beq_eq_false_iff_ne]
    intro heq
    rw [(List.cons.inj heq).1, hc] at hfirst
    cases hfirst
  have hinner := @hasInnerIndicator_eq_false rest
    (fun c hc => ⟨ne_of_numerals hall (by decide) c (List.mem_cons_of_mem first hc),
      ne_of_numerals hall (by decide) c (List.mem_cons_of_mem first hc)⟩)
  unfold hasIndicator
  simp only [show "---".toList = '-' :: ['-', '-'] from rfl,
    show "...".toList = '.' :: ['.', '.'] from rfl, htake '-' _ rfl, htake '.' _ rfl, hinner,
    hmark "#,[]\x7b\x7d&*!|>'\"%@\x60".toList (by decide), hmark "?:-".toList (by decide)]
  rfl

theorem allowsPlain_of_numerals {first : Char} {rest : List Char} (hfirst : isDigit first = true)
    (hall : ∀ c ∈ first :: rest, isNumeral c = true) : allowsPlain (first :: rest) = true := by
  have hother : ∀ x, isNumeral x = false → ∀ c ∈ first :: rest, c ≠ x :=
    fun x hx => ne_of_numerals hall hx
  have hbreak : ∀ c ∈ first :: rest, isBreak c = false := by
    intro c hc
    simp [isBreak, hother '\n' (by decide) c hc, hother '\r' (by decide) c hc,
      hother '\x85' (by decide) c hc, hother '\u2028' (by decide) c hc,
      hother '\u2029' (by decide) c hc]
  have hspace : ∀ c ∈ first :: rest, isPlainSpace c = false := by
    intro c hc
    simp [isPlainSpace, hother ' ' (by decide) c hc]
  have hedge : ∀ c ∈ first :: rest, isEdge c = false := by
    intro c hc
    simp [isEdge, hbreak c hc, hspace c hc]
  have hescapes : needsEscapes (first :: rest) = false := by
    unfold needsEscapes
    rw [adjacent_eq_false hspace, Bool.or_false, List.any_eq_false]
    intro c hc
    simp [isShown_of_isNumeral (hall c hc)]
  have hindicator := hasIndicator_of_numerals hfirst hall
  unfold allowsPlain
  simp only [hescapes, hindicator, List.head?_cons, Option.any_some,
    hedge first List.mem_cons_self, Bool.not_false, Bool.true_and, Bool.and_true,
    Bool.and_eq_true, Bool.not_eq_true']
  constructor
  · rw [List.any_eq_false]
    intro c hc
    simp [hbreak c hc]
  · cases hlast : (first :: rest).getLast? with
    | none => rfl
    | some c => exact hedge c (List.mem_of_getLast? hlast)

theorem allowsPlain_toDigits (n : Nat) :
    allowsPlain (Nat.toDigits 10 n) = true ∧ Nat.toDigits 10 n ≠ [] := by
  have hdigits := Text.allDigits_toDigits n
  obtain ⟨first, rest, hcons⟩ := List.exists_cons_of_ne_nil (@Nat.toDigits_ne_nil n 10)
  rw [hcons] at hdigits ⊢
  exact ⟨allowsPlain_of_numerals (hdigits first List.mem_cons_self)
    fun c hc => Text.isNumeral_of_isDigit (hdigits c hc), List.cons_ne_nil first rest⟩

theorem allowsPlain_render {x : Float} (hpos : 0 < x) :
    allowsPlain (Text.documentStyle.render x).toList = true ∧
      (Text.documentStyle.render x).toList ≠ [] := by
  rcases Text.readFloat?_render hpos with rfl | ⟨-, d, htext, -⟩
  · rw [render_infinite]
    decide
  · obtain ⟨hall, first, rest, hlayOut, hfirst⟩ := Text.layOut_numeral d
    rw [htext, hlayOut]
    rw [hlayOut] at hall
    exact ⟨allowsPlain_of_numerals hfirst hall, List.cons_ne_nil first rest⟩

end Yaml
end LogHarvest
