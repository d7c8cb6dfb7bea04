import LogHarvest.Proofs.Text.Digits
import LogHarvest.Proofs.Text.FloatBits

/-!
# The text of a number is read as the number

Whatever the layout of a decimal, its text is read as a decimal of the same worth.
So the text of a number, whose decimal is rounded to it, is read as the number.
-/

namespace LogHarvest
namespace Text

def AllDigits (cs : List Char) : Prop :=
  ∀ c ∈ cs, isDigit c = true

theorem allDigits_toDigits (n : Nat) : AllDigits (Nat.toDigits 10 n) :=
  fun _ hc => isDigit_of_mem_toDigits hc

theorem allDigits_zeros (n : Int) : AllDigits (zeros n) := by
  intro c hc
  rw [List.eq_of_mem_replicate hc]
  decide

theorem AllDigits.append {xs ys : List Char} (hxs : AllDigits xs) (hys : AllDigits ys) :
    AllDigits (xs ++ ys) := by
  intro c hc
  rcases List.mem_append.1 hc with hleft | hright
  · exact hxs c hleft
  · exact hys c hright

/-!
## Reading exponents
-/

theorem readExponent?_digits {cs : List Char} (hcs : AllDigits cs) (hne : cs ≠ []) :
    readExponent? cs = some (decimalValue cs : Int) ∧
      readExponent? ('-' :: cs) = some (-(decimalValue cs : Int)) := by
  obtain ⟨c, rest, rfl⟩ := List.exists_cons_of_ne_nil hne
  have hc := hcs c List.mem_cons_self
  have hall : (c :: rest).all isDigit = true := List.all_eq_true.2 hcs
  have hfirst : c ≠ '-' ∧ c ≠ '+' := by
    constructor <;> rintro rfl <;> exact absurd hc (by decide)
  constructor
  · unfold readExponent?
    split
    · rename_i heq
      exact absurd (List.cons.inj heq).1 hfirst.1
    · rename_i heq
      exact absurd (List.cons.inj heq).1 hfirst.2
    · simp [hall]
  · unfold readExponent?
    simp [hall]

theorem readExponent?_toString (e : Int) : readExponent? (toString e).toList = some e := by
  have htext : ∀ n : Nat, n.repr.toList = Nat.toDigits 10 n := fun n => String.toList_ofList
  cases e with
  | ofNat n =>
      show readExponent? n.repr.toList = some (n : Int)
      rw [htext, (readExponent?_digits (allDigits_toDigits n) Nat.toDigits_ne_nil).1,
        decimalValue_toDigits]
  | negSucc n =>
      show readExponent? ("-" ++ (n + 1).repr).toList = some (Int.negSucc n)
      rw [String.toList_append, htext]
      refine ((readExponent?_digits (allDigits_toDigits _) Nat.toDigits_ne_nil).2).trans ?_
      rw [decimalValue_toDigits]
      rfl

/-!
## Reading decimals
-/

theorem read?_point {whole fraction : List Char} (hwhole : AllDigits whole) (hne : whole ≠ [])
    (hfraction : AllDigits fraction) :
    Decimal.read? (whole ++ '.' :: fraction) =
      some ⟨decimalValue (whole ++ fraction), -fraction.length⟩ := by
  have htail := @List.takeWhile_append_of_pos _ _ _ [] hfraction
  have hrest := @List.dropWhile_append_of_pos _ _ _ [] hfraction
  simp only [List.append_nil, List.takeWhile_nil, List.dropWhile_nil] at htail hrest
  have hstop : isDigit '.' = false := by decide
  unfold Decimal.read?
  rw [List.takeWhile_append_of_pos hwhole, List.dropWhile_append_of_pos hwhole]
  simp [hstop, htail, hrest, hne]

theorem read?_exponent {whole fraction text : List Char} (hwhole : AllDigits whole)
    (hne : whole ≠ []) (hfraction : AllDigits fraction) {e : Int}
    (htext : readExponent? text = some e) :
    Decimal.read? (whole ++ '.' :: fraction ++ 'e' :: text) =
        some ⟨decimalValue (whole ++ fraction), e - fraction.length⟩ ∧
      Decimal.read? (whole ++ 'e' :: text) = some ⟨decimalValue whole, e⟩ := by
  have hstop : isDigit '.' = false := by decide
  have hletter : isDigit 'e' = false := by decide
  constructor
  · unfold Decimal.read?
    rw [List.append_assoc, List.takeWhile_append_of_pos hwhole, List.dropWhile_append_of_pos hwhole,
      List.cons_append]
    simp [hstop, hletter, List.takeWhile_append_of_pos hfraction,
      List.dropWhile_append_of_pos hfraction, hne, htext]
  · unfold Decimal.read?
    rw [List.takeWhile_append_of_pos hwhole, List.dropWhile_append_of_pos hwhole]
    simp [hletter, hne, htext]

section Layouts

variable {digits : List Char} (hdigits : AllDigits digits) (hne : digits ≠ [])

include hdigits hne

theorem read?_whole {e : Int} (hwhole : 0 ≤ e) :
    ∃ d, Decimal.read? (digits ++ zeros e ++ ['.', '0']) = some d ∧
      d.worth = Decimal.worth ⟨decimalValue digits, e⟩ := by
  refine ⟨⟨_, _⟩, read?_point (hdigits.append (allDigits_zeros _))
    (List.append_ne_nil_of_left_ne_nil hne _) (allDigits_zeros 1), ?_⟩
  have hzeros : decimalValue (digits ++ zeros e ++ ['0']) =
      decimalValue digits * 10 ^ e.toNat * 10 := by
    unfold zeros
    rw [decimalValue_append, decimalValue_append, decimalValue_zeros, List.length_replicate]
    show (decimalValue digits * 10 ^ e.toNat + 0) * 10 ^ 1 + 0 = _
    ring
  unfold Decimal.worth
  rw [hzeros]
  lift e to ℕ using hwhole
  push_cast
  rw [Int.toNat_natCast, zpow_natCast, List.length_singleton, Nat.cast_one, zpow_neg_one]
  ring

theorem read?_among {e : Int} (hnegative : e < 0) (hamong : 0 < (digits.length : Int) + e) :
    Decimal.read? (digits.take ((digits.length : Int) + e).toNat ++ ['.'] ++
      digits.drop ((digits.length : Int) + e).toNat) = some ⟨decimalValue digits, e⟩ := by
  have hsplit := List.take_append_drop ((digits.length : Int) + e).toNat digits
  have hfraction : ((digits.drop ((digits.length : Int) + e).toNat).length : Int) = -e := by
    rw [List.length_drop]
    omega
  rw [List.append_assoc, List.singleton_append, read?_point, hsplit, hfraction, Int.neg_neg]
  · exact fun c hc => hdigits c (List.mem_of_mem_take hc)
  · rw [Ne, List.take_eq_nil_iff, not_or]
    exact ⟨by omega, hne⟩
  · exact fun c hc => hdigits c (List.mem_of_mem_drop hc)

omit hne in
theorem read?_before {e : Int} (hbefore : (digits.length : Int) + e ≤ 0) :
    Decimal.read? (['0', '.'] ++ zeros (-((digits.length : Int) + e)) ++ digits) =
      some ⟨decimalValue digits, e⟩ := by
  have hzeros : decimalValue (zeros 1 ++ (zeros (-((digits.length : Int) + e)) ++ digits)) =
      decimalValue digits := by
    unfold zeros
    rw [decimalValue_append, decimalValue_append, decimalValue_zeros, decimalValue_zeros,
      Nat.zero_mul, Nat.zero_mul, Nat.zero_add, Nat.zero_add]
  have hfraction : ((zeros (-((digits.length : Int) + e)) ++ digits).length : Int) = -e := by
    unfold zeros
    rw [List.length_append, List.length_replicate]
    omega
  show Decimal.read? (zeros 1 ++ '.' :: (zeros (-((digits.length : Int) + e)) ++ digits)) = _
  rw [read?_point (allDigits_zeros 1) (by decide) ((allDigits_zeros _).append hdigits), hzeros,
    hfraction, Int.neg_neg]

end Layouts

theorem read?_scientific {first : Char} {more text : List Char}
    (hdigits : AllDigits (first :: more)) {e : Int}
    (htext : readExponent? text = some (((first :: more).length : Int) + e - 1)) :
    Decimal.read? (match first :: more with
        | [] => 'e' :: text
        | [first] => first :: 'e' :: text
        | first :: others => first :: '.' :: others ++ 'e' :: text) =
      some ⟨decimalValue (first :: more), e⟩ := by
  have hfirst : AllDigits [first] := by
    intro c hc
    rw [List.mem_singleton.1 hc]
    exact hdigits first List.mem_cons_self
  have hmore : AllDigits more := fun c hc => hdigits c (List.mem_cons_of_mem first hc)
  obtain ⟨hpoint, hnone⟩ := read?_exponent hfirst (by simp) hmore htext
  cases more with
  | nil =>
      refine hnone.trans ?_
      rw [List.length_singleton]
      congr 2
      omega
  | cons second others =>
      refine hpoint.trans ?_
      rw [List.singleton_append, List.length_cons (a := first)]
      congr 2
      push_cast
      omega

/-- A decimal is read from its layout with the same worth. -/
theorem read?_layOut (d : Decimal) :
    ∃ d', Decimal.read? (documentStyle.layOut d) = some d' ∧ d'.worth = d.worth := by
  have hdigits := allDigits_toDigits d.digits
  have hvalue := decimalValue_toDigits d.digits
  have hne : Nat.toDigits 10 d.digits ≠ [] := Nat.toDigits_ne_nil
  unfold NumberStyle.layOut Decimal.text
  dsimp only
  generalize Nat.toDigits 10 d.digits = digits at hdigits hvalue hne
  obtain ⟨value, e⟩ := d
  obtain rfl : decimalValue digits = value := hvalue
  split
  · split
    · exact read?_whole hdigits hne ‹_›
    · split
      · exact ⟨_, read?_among hdigits hne (by omega) ‹_›, rfl⟩
      · exact ⟨_, read?_before hdigits (by omega), rfl⟩
  · obtain ⟨first, more, rfl⟩ := List.exists_cons_of_ne_nil hne
    exact ⟨_, read?_scientific hdigits (readExponent?_toString _), rfl⟩

/-!
## Reading numbers
-/

def isNumeral (c : Char) : Bool :=
  isDigit c || c == '.' || c == 'e' || c == '-'

theorem isNumeral_of_isDigit {c : Char} (hc : isDigit c = true) : isNumeral c = true := by
  simp [isNumeral, hc]

theorem isNumeral_of_mem_toString {e : Int} {c : Char} (hc : c ∈ (toString e).toList) :
    isNumeral c = true := by
  have hdigits : ∀ n : Nat, c ∈ n.repr.toList → isNumeral c = true := by
    intro n hmem
    rw [show n.repr.toList = Nat.toDigits 10 n from String.toList_ofList] at hmem
    exact isNumeral_of_isDigit (isDigit_of_mem_toDigits hmem)
  cases e with
  | ofNat n => exact hdigits n hc
  | negSucc n =>
      have hc : c ∈ ("-" ++ (n + 1).repr).toList := hc
      rw [String.toList_append, List.mem_append] at hc
      rcases hc with hminus | hdigit
      · rw [List.mem_singleton.1 hminus]
        decide
      · exact hdigits _ hdigit

theorem layOut_numeral (d : Decimal) :
    (∀ c ∈ documentStyle.layOut d, isNumeral c = true) ∧
      ∃ first rest, documentStyle.layOut d = first :: rest ∧ isDigit first = true := by
  have hdigits := allDigits_toDigits d.digits
  have hlength : 0 < (Nat.toDigits 10 d.digits).length := Nat.length_toDigits_pos
  unfold NumberStyle.layOut Decimal.text
  dsimp only
  generalize Nat.toDigits 10 d.digits = digits at hdigits hlength
  have hnumeral : ∀ c ∈ digits, isNumeral c = true := fun c hc =>
    isNumeral_of_isDigit (hdigits c hc)
  have hzeros : ∀ n, ∀ c ∈ zeros n, isNumeral c = true :=
    fun n c hc => isNumeral_of_isDigit (allDigits_zeros n c hc)
  have hmarks : isNumeral '.' = true ∧ isNumeral '0' = true ∧ isNumeral 'e' = true := by decide
  cases digits with
  | nil => exact absurd hlength (Nat.lt_irrefl 0)
  | cons first more =>
      have hfirst := hdigits first List.mem_cons_self
      split
      · split
        · refine ⟨?_, first, _, rfl, hfirst⟩
          simp only [documentStyle, if_true, List.forall_mem_append, List.forall_mem_cons]
          simp only [List.forall_mem_cons] at hnumeral
          exact ⟨⟨hnumeral, hzeros _⟩, hmarks.1, hmarks.2.1, by simp⟩
        · split
          · rename_i hamong
            obtain ⟨k, hk⟩ : ∃ k, (((first :: more).length : ℤ) + d.exponent).toNat = k + 1 :=
              ⟨_, (Nat.succ_pred_eq_of_pos (by omega)).symm⟩
            rw [hk]
            refine ⟨?_, first, _, rfl, hfirst⟩
            simp only [List.forall_mem_append, List.forall_mem_singleton]
            exact ⟨⟨fun c hc => hnumeral c (List.mem_of_mem_take hc), hmarks.1⟩,
              fun c hc => hnumeral c (List.mem_of_mem_drop hc)⟩
          · refine ⟨?_, '0', _, rfl, by decide⟩
            simp only [List.forall_mem_append, List.forall_mem_cons, List.not_mem_nil]
            simp only [List.forall_mem_cons] at hnumeral
            exact ⟨⟨⟨hmarks.2.1, hmarks.1, by simp⟩, hzeros _⟩, hnumeral⟩
      · have htext : ∀ c ∈ (toString ((first :: more).length + d.exponent - 1)).toList,
            isNumeral c = true := fun c hc => isNumeral_of_mem_toString hc
        cases more with
        | nil =>
            refine ⟨?_, first, _, rfl, hfirst⟩
            simp only [List.forall_mem_cons]
            exact ⟨isNumeral_of_isDigit hfirst, hmarks.2.2, htext⟩
        | cons second others =>
            refine ⟨?_, first, _, rfl, hfirst⟩
            simp only [List.forall_mem_append, List.forall_mem_cons] at hnumeral ⊢
            exact ⟨⟨hnumeral.1, hmarks.1, hnumeral.2⟩, hmarks.2.2, htext⟩

/-- The text of a finite number above zero is that of a decimal, and is read as the number. -/
theorem readFloat?_render {x : Float} (hpos : 0 < x) :
    x = 1 / 0 ∨ x.isFinite = true ∧ ∃ d, (documentStyle.render x).toList = documentStyle.layOut d ∧
      readFloat? (documentStyle.layOut d) = some x := by
  rcases shape_of_pos hpos with hinfinite | ⟨hisFinite, b, hshape⟩
  · exact .inl hinfinite
  · obtain ⟨hproper, hbits⟩ := proper_of_shape hshape x.toBits.toNat_lt
    obtain ⟨d, hread, hworth⟩ := read?_layOut b.shortest
    obtain ⟨-, first, rest, hlayOut, hfirst⟩ := layOut_numeral b.shortest
    have hround : b.Rounds d.worth := by
      rw [hworth]
      exact Binary.rounds_shortest hproper
    refine .inr ⟨hisFinite, b.shortest, ?_, ?_⟩
    · unfold NumberStyle.render
      rw [hshape]
      exact String.toList_ofList
    · have hvalue : d.toFloat = x := by
        rw [toFloat_of_rounds hproper hround, hbits, UInt64.ofNat_toNat, Float.ofBits_toBits]
      have hsign : first ≠ '-' ∧ first ≠ '+' := by
        constructor <;> rintro rfl <;> exact absurd hfirst (by decide)
      rw [hlayOut] at hread ⊢
      unfold readFloat?
      split
      · rename_i heq
        exact absurd (List.cons.inj heq).1 hsign.1
      · rename_i heq
        exact absurd (List.cons.inj heq).1 hsign.2
      · rw [hread, Option.map_some, hvalue]

end Text
end LogHarvest
