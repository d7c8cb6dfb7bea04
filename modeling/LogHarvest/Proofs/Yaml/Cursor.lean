import LogHarvest.Yaml.Cursor

/-!
# Going over a text

However the cursor is moved, it goes over some characters.  `Cursor.past` is the one
movement to which the others come down, so that a scalar is said to be read by the
characters that the cursor went over.
-/

namespace LogHarvest
namespace Yaml

def Unbroken (cs : List Char) : Prop :=
  ∀ c ∈ cs, isBreak c = false

def AllBreaks (cs : List Char) : Prop :=
  ∀ c ∈ cs, c = '\n' ∨ c = '\u2028' ∨ c = '\u2029'

def StartsOutside (belongs : Char → Bool) (cs : List Char) : Prop :=
  ∀ c ∈ cs.head?, belongs c = false

theorem startsOutside_of_any {belongs : Char → Bool} {cs : List Char}
    (hcs : cs.head?.any belongs = false) : StartsOutside belongs cs := by
  intro c hc
  rw [Option.mem_def] at hc
  rw [hc] at hcs
  exact hcs

theorem AllBreaks.isBreak {cs : List Char} (hcs : AllBreaks cs) {c : Char} (hc : c ∈ cs) :
    Yaml.isBreak c = true := by
  rcases hcs c hc with rfl | rfl | rfl <;> decide

theorem break_of_shown {c : Char} (hshown : isShown c = true) (hbreak : isBreak c = true) :
    c = '\n' ∨ c = '\u2028' ∨ c = '\u2029' := by
  have hends : c ≠ '\r' ∧ c ≠ '\x85' := by
    constructor
    · rintro rfl
      exact absurd hshown (by decide)
    · rintro rfl
      exact absurd hshown (by decide)
  simpa [isBreak, hends, or_assoc] using hbreak

theorem unbroken_replicate {c : Char} (hc : isBreak c = false) (n : Nat) :
    Unbroken (List.replicate n c) := by
  intro d hd
  rw [List.eq_of_mem_replicate hd]
  exact hc

theorem Unbroken.append {xs ys : List Char} (hxs : Unbroken xs) (hys : Unbroken ys) :
    Unbroken (xs ++ ys) := by
  intro c hc
  rcases List.mem_append.1 hc with hleft | hright
  · exact hxs c hleft
  · exact hys c hright

theorem Unbroken.cons {c : Char} {cs : List Char} (hc : isBreak c = false) (hcs : Unbroken cs) :
    Unbroken (c :: cs) :=
  List.forall_mem_cons.2 ⟨hc, hcs⟩

theorem takeWhile_append_of_outside {belongs : Char → Bool} {cs rest : List Char}
    (hcs : ∀ c ∈ cs, belongs c = true) (hrest : StartsOutside belongs rest) :
    (cs ++ rest).takeWhile belongs = cs := by
  rw [List.takeWhile_append_of_pos hcs]
  cases rest with
  | nil => simp
  | cons c more =>
      rw [List.takeWhile_cons_of_neg (by rw [hrest c rfl]; decide), List.append_nil]

namespace Cursor

def pass (p : Cursor) (c : Char) : Cursor :=
  if isBreak c then ⟨p.rest.drop 1, p.size, p.index + 1, p.line + 1, 0⟩ else p.skip

def past (p : Cursor) (cs : List Char) : Cursor :=
  cs.foldl pass p

def Fits (p : Cursor) : Prop :=
  p.size = p.index + p.rest.length

@[simp] theorem past_nil (p : Cursor) : p.past [] = p := rfl

theorem past_cons (p : Cursor) (c : Char) (cs : List Char) :
    p.past (c :: cs) = (p.past [c]).past cs := rfl

theorem past_append (p : Cursor) (xs ys : List Char) : p.past (xs ++ ys) = (p.past xs).past ys :=
  List.foldl_append

theorem past_break {p : Cursor} {c : Char} (hc : isBreak c = true) :
    p.past [c] = ⟨p.rest.drop 1, p.size, p.index + 1, p.line + 1, 0⟩ :=
  if_pos hc

theorem past_single {p : Cursor} {c : Char} (hc : isBreak c = false) : p.past [c] = p.skip :=
  if_neg (by rw [hc]; decide)

/-!
## Where the cursor is
-/

theorem rest_pass (p : Cursor) (c : Char) : (p.pass c).rest = p.rest.drop 1 := by
  unfold pass
  split <;> rfl

theorem rest_past {p : Cursor} {cs rest : List Char} (hrest : p.rest = cs ++ rest) :
    (p.past cs).rest = rest := by
  induction cs generalizing p with
  | nil => exact hrest
  | cons c more ih =>
      apply ih (p := p.pass c)
      rw [rest_pass, hrest]
      rfl

theorem size_past (p : Cursor) (cs : List Char) : (p.past cs).size = p.size := by
  induction cs generalizing p with
  | nil => rfl
  | cons c more ih =>
      refine (ih (p.pass c)).trans ?_
      unfold pass
      split <;> rfl

theorem index_past (p : Cursor) (cs : List Char) : (p.past cs).index = p.index + cs.length := by
  induction cs generalizing p with
  | nil => rfl
  | cons c more ih =>
      refine (ih (p.pass c)).trans ?_
      have hindex : (p.pass c).index = p.index + 1 := by
        unfold pass
        split <;> rfl
      rw [hindex, List.length_cons]
      omega

theorem Fits.past {p : Cursor} (hfits : p.Fits) {cs rest : List Char}
    (hrest : p.rest = cs ++ rest) : (p.past cs).Fits := by
  unfold Fits at hfits ⊢
  rw [size_past, index_past, rest_past hrest, hfits, hrest, List.length_append]
  omega

theorem Fits.left {p : Cursor} (hfits : p.Fits) : p.left = p.rest.length := by
  unfold Fits at hfits
  unfold Cursor.left
  omega

/-- What is before the cursor is shorter than the fuel that loops start with. -/
theorem Fits.length_lt {p : Cursor} (hfits : p.Fits) {cs rest : List Char}
    (hrest : p.rest = cs ++ rest) : cs.length < p.left + 1 := by
  rw [hfits.left, hrest, List.length_append]
  omega

theorem le_line_past (p : Cursor) (cs : List Char) : p.line ≤ (p.past cs).line := by
  induction cs generalizing p with
  | nil => exact Nat.le_refl _
  | cons c more ih =>
      refine Nat.le_trans ?_ (ih (p.pass c))
      unfold pass
      split
      · exact Nat.le_succ _
      · exact Nat.le_refl _

theorem past_unbroken {cs : List Char} (hcs : Unbroken cs) (p : Cursor) :
    p.past cs = p.skipMany cs.length := by
  induction cs generalizing p with
  | nil => rfl
  | cons c more ih =>
      rw [past_cons, ih fun d hd => hcs d (List.mem_cons_of_mem c hd),
        past_single (hcs c List.mem_cons_self)]
      simp only [skipMany, skip, List.drop_drop, List.length_cons, Cursor.mk.injEq, true_and]
      exact ⟨by rw [Nat.add_comm], by omega, by omega⟩

theorem column_past {cs : List Char} (hcs : Unbroken cs) (p : Cursor) :
    (p.past cs).column = p.column + cs.length := by
  rw [past_unbroken hcs]
  rfl

theorem line_past {cs : List Char} (hcs : Unbroken cs) (p : Cursor) :
    (p.past cs).line = p.line := by
  rw [past_unbroken hcs]
  rfl

theorem past_after_break {b : Char} (hb : isBreak b = true) {ds : List Char} (hds : Unbroken ds)
    (p : Cursor) (cs : List Char) :
    (p.past (cs ++ b :: ds)).column = ds.length ∧ p.line < (p.past (cs ++ b :: ds)).line := by
  rw [past_append, past_cons, column_past hds, line_past hds, past_break hb]
  exact ⟨Nat.zero_add _, Nat.lt_succ_of_le (le_line_past p cs)⟩

theorem past_breaks {b : Char} {bs ds : List Char} (hbs : AllBreaks (b :: bs)) (hds : Unbroken ds)
    (p : Cursor) :
    (p.past (b :: bs ++ ds)).column = ds.length ∧ p.line < (p.past (b :: bs ++ ds)).line := by
  have hlast := List.dropLast_concat_getLast (List.cons_ne_nil b bs)
  rw [← hlast, List.append_assoc]
  exact past_after_break (hbs.isBreak (List.getLast_mem _)) hds p _

/-!
## Movements
-/

theorem skipWhile_eq {belongs : Char → Bool} {p : Cursor} {cs rest : List Char}
    (hrest : p.rest = cs ++ rest) (hcs : ∀ c ∈ cs, belongs c = true) (hunbroken : Unbroken cs)
    (houtside : StartsOutside belongs rest) : p.skipWhile belongs = p.past cs := by
  unfold skipWhile
  rw [hrest, takeWhile_append_of_outside hcs houtside, past_unbroken hunbroken]

theorem takeBreak_eq {p : Cursor} {b : Char} {rest : List Char} (hrest : p.rest = b :: rest)
    (hb : b = '\n' ∨ b = '\u2028' ∨ b = '\u2029') : p.takeBreak = ([b], p.past [b]) := by
  have hbreak : isBreak b = true := by rcases hb with rfl | rfl | rfl <;> decide
  have hpast := past_break (p := p) hbreak
  rw [hrest, List.drop_one, List.tail_cons] at hpast
  rw [hpast]
  unfold takeBreak
  rw [hrest]
  rcases hb with rfl | rfl | rfl <;> rfl

end Cursor
end Yaml
end LogHarvest
