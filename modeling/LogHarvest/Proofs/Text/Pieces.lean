import LogHarvest.Text.Blank

/-!
# The pieces of a text

A separator in a text divides its pieces: those before it and those behind it are the
pieces of the two sides.  Without separators the text is one piece, and what is put
behind it or before it belongs to the piece there.
-/

namespace LogHarvest
namespace Text

theorem exists_pieces_append {separates : Char → Bool} (xs ys : List Char)
    (hplain : ∀ c ∈ ys, separates c = false) :
    ∃ front last, pieces separates xs = front ++ [last] ∧
      pieces separates (xs ++ ys) = front ++ [last ++ ys] := by
  induction xs with
  | nil =>
      refine ⟨[], [], rfl, ?_⟩
      rw [List.nil_append, List.nil_append]
      induction ys with
      | nil => rfl
      | cons c rest ih =>
          have hrest := ih fun c' hmem => hplain c' (List.mem_cons_of_mem c hmem)
          rw [pieces, hplain c List.mem_cons_self, hrest]
  | cons c rest ih =>
      obtain ⟨front, last, hrest, hmore⟩ := ih
      rw [List.cons_append, pieces, pieces, hrest, hmore]
      cases separates c with
      | true => exact ⟨[] :: front, last, rfl, rfl⟩
      | false =>
          cases front with
          | nil => exact ⟨[], c :: last, rfl, rfl⟩
          | cons first others => exact ⟨(c :: first) :: others, last, rfl, rfl⟩

theorem pieces_append_separator {separates : Char → Bool} (xs : List Char) {c : Char}
    (ys : List Char) (hc : separates c = true) :
    pieces separates (xs ++ c :: ys) = pieces separates xs ++ pieces separates ys := by
  induction xs with
  | nil =>
      rw [List.nil_append]
      conv => lhs; rw [pieces, hc]
      rfl
  | cons x rest ih =>
      obtain ⟨front, last, hrest⟩ : ∃ front last, pieces separates rest = front ++ [last] := by
        obtain ⟨front, last, hrest, -⟩ := @exists_pieces_append separates rest [] nofun
        exact ⟨front, last, hrest⟩
      rw [List.cons_append, pieces, pieces, ih, hrest]
      cases separates x with
      | true => rfl
      | false => cases front <;> rfl

theorem pieces_of_plain {separates : Char → Bool} {cs : List Char}
    (hplain : ∀ c ∈ cs, separates c = false) : pieces separates cs = [cs] := by
  obtain ⟨front, last, hnothing, hpieces⟩ := exists_pieces_append [] cs hplain
  cases front with
  | nil =>
      obtain rfl : [] = last := (List.cons.inj hnothing).1
      exact hpieces
  | cons first rest => cases rest <;> cases hnothing

theorem cases_of_mem_pieces {separates : Char → Bool} {x : Char} {piece rest : List Char}
    (hmem : piece ∈ pieces separates (x :: rest)) :
    piece = [] ∨ piece ∈ pieces separates rest ∨
      separates x = false ∧ ∃ tail, piece = x :: tail ∧
        (tail = [] ∨ tail ∈ pieces separates rest) := by
  rw [pieces] at hmem
  split at hmem
  · rcases List.mem_cons.1 hmem with hnone | hlater
    · exact Or.inl hnone
    · exact Or.inr (Or.inl hlater)
  · rename_i hx _
    exact Or.inr (Or.inr ⟨hx, [], List.mem_singleton.1 hmem, Or.inl rfl⟩)
  · rename_i first found hx hrest
    rcases List.mem_cons.1 hmem with hfirst | hlater
    · exact Or.inr (Or.inr ⟨hx, first, hfirst,
        Or.inr (hrest ▸ List.mem_cons_self)⟩)
    · exact Or.inr (Or.inl (hrest ▸ List.mem_cons_of_mem first hlater))

theorem plain_of_mem_pieces {separates : Char → Bool} {piece cs : List Char}
    (hmem : piece ∈ pieces separates cs) : ∀ c ∈ piece, separates c = false := by
  induction cs generalizing piece with
  | nil =>
      obtain rfl : piece = [] := List.mem_singleton.1 hmem
      nofun
  | cons x rest ih =>
      rcases cases_of_mem_pieces hmem with rfl | hlater | ⟨hx, tail, rfl, rfl | htail⟩
      · nofun
      · exact ih hlater
      · exact List.forall_mem_singleton.2 hx
      · exact List.forall_mem_cons.2 ⟨hx, ih htail⟩

theorem sublist_of_mem_pieces {separates : Char → Bool} {piece cs : List Char}
    (hmem : piece ∈ pieces separates cs) : piece.Sublist cs := by
  induction cs generalizing piece with
  | nil =>
      obtain rfl : piece = [] := List.mem_singleton.1 hmem
      exact List.Sublist.refl []
  | cons x rest ih =>
      rcases cases_of_mem_pieces hmem with rfl | hlater | ⟨-, tail, rfl, rfl | htail⟩
      · exact List.nil_sublist _
      · exact (ih hlater).cons x
      · exact (List.nil_sublist rest).cons_cons x
      · exact (ih htail).cons_cons x

theorem pieces_ne_nil (separates : Char → Bool) (cs : List Char) : pieces separates cs ≠ [] := by
  obtain ⟨front, last, hpieces, -⟩ := @exists_pieces_append separates cs [] nofun
  rw [hpieces]
  exact List.append_ne_nil_of_right_ne_nil _ (List.cons_ne_nil _ _)

theorem exists_pieces_of_plain_append {separates : Char → Bool} {front : List Char}
    (hplain : ∀ c ∈ front, separates c = false) (cs : List Char) :
    ∃ more rest, pieces separates (front ++ cs) = (front ++ more) :: rest := by
  induction front with
  | nil =>
      obtain ⟨more, rest, hpieces⟩ := List.exists_cons_of_ne_nil (pieces_ne_nil separates cs)
      exact ⟨more, rest, hpieces⟩
  | cons c front ih =>
      obtain ⟨more, rest, hpieces⟩ := ih fun c' hmem => hplain c' (List.mem_cons_of_mem c hmem)
      refine ⟨more, rest, ?_⟩
      rw [List.cons_append, pieces, hplain c List.mem_cons_self, hpieces]
      rfl

end Text
end LogHarvest
