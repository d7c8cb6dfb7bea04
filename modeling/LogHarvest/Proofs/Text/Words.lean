import LogHarvest.Proofs.Text.Lines

/-!
# Words on a line

White space in front of words, between them and behind them may be any at all, as long as
there is some between two words: the line has the words and nothing else.
-/

namespace LogHarvest
namespace Text

structure Word where
  text : String
  nonempty : text ≠ ""
  solid : text.toList.any isBlank = false

structure Padding extends Line where
  blank : isAllBlank text = true

structure Gap extends Padding where
  nonempty : text ≠ ""

structure NextWord where
  gap : Gap
  word : Word

def charsOfNext (next : List NextWord) : List Char :=
  next.flatMap fun n => n.gap.text.toList ++ n.word.text.toList

structure WordLine where
  margin : Padding
  first : Word
  next : List NextWord
  trailing : Padding

namespace WordLine

def words (line : WordLine) : List String :=
  line.first.text :: line.next.map fun n => n.word.text

def chars (line : WordLine) : List Char :=
  line.margin.text.toList ++ (line.first.text.toList ++
    (charsOfNext line.next ++ line.trailing.text.toList))

end WordLine

/-!
## White space and words
-/

theorem isBlank_feed : isBlank '\n' = true :=
  rfl

theorem Word.isBlank_of_mem (word : Word) : ∀ c ∈ word.text.toList, isBlank c = false := by
  have hsolid := List.any_eq_false.1 word.solid
  exact fun c hmem => Bool.not_eq_true _ ▸ hsolid c hmem

theorem Padding.isBlank_of_mem (padding : Padding) :
    ∀ c ∈ padding.text.toList, isBlank c = true :=
  List.all_eq_true.1 padding.blank

theorem Word.toList_ne_nil (word : Word) : word.text.toList ≠ [] :=
  fun hnil => word.nonempty (String.toList_eq_nil_iff.1 hnil)

theorem Gap.toList_ne_nil (gap : Gap) : gap.text.toList ≠ [] :=
  fun hnil => gap.nonempty (String.toList_eq_nil_iff.1 hnil)

theorem Word.unbroken (word : Word) : '\n' ∉ word.text.toList :=
  fun hmem => Bool.false_ne_true ((word.isBlank_of_mem _ hmem).symm.trans isBlank_feed)

theorem wordsOf_append_blank (xs : List Char) {c : Char} (hc : isBlank c = true)
    (ys : List Char) : wordsOf (xs ++ c :: ys) = wordsOf xs ++ wordsOf ys := by
  rw [wordsOf, pieces_append_separator xs ys hc, List.filter_append]
  rfl

theorem wordsOf_cons_blank {c : Char} (hc : isBlank c = true) (ys : List Char) :
    wordsOf (c :: ys) = wordsOf ys :=
  wordsOf_append_blank [] hc ys

theorem wordsOf_blank_append {xs : List Char} (hxs : ∀ c ∈ xs, isBlank c = true)
    (ys : List Char) : wordsOf (xs ++ ys) = wordsOf ys := by
  induction xs with
  | nil => rfl
  | cons c rest ih =>
      have hrest := ih fun c' hmem => hxs c' (List.mem_cons_of_mem c hmem)
      rw [List.cons_append, wordsOf_cons_blank (hxs c List.mem_cons_self), hrest]

theorem wordsOf_blank {xs : List Char} (hxs : ∀ c ∈ xs, isBlank c = true) : wordsOf xs = [] := by
  rw [← List.append_nil xs, wordsOf_blank_append hxs]
  rfl

theorem wordsOf_word (word : Word) : wordsOf word.text.toList = [word.text.toList] := by
  rw [wordsOf, pieces_of_plain word.isBlank_of_mem, List.filter_cons_of_pos]
  · rfl
  · simpa using word.toList_ne_nil

/-- Characters that are white space, or begin with some, are no part of the word before. -/
theorem wordsOf_word_append (word : Word) {ys : List Char}
    (hys : ∀ c ∈ ys.head?, isBlank c = true) :
    wordsOf (word.text.toList ++ ys) = word.text.toList :: wordsOf ys := by
  cases ys with
  | nil => rw [List.append_nil, wordsOf_word]; rfl
  | cons c rest =>
      have hc : isBlank c = true := hys c rfl
      rw [wordsOf_append_blank _ hc, wordsOf_word, wordsOf_cons_blank hc]
      rfl

/-!
## The words of a line
-/

theorem head_charsOfNext_append (next : List NextWord) (trailing : Padding) :
    ∀ c ∈ (charsOfNext next ++ trailing.text.toList).head?, isBlank c = true := by
  intro c hc
  cases next with
  | nil => exact trailing.isBlank_of_mem c (List.mem_of_mem_head? hc)
  | cons n rest =>
      obtain ⟨d, more, hgap⟩ := List.exists_cons_of_ne_nil n.gap.toList_ne_nil
      have hd : isBlank d = true := n.gap.isBlank_of_mem d (hgap ▸ List.mem_cons_self)
      simp only [charsOfNext, List.flatMap_cons, hgap, List.cons_append, List.head?_cons,
        Option.mem_some_iff] at hc
      exact hc ▸ hd

theorem wordsOf_word_next (word : Word) (next : List NextWord) (trailing : Padding) :
    wordsOf (word.text.toList ++ (charsOfNext next ++ trailing.text.toList)) =
      word.text.toList :: next.map fun n => n.word.text.toList := by
  rw [wordsOf_word_append word (head_charsOfNext_append next trailing)]
  induction next generalizing word with
  | nil =>
      rw [charsOfNext, List.flatMap_nil, List.nil_append, wordsOf_blank trailing.isBlank_of_mem]
      rfl
  | cons n rest ih =>
      have hnext : charsOfNext (n :: rest) ++ trailing.text.toList =
          n.gap.text.toList ++ (n.word.text.toList ++
            (charsOfNext rest ++ trailing.text.toList)) := by
        simp [charsOfNext]
      rw [hnext, wordsOf_blank_append n.gap.isBlank_of_mem,
        wordsOf_word_append n.word (head_charsOfNext_append rest trailing), ih n.word]
      rfl

theorem WordLine.wordsOf_chars (line : WordLine) :
    (wordsOf line.chars).map String.ofList = line.words := by
  rw [chars, wordsOf_blank_append line.margin.isBlank_of_mem, wordsOf_word_next]
  simp [words, Function.comp_def]

theorem WordLine.unbroken (line : WordLine) : '\n' ∉ line.chars := by
  have hnext : '\n' ∉ charsOfNext line.next := by
    intro hmem
    obtain ⟨n, -, hn⟩ := List.mem_flatMap.1 hmem
    exact List.not_mem_append n.gap.unbroken n.word.unbroken hn
  exact List.not_mem_append line.margin.unbroken (List.not_mem_append line.first.unbroken
    (List.not_mem_append hnext line.trailing.unbroken))

def WordLine.line (line : WordLine) : Line where
  text := String.ofList line.chars
  unbroken := by
    rw [String.toList_ofList]
    exact line.unbroken

theorem WordLine.words_line (line : WordLine) : Text.words line.line.text = line.words := by
  rw [Text.words, WordLine.line, String.toList_ofList, line.wordsOf_chars]

theorem words_append_return (cs : List Char) :
    words (String.ofList (cs ++ ['\r'])) = words (String.ofList cs) := by
  rw [words, words, String.toList_ofList, String.toList_ofList,
    wordsOf_append_blank cs (by rfl), show wordsOf [] = [] from rfl, List.append_nil]

end Text
end LogHarvest
