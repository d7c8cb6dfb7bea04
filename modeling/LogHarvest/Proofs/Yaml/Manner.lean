import LogHarvest.Proofs.Text.Boundaries
import LogHarvest.Proofs.Yaml.Lexing
import LogHarvest.Proofs.Yaml.Literal
import LogHarvest.Proofs.Yaml.PlainScalar
import LogHarvest.Proofs.Yaml.Spelling

/-!
# The manners in which a text is written

`Manner` says what each style of a scalar asks of its text.  What the lexer needs to know
of a scalar follows from it: that the scalar starts a token, that a simple key stays on
its line and near its colon, and that a document may contain every character of it.
-/

namespace LogHarvest
namespace Yaml

/-- The manner in which a text is written, and what it asks of the text. -/
inductive Manner (indent : Nat) (text : String) : Prop
  | plain (hstyle : styleOf text = .plain) (hplain : Plainly text.toList)
      (hwritten : scalarText indent text = text.toList)
  | single (hstyle : styleOf text = .singleQuoted) (hquotable : Quotable text.toList)
      (hwritten : scalarText indent text = singleQuoted indent text.toList)
  | double (hstyle : styleOf text = .doubleQuoted)
      (hwritten : scalarText indent text = '"' :: text.toList.flatMap escaped ++ ['"'])
  | literal (hstyle : styleOf text = .literal) (hbreak : '\n' ∈ text.toList)
      (hshown : ∀ c ∈ text.toList, isShown c = true)
      (hwritten : endLine (scalarText indent text) = literalText indent text.toList)

theorem shown_of_needsEscapes {text : List Char} (htext : needsEscapes text = false) :
    (∀ c ∈ text, isShown c = true) ∧ adjacent isPlainSpace isBreak text = false := by
  unfold needsEscapes at htext
  simpa using htext

theorem manner (indent : Nat) (text : String) : Manner indent text := by
  cases hbreak : text.toList.contains '\n' with
  | true =>
      cases hblock : allowsBlock text.toList with
      | true =>
          have hstyle : styleOf text = .literal := by simp only [styleOf, hbreak, hblock, if_true]
          simp only [allowsBlock, Bool.and_eq_true, Bool.not_eq_true'] at hblock
          refine .literal hstyle (List.contains_iff_mem.1 hbreak)
            (shown_of_needsEscapes hblock.1.2).1 ?_
          unfold scalarText
          rw [hstyle]
          rfl
      | false =>
          have hstyle : styleOf text = .doubleQuoted := by
            simp only [styleOf, hbreak, hblock, if_true, Bool.false_eq_true, if_false]
          refine .double hstyle ?_
          unfold scalarText
          rw [hstyle]
  | false =>
      have hunended : '\n' ∉ text.toList := by
        intro hmem
        rw [List.contains_iff_mem.2 hmem] at hbreak
        cases hbreak
      cases hplain : readsAsText text && allowsPlain text.toList with
      | true =>
          have hstyle : styleOf text = .plain := by
            simp only [styleOf, hbreak, hplain, if_true, Bool.false_eq_true, if_false]
          obtain ⟨hreads, hallows⟩ := Bool.and_eq_true_iff.1 hplain
          have hsome : text.toList ≠ [] := by
            intro hnone
            have hempty : text = "" := String.toList_injective hnone
            rw [hempty] at hreads
            exact absurd hreads (by decide)
          refine .plain hstyle (plainly_of_allowsPlain hallows hsome) ?_
          unfold scalarText
          rw [hstyle]
      | false =>
          cases hquotes : allowsSingleQuotes text.toList with
          | true =>
              have hstyle : styleOf text = .singleQuoted := by
                simp only [styleOf, hbreak, hplain, hquotes, if_true, Bool.false_eq_true, if_false]
              simp only [allowsSingleQuotes, Bool.and_eq_true, Bool.not_eq_true'] at hquotes
              have hshown := shown_of_needsEscapes hquotes.1
              refine .single hstyle ⟨hshown.1, hunended, hshown.2, hquotes.2⟩ ?_
              unfold scalarText
              rw [hstyle]
          | false =>
              have hstyle : styleOf text = .doubleQuoted := by
                simp only [styleOf, hbreak, hplain, hquotes, Bool.false_eq_true, if_false]
              refine .double hstyle ?_
              unfold scalarText
              rw [hstyle]

/-!
## How a scalar starts
-/

theorem TokenStart.append {cs : List Char} (hstart : TokenStart cs) (hsome : cs ≠ [])
    (rest : List Char) : TokenStart (cs ++ rest) := by
  intro c hc
  obtain ⟨d, more, rfl⟩ := List.exists_cons_of_ne_nil hsome
  exact hstart c hc

theorem tokenStart_cons {c : Char} (hc : isPassedOver c = false) (rest : List Char) :
    TokenStart (c :: rest) := by
  intro d hd
  rw [← Option.some.inj hd]
  exact hc

theorem Plainly.tokenStart {text : List Char} (hplain : Plainly text) : TokenStart text := by
  obtain ⟨c, more, rfl⟩ := List.exists_cons_of_ne_nil hplain.some
  apply tokenStart_cons
  have hwhite : isWhite c = false := hplain.starts c rfl
  have hhash : c ≠ '#' := ne_of_plainly hplain (by decide)
  have hmark : c ≠ byteOrderMark := by
    rintro rfl
    exact absurd (hplain.shown _ List.mem_cons_self) (by decide)
  simp [isPassedOver, hwhite, hhash, hmark]

theorem scalarText_start (indent : Nat) (text : String) :
    TokenStart (scalarText indent text) ∧ scalarText indent text ≠ [] := by
  cases manner indent text with
  | plain hstyle hplain hwritten =>
      rw [hwritten]
      exact ⟨hplain.tokenStart, hplain.some⟩
  | single hstyle hquotable hwritten =>
      rw [hwritten, singleQuoted_eq]
      exact ⟨tokenStart_cons (by decide) _, List.cons_ne_nil _ _⟩
  | double hstyle hwritten =>
      rw [hwritten]
      exact ⟨tokenStart_cons (by decide) _, List.cons_ne_nil _ _⟩
  | literal hstyle hbreak hshown hwritten =>
      unfold scalarText
      rw [hstyle]
      exact ⟨tokenStart_cons (by decide) _, List.cons_ne_nil _ _⟩

/-!
## How a scalar ends
-/

theorem Worded.unbroken {text : List Char} (hworded : Worded text) : Unbroken text := by
  induction hworded with
  | nil => simp [Unbroken]
  | char hc _ _ ih => exact .cons (Bool.or_eq_false_iff.1 hc).2 ih
  | gap _ _ _ ih => exact (unbroken_spaces _).append ih

theorem Plainly.endLine_eq {text : List Char} (hplain : Plainly text) :
    endLine text = text ++ ['\n'] :=
  @endLine_unended [] text hplain.some fun c hc =>
    hplain.worded.unbroken c (List.mem_of_getLast? hc)

theorem endLine_quoted {indent : Nat} {text : String}
    (hstyle : styleOf text = .singleQuoted ∨ styleOf text = .doubleQuoted) :
    endLine (scalarText indent text) = scalarText indent text ++ ['\n'] := by
  have hquote : ∀ (body : List Char) {q : Char}, isBreak q = false →
      endLine (body ++ [q]) = body ++ [q] ++ ['\n'] := by
    intro body q hq
    refine endLine_unended (List.cons_ne_nil q []) fun c hc => ?_
    rw [← Option.some.inj hc]
    exact hq
  cases manner indent text with
  | plain hplain _ _ =>
      rw [hplain] at hstyle
      rcases hstyle with h | h <;> cases h
  | single _ _ hwritten =>
      rw [hwritten, singleQuoted_eq]
      exact hquote _ rfl
  | double _ hwritten =>
      rw [hwritten]
      exact hquote _ rfl
  | literal hliteral _ _ _ =>
      rw [hliteral] at hstyle
      rcases hstyle with h | h <;> cases h

/-!
## Simple keys

A character between quotes takes no more than four characters for each of its bytes, so
the colon behind a simple key is near enough to the key's start.
-/

theorem unbroken_flatMap {written : Char → List Char} {cs : List Char}
    (hcs : ∀ c ∈ cs, Unbroken (written c)) : Unbroken (cs.flatMap written) := by
  intro d hd
  obtain ⟨c, hc, hd⟩ := List.mem_flatMap.1 hd
  exact hcs c hc d hd

theorem length_flatMap_le {written : Char → List Char}
    (hwritten : ∀ c, (written c).length ≤ 4 * c.utf8Size) (cs : List Char) :
    (cs.flatMap written).length ≤ 4 * Text.byteLength cs := by
  induction cs with
  | nil => exact Nat.le_refl 0
  | cons c more ih =>
      have hfirst := hwritten c
      rw [List.flatMap_cons, List.length_append, Text.byteLength_cons]
      omega

theorem unbroken_doubled {c : Char} (hc : isBreak c = false) : Unbroken (doubled c) := by
  unfold doubled
  split
  · exact .cons rfl (.cons rfl (by simp [Unbroken]))
  · exact .cons hc (by simp [Unbroken])

theorem length_doubled_le (c : Char) : (doubled c).length ≤ 4 * c.utf8Size := by
  have hsize := c.utf8Size_pos
  unfold doubled
  split
  · show 2 ≤ _
    omega
  · show 1 ≤ _
    omega

theorem unbroken_of_isSimpleKey {key : String} (hsimple : isSimpleKey key = true) :
    Unbroken key.toList := by
  unfold isSimpleKey at hsimple
  rw [Bool.and_eq_true, Bool.not_eq_true', List.any_eq_false] at hsimple
  intro c hc
  exact Bool.eq_false_iff.2 (hsimple.1 c hc)

theorem singleQuoted_unbroken (indent : Nat) {text : List Char} (htext : Unbroken text) :
    singleQuoted indent text = '\'' :: text.flatMap doubled ++ ['\''] := by
  have hlast : text.getLast?.any isBreak = false := by
    rw [Option.any_eq_false]
    intro c hc
    rw [htext c (List.mem_of_getLast? hc)]
  have hbody : Unbroken (text.flatMap doubled) :=
    unbroken_flatMap fun c hc => unbroken_doubled (htext c hc)
  rw [singleQuoted_eq]
  unfold singleBody
  rw [hlast, indented_self indent hbody]
  simp

theorem unbroken_quoted {q : Char} (hq : isBreak q = false) {body : List Char}
    (hbody : Unbroken body) : Unbroken (q :: body ++ [q]) :=
  (Unbroken.cons hq hbody).append (.cons hq (by simp [Unbroken]))

theorem simpleKey_scalarText (indent : Nat) {key : String} (hsimple : isSimpleKey key = true) :
    Unbroken (scalarText indent key) ∧ (scalarText indent key).length ≤ Lexer.maxKeyLength := by
  have hunbroken := unbroken_of_isSimpleKey hsimple
  have hbytes : Text.byteLength key.toList ≤ 128 := by
    unfold isSimpleKey at hsimple
    rw [Bool.and_eq_true, decide_eq_true_iff] at hsimple
    exact hsimple.2
  cases manner indent key with
  | plain hstyle hplain hwritten =>
      have hlength := length_flatMap_le (fun c => show [c].length ≤ 4 * c.utf8Size by
        have hpos := c.utf8Size_pos
        simp only [List.length_singleton]
        omega) key.toList
      rw [List.flatMap_singleton'] at hlength
      rw [hwritten]
      refine ⟨hunbroken, ?_⟩
      unfold Lexer.maxKeyLength
      omega
  | single hstyle hquotable hwritten =>
      have hlength := length_flatMap_le length_doubled_le key.toList
      rw [hwritten, singleQuoted_unbroken indent hunbroken]
      refine ⟨unbroken_quoted rfl (unbroken_flatMap fun c hc => unbroken_doubled (hunbroken c hc)),
        ?_⟩
      simp only [List.length_append, List.length_cons, List.length_nil]
      unfold Lexer.maxKeyLength
      omega
  | double hstyle hwritten =>
      have hlength := length_flatMap_le length_escaped_le key.toList
      rw [hwritten]
      refine ⟨unbroken_quoted rfl (unbroken_flatMap fun c _ d hd => (shown_escaped c d hd).2), ?_⟩
      simp only [List.length_append, List.length_cons, List.length_nil]
      unfold Lexer.maxKeyLength
      omega
  | literal hstyle hbreak hshown hwritten =>
      have hnot := hunbroken _ hbreak
      cases hnot

/-!
## Characters
-/

theorem isAdmissible_of_isShown {c : Char} (hc : isShown c = true) : isAdmissible c = true := by
  unfold isShown at hc
  unfold isAdmissible
  simp only [Bool.or_eq_true, Bool.and_eq_true, decide_eq_true_eq, beq_iff_eq, bne_iff_ne] at hc ⊢
  omega

theorem isShown_spaces (n : Nat) : ∀ c ∈ spaces n, isShown c = true := by
  intro c hc
  rw [List.eq_of_mem_replicate hc]
  decide

theorem isShown_indented {indent : Nat} {cs : List Char} (hcs : ∀ c ∈ cs, isShown c = true) :
    ∀ atStart, ∀ c ∈ indented indent atStart cs, isShown c = true := by
  induction cs with
  | nil => simp [indented]
  | cons d rest ih =>
      obtain ⟨hd, hrest⟩ := List.forall_mem_cons.1 hcs
      intro atStart
      unfold indented
      split
      · exact List.forall_mem_cons.2 ⟨hd, ih hrest true⟩
      · refine List.forall_mem_append.2 ⟨?_, List.forall_mem_cons.2 ⟨hd, ih hrest false⟩⟩
        split
        · exact isShown_spaces indent
        · simp

theorem isShown_blockHeader (text : List Char) : ∀ c ∈ blockHeader text, isShown c = true := by
  unfold blockHeader
  refine List.forall_mem_cons.2 ⟨by decide, List.forall_mem_append.2 ⟨?_, ?_⟩⟩
  · split
    · exact List.all_eq_true.1 (by decide)
    · simp
  · repeat' split
    all_goals exact List.all_eq_true.1 (by decide)

theorem isShown_scalarText (indent : Nat) (text : String) :
    ∀ c ∈ scalarText indent text, isShown c = true := by
  cases manner indent text with
  | plain hstyle hplain hwritten =>
      rw [hwritten]
      exact hplain.shown
  | single hstyle hquotable hwritten =>
      rw [hwritten, singleQuoted_eq]
      have hdoubled : ∀ c ∈ text.toList.flatMap doubled, isShown c = true := by
        intro d hd
        obtain ⟨c, hc, hd⟩ := List.mem_flatMap.1 hd
        unfold doubled at hd
        split at hd
        · have hquote : ∀ e ∈ ['\'', '\''], isShown e = true := List.all_eq_true.1 (by decide)
          exact hquote d hd
        · rw [List.mem_singleton.1 hd]
          exact hquotable.shown c hc
      refine List.forall_mem_cons.2
        ⟨by decide, List.forall_mem_append.2 ⟨?_, List.forall_mem_singleton.2 (by decide)⟩⟩
      refine List.forall_mem_append.2 ⟨isShown_indented hdoubled false, ?_⟩
      split
      · exact isShown_spaces indent
      · simp
  | double hstyle hwritten =>
      rw [hwritten]
      refine List.forall_mem_cons.2
        ⟨by decide, List.forall_mem_append.2 ⟨?_, List.forall_mem_singleton.2 (by decide)⟩⟩
      intro d hd
      obtain ⟨c, hc, hd⟩ := List.mem_flatMap.1 hd
      exact (shown_escaped c d hd).1
  | literal hstyle hbreak hshown hwritten =>
      unfold scalarText
      rw [hstyle]
      exact List.forall_mem_append.2
        ⟨isShown_blockHeader _, List.forall_mem_cons.2 ⟨by decide, isShown_indented hshown true⟩⟩

end Yaml
end LogHarvest
