import LogHarvest.Text.ShellWord

/-!
# Quoted words are read back

A text *spells* a word if the shell, wherever a word may begin, takes the text for the
characters of that word and goes on bare behind it.  A text of characters that mean
themselves spells itself, and every text is spelled by its quoted form.  So a command of
plain words and a quoted text has exactly these words.
-/

namespace LogHarvest
namespace Text

/-- Where a word may begin, the text stands for the characters of the word. -/
def Spells (text word : List Char) : Prop :=
  ∀ rest, readWordsFrom .bare none (text ++ rest) = readWordsFrom .bare (some word) rest

/-!
## Steps of the reader
-/

section Steps

variable (word : Option (List Char)) (rest : List Char)

theorem readWordsFrom_nil (w : List Char) : readWordsFrom .bare (some w) [] = some [w] := by
  rw [readWordsFrom]
  rfl

theorem readWordsFrom_blank :
    readWordsFrom .bare word (' ' :: rest) =
      (readWordsFrom .bare none rest).map (endWord word) := by
  rw [readWordsFrom.eq_def]
  rfl

theorem readWordsFrom_open :
    readWordsFrom .bare word ('\'' :: rest) =
      readWordsFrom .single (some (word.getD [])) rest := by
  rw [readWordsFrom.eq_def]
  rfl

theorem readWordsFrom_close :
    readWordsFrom .single word ('\'' :: rest) = readWordsFrom .bare word rest := by
  rw [readWordsFrom.eq_def]
  rfl

theorem readWordsFrom_within {c : Char} (hc : (c == '\'') = false) :
    readWordsFrom .single word (c :: rest) = readWordsFrom .single (extend word c) rest := by
  rw [readWordsFrom, hc]
  rfl

theorem readWordsFrom_escape {c : Char} (hc : (c == '\n') = false) :
    readWordsFrom .bare word ('\\' :: c :: rest) =
      readWordsFrom .bare (extend word c) rest := by
  rw [readWordsFrom.eq_def]
  simp only [hc]
  rfl

end Steps

/-!
## Characters that mean themselves
-/

def meansItself (c : Char) : Bool :=
  !(c == ' ' || c == '\t' || c == '\'' || c == '"' || c == '\\' || isOperator c)

def isPlain (cs : List Char) : Bool :=
  !cs.isEmpty && cs.all meansItself

theorem needsQuotes_of_mem_operators : ∀ d ∈ "|&;<>()$`*?[#~\n".toList, needsQuotes d = true :=
  List.all_eq_true.1 (by decide)

/-- What the writer leaves without quotes means nothing else to the reader. -/
theorem meansItself_of_needsQuotes {c : Char} (hc : needsQuotes c = false) :
    meansItself c = true := by
  have hne {d : Char} (hd : needsQuotes d = true) : (c == d) = false := by
    rw [beq_eq_false_iff_ne]
    rintro rfl
    exact Bool.false_ne_true (hc.symm.trans hd)
  have hoperator : isOperator c = false := by
    rw [isOperator, ← Bool.not_eq_true, List.contains_iff_mem]
    intro hmem
    exact Bool.false_ne_true (hc.symm.trans (needsQuotes_of_mem_operators c hmem))
  rw [meansItself, hne (d := ' ') (by decide), hne (d := '\t') (by decide),
    hne (d := '\'') (by decide), hne (d := '"') (by decide), hne (d := '\\') (by decide), hoperator]
  rfl

theorem readWordsFrom_bare {c : Char} (hc : meansItself c = true) (word : Option (List Char))
    (rest : List Char) :
    readWordsFrom .bare word (c :: rest) = readWordsFrom .bare (extend word c) rest := by
  simp only [meansItself, Bool.not_eq_true', Bool.or_eq_false_iff] at hc
  obtain ⟨⟨⟨⟨⟨hblank, htab⟩, hsingle⟩, hdouble⟩, hbackslash⟩, hoperator⟩ := hc
  rw [readWordsFrom.eq_def]
  simp only [hblank, htab, hsingle, hdouble, hbackslash, hoperator, Bool.or_self,
    Bool.false_eq_true, if_false]

theorem readWordsFrom_bare_append {cs : List Char} (hcs : ∀ c ∈ cs, meansItself c = true)
    (word rest : List Char) :
    readWordsFrom .bare (some word) (cs ++ rest) =
      readWordsFrom .bare (some (word ++ cs)) rest := by
  induction cs generalizing word with
  | nil => rw [List.nil_append, List.append_nil]
  | cons c cs ih =>
      have htail := ih fun c' hmem => hcs c' (List.mem_cons_of_mem c hmem)
      rw [List.cons_append, readWordsFrom_bare (hcs c List.mem_cons_self), extend,
        Option.getD_some, htail, List.append_assoc, List.singleton_append]

theorem spells_of_isPlain {cs : List Char} (hplain : isPlain cs = true) : Spells cs cs := by
  intro rest
  rw [isPlain, Bool.and_eq_true, List.all_eq_true] at hplain
  obtain ⟨hne, hcs⟩ := hplain
  cases cs with
  | nil => cases hne
  | cons c cs =>
      have htail := fun c' hmem => hcs c' (List.mem_cons_of_mem c hmem)
      rw [List.cons_append, readWordsFrom_bare (hcs c List.mem_cons_self), extend,
        Option.getD_none, List.nil_append, readWordsFrom_bare_append htail,
        List.singleton_append]

/-!
## Characters between single quotes
-/

/-- Between single quotes a character comes back, a single quote through its detour. -/
theorem readWordsFrom_quoteChar (c : Char) (word rest : List Char) :
    readWordsFrom .single (some word) (quoteChar c ++ rest) =
      readWordsFrom .single (some (word ++ [c])) rest := by
  rw [quoteChar]
  split
  · -- The quotes are left, the escaped quote is read, and the quotes are entered again.
    rename_i hquote
    rw [beq_iff_eq.1 hquote]
    show readWordsFrom .single (some word) ('\'' :: '\\' :: '\'' :: '\'' :: rest) = _
    rw [readWordsFrom_close, readWordsFrom_escape _ _ (by rfl), readWordsFrom_open]
    rfl
  · rename_i hplain
    rw [List.singleton_append, readWordsFrom_within _ _ (Bool.not_eq_true _ ▸ hplain)]
    rfl

theorem readWordsFrom_flatMap_quoteChar (cs word rest : List Char) :
    readWordsFrom .single (some word) (cs.flatMap quoteChar ++ rest) =
      readWordsFrom .single (some (word ++ cs)) rest := by
  induction cs generalizing word with
  | nil => rw [List.flatMap_nil, List.nil_append, List.append_nil]
  | cons c cs ih =>
      rw [List.flatMap_cons, List.append_assoc, readWordsFrom_quoteChar, ih, List.append_assoc,
        List.singleton_append]

theorem spells_singleQuoted (cs : List Char) :
    Spells ('\'' :: cs.flatMap quoteChar ++ ['\'']) cs := by
  intro rest
  rw [List.append_assoc, List.cons_append, readWordsFrom_open, List.singleton_append,
    readWordsFrom_flatMap_quoteChar, readWordsFrom_close]
  rfl

theorem spells_quoteWord (s : String) : Spells (quoteWord s).toList s.toList := by
  rw [quoteWord]
  split
  · rename_i hbare
    have hplain : isPlain s.toList = true := by
      rw [Bool.and_eq_true, Bool.not_eq_true' (b := s.toList.any needsQuotes),
        List.any_eq_false] at hbare
      rw [isPlain, Bool.and_eq_true, List.all_eq_true]
      exact ⟨hbare.1, fun c hmem =>
        meansItself_of_needsQuotes (Bool.not_eq_true _ ▸ hbare.2 c hmem)⟩
    exact spells_of_isPlain hplain
  · rw [String.toList_ofList]
    exact spells_singleQuoted s.toList

/-!
## Commands
-/

theorem Spells.before_blank {text word : List Char} (hspells : Spells text word)
    (rest : List Char) :
    readWordsFrom .bare none (text ++ ' ' :: rest) =
      (readWordsFrom .bare none rest).map fun found => word :: found := by
  rw [hspells, readWordsFrom_blank]
  rfl

theorem Spells.at_end {text word : List Char} (hspells : Spells text word) :
    readWordsFrom .bare none text = some [word] := by
  have hread := hspells []
  rw [List.append_nil] at hread
  rw [hread, readWordsFrom_nil]

def leading (plain : List String) : List Char :=
  plain.flatMap fun word => word.toList ++ [' ']

theorem readWordsFrom_leading {plain : List String} {text word : List Char}
    (hplain : plain.all (fun w => isPlain w.toList) = true) (hspells : Spells text word) :
    readWordsFrom .bare none (leading plain ++ text) =
      some (plain.map String.toList ++ [word]) := by
  induction plain with
  | nil => exact hspells.at_end
  | cons w plain ih =>
      rw [List.all_cons, Bool.and_eq_true] at hplain
      obtain ⟨hword, hothers⟩ := hplain
      have hsplit : leading (w :: plain) ++ text = w.toList ++ ' ' :: (leading plain ++ text) := by
        simp [leading]
      rw [hsplit, (spells_of_isPlain hword).before_blank, ih hothers]
      rfl

theorem readWords_append_quoteWord (plain : List String) {command : String}
    (hcommand : command.toList = leading plain)
    (hplain : plain.all (fun w => isPlain w.toList) = true) (s : String) :
    readWords (command ++ quoteWord s) = some (plain ++ [s]) := by
  rw [readWords, String.toList_append, hcommand,
    readWordsFrom_leading hplain (spells_quoteWord s), Option.map_some]
  simp [Function.comp_def]

end Text
end LogHarvest
