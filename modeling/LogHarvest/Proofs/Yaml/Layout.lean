import LogHarvest.Proofs.Yaml.Meaning
import LogHarvest.Proofs.Yaml.Taking

/-!
# The tokens of a written value

A value that is written comes back as `Value.tokens`.  `Lays` says this of a text that
stands in some column: the lexer goes over the text, and behind its last line it has the
tokens, and the blocks are closed that the next line is not part of.  Items, entries and
values are gone over in turn, by recursion on the value.
-/

namespace LogHarvest
namespace Yaml

mutual

def Value.Positive : Value → Prop
  | .number value => 0 < value
  | .sequence items => AllPositive items
  | .mapping entries => EntriesPositive entries
  | _ => True

def AllPositive : List Value → Prop
  | [] => True
  | item :: items => item.Positive ∧ AllPositive items

def EntriesPositive : List (String × Value) → Prop
  | [] => True
  | (_, value) :: entries => value.Positive ∧ EntriesPositive entries

end

theorem allPositive_iff {items : List Value} :
    AllPositive items ↔ ∀ item ∈ items, item.Positive := by
  induction items with
  | nil => simp [AllPositive]
  | cons item items ih => rw [AllPositive, ih, List.forall_mem_cons]

theorem entriesPositive_iff {entries : List (String × Value)} :
    EntriesPositive entries ↔ ∀ entry ∈ entries, entry.2.Positive := by
  induction entries with
  | nil => simp [EntriesPositive]
  | cons entry entries ih => rw [EntriesPositive, ih, List.forall_mem_cons]

mutual

/-- The tokens of a value; a sequence is loose in the column of the key before it. -/
def Value.tokens (loose : Bool) : Value → List Token
  | .sequence items =>
      if items.isEmpty then [.flowSequenceStart, .flowSequenceEnd]
      else if loose then itemTokens items
      else .blockSequenceStart :: (itemTokens items ++ [.blockEnd])
  | .mapping entries =>
      if entries.isEmpty then [.flowMappingStart, .flowMappingEnd]
      else .blockMappingStart :: (entryTokens entries ++ [.blockEnd])
  | .text value => [.scalar value (styleOf value)]
  | value => [.scalar (String.ofList (leafText 0 value)) .plain]

def itemTokens : List Value → List Token
  | [] => []
  | item :: items => .blockEntry :: (item.tokens false ++ itemTokens items)

def entryTokens : List (String × Value) → List Token
  | [] => []
  | (key, value) :: entries =>
      .key :: .scalar key (styleOf key) :: .value ::
        (value.tokens (isSimpleKey key) ++ entryTokens entries)

end

/-- Over a text in a column the lexer gets to the tokens, with these blocks open behind it. -/
def Lays (stack : List Nat) (column : Nat) (keyAllowed : Bool) (text : List Char)
    (tokens : List Token) (after : List Nat) : Prop :=
  ∀ (before : List Token) (n : Nat) (next : List Char), (∀ top ∈ after.head?, n ≤ top) →
    TokenStart next →
      Lexer.Leads (At stack before (endLine text ++ (spaces n ++ next)) column keyAllowed)
        (At (closed n after) (before ++ tokens ++ ends n after) next n true)

/-!
## Lines
-/

theorem endLine_append (xs : List Char) {ys : List Char} (hsome : ys ≠ []) :
    endLine (xs ++ ys) = xs ++ endLine ys := by
  have hlast : (xs ++ ys).getLast? = ys.getLast? := by
    rw [List.getLast?_append, List.getLast?_eq_some_getLast hsome, Option.some_or]
  unfold endLine
  rw [hlast]
  split
  · rfl
  · rw [List.append_assoc]

theorem TokenStart.line {text : List Char} (hstart : TokenStart text) (hsome : text ≠ [])
    (rest : List Char) : TokenStart (endLine text ++ rest) := by
  unfold endLine
  split
  · exact hstart.append hsome rest
  · rw [List.append_assoc]
    exact hstart.append hsome _

/-!
## Values without values in them
-/

variable {top : Nat} {outer : List Nat} {column : Nat} {keyAllowed : Bool}

theorem lays_plain {text : List Char} (hplain : Plainly text) (hdeeper : top < column) :
    Lays (top :: outer) column keyAllowed text [.scalar (String.ofList text) .plain]
      (top :: outer) := by
  intro before n next hn hnext
  rw [hplain.endLine_eq, List.append_assoc]
  exact Lexer.leads_of_goes fun r hat => Lexer.goes_plain (hn top rfl) hplain hnext hdeeper hat

theorem lays_brackets {left right : Char} {start stop : Token}
    (hbrackets : Lexer.Brackets left right start stop) (hdeeper : top < column) :
    Lays (top :: outer) column keyAllowed [left, right] [start, stop] (top :: outer) := by
  intro before n next _ hnext
  have hline : endLine [left, right] = [left, right, '\n'] := by
    cases hbrackets <;> rfl
  rw [hline]
  exact Lexer.leads_brackets hbrackets hnext hdeeper

theorem lays_text (text : String) (hdeeper : top < column) :
    Lays (top :: outer) column keyAllowed (scalarText (top + 2) text)
      [.scalar text (styleOf text)] (top :: outer) := by
  intro before n next hn hnext
  exact Lexer.leads_scalar (hn top rfl) hnext hdeeper

theorem plainly_null : Plainly "null".toList :=
  plainly_of_allowsPlain (by decide) (by decide)

theorem plainly_flag (value : Bool) : Plainly (if value then "true" else "false").toList := by
  cases value
  · exact plainly_of_allowsPlain (by decide) (by decide)
  · exact plainly_of_allowsPlain (by decide) (by decide)

theorem plainly_natural (value : Nat) : Plainly (Nat.toDigits 10 value) :=
  plainly_of_allowsPlain (allowsPlain_toDigits value).1 (allowsPlain_toDigits value).2

theorem plainly_number {value : Float} (hpos : 0 < value) :
    Plainly (Text.documentStyle.render value).toList :=
  plainly_of_allowsPlain (allowsPlain_render hpos).1 (allowsPlain_render hpos).2

theorem lays_leaf {v : Value} (hleaf : v.isLeaf = true) (hpos : v.Positive) (loose : Bool)
    (hdeeper : top < column) :
    Lays (top :: outer) column keyAllowed (leafText (top + 2) v) (v.tokens loose)
        (top :: outer) := by
  cases v with
  | null => exact lays_plain plainly_null hdeeper
  | flag value => exact lays_plain (plainly_flag value) hdeeper
  | natural value => exact lays_plain (plainly_natural value) hdeeper
  | number value => exact lays_plain (plainly_number hpos) hdeeper
  | text value => exact lays_text value hdeeper
  | sequence items =>
      cases items with
      | nil => exact lays_brackets .square hdeeper
      | cons item items => cases hleaf
  | mapping entries =>
      cases entries with
      | nil => exact lays_brackets .curly hdeeper
      | cons entry entries => cases hleaf

theorem leafText_start {v : Value} (hpos : v.Positive) (indent : Nat) :
    TokenStart (leafText indent v) ∧ leafText indent v ≠ [] := by
  have hplainly : ∀ {text : List Char}, Plainly text → TokenStart text ∧ text ≠ [] :=
    fun hplain => ⟨hplain.tokenStart, hplain.some⟩
  cases v with
  | null => exact hplainly plainly_null
  | flag value => exact hplainly (plainly_flag value)
  | natural value => exact hplainly (plainly_natural value)
  | number value => exact hplainly (plainly_number hpos)
  | text value => exact scalarText_start indent value
  | sequence items => exact ⟨tokenStart_cons (by decide) _, List.cons_ne_nil _ _⟩
  | mapping entries => exact ⟨tokenStart_cons (by decide) _, List.cons_ne_nil _ _⟩

theorem keyText_start (indent : Nat) (key : String) :
    TokenStart (keyText indent key) ∧ keyText indent key ≠ [] := by
  obtain ⟨hstart, hsome⟩ := scalarText_start (indent + indentStep) key
  unfold keyText
  split
  · exact ⟨hstart.append hsome _, by simp⟩
  · have hmark : TokenStart ('?' :: ' ' :: scalarText (indent + indentStep) key) :=
      tokenStart_cons (by decide) _
    rw [List.append_assoc]
    exact ⟨hmark.line (List.cons_ne_nil _ _) _, by simp⟩

theorem stacked_start {indent : Nat} {text : List Char} {texts : List (List Char)}
    (htext : TokenStart text ∧ text ≠ []) :
    TokenStart (stacked indent (text :: texts)) ∧ stacked indent (text :: texts) ≠ [] := by
  cases texts with
  | nil => exact htext
  | cons next rest =>
      obtain ⟨hstart, hsome⟩ := htext
      unfold stacked
      rw [List.append_assoc]
      refine ⟨hstart.line hsome _, ?_⟩
      unfold endLine
      split <;> simp [hsome]

def valueText (indent : Nat) (v : Value) : List Char :=
  if v.isLeaf then leafText indent v else blockText indent v

theorem itemTexts_cons (indent : Nat) (item : Value) (items : List Value) :
    itemTexts indent (item :: items) =
      ('-' :: ' ' :: valueText (indent + indentStep) item) :: itemTexts indent items := by
  rw [itemTexts]
  rfl

def entryText (indent : Nat) (key : String) (value : Value) : List Char :=
  keyText indent key ++
    (if value.isLeaf then ' ' :: leafText (indent + indentStep) value
    else if isSimpleKey key then
      let column := indent + (match value with | .sequence _ => 0 | _ => indentStep)
      '\n' :: spaces column ++ blockText column value
    else ' ' :: blockText (indent + indentStep) value)

theorem entryTexts_cons (indent : Nat) (key : String) (value : Value)
    (entries : List (String × Value)) :
    entryTexts indent ((key, value) :: entries) =
      entryText indent key value :: entryTexts indent entries := by
  cases value <;> rfl

theorem entryText_start (indent : Nat) (key : String) (value : Value) :
    TokenStart (entryText indent key value) ∧ entryText indent key value ≠ [] := by
  obtain ⟨hstart, hsome⟩ := keyText_start indent key
  unfold entryText
  exact ⟨hstart.append hsome _, by simp [hsome]⟩

theorem stackedItems_start (indent : Nat) {items : List Value} (hsome : items ≠ []) :
    TokenStart (stacked indent (itemTexts indent items)) ∧
      stacked indent (itemTexts indent items) ≠ [] := by
  obtain ⟨item, more, rfl⟩ := List.exists_cons_of_ne_nil hsome
  rw [itemTexts_cons]
  exact stacked_start ⟨tokenStart_cons (by decide) _, List.cons_ne_nil _ _⟩

theorem stackedEntries_start (indent : Nat) {entries : List (String × Value)}
    (hsome : entries ≠ []) :
    TokenStart (stacked indent (entryTexts indent entries)) ∧
      stacked indent (entryTexts indent entries) ≠ [] := by
  obtain ⟨⟨key, value⟩, more, rfl⟩ := List.exists_cons_of_ne_nil hsome
  rw [entryTexts_cons]
  exact stacked_start (entryText_start indent key value)

theorem valueText_start {v : Value} (hpos : v.Positive) (indent : Nat) :
    TokenStart (valueText indent v) ∧ valueText indent v ≠ [] := by
  unfold valueText
  split
  · exact leafText_start hpos indent
  · rename_i hblock
    cases v with
    | sequence items =>
        exact stackedItems_start indent (by rintro rfl; exact hblock rfl)
    | mapping entries =>
        exact stackedEntries_start indent (by rintro rfl; exact hblock rfl)
    | _ => exact absurd rfl hblock

/-!
## Items and entries
-/

variable {stack : List Nat}

theorem entered_entered (column : Nat) (stack : List Nat) :
    entered column (entered column stack) = entered column stack := by
  obtain ⟨outer, hentered⟩ := head?_entered column stack
  rw [hentered]
  exact if_pos rfl

theorem starting_entered (token : Token) (column : Nat) (stack : List Nat) :
    starting token column (entered column stack) = [] := by
  obtain ⟨outer, hentered⟩ := head?_entered column stack
  rw [hentered]
  exact if_pos rfl

theorem Lays.stacked {text : List Char} {texts : List (List Char)} {tokens tokens' : List Token}
    (hfirst : Lays stack column true text tokens (entered column stack))
    (hrest : Lays (entered column stack) column true (Yaml.stacked column texts) tokens'
      (entered column stack))
    (hsome : texts ≠ [])
    (hstart : TokenStart (Yaml.stacked column texts) ∧ Yaml.stacked column texts ≠ []) :
    Lays stack column true (Yaml.stacked column (text :: texts)) (tokens ++ tokens')
      (entered column stack) := by
  intro before n next hn hnext
  obtain ⟨next', rest, rfl⟩ := List.exists_cons_of_ne_nil hsome
  have hunder := under_entered (Nat.le_refl column) stack
  obtain ⟨hclosed, hends⟩ := closed_of_under hunder
  have hunder' : ∀ top ∈ (entered column stack).head?, column ≤ top := by
    obtain ⟨outer, hentered⟩ := head?_entered column stack
    intro top htop
    rw [hentered] at htop
    rw [← Option.some.inj htop]
  have htext : endLine (Yaml.stacked column (text :: next' :: rest)) ++ (spaces n ++ next) =
      endLine text ++ (spaces column ++
        (endLine (Yaml.stacked column (next' :: rest)) ++ (spaces n ++ next))) := by
    have hstacked : Yaml.stacked column (text :: next' :: rest) =
        endLine text ++ spaces column ++ Yaml.stacked column (next' :: rest) := rfl
    rw [hstacked, endLine_append _ hstart.2]
    simp only [List.append_assoc]
  have hto := hfirst before column (endLine (Yaml.stacked column (next' :: rest)) ++
    (spaces n ++ next)) hunder' (hstart.1.line hstart.2 _)
  rw [hclosed, hends, List.append_nil] at hto
  rw [htext, ← List.append_assoc before]
  exact hto.trans (hrest (before ++ tokens) n next hn hnext)

/-- Over the value of an item or an entry, which stands two columns behind its block. -/
def LaysValue (v : Value) : Prop :=
  ∀ (top : Nat) (outer : List Nat),
    Lays (top :: outer) (top + 2) true (valueText (top + 2) v) (v.tokens false) (top :: outer)

theorem lays_item (hunder : Under stack column) {item : Value} (hpos : item.Positive)
    (hvalue : LaysValue item) :
    Lays stack column true ('-' :: ' ' :: valueText (column + 2) item)
      (starting .blockSequenceStart column stack ++ .blockEntry :: item.tokens false)
      (entered column stack) := by
  intro before n next hn hnext
  obtain ⟨hstart, hsome⟩ := valueText_start hpos (column + 2)
  have hmark := Lexer.leads_item hunder (hstart.line hsome (spaces n ++ next)) before
  obtain ⟨outer, hentered⟩ := head?_entered column stack
  rw [hentered] at hn hmark ⊢
  have hline : endLine ('-' :: ' ' :: valueText (column + 2) item) =
      '-' :: ' ' :: endLine (valueText (column + 2) item) :=
    endLine_append ['-', ' '] hsome
  rw [hline]
  have hrest := hvalue column outer
    (before ++ starting .blockSequenceStart column stack ++ [.blockEntry]) n next
    hn hnext
  simp only [List.append_assoc, List.singleton_append] at hmark hrest ⊢
  exact hmark.trans hrest

theorem lays_entry_asked (hunder : Under stack column) {key : String}
    (hsimple : isSimpleKey key = false) {value : Value} (hpos : value.Positive)
    (hvalue : LaysValue value) :
    Lays stack column true (entryText column key value)
      (starting .blockMappingStart column stack ++
        .key :: .scalar key (styleOf key) :: .value :: value.tokens false)
      (entered column stack) := by
  intro before n next hn hnext
  obtain ⟨hstart, hsome⟩ := valueText_start hpos (column + 2)
  obtain ⟨hkeyStart, hkeySome⟩ := scalarText_start (column + 2) key
  have htext : endLine (entryText column key value) ++ (spaces n ++ next) =
      '?' :: ' ' :: (endLine (scalarText (column + 2) key) ++ (spaces column ++
        (':' :: ' ' :: (endLine (valueText (column + 2) value) ++ (spaces n ++ next))))) := by
    have hentry : entryText column key value =
        ('?' :: ' ' :: endLine (scalarText (column + 2) key) ++ spaces column ++ [':', ' ']) ++
          valueText (column + 2) value := by
      have hkey : endLine ('?' :: ' ' :: scalarText (column + 2) key) =
          '?' :: ' ' :: endLine (scalarText (column + 2) key) :=
        endLine_append ['?', ' '] hkeySome
      unfold entryText keyText valueText indentStep
      simp only [hsimple, Bool.false_eq_true, if_false, hkey]
      split <;> simp
    rw [hentry, endLine_append _ hsome]
    simp
  have hcolon : TokenStart (':' :: ' ' :: (endLine (valueText (column + 2) value) ++
      (spaces n ++ next))) :=
    tokenStart_cons (by decide) _
  have hmark := Lexer.leads_questionMark hunder (hkeyStart.line hkeySome (spaces column ++
    (':' :: ' ' :: (endLine (valueText (column + 2) value) ++ (spaces n ++ next))))) before
  obtain ⟨outer, hentered⟩ := head?_entered column stack
  rw [hentered] at hn hmark ⊢
  have hscalar := (lays_text key (by omega) : Lays (column :: outer) (column + 2) true _ _ _)
    (before ++ starting .blockMappingStart column stack ++ [.key]) column _ (by simp) hcolon
  rw [closed_cons_of_le (Int.le_refl _), ends_cons_of_le (Int.le_refl _), List.append_nil]
    at hscalar
  have hlone := Lexer.leads_loneColon outer column
    (hstart.line hsome (spaces n ++ next))
    (before ++ starting .blockMappingStart column stack ++ [.key] ++ [.scalar key (styleOf key)])
  have hrest := hvalue column outer (before ++ starting .blockMappingStart column stack ++ [.key] ++
    [.scalar key (styleOf key)] ++ [.value]) n next hn hnext
  rw [htext]
  have hwhole := ((hmark.trans hscalar).trans hlone).trans hrest
  simpa only [List.append_assoc, List.cons_append, List.nil_append] using hwhole

theorem lays_entry_simple (hunder : Under stack column) {key : String}
    (hsimple : isSimpleKey key = true) {value : Value} {ws text : List Char} {after : Nat}
    (hentry : entryText column key value = scalarText (column + 2) key ++ ':' :: (ws ++ text))
    (hws : White ws) (hgap : ∀ next, atGap (ws ++ next) = true)
    (hafter : ∀ p : Cursor, p.column = column →
      (p.past (scalarText (column + 2) key ++ ([':'] ++ ws))).column = after)
    (hle : column ≤ after) (hstart : TokenStart text ∧ text ≠ [])
    (hvalue : ∀ {outer : List Nat}, Lays (column :: outer) after (endsLine ws) text
      (value.tokens true) (column :: outer)) :
    Lays stack column true (entryText column key value)
      (starting .blockMappingStart column stack ++
        .key :: .scalar key (styleOf key) :: .value :: value.tokens true)
      (entered column stack) := by
  intro before n next hn hnext
  have htext : endLine (entryText column key value) ++ (spaces n ++ next) =
      scalarText (column + 2) key ++ ':' :: (ws ++ (endLine text ++ (spaces n ++ next))) := by
    have hsplit : entryText column key value =
        (scalarText (column + 2) key ++ ':' :: ws) ++ text := by
      rw [hentry]
      simp
    rw [hsplit, endLine_append _ hstart.2]
    simp
  have hkey := Lexer.leads_simpleKey hunder hsimple hws (hgap _)
    (hstart.1.line hstart.2 (spaces n ++ next)) after hafter hle before
  obtain ⟨outer, hentered⟩ := head?_entered column stack
  rw [hentered] at hn hkey ⊢
  have hrest := @hvalue outer (before ++ starting .blockMappingStart column stack ++
    [.key, .scalar key (styleOf key), .value]) n next hn hnext
  rw [htext]
  have hwhole := hkey.trans hrest
  simpa only [List.append_assoc, List.cons_append, List.nil_append] using hwhole

theorem lays_entry_leaf (hunder : Under stack column) {key : String}
    (hsimple : isSimpleKey key = true) {value : Value} (hpos : value.Positive)
    (hleaf : value.isLeaf = true) :
    Lays stack column true (entryText column key value)
      (starting .blockMappingStart column stack ++
        .key :: .scalar key (styleOf key) :: .value :: value.tokens true)
      (entered column stack) := by
  obtain ⟨hunbroken, -⟩ := simpleKey_scalarText (column + 2) hsimple
  have hdeeper : column < column + (scalarText (column + 2) key ++ ([':'] ++ spaces 1)).length := by
    simp
  have hentry : entryText column key value =
      scalarText (column + 2) key ++ ':' :: (spaces 1 ++ leafText (column + 2) value) := by
    unfold entryText keyText indentStep
    simp only [hsimple, hleaf, if_true]
    simp [spaces]
  refine lays_entry_simple hunder hsimple hentry (.blanks 1) (fun _ => rfl) ?_ hdeeper.le
    (leafText_start hpos (column + 2)) (lays_leaf hleaf hpos true hdeeper)
  rintro p rfl
  exact Cursor.column_past (hunbroken.append (.cons rfl (unbroken_spaces 1))) p

theorem lays_entry_block (hunder : Under stack column) {key : String}
    (hsimple : isSimpleKey key = true) {value : Value}
    {deeper : Nat} (hdeeper : column ≤ deeper)
    (hentry : entryText column key value =
      scalarText (column + 2) key ++ ':' :: '\n' :: (spaces deeper ++ blockText deeper value))
    (hstart : TokenStart (blockText deeper value) ∧ blockText deeper value ≠ [])
    (hvalue : ∀ {outer : List Nat}, Lays (column :: outer) deeper true (blockText deeper value)
      (value.tokens true) (column :: outer)) :
    Lays stack column true (entryText column key value)
      (starting .blockMappingStart column stack ++
        .key :: .scalar key (styleOf key) :: .value :: value.tokens true)
      (entered column stack) := by
  have hline : White ('\n' :: spaces deeper) := .line deeper
  refine lays_entry_simple hunder hsimple hentry hline (fun _ => rfl) ?_ hdeeper hstart hvalue
  intro p _
  rw [← List.append_assoc]
  exact (Cursor.past_after_break rfl (unbroken_spaces deeper) p _).1.trans (length_spaces deeper)

theorem Lays.close {text : List Char} {tokens : List Token} {deeper : Nat} (hdeeper : top < deeper)
    (hlays : Lays (top :: outer) column keyAllowed text tokens (deeper :: top :: outer)) :
    Lays (top :: outer) column keyAllowed text (tokens ++ [.blockEnd]) (top :: outer) := by
  intro before n next hn hnext
  have htop : n ≤ top := hn top rfl
  have hinner := hlays before n next (fun c hc => by rw [← Option.some.inj hc]; omega) hnext
  have hless : (n : Int) < deeper := by omega
  rw [closed_cons_of_lt hless, ends_cons_of_lt hless] at hinner
  simpa only [List.append_assoc, List.singleton_append] using hinner

mutual

theorem laysValue (v : Value) (hpos : v.Positive) : LaysValue v := by
  intro top outer
  have hfresh : ∀ token, entered (top + 2) (top :: outer) = (top + 2) :: top :: outer ∧
      starting token (top + 2) (top :: outer) = [token] := by
    intro token
    have hhead : (top :: outer).head? ≠ some (top + 2) := by simp
    exact ⟨if_neg hhead, if_neg hhead⟩
  have hunder : Under (top :: outer) (top + 2) := by
    intro c hc
    rw [← Option.some.inj hc]
    omega
  match v, hpos with
  | .sequence (item :: items), hpos =>
      have hitems := laysItems (item :: items) hpos (List.cons_ne_nil _ _) hunder
      rw [(hfresh .blockSequenceStart).1, (hfresh .blockSequenceStart).2] at hitems
      exact hitems.close (by omega)
  | .mapping (entry :: entries), hpos =>
      have hentries := laysEntries (entry :: entries) hpos (List.cons_ne_nil _ _) hunder
      rw [(hfresh .blockMappingStart).1, (hfresh .blockMappingStart).2] at hentries
      exact hentries.close (by omega)
  | .sequence [], hpos => exact lays_leaf rfl hpos false (by omega)
  | .mapping [], hpos => exact lays_leaf rfl hpos false (by omega)
  | .null, hpos => exact lays_leaf rfl hpos false (by omega)
  | .flag value, hpos => exact lays_leaf rfl hpos false (by omega)
  | .natural value, hpos => exact lays_leaf rfl hpos false (by omega)
  | .number value, hpos => exact lays_leaf rfl hpos false (by omega)
  | .text value, hpos => exact lays_leaf rfl hpos false (by omega)

theorem laysItems (items : List Value) (hpos : AllPositive items) (hsome : items ≠ [])
    {column : Nat} {stack : List Nat} (hunder : Under stack column) :
    Lays stack column true (stacked column (itemTexts column items))
      (starting .blockSequenceStart column stack ++ itemTokens items) (entered column stack) := by
  match items, hpos, hsome with
  | item :: rest, hpos, _ =>
      have hitem := lays_item hunder hpos.1 (laysValue item hpos.1)
      rw [itemTexts_cons, itemTokens]
      cases hrest : rest with
      | nil =>
          rw [itemTokens, List.append_nil]
          exact hitem
      | cons next more =>
          rw [← hrest]
          have hmore : rest ≠ [] := by rw [hrest]; exact List.cons_ne_nil _ _
          have hitems := laysItems rest hpos.2 hmore (under_entered (Nat.le_refl column) stack)
          rw [entered_entered, starting_entered, List.nil_append] at hitems
          have htexts : itemTexts column rest ≠ [] := by
            rw [hrest, itemTexts_cons]
            exact List.cons_ne_nil _ _
          have hboth := hitem.stacked hitems htexts (stackedItems_start column hmore)
          rwa [List.append_assoc, List.cons_append] at hboth

theorem laysEntries (entries : List (String × Value)) (hpos : EntriesPositive entries)
    (hsome : entries ≠ []) {column : Nat} {stack : List Nat} (hunder : Under stack column) :
    Lays stack column true (stacked column (entryTexts column entries))
      (starting .blockMappingStart column stack ++ entryTokens entries) (entered column stack) := by
  match entries, hpos, hsome with
  | (key, value) :: rest, hpos, _ =>
      have hentry : Lays stack column true (entryText column key value)
          (starting .blockMappingStart column stack ++
            .key :: .scalar key (styleOf key) :: .value :: value.tokens (isSimpleKey key))
          (entered column stack) := by
        have hvalue := laysValue value hpos.1
        cases hsimple : isSimpleKey key with
        | false => exact lays_entry_asked hunder hsimple hpos.1 hvalue
        | true =>
            cases hleaf : value.isLeaf with
            | true => exact lays_entry_leaf hunder hsimple hpos.1 hleaf
            | false =>
                -- A sequence stands in the column of its key, a mapping two columns behind it.
                have hkey : keyText column key = scalarText (column + 2) key ++ [':'] :=
                  if_pos hsimple
                match value, hpos, hleaf with
                | .sequence (item :: items), hpos, _ =>
                    refine lays_entry_block hunder hsimple (Nat.le_refl column) ?_
                      (stackedItems_start column (List.cons_ne_nil _ _)) ?_
                    · unfold entryText
                      rw [hkey, hsimple]
                      simp [Value.isLeaf]
                    · intro outer
                      have hopen : Under (column :: outer) column := by
                        intro c hc
                        rw [← Option.some.inj hc]
                      have hitems := laysItems (item :: items) hpos.1 (List.cons_ne_nil _ _) hopen
                      have hhead : (column :: outer).head? = some column := rfl
                      unfold entered starting at hitems
                      rwa [if_pos hhead, if_pos hhead, List.nil_append] at hitems
                | .mapping (entry :: entries), hpos, _ =>
                    refine lays_entry_block hunder hsimple (Nat.le_add_right column 2) ?_
                      (stackedEntries_start (column + 2) (List.cons_ne_nil _ _)) ?_
                    · unfold entryText
                      rw [hkey, hsimple]
                      simp [Value.isLeaf, indentStep]
                    · intro outer
                      exact laysValue (.mapping (entry :: entries)) hpos.1 column outer
      rw [entryTexts_cons, entryTokens]
      cases hrest : rest with
      | nil =>
          rw [entryTokens, List.append_nil]
          exact hentry
      | cons next more =>
          rw [← hrest]
          have hmore : rest ≠ [] := by rw [hrest]; exact List.cons_ne_nil _ _
          have hentries := laysEntries rest hpos.2 hmore (under_entered (Nat.le_refl column) stack)
          rw [entered_entered, starting_entered, List.nil_append] at hentries
          have htexts : entryTexts column rest ≠ [] := by
            rw [hrest, entryTexts_cons]
            exact List.cons_ne_nil _ _
          have hboth := hentry.stacked hentries htexts (stackedEntries_start column hmore)
          simpa only [List.append_assoc, List.cons_append] using hboth

end

/-!
## Characters
-/

theorem isShown_endLine {text : List Char} (htext : ∀ c ∈ text, isShown c = true) :
    ∀ c ∈ endLine text, isShown c = true := by
  unfold endLine
  split
  · exact htext
  · exact List.forall_mem_append.2 ⟨htext, List.forall_mem_singleton.2 (by decide)⟩

theorem isShown_leafText {v : Value} (hpos : v.Positive) (indent : Nat) :
    ∀ c ∈ leafText indent v, isShown c = true := by
  cases v with
  | null => exact plainly_null.shown
  | flag value => exact (plainly_flag value).shown
  | natural value => exact (plainly_natural value).shown
  | number value => exact (plainly_number hpos).shown
  | text value => exact isShown_scalarText indent value
  | sequence items => exact List.all_eq_true.1 (by decide : "[]".toList.all isShown = true)
  | mapping entries =>
      exact List.all_eq_true.1 (by decide : "\x7b\x7d".toList.all isShown = true)

theorem isShown_keyText (indent : Nat) (key : String) :
    ∀ c ∈ keyText indent key, isShown c = true := by
  have hkey := isShown_scalarText (indent + indentStep) key
  unfold keyText
  split
  · exact List.forall_mem_append.2 ⟨hkey, List.forall_mem_singleton.2 (by decide)⟩
  · have hmark : ∀ c ∈ '?' :: ' ' :: scalarText (indent + indentStep) key, isShown c = true :=
      List.forall_mem_cons.2 ⟨by decide, List.forall_mem_cons.2 ⟨by decide, hkey⟩⟩
    exact List.forall_mem_append.2
      ⟨List.forall_mem_append.2 ⟨isShown_endLine hmark, isShown_spaces indent⟩,
        List.forall_mem_singleton.2 (by decide)⟩

theorem isShown_stacked (indent : Nat) {texts : List (List Char)}
    (htexts : ∀ text ∈ texts, ∀ c ∈ text, isShown c = true) :
    ∀ c ∈ stacked indent texts, isShown c = true := by
  induction texts with
  | nil => simp [stacked]
  | cons text rest ih =>
      obtain ⟨htext, hrest⟩ := List.forall_mem_cons.1 htexts
      cases rest with
      | nil => exact htext
      | cons next more =>
          exact List.forall_mem_append.2
            ⟨List.forall_mem_append.2 ⟨isShown_endLine htext, isShown_spaces indent⟩, ih hrest⟩

mutual

theorem isShown_blockText (v : Value) (hpos : v.Positive) (indent : Nat) :
    ∀ c ∈ blockText indent v, isShown c = true := by
  match v, hpos with
  | .sequence items, hpos => exact isShown_stacked indent (isShown_itemTexts items hpos indent)
  | .mapping entries, hpos => exact isShown_stacked indent (isShown_entryTexts entries hpos indent)
  | .null, hpos => exact isShown_leafText hpos indent
  | .flag value, hpos => exact isShown_leafText hpos indent
  | .natural value, hpos => exact isShown_leafText hpos indent
  | .number value, hpos => exact isShown_leafText hpos indent
  | .text value, hpos => exact isShown_leafText hpos indent

theorem isShown_itemTexts (items : List Value) (hpos : AllPositive items) (indent : Nat) :
    ∀ text ∈ itemTexts indent items, ∀ c ∈ text, isShown c = true := by
  match items, hpos with
  | [], _ => simp [itemTexts]
  | item :: rest, hpos =>
      have hvalue : ∀ c ∈ valueText (indent + indentStep) item, isShown c = true := by
        unfold valueText
        split
        · exact isShown_leafText hpos.1 _
        · exact isShown_blockText item hpos.1 _
      rw [itemTexts_cons]
      refine List.forall_mem_cons.2 ⟨?_, isShown_itemTexts rest hpos.2 indent⟩
      exact List.forall_mem_cons.2 ⟨by decide, List.forall_mem_cons.2 ⟨by decide, hvalue⟩⟩

theorem isShown_entryTexts (entries : List (String × Value)) (hpos : EntriesPositive entries)
    (indent : Nat) : ∀ text ∈ entryTexts indent entries, ∀ c ∈ text, isShown c = true := by
  match entries, hpos with
  | [], _ => simp [entryTexts]
  | (key, value) :: rest, hpos =>
      rw [entryTexts_cons]
      refine List.forall_mem_cons.2 ⟨?_, isShown_entryTexts rest hpos.2 indent⟩
      refine List.forall_mem_append.2 ⟨isShown_keyText indent key, ?_⟩
      split
      · exact List.forall_mem_cons.2 ⟨by decide, isShown_leafText hpos.1 _⟩
      · split
        · exact List.forall_mem_cons.2 ⟨by decide, List.forall_mem_append.2
            ⟨isShown_spaces _, isShown_blockText value hpos.1 _⟩⟩
        · exact List.forall_mem_cons.2 ⟨by decide, isShown_blockText value hpos.1 _⟩

end

/-!
## Whole documents
-/

theorem tokensOf_render {entries : List (String × Value)} (hsome : entries ≠ [])
    (hpos : EntriesPositive entries) :
    (tokensOf (Value.mapping entries).render.toList).map Placed.token =
      (Value.mapping entries).tokens false ++ [.streamEnd] := by
  have hleaf : (Value.mapping entries).isLeaf = false := by
    cases entries with
    | nil => exact absurd rfl hsome
    | cons entry rest => rfl
  have htext : (Value.mapping entries).render.toList =
      endLine (stacked 0 (entryTexts 0 entries)) := by
    unfold Value.render
    rw [String.toList_ofList, hleaf]
    rfl
  obtain ⟨hstart, hwritten⟩ := stackedEntries_start 0 hsome
  have hshown := isShown_endLine (isShown_stacked 0 (isShown_entryTexts entries hpos 0))
  have hunder : Under [] 0 := by simp [Under]
  have hlays := laysEntries entries hpos hsome hunder [] 0 [] (by simp)
    (by simp [TokenStart, StartsOutside])
  have htoken := hstart.line hwritten []
  rw [List.append_nil] at htoken
  rw [htext]
  generalize endLine (stacked 0 (entryTexts 0 entries)) = text at *
  have hadmissible : text.all isAdmissible = true :=
    List.all_eq_true.2 fun c hc => isAdmissible_of_isShown (hshown c hc)
  have hholds : Holds [] [] (.start text) := ⟨rfl, rfl, rfl⟩
  have hfits : (Lexer.start text).cursor.Fits := by
    show text.length = 0 + text.length
    omega
  have hrest : (Lexer.start text).cursor.rest = [] ++ text := rfl
  obtain ⟨r, hsettled, hat⟩ := Lexer.settle_white hholds (.inl rfl) hfits (.blanks 0) hrest htoken
    (fun k hk => by cases List.mem_singleton.1 hk)
  have hentered : entered 0 [] = [0] := rfl
  rw [hentered, closed_cons_of_le (Int.le_refl _), ends_cons_of_le (Int.le_refl _)] at hlays
  simp only [List.append_nil, List.nil_append, spaces, List.replicate_zero] at hlays
  have hfuel : r.cursor.rest.length + 2 ≤ text.length + 2 := by rw [hat.rest]
  unfold tokensOf
  rw [if_pos hadmissible]
  rw [Lexer.run_of_leads rfl hsettled hat hlays hfuel]
  unfold Value.tokens
  rw [if_neg (by simpa using hsome)]
  rfl

end Yaml
end LogHarvest
