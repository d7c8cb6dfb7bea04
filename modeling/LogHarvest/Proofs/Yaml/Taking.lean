import LogHarvest.Proofs.Yaml.Manner

/-!
# One token further

Each lemma of this module takes the lexer over one piece of a document: a mark before an
item, a key or a value, a scalar or an empty pair of brackets, or a simple key with its
colon.  A piece says how the stack of open blocks and the tokens change.
-/

namespace LogHarvest
namespace Yaml

def Under (stack : List Nat) (column : Nat) : Prop :=
  ∀ top ∈ stack.head?, top ≤ column

def entered (column : Nat) (stack : List Nat) : List Nat :=
  if stack.head? = some column then stack else column :: stack

/-- The token with which a block in a column starts, unless it is open. -/
def starting (token : Token) (column : Nat) (stack : List Nat) : List Token :=
  if stack.head? = some column then [] else [token]

theorem head?_entered (column : Nat) (stack : List Nat) :
    ∃ outer, entered column stack = column :: outer := by
  unfold entered
  split
  · rename_i hhead
    obtain ⟨outer, hstack⟩ := List.head?_eq_some_iff.1 hhead
    exact ⟨outer, hstack⟩
  · exact ⟨stack, rfl⟩

theorem closed_of_under {stack : List Nat} {column : Nat} (hunder : Under stack column) :
    closed column stack = stack ∧ ends column stack = [] := by
  cases stack with
  | nil => exact ⟨rfl, rfl⟩
  | cons top outer =>
      have hle : (top : Int) ≤ column := Int.ofNat_le.2 (hunder top rfl)
      exact ⟨closed_cons_of_le hle outer, ends_cons_of_le hle outer⟩

theorem under_entered {column deeper : Nat} (hle : column ≤ deeper) (stack : List Nat) :
    Under (entered column stack) deeper := by
  obtain ⟨outer, hentered⟩ := head?_entered column stack
  intro top htop
  rw [hentered] at htop
  rw [← Option.some.inj htop]
  exact hle

/-!
## Putting tokens in front of others
-/

theorem Holds.count_eq {stack : List Nat} {before : List Token} {l : Lexer}
    (hholds : Holds stack before l) : l.count = before.length := by
  have hlength := congrArg List.length hholds.tokens
  rw [List.length_map, List.length_reverse] at hlength
  rw [hholds.count, hlength]

theorem Holds.insertAt {stack : List Nat} {before after : List Token} {l : Lexer}
    (hholds : Holds stack (before ++ after) l) (token : Token) (spot : Spot) :
    Holds stack (before ++ token :: after) (l.insertAt before.length token spot) where
  tokens := by
    have hbehind : l.count - before.length = after.reverse.length := by
      rw [hholds.count_eq, List.length_append, List.length_reverse]
      omega
    unfold Lexer.insertAt
    simp only [List.map_append, List.map_cons, List.map_take, List.map_drop, hholds.tokens, hbehind,
      List.reverse_append, List.take_left, List.drop_left, List.reverse_cons, List.append_assoc,
      List.singleton_append]
  count := by
    unfold Lexer.insertAt
    simp only [List.length_append, List.length_take, List.length_cons, List.length_drop]
    have hcount := hholds.count
    omega
  blocks := hholds.blocks

theorem Holds.indent_eq_iff {stack : List Nat} {before : List Token} {l : Lexer}
    (hholds : Holds stack before l) (column : Nat) :
    l.indent = column ↔ stack.head? = some column := by
  have hindent := (List.cons.inj (hholds.blocks.trans (by cases stack <;> rfl :
    columns stack = (stack.head?.elim (-1) Int.ofNat) :: (columns stack).tail))).1
  rw [hindent]
  cases stack with
  | nil => simp
  | cons top outer => simp

theorem Holds.indent_le {stack : List Nat} {before : List Token} {l : Lexer}
    (hholds : Holds stack before l) {column : Nat} (hunder : Under stack column) :
    l.indent ≤ column := by
  have hblocks := hholds.blocks
  cases stack with
  | nil =>
      have hnone : l.indent = -1 := (List.cons.inj hblocks).1
      omega
  | cons top outer =>
      have htop : l.indent = top := (List.cons.inj hblocks).1
      have hle := hunder top rfl
      omega

namespace Lexer

theorem openBlock_entered {stack : List Nat} {before after : List Token} {l : Lexer}
    (hholds : Holds stack (before ++ after) l) (hflow : l.inFlow = false) {spot : Spot}
    (hunder : Under stack spot.column) (token : Token) :
    Holds (entered spot.column stack) (before ++ starting token spot.column stack ++ after)
        (l.openBlock spot before.length token) ∧
      Same l (l.openBlock spot before.length token) := by
  have hopen : (spot.column : Int) ≤ l.indent ↔ stack.head? = some spot.column := by
    rw [← hholds.indent_eq_iff]
    have hindent := hholds.indent_le hunder
    omega
  unfold openBlock entered starting
  rw [hflow, Bool.false_or]
  by_cases hhead : stack.head? = some spot.column
  · rw [decide_eq_true (hopen.2 hhead), if_pos rfl, if_pos hhead, if_pos hhead, List.append_nil]
    exact ⟨hholds, rfl, rfl, rfl⟩
  · rw [decide_eq_false (mt hopen.1 hhead), if_neg Bool.false_ne_true, if_neg hhead, if_neg hhead,
      List.append_assoc]
    have hinserted := hholds.insertAt token spot
    refine ⟨⟨hinserted.tokens, hinserted.count, ?_⟩, rfl, rfl, rfl⟩
    show (spot.column : Int) :: l.indent :: l.around = _
    rw [hholds.blocks]
    rfl

theorem dropKey_none {l : Lexer} (hstarts : l.starts = [none]) : l.dropKey = some l := by
  unfold dropKey
  rw [hstarts]

/-!
## From one token to the next
-/

theorem goes_of_take {stack : List Nat} {before : List Token} {token : Token} {r l : Lexer}
    (htake : r.take = some l) (hholds : Holds stack (before ++ [token]) l)
    (htoken : token ≠ .streamEnd) (hidle : Idle l) {taken ws next : List Char}
    (hcursor : l.cursor = r.cursor.past taken) (hsome : taken ≠ []) (hfits : r.cursor.Fits)
    (hrest : r.cursor.rest = taken ++ (ws ++ next)) (hws : White ws) (hnext : TokenStart next)
    (hlines : ∀ k, some k ∈ l.starts → k.line < (r.cursor.past (taken ++ ws)).line) :
    ∃ r', Goes r r' ∧ At (closed (r.cursor.past (taken ++ ws)).column stack)
      (before ++ [token] ++ ends (r.cursor.past (taken ++ ws)).column stack) next
      (r.cursor.past (taken ++ ws)).column (l.keyAllowed || endsLine ws) r' := by
  rw [Cursor.past_append, ← hcursor] at hlines ⊢
  have hfits' : l.cursor.Fits := by
    rw [hcursor]
    exact hfits.past hrest
  have hrest' : l.cursor.rest = ws ++ next := by
    rw [hcursor]
    exact Cursor.rest_past hrest
  obtain ⟨r', hsettle, hat⟩ := settle_white hholds hidle hfits' hws hrest' hnext hlines
  refine ⟨r', ⟨l, htake, ?_, hsettle, ?_⟩, hat⟩
  · have htokens := hholds.tokens
    unfold isFinished
    rw [← List.head?_map, htokens, List.reverse_append]
    exact beq_eq_false_iff_ne.2 fun heq => htoken (Option.some.inj heq)
  · have hpos := List.length_pos_iff.2 hsome
    rw [hat.rest, hrest, List.length_append, List.length_append]
    omega

theorem settle_here {l : Lexer} (hdrop : l.dropStale = some l) (hstart : TokenStart l.cursor.rest)
    (hinside : l.inFlow = true ∨ l.indent ≤ l.cursor.column) :
    l.dropStale.bind settle = some l := by
  have hmoved : l.toNextToken (l.cursor.left + 1) = l :=
    toNextToken_blanks (n := 0) rfl hstart l.cursor.left
  rw [hdrop, Option.bind_some]
  unfold settle
  rw [hmoved, hdrop]
  unfold closeBlocks
  show some (if l.inFlow = true then l else closeBlocks.go l.cursor.column l.around l) = some l
  rcases hinside with hflow | hindent
  · rw [if_pos hflow]
  · split
    · rfl
    · cases haround : l.around with
      | nil => rfl
      | cons outer around =>
          rw [closeBlocks.go, if_neg (by omega)]

/-!
## Marks
-/

theorem goes_mark {stack : List Nat} {before : List Token} {mark : Char} {next : List Char}
    {column : Nat} {r : Lexer} (hat : At stack before (mark :: ' ' :: next) column true r)
    (hunder : Under stack column) (hnext : TokenStart next) (hmark : isBreak mark = false)
    {token block : Token} (htoken : token ≠ .streamEnd)
    (htake : r.take = some (((r.openBlockHere block).pushOver token 1).allowKey true)) :
    ∃ r', Goes r r' ∧ At (entered column stack)
      (before ++ starting block column stack ++ [token]) next (column + 2) true r' := by
  have hflow : r.inFlow = false := by
    unfold inFlow
    rw [hat.starts]
    rfl
  have hcolumn : r.spot.column = column := hat.column
  have hheld : Holds stack (before ++ []) r := by
    rw [List.append_nil]
    exact hat.toHolds
  have hunder' : Under stack r.spot.column := by
    rw [hcolumn]
    exact hunder
  have hopened := openBlock_entered hheld hflow hunder' block
  rw [← hat.toHolds.count_eq, hcolumn, List.append_nil] at hopened
  obtain ⟨hholds, hsame⟩ := hopened
  have hunbroken : Unbroken [mark, ' '] := .cons hmark (.cons rfl (by simp [Unbroken]))
  have hline : (r.cursor.past ([mark] ++ spaces 1)).column = column + 2 := by
    rw [← hat.column]
    exact Cursor.column_past hunbroken r.cursor
  have hstarts : (((r.openBlockHere block).pushOver token 1).allowKey true).starts = [none] :=
    hsame.starts.trans hat.starts
  have hcursor : (((r.openBlockHere block).pushOver token 1).allowKey true).cursor =
      r.cursor.past [mark] := by
    rw [Cursor.past_single hmark]
    show (r.openBlockHere block).cursor.skipMany 1 = _
    rw [show (r.openBlockHere block).cursor = r.cursor from hsame.cursor]
    rfl
  have hpushed := hholds.push token
  have hrest : r.cursor.rest = [mark] ++ (spaces 1 ++ next) := hat.rest
  have hgoes := goes_of_take htake ⟨hpushed.tokens, hpushed.count, hpushed.blocks⟩ htoken
    (.inl hstarts) hcursor (List.cons_ne_nil _ _) hat.fits hrest (.blanks 1) hnext (by
      intro k hk
      rw [hstarts] at hk
      cases List.mem_singleton.1 hk)
  obtain ⟨hclosed, hends⟩ := closed_of_under (under_entered (Nat.le_add_right column 2) stack)
  rw [hline, hclosed, hends, List.append_nil] at hgoes
  exact hgoes

theorem starts_openBlock (l : Lexer) (spot : Spot) (number : Nat) (token : Token) :
    (l.openBlock spot number token).starts = l.starts := by
  unfold openBlock
  split <;> rfl

theorem inFlow_eq {stack : List Nat} {before : List Token} {text : List Char} {column : Nat}
    {keyAllowed : Bool} {r : Lexer} (hat : At stack before text column keyAllowed r) :
    r.inFlow = false := by
  unfold inFlow
  rw [hat.starts]
  rfl

theorem atMarker_of_ne {p : Cursor} {c m : Char} {rest : List Char} (hrest : p.rest = c :: rest)
    (hc : c ≠ m) : p.atMarker m = false := by
  have htake : (p.rest.take 3 == [m, m, m]) = false := by
    rw [beq_eq_false_iff_ne, hrest]
    intro heq
    exact hc (List.cons.inj heq).1
  unfold Cursor.atMarker
  rw [htake, Bool.and_false, Bool.false_and]

theorem atMarker_of_unmarked {p : Cursor} {c : Char} {rest : List Char} (hrest : p.rest = c :: rest)
    (hc : isMarkerChar c = false) : p.atMarker '-' = false ∧ p.atMarker '.' = false := by
  obtain ⟨hhyphen, hdot⟩ := Bool.or_eq_false_iff.1 hc
  exact ⟨atMarker_of_ne hrest (beq_eq_false_iff_ne.1 hhyphen),
    atMarker_of_ne hrest (beq_eq_false_iff_ne.1 hdot)⟩

theorem take_item {stack : List Nat} {before : List Token} {next : List Char} {column : Nat}
    {r : Lexer} (hat : At stack before ('-' :: ' ' :: next) column true r) :
    r.take =
      some (((r.openBlockHere .blockSequenceStart).pushOver .blockEntry 1).allowKey true) := by
  have hhyphens : r.cursor.atMarker '-' = false := by
    simp [Cursor.atMarker, hat.rest]
  have hdots : r.cursor.atMarker '.' = false := atMarker_of_ne hat.rest (by decide)
  have hgap : r.cursor.gapFollows = true := by
    simp [Cursor.gapFollows, hat.rest, atGap, isSpace]
  have hdrop := dropKey_none
    ((starts_openBlock r r.spot r.count .blockSequenceStart).trans hat.starts)
  have htake : r.take = r.takeBlockEntry := by
    unfold take
    simp [hat.rest, hhyphens, hdots, hgap]
  rw [htake]
  unfold takeBlockEntry openBlockHere
  simp [inFlow_eq hat, hat.keyAllowed, hdrop]

theorem take_questionMark {stack : List Nat} {before : List Token} {next : List Char} {column : Nat}
    {r : Lexer} (hat : At stack before ('?' :: ' ' :: next) column true r) :
    r.take = some (((r.openBlockHere .blockMappingStart).pushOver .key 1).allowKey true) := by
  obtain ⟨hhyphens, hdots⟩ := atMarker_of_unmarked hat.rest rfl
  have hgap : r.cursor.gapFollows = true := by
    simp [Cursor.gapFollows, hat.rest, atGap, isSpace]
  have hdrop := dropKey_none
    ((starts_openBlock r r.spot r.count .blockMappingStart).trans hat.starts)
  have htake : r.take = r.takeKey := by
    unfold take
    simp [hat.rest, hhyphens, hdots, hgap]
  rw [htake]
  unfold takeKey openBlockHere
  have hflow : (r.openBlock r.spot r.count .blockMappingStart).inFlow = false := by
    unfold inFlow
    rw [starts_openBlock, hat.starts]
    rfl
  simp [inFlow_eq hat, hat.keyAllowed, hdrop, hflow]

theorem take_colon {r : Lexer} {rest : List Char} (hrest : r.cursor.rest = ':' :: rest)
    (hgap : atGap rest = true) : r.take = r.takeValue := by
  obtain ⟨hhyphens, hdots⟩ := atMarker_of_unmarked hrest rfl
  have hgap : r.cursor.gapFollows = true := by
    simpa [Cursor.gapFollows, hrest] using hgap
  unfold take
  simp [hrest, hhyphens, hdots, hgap]

theorem take_loneColon {stack : List Nat} {before : List Token} {next : List Char} {column : Nat}
    {r : Lexer} (hat : At stack before (':' :: ' ' :: next) column true r) :
    r.take = some (((r.openBlockHere .blockMappingStart).pushOver .value 1).allowKey true) := by
  rw [take_colon hat.rest rfl]
  unfold takeValue
  rw [hat.starts]
  simp [inFlow_eq hat, hat.keyAllowed]

/-- An item of a sequence starts: the sequence itself does, unless it has items already. -/
theorem leads_item {stack : List Nat} {column : Nat} (hunder : Under stack column)
    {next : List Char} (hnext : TokenStart next) (before : List Token) :
    Leads (At stack before ('-' :: ' ' :: next) column true)
      (At (entered column stack)
        (before ++ starting .blockSequenceStart column stack ++ [.blockEntry]) next (column + 2)
        true) :=
  leads_of_goes fun _ hat => goes_mark hat hunder hnext rfl (by decide) (take_item hat)

theorem leads_questionMark {stack : List Nat} {column : Nat} (hunder : Under stack column)
    {next : List Char} (hnext : TokenStart next) (before : List Token) :
    Leads (At stack before ('?' :: ' ' :: next) column true)
      (At (entered column stack) (before ++ starting .blockMappingStart column stack ++ [.key]) next
        (column + 2) true) :=
  leads_of_goes fun _ hat => goes_mark hat hunder hnext rfl (by decide) (take_questionMark hat)

theorem leads_loneColon (outer : List Nat) (column : Nat) {next : List Char}
    (hnext : TokenStart next) (before : List Token) :
    Leads (At (column :: outer) before (':' :: ' ' :: next) column true)
      (At (column :: outer) (before ++ [.value]) next (column + 2) true) := by
  have hunder : Under (column :: outer) column := by
    intro top htop
    rw [← Option.some.inj htop]
  have hleads := leads_of_goes fun r (hat : At _ before (':' :: ' ' :: next) column true r) =>
    goes_mark hat hunder hnext rfl (by decide) (take_loneColon hat)
  have hopen : (column :: outer).head? = some column := rfl
  unfold entered starting at hleads
  rwa [if_pos hopen, if_pos hopen, List.append_nil] at hleads

/-!
## Scalars
-/

def startHere (r : Lexer) : KeyStart :=
  ⟨r.indent == r.cursor.column, r.count, r.cursor.index, r.cursor.line, r.cursor.column⟩

def mayStart (r : Lexer) : Option KeyStart :=
  if r.keyAllowed then some r.startHere else none

def behind (r : Lexer) (token : Token) (taken : List Char) (pending : Option KeyStart)
    (keyAllowed : Bool) : Lexer :=
  { r.push token with
    cursor := r.cursor.past taken, starts := [pending], keyAllowed := keyAllowed }

theorem markKey_eq {r : Lexer} (hstarts : r.starts = [none]) :
    r.markKey = some { r with starts := [r.mayStart] } := by
  obtain ⟨cursor, tokens, count, starts, indent, around, keyAllowed⟩ := r
  dsimp only at hstarts
  subst hstarts
  cases keyAllowed with
  | false => rfl
  | true =>
      unfold markKey dropKey mayStart startHere
      simp [inFlow]

theorem eq_startHere {r : Lexer} {k : KeyStart} (hk : r.mayStart = some k) : k = r.startHere := by
  unfold mayStart at hk
  split at hk
  · exact (Option.some.inj hk).symm
  · cases hk

/-- Only in the column of its block must a token start a key. -/
theorem required_startHere {top : Nat} {outer : List Nat} {before : List Token} {text : List Char}
    {column : Nat} {keyAllowed : Bool} {r : Lexer}
    (hat : At (top :: outer) before text column keyAllowed r) (hdeeper : top < column) :
    r.startHere.required = false := by
  have hindent : r.indent = top := (List.cons.inj hat.blocks).1
  show (r.indent == (r.cursor.column : Int)) = false
  rw [hindent, hat.column, beq_eq_false_iff_ne]
  omega

theorem takePiece_eq {r : Lexer} (hstarts : r.starts = [none])
    {read : Cursor → Option (Token × Cursor)} {token : Token} {taken : List Char}
    (hread : read r.cursor = some (token, r.cursor.past taken)) :
    r.takePiece read = some (r.behind token taken r.mayStart false) := by
  unfold takePiece
  rw [markKey_eq hstarts]
  simp only [Option.bind_eq_bind, Option.bind_some, hread]
  rfl

theorem takePlainScalar_eq {r : Lexer} (hstarts : r.starts = [none]) {crossed : Bool}
    {value : String} {taken : List Char}
    (hread : takePlain false (r.indent + 1).toNat r.cursor =
      some (value, crossed, r.cursor.past taken)) :
    r.takePlainScalar = some (r.behind (.scalar value .plain) taken r.mayStart crossed) := by
  unfold takePlainScalar
  rw [markKey_eq hstarts]
  simp only [Option.bind_eq_bind, Option.bind_some]
  have hflow : inFlow { r with starts := [r.mayStart] } = false := rfl
  rw [hflow, hread]
  rfl

theorem startsPlain_of_plainly {c : Char} {more : List Char} (hplain : Plainly (c :: more))
    {r : Lexer} (hflow : r.inFlow = false) : r.startsPlain c = true := by
  unfold startsPlain
  by_cases hquestion : c = '?'
  · simp [hquestion, hflow]
  · by_cases hcolon : c = ':'
    · simp [hcolon, hflow]
    · have hnot : c ∉ "?:,[]\x7b\x7d#&*!|>'\"%@\x60".toList := by
        intro hmem
        have hsplit : "?:,[]\x7b\x7d#&*!|>'\"%@\x60".toList =
          '?' :: ':' :: ",[]\x7b\x7d#&*!|>'\"%@\x60".toList := by decide
        rw [hsplit, List.mem_cons, List.mem_cons] at hmem
        rcases hmem with h | h | hmem
        · exact hquestion h
        · exact hcolon h
        · refine ne_of_plainly hplain (d := c) ?_ rfl
          revert hmem
          simp
          tauto
      rw [Bool.or_eq_true, Bool.not_eq_true']
      refine .inl (Bool.eq_false_iff.2 fun hmem => hnot ?_)
      exact List.contains_iff_mem.1 hmem

theorem take_plainly {text rest : List Char} (hplain : Plainly text) {r : Lexer}
    (hflow : r.inFlow = false) (hrest : r.cursor.rest = text ++ rest)
    (houtside : StartsOutside isMarkerChar rest) : r.take = r.takePlainScalar := by
  have hhyphens := atMarker_of_plainly hplain houtside hrest (.inl rfl)
  have hdots := atMarker_of_plainly hplain houtside hrest (.inr rfl)
  obtain ⟨c, more, rfl⟩ := List.exists_cons_of_ne_nil hplain.some
  have hstarts := startsPlain_of_plainly hplain hflow
  have hgap : c = '-' ∨ c = '?' ∨ c = ':' → r.cursor.gapFollows = false := by
    intro hc
    have hindicator := hplain.indicator
    unfold hasIndicator at hindicator
    simp only [Bool.or_eq_false_iff] at hindicator
    have hinner : atGap more = false := by
      have hmark : "?:-".toList.contains c = true := by rcases hc with rfl | rfl | rfl <;> decide
      have hnot := hindicator.1.2
      rwa [hmark, Bool.true_and] at hnot
    unfold Cursor.gapFollows
    rw [hrest]
    cases more with
    | nil => cases hinner
    | cons d rest => exact hinner
  have hne : ∀ d ∈ "#,[]\x7b\x7d&*!|>'\"%@\x60".toList, c ≠ d := fun d hd => ne_of_plainly hplain hd
  unfold take
  simp [hrest, hhyphens, hdots, hflow, hstarts, hne '%' (by decide), hne '[' (by decide),
    hne '{' (by decide), hne ']' (by decide), hne '}' (by decide), hne ',' (by decide),
    hne '*' (by decide), hne '&' (by decide), hne '!' (by decide), hne '|' (by decide),
    hne '>' (by decide), hne '\'' (by decide), hne '"' (by decide)]
  rw [if_neg fun h => Bool.eq_false_iff.1 (hgap (.inl h.1)) h.2,
    if_neg fun h => Bool.eq_false_iff.1 (hgap (.inr (.inl h.1))) h.2,
    if_neg fun h => Bool.eq_false_iff.1 (hgap (.inr (.inr h.1))) h.2]

theorem take_singleQuote {r : Lexer} {rest : List Char} (hrest : r.cursor.rest = '\'' :: rest) :
    r.take = r.takePiece fun p =>
      (takeQuoted true p).map fun found => (.scalar found.1 .singleQuoted, found.2) := by
  obtain ⟨hhyphens, hdots⟩ := atMarker_of_unmarked hrest rfl
  unfold take
  simp [hrest, hhyphens, hdots]

theorem take_doubleQuote {r : Lexer} {rest : List Char} (hrest : r.cursor.rest = '"' :: rest) :
    r.take = r.takePiece fun p =>
      (takeQuoted false p).map fun found => (.scalar found.1 .doubleQuoted, found.2) := by
  obtain ⟨hhyphens, hdots⟩ := atMarker_of_unmarked hrest rfl
  unfold take
  simp [hrest, hhyphens, hdots]

theorem take_quoted {stack : List Nat} {before : List Token} {text : String} {rest : List Char}
    {indent column : Nat} (hindent : 0 < indent) {keyAllowed : Bool} {r : Lexer}
    (hat : At stack before (scalarText indent text ++ rest) column keyAllowed r)
    (hstyle : styleOf text = .singleQuoted ∨ styleOf text = .doubleQuoted)
    (hquote : rest.head? ≠ some '\'') :
    r.take = some (r.behind (.scalar text (styleOf text)) (scalarText indent text) r.mayStart
      false) := by
  have hrest := hat.rest
  cases manner indent text with
  | plain hplainStyle _ _ =>
      rw [hplainStyle] at hstyle
      rcases hstyle with h | h <;> cases h
  | single hsingle hquotable hwritten =>
      rw [hwritten] at hrest
      have hread := takeQuoted_single hindent hquotable hquote hat.fits hrest
      rw [String.ofList_toList] at hread
      rw [hwritten, hsingle, take_singleQuote (r := r) (by rw [hrest, singleQuoted_eq]; rfl)]
      apply takePiece_eq hat.starts
      rw [hread]
      rfl
  | double hdouble hwritten =>
      rw [hwritten] at hrest
      have hread := takeQuoted_double hat.fits hrest
      rw [String.ofList_toList] at hread
      rw [hwritten, hdouble, take_doubleQuote (r := r) hrest]
      apply takePiece_eq hat.starts
      rw [hread]
      rfl
  | literal hliteral _ _ _ =>
      rw [hliteral] at hstyle
      rcases hstyle with h | h <;> cases h

/-!
## Simple keys
-/

theorem take_simpleKey {stack : List Nat} {before : List Token} {key : String} {rest : List Char}
    {column : Nat} {r : Lexer}
    (hat : At stack before (scalarText (column + 2) key ++ ':' :: rest) column true r)
    (hunder : Under stack column) (hsimple : isSimpleKey key = true) (hgap : atGap rest = true) :
    r.take = some (r.behind (.scalar key (styleOf key)) (scalarText (column + 2) key)
      (some r.startHere) false) := by
  have hmay : r.mayStart = some r.startHere := by
    unfold mayStart
    rw [hat.keyAllowed, if_pos rfl]
  have hquote : (':' :: rest).head? ≠ some '\'' := by
    rw [List.head?_cons]
    decide
  rw [← hmay]
  cases manner (column + 2) key with
  | plain hstyle hplain hwritten =>
      have hrest := hat.rest
      rw [hwritten] at hrest ⊢
      have hcolumn : (r.indent + 1).toNat ≤ r.cursor.column + 1 := by
        have hindent := hat.toHolds.indent_le hunder
        rw [hat.column]
        omega
      have hread := takePlain_key hplain hgap hat.fits hrest hcolumn
      rw [String.ofList_toList] at hread
      have houtside : StartsOutside isMarkerChar (':' :: rest) :=
        fun c hc => by rw [← Option.some.inj hc]; decide
      rw [hstyle, take_plainly hplain (inFlow_eq hat) hrest houtside]
      exact takePlainScalar_eq hat.starts hread
  | single hstyle _ _ => exact take_quoted (by omega) hat (.inl hstyle) hquote
  | double hstyle _ => exact take_quoted (by omega) hat (.inr hstyle) hquote
  | literal hstyle hbreak _ _ =>
      have hnot := unbroken_of_isSimpleKey hsimple _ hbreak
      cases hnot

theorem mapM_eq_self {α : Type} {f : α → Option α} {xs : List α} (hf : ∀ x ∈ xs, f x = some x) :
    xs.mapM f = some xs := by
  induction xs with
  | nil => rfl
  | cons x rest ih =>
      rw [List.mapM_cons, hf x List.mem_cons_self, ih fun y hy => hf y (List.mem_cons_of_mem x hy)]
      rfl

theorem dropStale_fresh {l : Lexer} (hfresh : ∀ k, some k ∈ l.starts → isStale l.cursor k = false) :
    l.dropStale = some l := by
  unfold dropStale
  rw [mapM_eq_self]
  · rfl
  · intro entry hentry
    cases entry with
    | none => rfl
    | some k => simp [hfresh k hentry]

theorem goes_simpleKey {stack : List Nat} {before : List Token} {key : String} {rest : List Char}
    {column : Nat} {r : Lexer}
    (hat : At stack before (scalarText (column + 2) key ++ ':' :: rest) column true r)
    (hunder : Under stack column) (hsimple : isSimpleKey key = true) (hgap : atGap rest = true) :
    Goes r (r.behind (.scalar key (styleOf key)) (scalarText (column + 2) key) (some r.startHere)
      false) := by
  have htake := take_simpleKey hat hunder hsimple hgap
  obtain ⟨hunbroken, hlength⟩ := simpleKey_scalarText (column + 2) hsimple
  have hsome := (scalarText_start (column + 2) key).2
  generalize scalarText (column + 2) key = shown at hat htake hunbroken hlength hsome ⊢
  have hrest : (r.cursor.past shown).rest = ':' :: rest := Cursor.rest_past hat.rest
  -- The colon is on the line of the key and not too far from its start.
  have hfresh : isStale (r.cursor.past shown) r.startHere = false := by
    unfold isStale startHere
    rw [Cursor.line_past hunbroken, Cursor.index_past]
    simp only [Bool.or_eq_false_iff, decide_eq_false_iff_not]
    omega
  have hdrop : (r.behind (.scalar key (styleOf key)) shown (some r.startHere) false).dropStale =
      some (r.behind (.scalar key (styleOf key)) shown (some r.startHere) false) := by
    apply dropStale_fresh
    intro k hk
    rw [Option.some.inj (List.mem_singleton.1 hk)]
    exact hfresh
  have hinside : r.indent ≤ (r.cursor.past shown).column := by
    have hindent := hat.toHolds.indent_le hunder
    rw [Cursor.column_past hunbroken, hat.column]
    omega
  refine ⟨_, htake, rfl, settle_here hdrop ?_ (.inr hinside), ?_⟩
  · show TokenStart (r.cursor.past shown).rest
    rw [hrest]
    exact tokenStart_cons (by decide) _
  · show (r.cursor.past shown).rest.length < _
    have hpos := List.length_pos_iff.2 hsome
    rw [hrest, hat.rest, List.length_append]
    omega

/-- The colon behind a key puts the key's mark, and the start of its block, in front of it. -/
theorem goes_keyColon {stack : List Nat} {before after : List Token} {k : KeyStart} {l : Lexer}
    (hholds : Holds stack (before ++ after) l) (hstarts : l.starts = [some k])
    (hnumber : k.number = before.length) (hunder : Under stack k.column) (hfits : l.cursor.Fits)
    {ws next : List Char} (hrest : l.cursor.rest = [':'] ++ (ws ++ next)) (hws : White ws)
    (hgap : atGap (ws ++ next) = true) (hnext : TokenStart next) :
    ∃ r', Goes l r' ∧ At (closed (l.cursor.past ([':'] ++ ws)).column (entered k.column stack))
      (before ++ starting .blockMappingStart k.column stack ++ .key :: after ++ [.value] ++
        ends (l.cursor.past ([':'] ++ ws)).column (entered k.column stack)) next
      (l.cursor.past ([':'] ++ ws)).column (endsLine ws) r' := by
  generalize hkeyed : { l with starts := [none] }.insertAt before.length .key ⟨k.line, k.column⟩ =
    keyed
  have hinserted : Holds stack (before ++ .key :: after) keyed := by
    rw [← hkeyed]
    exact Holds.insertAt (l := { l with starts := [none] })
      ⟨hholds.tokens, hholds.count, hholds.blocks⟩ .key ⟨k.line, k.column⟩
  have hflow : keyed.inFlow = false := by rw [← hkeyed]; rfl
  have hstands : Under stack (Spot.mk k.line k.column).column := hunder
  obtain ⟨hopened, hsame⟩ := openBlock_entered hinserted hflow hstands .blockMappingStart
  have hvalue : l.take = some (((keyed.openBlock ⟨k.line, k.column⟩ before.length
      .blockMappingStart).pushOver .value 1).allowKey false) := by
    rw [take_colon hrest hgap]
    unfold takeValue
    rw [hstarts, ← hkeyed, ← hnumber]
  have hpushed := hopened.push .value
  generalize keyed.openBlock ⟨k.line, k.column⟩ before.length .blockMappingStart = opened at *
  have hcolon : ((opened.pushOver .value 1).allowKey false).cursor = l.cursor.past [':'] := by
    rw [Cursor.past_single rfl]
    show opened.cursor.skipMany 1 = _
    rw [hsame.cursor, ← hkeyed]
    rfl
  have hnone : ((opened.pushOver .value 1).allowKey false).starts = [none] := by
    show opened.starts = _
    rw [hsame.starts, ← hkeyed]
    rfl
  exact goes_of_take hvalue ⟨hpushed.tokens, hpushed.count, hpushed.blocks⟩ (by decide)
    (.inl hnone) hcolon (List.cons_ne_nil _ _) hfits hrest hws hnext (by
      intro k hk
      rw [hnone] at hk
      cases List.mem_singleton.1 hk)

theorem leads_simpleKey {stack : List Nat} {column : Nat} (hunder : Under stack column)
    {key : String} (hsimple : isSimpleKey key = true) {ws next : List Char} (hws : White ws)
    (hgap : atGap (ws ++ next) = true) (hnext : TokenStart next) (after : Nat)
    (hafter : ∀ p : Cursor, p.column = column →
      (p.past (scalarText (column + 2) key ++ ([':'] ++ ws))).column = after)
    (hle : column ≤ after) (before : List Token) :
    Leads (At stack before (scalarText (column + 2) key ++ ':' :: (ws ++ next)) column true)
      (At (entered column stack)
        (before ++ starting .blockMappingStart column stack ++
          [.key, .scalar key (styleOf key), .value]) next after (endsLine ws)) := by
  intro r hat
  have hfirst := goes_simpleKey hat hunder hsimple hgap
  have hpushed := hat.toHolds.push (.scalar key (styleOf key))
  have hcolumn : r.startHere.column = column := hat.column
  obtain ⟨r', hsecond, hat'⟩ := goes_keyColon
    (l := r.behind (.scalar key (styleOf key)) (scalarText (column + 2) key)
      (some r.startHere) false)
    ⟨hpushed.tokens, hpushed.count, hpushed.blocks⟩ rfl hat.toHolds.count_eq
    (by rw [hcolumn]; exact hunder) (hat.fits.past hat.rest) (Cursor.rest_past hat.rest) hws hgap
    hnext
  have hend : ((r.cursor.past (scalarText (column + 2) key)).past ([':'] ++ ws)).column =
      after := by
    rw [← Cursor.past_append]
    exact hafter r.cursor hat.column
  obtain ⟨hclosed, hends⟩ := closed_of_under (under_entered hle stack)
  refine ⟨r', .head hfirst (.single hsecond), ?_⟩
  unfold behind at hat'
  rw [hcolumn, hend, hclosed, hends, List.append_nil, List.append_assoc _ _ [Token.value]] at hat'
  exact hat'

/-!
## What ends with its line
-/

theorem goes_of_behind {top : Nat} {outer : List Nat} {before : List Token} {token : Token}
    {front taken ws next : List Char} {b : Char} {n column : Nat} {keyAllowed crossed : Bool}
    {pending : Option KeyStart} {r : Lexer}
    (hat : At (top :: outer) before (taken ++ (ws ++ next)) column keyAllowed r)
    (htake : r.take = some (r.behind token taken pending crossed)) (htoken : token ≠ .streamEnd)
    (hpending : pending = none ∨ pending = r.mayStart) (hb : isBreak b = true)
    (hsplit : taken ++ ws = front ++ b :: spaces n) (hsome : taken ≠ []) (hws : White ws)
    (hends : (crossed || endsLine ws) = true) (hdeeper : top < column) (hnext : TokenStart next) :
    ∃ r', Goes r r' ∧ At (closed n (top :: outer)) (before ++ [token] ++ ends n (top :: outer)) next
      n true r' := by
  have hpushed := hat.toHolds.push token
  have hstart : ∀ k, pending = some k → k = r.startHere := by
    intro k hk
    rcases hpending with h | h
    · rw [h] at hk
      cases hk
    · exact eq_startHere (h ▸ hk)
  have hidle : Idle (r.behind token taken pending crossed) := by
    cases hpend : pending with
    | none => exact .inl rfl
    | some k =>
        refine .inr ⟨k, rfl, ?_⟩
        rw [hstart k hpend]
        exact required_startHere hat hdeeper
  obtain ⟨hcolumn, hline⟩ := Cursor.past_after_break hb (unbroken_spaces n) r.cursor front
  rw [← hsplit] at hcolumn hline
  have hlines : ∀ k, some k ∈ (r.behind token taken pending crossed).starts →
      k.line < (r.cursor.past (taken ++ ws)).line := by
    intro k hk
    rw [hstart k (List.mem_singleton.1 hk).symm]
    exact hline
  have hgoes := goes_of_take htake ⟨hpushed.tokens, hpushed.count, hpushed.blocks⟩ htoken hidle rfl
    hsome hat.fits hat.rest hws hnext hlines
  have hallowed : ((r.behind token taken pending crossed).keyAllowed || endsLine ws) = true := hends
  rw [hcolumn, length_spaces, hallowed] at hgoes
  exact hgoes

theorem endLine_end (text : List Char) :
    ∃ front b, isBreak b = true ∧ endLine text = front ++ [b] := by
  unfold endLine
  split
  · rename_i hends
    obtain ⟨b, hlast, hb⟩ := (Option.any_eq_true _ _).1 hends
    obtain ⟨front, hfront⟩ := List.getLast?_eq_some_iff.1 hlast
    exact ⟨front, b, hb, hfront⟩
  · exact ⟨text, '\n', rfl, rfl⟩

theorem goes_plain {top n : Nat} {outer : List Nat} (hn : n ≤ top) {before : List Token}
    {text next : List Char} (hplain : Plainly text) (hnext : TokenStart next) {column : Nat}
    (hdeeper : top < column) {keyAllowed : Bool} {r : Lexer}
    (hat : At (top :: outer) before (text ++ '\n' :: (spaces n ++ next)) column keyAllowed r) :
    ∃ r', Goes r r' ∧ At (closed n (top :: outer))
      (before ++ [.scalar (String.ofList text) .plain] ++ ends n (top :: outer)) next n true
      r' := by
  have hindent : (r.indent + 1).toNat = top + 1 := by
    have htop : r.indent = top := (List.cons.inj hat.blocks).1
    omega
  have hcolumn : (r.indent + 1).toNat ≤ r.cursor.column + 1 := by
    rw [hindent, hat.column]
    omega
  have hread := takePlain_line hplain hnext.white (by omega : n < (r.indent + 1).toNat) hat.fits
    hat.rest hcolumn
  have houtside : StartsOutside isMarkerChar ('\n' :: (spaces n ++ next)) :=
    fun c hc => by rw [← Option.some.inj hc]; decide
  have htake := take_plainly hplain (inFlow_eq hat) hat.rest houtside
  rw [takePlainScalar_eq hat.starts hread] at htake
  have hat' : At (top :: outer) before ((text ++ '\n' :: spaces n) ++ ([] ++ next)) column
    keyAllowed
      r := by
    simpa using hat
  have hsplit : (text ++ '\n' :: spaces n) ++ [] = text ++ '\n' :: spaces n := List.append_nil _
  exact goes_of_behind hat' htake (by simp) (.inr rfl) rfl hsplit (by simp) (.blanks 0) rfl hdeeper
    hnext

theorem take_bar {r : Lexer} {rest : List Char} (hflow : r.inFlow = false)
    (hrest : r.cursor.rest = '|' :: rest) : r.take = r.takeBlockScalar .literal := by
  obtain ⟨hhyphens, hdots⟩ := atMarker_of_unmarked hrest rfl
  unfold take
  simp [hrest, hhyphens, hdots, hflow]

theorem goes_literal {top n : Nat} {outer : List Nat} (hn : n ≤ top) {before : List Token}
    {text next : List Char} (hshown : ∀ c ∈ text, isShown c = true) (hsome : text ≠ [])
    (hnext : TokenStart next) {column : Nat} (hdeeper : top < column) {keyAllowed : Bool}
    {r : Lexer}
    (hat : At (top :: outer) before (literalText (top + 2) text ++ (spaces n ++ next)) column
      keyAllowed r) :
    ∃ r', Goes r r' ∧ At (closed n (top :: outer))
      (before ++ [.scalar (String.ofList text) .literal] ++ ends n (top :: outer)) next n true
      r' := by
  have htop : r.indent = top := (List.cons.inj hat.blocks).1
  have hread := takeBlock_literal (by omega : n < top + 2) hshown hsome hnext.white hat.fits
    hat.rest
  obtain ⟨front, b, hb, hends⟩ := endLine_end (blockHeader text ++ '\n' ::
    indented (top + 2) true text)
  have hbar : ∃ more, literalText (top + 2) text = '|' :: more := by
    unfold literalText endLine
    split <;> exact ⟨_, rfl⟩
  have htake : r.take = some (r.behind (.scalar (String.ofList text) .literal)
      (literalText (top + 2) text ++ spaces n) none true) := by
    obtain ⟨more, hmore⟩ := hbar
    have hrest := hat.rest
    rw [hmore, List.cons_append] at hrest
    have hliteral : (ScalarStyle.literal == .literal) = true := rfl
    rw [take_bar (inFlow_eq hat) hrest]
    unfold takeBlockScalar behind
    rw [dropKey_none hat.starts, Option.bind_eq_bind, Option.bind_some, hliteral, htop, hread,
      ← hat.starts]
    rfl
  have hat' : At (top :: outer) before ((literalText (top + 2) text ++ spaces n) ++ ([] ++ next))
      column keyAllowed r := by
    simpa using hat
  have hsplit : (literalText (top + 2) text ++ spaces n) ++ [] = front ++ b :: spaces n := by
    unfold literalText
    rw [hends, List.append_nil, List.append_assoc, List.singleton_append]
  refine goes_of_behind hat' htake (by simp) (.inl rfl) hb hsplit ?_ (.blanks 0) rfl hdeeper hnext
  obtain ⟨more, hmore⟩ := hbar
  rw [hmore]
  exact List.cons_ne_nil _ _

theorem goes_quoted {top n : Nat} {outer : List Nat} {before : List Token} {text : String}
    (hstyle : styleOf text = .singleQuoted ∨ styleOf text = .doubleQuoted) {next : List Char}
    (hnext : TokenStart next) {column : Nat} (hdeeper : top < column) {keyAllowed : Bool}
    {r : Lexer}
    (hat : At (top :: outer) before (endLine (scalarText (top + 2) text) ++ (spaces n ++ next))
      column keyAllowed r) :
    ∃ r', Goes r r' ∧ At (closed n (top :: outer))
      (before ++ [.scalar text (styleOf text)] ++ ends n (top :: outer)) next n true r' := by
  rw [endLine_quoted hstyle, List.append_assoc, List.singleton_append] at hat
  have htake := take_quoted (by omega) hat hstyle (by simp)
  have hat' : At (top :: outer) before
      (scalarText (top + 2) text ++ ('\n' :: spaces n ++ next)) column keyAllowed r := hat
  exact goes_of_behind hat' htake (by simp) (.inr rfl) rfl rfl (scalarText_start _ _).2
    (.line n) rfl
    hdeeper hnext

theorem leads_scalar {top n : Nat} {outer : List Nat} (hn : n ≤ top) {before : List Token}
    {text : String} {next : List Char} (hnext : TokenStart next) {column : Nat}
    (hdeeper : top < column) {keyAllowed : Bool} :
    Leads (At (top :: outer) before (endLine (scalarText (top + 2) text) ++ (spaces n ++ next))
        column keyAllowed)
      (At (closed n (top :: outer))
        (before ++ [.scalar text (styleOf text)] ++ ends n (top :: outer)) next n true) := by
  apply leads_of_goes
  intro r hat
  have hself : String.ofList text.toList = text := String.ofList_toList
  cases manner (top + 2) text with
  | plain hstyle hplain hwritten =>
      rw [hwritten, hplain.endLine_eq, List.append_assoc, List.singleton_append] at hat
      have hgoes := goes_plain hn hplain hnext hdeeper hat
      rwa [hself, ← hstyle] at hgoes
  | single hstyle _ _ => exact goes_quoted (.inl hstyle) hnext hdeeper hat
  | double hstyle _ => exact goes_quoted (.inr hstyle) hnext hdeeper hat
  | literal hstyle hbreak hshown hwritten =>
      rw [hwritten] at hat
      have hgoes := goes_literal hn hshown (List.ne_nil_of_mem hbreak) hnext hdeeper hat
      rwa [hself, ← hstyle] at hgoes

/-!
## Empty brackets
-/

inductive Brackets : Char → Char → Token → Token → Prop
  | square : Brackets '[' ']' .flowSequenceStart .flowSequenceEnd
  | curly : Brackets '{' '}' .flowMappingStart .flowMappingEnd

theorem take_flowStart {left right : Char} {start stop : Token}
    (hbrackets : Brackets left right start stop) {r : Lexer} {rest : List Char}
    (hrest : r.cursor.rest = left :: rest) : r.take = r.takeFlowStart start := by
  obtain ⟨hhyphens, hdots⟩ := atMarker_of_unmarked hrest (by cases hbrackets <;> rfl)
  cases hbrackets <;>
    · unfold take
      simp [hrest, hhyphens, hdots]

theorem take_flowEnd {left right : Char} {start stop : Token}
    (hbrackets : Brackets left right start stop) {r : Lexer} {rest : List Char}
    (hrest : r.cursor.rest = right :: rest) : r.take = r.takeFlowEnd stop := by
  obtain ⟨hhyphens, hdots⟩ := atMarker_of_unmarked hrest (by cases hbrackets <;> rfl)
  cases hbrackets <;>
    · unfold take
      simp [hrest, hhyphens, hdots]

def within (r : Lexer) (token : Token) (bracket : Char) : Lexer :=
  { r.push token with
    cursor := r.cursor.past [bracket], starts := [none, r.mayStart], keyAllowed := true }

theorem goes_flowStart {left right : Char} {start stop : Token}
    (hbrackets : Brackets left right start stop) {stack : List Nat} {before : List Token}
    {rest : List Char} {column : Nat} {keyAllowed : Bool} {r : Lexer}
    (hat : At stack before (left :: right :: rest) column keyAllowed r) :
    Goes r (r.within start left) := by
  have hbreak : isBreak left = false := by cases hbrackets <;> rfl
  have htoken : start ≠ .streamEnd := by cases hbrackets <;> decide
  have htake : r.take = some (r.within start left) := by
    rw [take_flowStart hbrackets hat.rest]
    unfold takeFlowStart within
    rw [markKey_eq hat.starts, Cursor.past_single hbreak]
    rfl
  have hrest : (r.cursor.past [left]).rest = right :: rest :=
    Cursor.rest_past (by exact hat.rest)
  have hline : (r.cursor.past [left]).line = r.cursor.line :=
    Cursor.line_past (.cons hbreak (by simp [Unbroken])) _
  have hindex : (r.cursor.past [left]).index = r.cursor.index + 1 := Cursor.index_past _ _
  have hdrop : (r.within start left).dropStale = some (r.within start left) := by
    apply dropStale_fresh
    intro k hk
    have hstart : k = r.startHere := by
      rcases List.mem_cons.1 hk with h | h
      · cases h
      · exact eq_startHere (List.mem_singleton.1 h).symm
    show isStale (r.cursor.past [left]) k = false
    rw [hstart]
    unfold isStale startHere maxKeyLength
    rw [hline, hindex]
    simp only [Bool.or_eq_false_iff, decide_eq_false_iff_not]
    omega
  refine ⟨_, htake, ?_, settle_here hdrop ?_ (.inl rfl), ?_⟩
  · exact beq_eq_false_iff_ne.2 fun heq => htoken (Option.some.inj heq)
  · show TokenStart (r.cursor.past [left]).rest
    rw [hrest]
    exact tokenStart_cons (by cases hbrackets <;> decide) _
  · show (r.cursor.past [left]).rest.length < _
    rw [hrest, hat.rest]
    exact Nat.lt_succ_self _

theorem leads_brackets {left right : Char} {start stop : Token}
    (hbrackets : Brackets left right start stop) {top n : Nat} {outer : List Nat}
    {before : List Token} {next : List Char} (hnext : TokenStart next) {column : Nat}
    (hdeeper : top < column) {keyAllowed : Bool} :
    Leads (At (top :: outer) before (left :: right :: '\n' :: (spaces n ++ next)) column keyAllowed)
      (At (closed n (top :: outer)) (before ++ [start, stop] ++ ends n (top :: outer)) next n
        true) := by
  intro r hat
  have hbreak : isBreak right = false := by cases hbrackets <;> rfl
  have htoken : stop ≠ .streamEnd := by cases hbrackets <;> decide
  have hleft : r.cursor.rest = [left] ++ right :: '\n' :: (spaces n ++ next) := hat.rest
  have hrest : (r.cursor.past [left]).rest = [right] ++ ('\n' :: spaces n ++ next) :=
    Cursor.rest_past hleft
  have hstop : (r.within start left).take = some { (r.within start left).push stop with
      cursor := (r.cursor.past [left]).past [right], starts := [r.mayStart],
      keyAllowed := false } := by
    rw [take_flowEnd hbrackets hrest, Cursor.past_single hbreak]
    rfl
  have hpushed := (hat.toHolds.push start).push stop
  obtain ⟨hcolumn, hline⟩ := Cursor.past_after_break (b := '\n') rfl (unbroken_spaces n) r.cursor
    [left, right]
  have hpast : r.cursor.past ([left, right] ++ '\n' :: spaces n) =
      (r.cursor.past [left]).past ([right] ++ '\n' :: spaces n) := by
    rw [← Cursor.past_append]
    rfl
  rw [hpast] at hcolumn hline
  have hidle : Idle { (r.within start left).push stop with
      cursor := (r.cursor.past [left]).past [right], starts := [r.mayStart],
      keyAllowed := false } := by
    cases hmay : r.mayStart with
    | none => exact .inl rfl
    | some k =>
        refine .inr ⟨k, rfl, ?_⟩
        rw [eq_startHere hmay]
        exact required_startHere hat hdeeper
  obtain ⟨r', hsecond, hat'⟩ := goes_of_take hstop
    ⟨hpushed.tokens, hpushed.count, hpushed.blocks⟩ htoken hidle rfl (List.cons_ne_nil _ _)
    (hat.fits.past hleft) hrest (.line n) hnext (by
      intro k hk
      rw [eq_startHere (List.mem_singleton.1 hk).symm]
      exact hline)
  unfold within at hat'
  rw [hcolumn, length_spaces, List.append_assoc _ [start]] at hat'
  exact ⟨r', .head (goes_flowStart hbrackets hat) (.single hsecond), hat'⟩

end Lexer
end Yaml
end LogHarvest
