import Mathlib.Logic.Relation
import LogHarvest.Proofs.Yaml.Quoted
import LogHarvest.Yaml.Lexer

/-!
# The course of the lexer

Between two tokens the lexer stands at a character, with some blocks open and some tokens
behind it: the state `At`.  From one such state it goes to the next by taking a token and
by settling, that is, by going over white space and closing the blocks that end there.
What a text comes to is said by the states that its course leads through.
-/

namespace LogHarvest
namespace Yaml

def isPassedOver (c : Char) : Bool :=
  isWhite c || c == '#' || c == byteOrderMark

def TokenStart (cs : List Char) : Prop :=
  StartsOutside isPassedOver cs

theorem TokenStart.white {cs : List Char} (hstart : TokenStart cs) : StartsOutside isWhite cs :=
  fun c hc => (Bool.or_eq_false_iff.1 (Bool.or_eq_false_iff.1 (hstart c hc)).1).1

/-!
## Blocks
-/

def closed (n : Int) (stack : List Nat) : List Nat :=
  stack.dropWhile fun c : Nat => n < c

def ends (n : Int) (stack : List Nat) : List Token :=
  (stack.takeWhile fun c : Nat => n < c).map fun _ => .blockEnd

@[simp] theorem closed_cons_of_le {n : Int} {c : Nat} (hn : c ≤ n) (stack : List Nat) :
    closed n (c :: stack) = c :: stack :=
  List.dropWhile_cons_of_neg (by simpa using hn)

@[simp] theorem ends_cons_of_le {n : Int} {c : Nat} (hn : c ≤ n) (stack : List Nat) :
    ends n (c :: stack) = [] := by
  unfold ends
  rw [List.takeWhile_cons_of_neg (by simpa using hn), List.map_nil]

@[simp] theorem closed_cons_of_lt {n : Int} {c : Nat} (hn : n < c) (stack : List Nat) :
    closed n (c :: stack) = closed n stack :=
  List.dropWhile_cons_of_pos (by simpa using hn)

@[simp] theorem ends_cons_of_lt {n : Int} {c : Nat} (hn : n < c) (stack : List Nat) :
    ends n (c :: stack) = .blockEnd :: ends n stack := by
  unfold ends
  rw [List.takeWhile_cons_of_pos (by simpa using hn), List.map_cons]

theorem closed_all (stack : List Nat) :
    closed (-1) stack = [] ∧ ends (-1) stack = stack.map fun _ => .blockEnd := by
  induction stack with
  | nil => exact ⟨rfl, rfl⟩
  | cons c stack ih =>
      have hn : (-1 : Int) < c := by omega
      rw [closed_cons_of_lt hn, ends_cons_of_lt hn, ih.1, ih.2]
      exact ⟨rfl, rfl⟩

def columns : List Nat → List Int
  | [] => [-1]
  | c :: stack => c :: columns stack

structure Holds (stack : List Nat) (before : List Token) (l : Lexer) : Prop where
  tokens : l.tokens.map Placed.token = before.reverse
  count : l.count = l.tokens.length
  blocks : l.indent :: l.around = columns stack

structure At (stack : List Nat) (before : List Token) (text : List Char) (column : Nat)
    (keyAllowed : Bool) (l : Lexer) : Prop extends Holds stack before l where
  rest : l.cursor.rest = text
  fits : l.cursor.Fits
  column : l.cursor.column = column
  starts : l.starts = [none]
  keyAllowed : l.keyAllowed = keyAllowed

theorem Holds.push {stack : List Nat} {before : List Token} {l : Lexer}
    (hholds : Holds stack before l) (token : Token) :
    Holds stack (before ++ [token]) (l.push token) where
  tokens := by
    unfold Lexer.push
    rw [List.map_cons, hholds.tokens, List.reverse_append]
    rfl
  count := by
    show l.count + 1 = _
    rw [hholds.count]
    rfl
  blocks := hholds.blocks

namespace Lexer

structure Same (l l' : Lexer) : Prop where
  cursor : l'.cursor = l.cursor
  starts : l'.starts = l.starts
  keyAllowed : l'.keyAllowed = l.keyAllowed

theorem holds_closeBlocks_go {n : Int} {stack : List Nat} {before : List Token} {l : Lexer}
    (hholds : Holds stack before l) :
    Holds (closed n stack) (before ++ ends n stack) (closeBlocks.go n l.around l) ∧
      Same l (closeBlocks.go n l.around l) := by
  induction stack generalizing before l with
  | nil =>
      have haround : l.around = [] := (List.cons.inj hholds.blocks).2
      rw [haround]
      refine ⟨?_, rfl, rfl, rfl⟩
      have hnone : before ++ ends n [] = before := List.append_nil before
      rw [hnone]
      exact hholds
  | cons c stack ih =>
      obtain ⟨hindent, haround⟩ := List.cons.inj hholds.blocks
      obtain ⟨outer, around, hcolumns⟩ : ∃ outer around, columns stack = outer :: around := by
        cases stack <;> exact ⟨_, _, rfl⟩
      rw [hcolumns] at haround
      rw [haround]
      unfold closeBlocks.go
      rw [hindent]
      by_cases hn : n < (c : Int)
      · have hpushed : Holds stack (before ++ [.blockEnd])
            { l.push .blockEnd with indent := outer, around := around } :=
          ⟨(hholds.push .blockEnd).tokens, (hholds.push .blockEnd).count, hcolumns.symm⟩
        obtain ⟨hclosed, hsame⟩ := ih hpushed
        rw [if_pos hn, closed_cons_of_lt hn, ends_cons_of_lt hn, List.append_cons]
        exact ⟨hclosed, hsame.cursor, hsame.starts, hsame.keyAllowed⟩
      · have hle : (c : Int) ≤ n := Int.not_lt.1 hn
        rw [if_neg hn, closed_cons_of_le hle, ends_cons_of_le hle, List.append_nil]
        exact ⟨hholds, rfl, rfl, rfl⟩

theorem holds_closeBlocks {n : Int} {stack : List Nat} {before : List Token} {l : Lexer}
    (hholds : Holds stack before l) (hflow : l.inFlow = false) :
    Holds (closed n stack) (before ++ ends n stack) (l.closeBlocks n) ∧
        Same l (l.closeBlocks n) := by
  unfold closeBlocks
  rw [hflow]
  exact holds_closeBlocks_go hholds

/-!
## Settling
-/

end Lexer

inductive White : List Char → Prop
  | blanks (n : Nat) : White (spaces n)
  | line (n : Nat) : White ('\n' :: spaces n)

def endsLine (ws : List Char) : Bool :=
  ws.head? == some '\n'

namespace Lexer

theorem sees_of_tokenStart {p : Cursor} {c : Char} (hc : isPassedOver c = true) {n : Nat}
    {next : List Char} (hspace : c ≠ ' ') (hrest : p.rest = spaces n ++ next)
    (hnext : TokenStart next) : p.sees c = false := by
  unfold Cursor.sees
  rw [hrest, beq_eq_false_iff_ne]
  intro heq
  cases n with
  | zero =>
      have hnot := hnext c heq
      rw [hc] at hnot
      cases hnot
  | succ n => exact hspace (Option.some.inj heq).symm

theorem toNextToken_blanks {l : Lexer} {n : Nat} {next : List Char}
    (hrest : l.cursor.rest = spaces n ++ next) (hnext : TokenStart next) (fuel : Nat) :
    toNextToken (fuel + 1) l = { l with cursor := l.cursor.past (spaces n) } := by
  have hmark : l.cursor.sees byteOrderMark = false :=
    sees_of_tokenStart (by decide) (by decide) hrest hnext
  have hskip :
      (l.cursor.skipWhile fun c => c == ' ' || (c == '\t' && (l.inFlow || !l.keyAllowed))) =
      l.cursor.past (spaces n) := by
    apply Cursor.skipWhile_eq hrest
    · intro c hc
      rw [List.eq_of_mem_replicate hc]
      rfl
    · exact unbroken_spaces n
    · intro c hc
      have hwhite := (Bool.or_eq_false_iff.1 (hnext.white c hc)).1
      obtain ⟨hspace, htab⟩ := Bool.or_eq_false_iff.1 hwhite
      show (c == ' ' || (c == '\t' && _)) = false
      rw [hspace, htab]
      rfl
  have hafter : (l.cursor.past (spaces n)).rest = next := Cursor.rest_past hrest
  have hhash : (l.cursor.past (spaces n)).sees '#' = false :=
    sees_of_tokenStart (n := 0) (by decide) (by decide) hafter hnext
  have hstop : (!next.isEmpty && atLineEnd next) = false := by
    cases next with
    | nil => rfl
    | cons c more => exact (Bool.or_eq_false_iff.1 (hnext.white c rfl)).2
  unfold toNextToken
  simp only [hmark, Bool.and_false, Bool.false_eq_true, if_false, hskip, hhash, hafter, hstop]

theorem toNextToken_line {l : Lexer} (hflow : l.inFlow = false) {n : Nat} {next : List Char}
    (hrest : l.cursor.rest = '\n' :: (spaces n ++ next)) (hnext : TokenStart next) (fuel : Nat) :
    toNextToken (fuel + 2) l =
      { l with cursor := l.cursor.past ('\n' :: spaces n), keyAllowed := true } := by
  have hmark : l.cursor.sees byteOrderMark = false := by
    unfold Cursor.sees
    rw [hrest]
    rfl
  have hhash : l.cursor.sees '#' = false := by
    unfold Cursor.sees
    rw [hrest]
    rfl
  have hskip :
      (l.cursor.skipWhile fun c => c == ' ' || (c == '\t' && (l.inFlow || !l.keyAllowed))) =
      l.cursor := by
    unfold Cursor.skipWhile
    rw [hrest]
    rfl
  have hbreak : l.cursor.skipBreak = l.cursor.past ['\n'] := by
    unfold Cursor.skipBreak
    rw [Cursor.takeBreak_eq hrest (.inl rfl)]
  have hstop : (!l.cursor.rest.isEmpty && atLineEnd l.cursor.rest) = true := by
    rw [hrest]
    rfl
  have hafter : (l.cursor.past ['\n']).rest = spaces n ++ next := Cursor.rest_past hrest
  rw [toNextToken]
  simp only [hmark, Bool.and_false, Bool.false_eq_true, if_false, hskip, hhash, hstop, if_true]
  rw [hbreak, hflow, Bool.not_false, Bool.or_true]
  exact toNextToken_blanks hafter hnext fuel

theorem toNextToken_white {l : Lexer} (hflow : l.inFlow = false) (hfits : l.cursor.Fits)
    {ws next : List Char} (hws : White ws) (hrest : l.cursor.rest = ws ++ next)
    (hnext : TokenStart next) :
    toNextToken (l.cursor.left + 1) l =
      { l with cursor := l.cursor.past ws, keyAllowed := l.keyAllowed || endsLine ws } := by
  cases hws with
  | blanks n =>
      have hends : endsLine (spaces n) = false := by cases n <;> rfl
      rw [toNextToken_blanks hrest hnext, hends, Bool.or_false]
  | line n =>
      have hleft : ∃ less, l.cursor.left = less + 1 := by
        rw [hfits.left, hrest]
        exact ⟨_, rfl⟩
      obtain ⟨less, hleft⟩ := hleft
      rw [hleft, toNextToken_line hflow hrest hnext,
        show endsLine ('\n' :: spaces n) = true from rfl,
        Bool.or_true]

def Idle (l : Lexer) : Prop :=
  l.starts = [none] ∨ ∃ k, l.starts = [some k] ∧ k.required = false

theorem Idle.inFlow {l : Lexer} (hidle : Idle l) : l.inFlow = false := by
  unfold Lexer.inFlow
  rcases hidle with h | ⟨k, h, -⟩ <;> rw [h] <;> rfl

theorem dropStale_idle {l : Lexer} (hidle : Idle l) :
    ∃ starts, l.dropStale = some { l with starts := starts } ∧
      (starts = [none] ∨ starts = l.starts) ∧
        ((∀ k, some k ∈ l.starts → k.line < l.cursor.line) → starts = [none]) := by
  rcases hidle with hnone | ⟨k, hsome, hrequired⟩
  · refine ⟨[none], ?_, .inl rfl, fun _ => rfl⟩
    unfold dropStale
    rw [hnone]
    rfl
  · refine ⟨[if isStale l.cursor k then none else some k], ?_, ?_, ?_⟩
    · unfold dropStale
      rw [hsome]
      cases hstale : isStale l.cursor k <;> simp [hstale, hrequired]
    · rw [hsome]
      cases isStale l.cursor k
      · exact .inr rfl
      · exact .inl rfl
    · intro hlines
      have hline := hlines k (by rw [hsome]; exact List.mem_singleton_self _)
      have hstale : isStale l.cursor k = true := by
        unfold isStale
        simp [hline]
      rw [hstale]
      rfl

/-- Behind a token the lexer settles at the next one, and closes the blocks that end before it. -/
theorem settle_white {stack : List Nat} {before : List Token} {l : Lexer}
    (hholds : Holds stack before l) (hidle : Idle l) (hfits : l.cursor.Fits) {ws next : List Char}
    (hws : White ws) (hrest : l.cursor.rest = ws ++ next) (hnext : TokenStart next)
    (hlines : ∀ k, some k ∈ l.starts → k.line < (l.cursor.past ws).line) :
    ∃ r, l.dropStale.bind settle = some r ∧
      At (closed (l.cursor.past ws).column stack)
        (before ++ ends (l.cursor.past ws).column stack) next (l.cursor.past ws).column
        (l.keyAllowed || endsLine ws) r := by
  obtain ⟨starts, hdrop, hstarts, -⟩ := dropStale_idle hidle
  have hidle' : Idle { l with starts := starts } := by
    rcases hstarts with h | h
    · exact .inl h
    · rcases hidle with hnone | hsome
      · exact .inl (h.trans hnone)
      · exact .inr (h ▸ hsome)
  have hmoved := toNextToken_white (l := { l with starts := starts }) hidle'.inFlow hfits hws hrest
    hnext
  have hlines' : ∀ k, some k ∈ starts → k.line < (l.cursor.past ws).line := by
    intro k hk
    rcases hstarts with h | h
    · rw [h] at hk
      cases List.mem_singleton.1 hk
    · exact hlines k (h ▸ hk)
  -- Whatever start was pending before the white space is stale behind it.
  obtain ⟨starts', hdrop', -, hnone⟩ := dropStale_idle (l := { l with
    starts := starts, cursor := l.cursor.past ws, keyAllowed := l.keyAllowed || endsLine ws })
      hidle'
  have hnone := hnone hlines'
  subst hnone
  obtain ⟨hclosed, hsame⟩ := holds_closeBlocks (n := (l.cursor.past ws).column) (l := { l with
    starts := [none], cursor := l.cursor.past ws, keyAllowed := l.keyAllowed || endsLine ws })
    ⟨hholds.tokens, hholds.count, hholds.blocks⟩ rfl
  refine ⟨_, ?_, ⟨hclosed, ?_, ?_, ?_, hsame.starts, hsame.keyAllowed⟩⟩
  · rw [hdrop, Option.bind_some]
    unfold settle
    rw [hmoved]
    simp only [hdrop', Option.bind_eq_bind, Option.bind_some]
  · rw [hsame.cursor]
    exact Cursor.rest_past hrest
  · rw [hsame.cursor]
    exact hfits.past hrest
  · rw [hsame.cursor]

/-!
## Whole courses
-/

def isFinished (l : Lexer) : Bool :=
  (l.tokens.head?.map Placed.token) == some .streamEnd

def Goes (r r' : Lexer) : Prop :=
  ∃ l, r.take = some l ∧ l.isFinished = false ∧ l.dropStale.bind settle = some r' ∧
    r'.cursor.rest.length < r.cursor.rest.length

/-- From every state of the first kind the lexer gets to one of the second kind. -/
def Leads (P Q : Lexer → Prop) : Prop :=
  ∀ r, P r → ∃ r', Relation.ReflTransGen Goes r r' ∧ Q r'

theorem Leads.refl (P : Lexer → Prop) : Leads P P :=
  fun r hr => ⟨r, .refl, hr⟩

theorem Leads.trans {P Q R : Lexer → Prop} (hfirst : Leads P Q) (hsecond : Leads Q R) :
    Leads P R := by
  intro r hr
  obtain ⟨r', hto, hr'⟩ := hfirst r hr
  obtain ⟨r'', hon, hr''⟩ := hsecond r' hr'
  exact ⟨r'', hto.trans hon, hr''⟩

theorem leads_of_goes {P Q : Lexer → Prop} (hgoes : ∀ r, P r → ∃ r', Goes r r' ∧ Q r') :
    Leads P Q := by
  intro r hr
  obtain ⟨r', hstep, hr'⟩ := hgoes r hr
  exact ⟨r', .single hstep, hr'⟩

theorem run_of_goes {r r' : Lexer} (hgoes : Relation.ReflTransGen Goes r r') :
    ∀ {l : Lexer} {fuel known : Nat}, l.isFinished = false → l.dropStale.bind settle = some r →
      r.cursor.rest.length + 2 ≤ fuel → ∃ l' fuel' known', l'.isFinished = false ∧
        l'.dropStale.bind settle = some r' ∧ r'.cursor.rest.length + 2 ≤ fuel' ∧
          run fuel known l = run fuel' known' l' := by
  induction hgoes using Relation.ReflTransGen.head_induction_on with
  | refl => exact fun hunfinished hsettled hfuel => ⟨_, _, _, hunfinished, hsettled, hfuel, rfl⟩
  | @head r q hstep _ ih =>
      intro l fuel known hunfinished hsettled hfuel
      obtain ⟨l', htake, hunfinished', hsettled', hless⟩ := hstep
      obtain ⟨fuel, rfl⟩ : ∃ less, fuel = less + 1 := ⟨fuel - 1, by omega⟩
      obtain ⟨dropped, hdrop, hsettle⟩ := Option.bind_eq_some_iff.1 hsettled
      have hnext : dropped.next = some l' := by
        unfold next
        rw [hsettle]
        exact htake
      have hstep : run (fuel + 1) known l = run fuel dropped.certain l' := by
        have hunfinished : ((l.tokens.head?.map Placed.token) == some Token.streamEnd) = false :=
          hunfinished
        rw [run, hunfinished, hdrop]
        simp [hnext]
      rw [hstep]
      exact ih hunfinished' hsettled' (by omega)

/-- At the end of the text the open blocks are closed, and the text is read. -/
theorem run_of_leads {stack : List Nat} {before : List Token} {column : Nat} {keyAllowed : Bool}
    {l : Lexer} {r : Lexer} (hunfinished : l.isFinished = false)
    (hsettled : l.dropStale.bind settle = some r) {P : Lexer → Prop} (hP : P r)
    (hleads : Leads P (At stack before [] column keyAllowed)) {fuel known : Nat}
    (hfuel : r.cursor.rest.length + 2 ≤ fuel) :
    (run fuel known l).map Placed.token =
      before ++ (stack.map fun _ => .blockEnd) ++ [.streamEnd] := by
  obtain ⟨r', hgoes, hat⟩ := hleads r hP
  obtain ⟨l', fuel', known', hunfinished', hsettled', hfuel', hrun⟩ :=
    run_of_goes hgoes hunfinished hsettled hfuel
  rw [hrun]
  obtain ⟨fuel, rfl⟩ : ∃ less, fuel' = less + 2 := ⟨fuel' - 2, by omega⟩
  obtain ⟨dropped, hdrop, hsettle⟩ := Option.bind_eq_some_iff.1 hsettled'
  obtain ⟨hclosed, hsame⟩ := holds_closeBlocks (n := -1) hat.toHolds (by
    unfold inFlow
    rw [hat.starts]
    rfl)
  have hend : r'.take = some (((r'.closeBlocks (-1)).allowKey false).push .streamEnd) := by
    have hkey : (r'.closeBlocks (-1)).dropKey = some (r'.closeBlocks (-1)) := by
      unfold dropKey
      rw [hsame.starts, hat.starts]
    unfold take
    dsimp only
    rw [hat.rest]
    unfold takeEnd closeAll
    rw [hkey]
    rfl
  have hnext : dropped.next =
      some (((r'.closeBlocks (-1)).allowKey false).push .streamEnd) := by
    unfold next
    rw [hsettle]
    exact hend
  have hunfinished' : ((l'.tokens.head?.map Placed.token) == some Token.streamEnd) = false :=
    hunfinished'
  rw [run, hunfinished', hdrop]
  simp only [hnext, Bool.false_eq_true, if_false]
  have hallowed : Holds (closed (-1) stack) (before ++ ends (-1) stack)
      ((r'.closeBlocks (-1)).allowKey false) :=
    ⟨hclosed.tokens, hclosed.count, hclosed.blocks⟩
  have htokens := (hallowed.push .streamEnd).tokens
  have hfinished : ((((r'.closeBlocks (-1)).allowKey false).push .streamEnd).tokens.head?.map
      Placed.token == some Token.streamEnd) = true := rfl
  rw [run, if_pos hfinished, List.map_reverse, htokens, List.reverse_reverse, (closed_all stack).2]

end Lexer
end Yaml
end LogHarvest
