import LogHarvest.Proofs.Yaml.Spelling

/-!
# Reading literal blocks

A text with lines is its leading breaks, its lines with the breaks between them, and its
trailing breaks.  The header of a block says how deep the lines are and what becomes of the
trailing breaks; with it, the indented lines are read as the text.
-/

namespace LogHarvest
namespace Yaml

/-!
## Lines
-/

/-- Lines with breaks between them; the text neither starts nor ends in a break. -/
inductive Lined : List Char → Prop
  | last {line} : line ≠ [] → Unbroken line → Lined line
  | more {line b bs body} :
      line ≠ [] → Unbroken line → AllBreaks (b :: bs) → Lined body →
        Lined (line ++ (b :: bs ++ body))

theorem Lined.ne_nil {body : List Char} (hbody : Lined body) : body ≠ [] := by
  cases hbody with
  | last hne _ => exact hne
  | more hne _ _ _ => exact List.append_ne_nil_of_left_ne_nil hne _

theorem Lined.starts {body : List Char} (hbody : Lined body) : StartsOutside isBreak body := by
  cases hbody with
  | last hne hline =>
      obtain ⟨c, more, rfl⟩ := List.exists_cons_of_ne_nil hne
      intro d hd
      exact hline d (List.mem_of_mem_head? hd)
  | more hne hline _ _ =>
      obtain ⟨c, more, rfl⟩ := List.exists_cons_of_ne_nil hne
      intro d hd
      rw [← Option.some.inj hd]
      exact hline c List.mem_cons_self

theorem Lined.ends {body : List Char} (hbody : Lined body) :
    ∀ c ∈ body.getLast?, isBreak c = false := by
  induction hbody with
  | last _ hline => exact fun c hc => hline c (List.mem_of_getLast? hc)
  | more _ _ _ hbody ih =>
      intro c hc
      have hlast := List.getLast?_eq_some_getLast hbody.ne_nil
      rw [List.getLast?_append, List.getLast?_append, hlast] at hc
      exact ih c (hlast.trans hc)

theorem Lined.cons {body : List Char} (hbody : Lined body) {c : Char} (hc : isBreak c = false) :
    Lined (c :: body) := by
  cases hbody with
  | last hne hline => exact .last (List.cons_ne_nil c body) (.cons hc hline)
  | @more line b bs body hne hline hbs hbody =>
      exact @Lined.more (c :: line) b bs body (List.cons_ne_nil c line) (.cons hc hline) hbs hbody

theorem exists_lined {text : List Char} (hbreaks : ∀ c ∈ text, isBreak c = true → AllBreaks [c]) :
    ∃ front body tail, text = front ++ (body ++ tail) ∧ AllBreaks front ∧ AllBreaks tail ∧
      (body = [] ∧ tail = [] ∨ Lined body) := by
  induction text with
  | nil => exact ⟨[], [], [], rfl, by simp [AllBreaks], by simp [AllBreaks], .inl ⟨rfl, rfl⟩⟩
  | cons c text ih =>
      obtain ⟨front, body, tail, rfl, hfront, htail, hbody⟩ :=
        ih fun d hd => hbreaks d (List.mem_cons_of_mem c hd)
      cases hc : isBreak c with
      | true =>
          have hone := hbreaks c List.mem_cons_self hc c List.mem_cons_self
          exact ⟨c :: front, body, tail, rfl, List.forall_mem_cons.2 ⟨hone, hfront⟩, htail, hbody⟩
      | false =>
          have hsingle : Lined [c] := .last (by simp) (.cons hc (by simp [Unbroken]))
          cases front with
          | nil =>
              rcases hbody with ⟨rfl, rfl⟩ | hbody
              · exact ⟨[], [c], [], rfl, hfront, htail, .inr hsingle⟩
              · exact ⟨[], c :: body, tail, rfl, hfront, htail, .inr (hbody.cons hc)⟩
          | cons b bs =>
              rcases hbody with ⟨rfl, rfl⟩ | hbody
              · exact ⟨[], [c], b :: bs, by simp, by simp [AllBreaks], hfront, .inr hsingle⟩
              · refine ⟨[], [c] ++ (b :: bs ++ body), tail, by simp, by simp [AllBreaks], htail,
                  .inr (.more (by simp) (.cons hc (by simp [Unbroken])) hfront hbody)⟩

/-!
## Indentation
-/

theorem indented_breaks {indent : Nat} {bs : List Char} (hbs : AllBreaks bs) (rest : List Char) :
    indented indent true (bs ++ rest) = bs ++ indented indent true rest := by
  induction bs with
  | nil => rfl
  | cons b more ih =>
      rw [List.cons_append, indented, if_pos (hbs.isBreak List.mem_cons_self),
        ih fun c hc => hbs c (List.mem_cons_of_mem b hc)]
      rfl

theorem indented_lined {indent : Nat} {body : List Char} (hbody : Lined body) (tail : List Char) :
    indented indent true (body ++ tail) =
      spaces indent ++ indented indent false (body ++ tail) := by
  obtain ⟨c, more, rfl⟩ := List.exists_cons_of_ne_nil hbody.ne_nil
  have hc : isBreak c = false := hbody.starts c rfl
  rw [indented_true]
  simp [hc]

theorem indented_body {indent : Nat} {body : List Char} (hbody : Lined body) :
    indented indent true body = spaces indent ++ indented indent false body := by
  have hwhole : indented indent true (body ++ []) =
      spaces indent ++ indented indent false (body ++ []) :=
    indented_lined hbody []
  rwa [List.append_nil] at hwhole

theorem indented_line {indent : Nat} {line : List Char} (hline : Unbroken line) {b : Char}
    {bs : List Char} (hbs : AllBreaks (b :: bs)) (rest : List Char) :
    indented indent false (line ++ (b :: bs ++ rest)) =
      line ++ (b :: bs ++ indented indent true rest) := by
  rw [indented_unbroken hline, List.cons_append, indented,
    if_pos (hbs.isBreak List.mem_cons_self),
    indented_breaks fun c hc => hbs c (List.mem_cons_of_mem b hc)]
  rfl

theorem Lined.startsOutside_indented {belongs : Char → Bool} {indent : Nat} {body : List Char}
    (hbody : Lined body) (hstarts : StartsOutside belongs body) (rest : List Char) :
    StartsOutside belongs (indented indent false body ++ rest) := by
  obtain ⟨c, more, rfl⟩ := List.exists_cons_of_ne_nil hbody.ne_nil
  have hc : isBreak c = false := hbody.starts c rfl
  rw [indented, if_neg (by rw [hc]; decide)]
  exact hstarts

theorem length_le_indented (indent : Nat) (atStart : Bool) (cs : List Char) :
    cs.length ≤ (indented indent atStart cs).length := by
  induction cs generalizing atStart with
  | nil => exact Nat.zero_le _
  | cons c rest ih =>
      unfold indented
      split
      · exact Nat.succ_le_succ (ih true)
      · rw [List.length_append, List.length_cons, List.length_cons]
        have := ih false
        omega

/-!
## Reading the lines
-/

def isTabOrBreak (c : Char) : Bool :=
  c == '\t' || isBreak c

theorem StartsOutside.white {rest : List Char} (houtside : StartsOutside isWhite rest) :
    StartsOutside isPlainSpace rest ∧ StartsOutside isTabOrBreak rest := by
  constructor
  · intro c hc
    have hwhite := (Bool.or_eq_false_iff.1 (houtside c hc)).1
    exact (Bool.or_eq_false_iff.1 hwhite).1
  · intro c hc
    have hwhite := Bool.or_eq_false_iff.1 (houtside c hc)
    exact Bool.or_eq_false_iff.2 ⟨(Bool.or_eq_false_iff.1 hwhite.1).2, hwhite.2⟩

theorem Lined.starts_text {body : List Char} (hbody : Lined body) (htab : '\t' ∉ body) :
    StartsOutside isTabOrBreak body := by
  intro c hc
  have hne : c ≠ '\t' := by
    rintro rfl
    exact htab (List.mem_of_mem_head? hc)
  simp [isTabOrBreak, hbody.starts c hc, hne]

theorem takeWhile_spaces (n : Nat) (rest : List Char) :
    ((spaces n ++ rest).takeWhile (· == ' ')).length = n + (rest.takeWhile (· == ' ')).length := by
  rw [List.takeWhile_append_of_pos, List.length_append, length_spaces]
  intro c hc
  rw [List.eq_of_mem_replicate hc]
  rfl

theorem takeWhile_outside {rest : List Char} (houtside : StartsOutside isPlainSpace rest) :
    rest.takeWhile (· == ' ') = [] := by
  cases rest with
  | nil => rfl
  | cons c more =>
      have hc : (c == ' ') = false := houtside c rfl
      exact List.takeWhile_cons_of_neg (by rw [hc]; decide)

theorem takeBlockBreaks_end {indent n : Nat} {rest : List Char} {p : Cursor}
    (hrest : p.rest = spaces n ++ rest)
    (hroom : (if indent == 0 then (p.rest.takeWhile (· == ' ')).length
      else min (p.rest.takeWhile (· == ' ')).length (indent - p.column)) = n)
    (houtside : StartsOutside isTabOrBreak rest) (fuel deepest : Nat) (found : List Char) :
    takeBlockBreaks indent (fuel + 1) deepest found p =
      some (max deepest (p.column + n), found, p.past (spaces n)) := by
  have hmany : p.skipMany n = p.past (spaces n) := by
    rw [Cursor.past_unbroken (unbroken_spaces n), length_spaces]
  have hafter : (p.past (spaces n)).rest = rest := Cursor.rest_past hrest
  have hcolumn : (p.past (spaces n)).column = p.column + n := by
    rw [Cursor.column_past (unbroken_spaces n), length_spaces]
  rw [takeBlockBreaks]
  simp only [hroom, hmany, hcolumn]
  cases rest with
  | nil => simp [hafter, Cursor.sees]
  | cons c more =>
      have hc : isTabOrBreak c = false := houtside c rfl
      obtain ⟨htab, hbreak⟩ := Bool.or_eq_false_iff.1 hc
      have hsees : (p.past (spaces n)).sees '\t' = false := by
        unfold Cursor.sees
        rw [hafter]
        simpa using htab
      simp [hsees, hafter, hbreak]

theorem takeBlockBreaks_eq {indent n : Nat} (hn : n ≤ indent) (hindent : 0 < indent)
    {bs rest : List Char} (hbs : AllBreaks bs)
    (hroom : n = indent ∨ StartsOutside isPlainSpace rest)
    (houtside : StartsOutside isTabOrBreak rest) {p : Cursor}
    (hrest : p.rest = bs ++ (spaces n ++ rest)) (hcolumn : p.column = 0) {fuel : Nat}
    (hfuel : bs.length < fuel) (deepest : Nat) (found : List Char) :
    ∃ deepest', takeBlockBreaks indent fuel deepest found p =
      some (deepest', found ++ bs, p.past (bs ++ spaces n)) := by
  have hzero : (indent == 0) = false := beq_eq_false_iff_ne.2 (by omega)
  induction bs generalizing p fuel deepest found with
  | nil =>
      obtain ⟨fuel, rfl⟩ : ∃ less, fuel = less + 1 := ⟨fuel - 1, by omega⟩
      have hspaces : (if indent == 0 then (p.rest.takeWhile (· == ' ')).length
          else min (p.rest.takeWhile (· == ' ')).length (indent - p.column)) = n := by
        rw [hzero, if_neg (by decide), hrest, List.nil_append, takeWhile_spaces, hcolumn]
        rcases hroom with rfl | hroom
        · omega
        · rw [takeWhile_outside hroom, List.length_nil]
          omega
      rw [takeBlockBreaks_end hrest hspaces houtside, List.append_nil]
      exact ⟨_, rfl⟩
  | cons b bs ih =>
      obtain ⟨fuel, rfl⟩ : ∃ less, fuel = less + 1 := ⟨fuel - 1, by omega⟩
      rw [List.length_cons] at hfuel
      rw [List.cons_append] at hrest
      have hb := hbs b List.mem_cons_self
      have hbreak := hbs.isBreak List.mem_cons_self
      have hnone : p.rest.takeWhile (· == ' ') = [] := by
        rw [hrest, List.takeWhile_cons_of_neg]
        rcases hb with rfl | rfl | rfl <;> decide
      have hstay : p.skipMany 0 = p := rfl
      have htab : p.sees '\t' = false := by
        unfold Cursor.sees
        rw [hrest]
        rcases hb with rfl | rfl | rfl <;> rfl
      have hafter : (p.past [b]).rest = bs ++ (spaces n ++ rest) := Cursor.rest_past hrest
      obtain ⟨deepest', hmore⟩ := ih (fun c hc => hbs c (List.mem_cons_of_mem b hc)) hafter
        (by rw [Cursor.past_break hbreak]) (Nat.lt_of_succ_lt_succ hfuel) (max deepest p.column)
        (found ++ [b])
      refine ⟨deepest', ?_⟩
      rw [takeBlockBreaks]
      simp only [hnone, List.length_nil, hzero, Bool.false_eq_true, if_false, Nat.zero_min, hstay,
        htab, Bool.and_false]
      simp only [hrest, hbreak, if_true, Cursor.takeBreak_eq hrest hb]
      rw [hmore, List.append_assoc, List.cons_append, Cursor.past_cons]
      rfl

theorem takeBlockLines_end {indent : Nat} {p : Cursor} (hcolumn : p.column ≠ indent) (fuel : Nat)
    (s : BlockState) : takeBlockLines true indent fuel s p = some (s, p) := by
  cases fuel with
  | zero => rfl
  | succ fuel =>
      rw [takeBlockLines]
      simp [hcolumn]

theorem takeBlockLines_line {indent n : Nat} (hn : n ≤ indent) (hindent : 0 < indent)
    {line : List Char} (hline : Unbroken line) {b : Char} {bs rest : List Char}
    (hbs : AllBreaks (b :: bs)) (hroom : n = indent ∨ StartsOutside isPlainSpace rest)
    (houtside : StartsOutside isTabOrBreak rest) {p : Cursor} (hfits : p.Fits)
    (hrest : p.rest = line ++ (b :: (bs ++ (spaces n ++ rest)))) (hcolumn : p.column = indent)
    (fuel : Nat) (s : BlockState) :
    ∃ blank, takeBlockLines true indent (fuel + 1) s p =
      takeBlockLines true indent fuel
        ⟨line.reverse ++ (s.trailing.reverse ++ (s.leading.reverse ++ s.acc)), [b], bs, blank⟩
        (p.past (line ++ (b :: (bs ++ spaces n)))) := by
  have hbreak := hbs.isBreak List.mem_cons_self
  have hwhole : p.rest.takeWhile (fun c => !isBreak c) = line := by
    rw [hrest]
    apply takeWhile_append_of_outside
    · intro c hc
      rw [hline c hc]
      rfl
    · intro c hc
      rw [← Option.some.inj hc]
      show (!isBreak b) = false
      rw [hbreak]
      rfl
  have hend : (p.past line).rest = b :: (bs ++ (spaces n ++ rest)) := Cursor.rest_past hrest
  have hafter : ((p.past line).past [b]).rest = bs ++ (spaces n ++ rest) := Cursor.rest_past hend
  have hfits' : ((p.past line).past [b]).Fits := (hfits.past hrest).past hend
  obtain ⟨deepest, hbreaks⟩ := takeBlockBreaks_eq hn hindent
    (fun c hc => hbs c (List.mem_cons_of_mem b hc)) hroom houtside hafter
    (by rw [Cursor.past_break hbreak]) (hfits'.length_lt hafter) 0 []
  have hmany : p.skipMany line.length = p.past line := (Cursor.past_unbroken hline p).symm
  have hsome : p.rest.isEmpty = false := by
    rw [hrest]
    simp
  rw [takeBlockLines]
  simp only [hcolumn, hsome, bne_self_eq_false, Bool.or_self, Bool.false_eq_true, if_false, hwhole,
    hmany, Cursor.takeBreak_eq hend (hbs b List.mem_cons_self), hbreaks, Bool.not_true,
    Bool.false_and]
  simp only [← Cursor.past_append, List.append_assoc]
  exact ⟨_, rfl⟩

theorem takeBlockLines_lined {indent n : Nat} (hn : n < indent) {body : List Char}
    (hbody : Lined body) (htab : '\t' ∉ body) {b : Char} {bs rest : List Char}
    (hbs : AllBreaks (b :: bs)) (houtside : StartsOutside isWhite rest) {p : Cursor}
    (hfits : p.Fits)
    (hrest : p.rest = indented indent false body ++ (b :: (bs ++ (spaces n ++ rest))))
    (hcolumn : p.column = indent) {fuel : Nat} (hfuel : body.length ≤ fuel) (s : BlockState) :
    ∃ blank, takeBlockLines true indent fuel s p =
      some (⟨body.reverse ++ (s.trailing.reverse ++ (s.leading.reverse ++ s.acc)), [b], bs, blank⟩,
        p.past (indented indent false body ++ (b :: (bs ++ spaces n)))) := by
  induction hbody generalizing p fuel s with
  | @last line hne hline =>
      have hlength := List.length_pos_iff.2 hne
      obtain ⟨fuel, rfl⟩ : ∃ less, fuel = less + 1 := ⟨fuel - 1, by omega⟩
      rw [indented_self indent hline] at hrest ⊢
      obtain ⟨hspace, htabBreak⟩ := houtside.white
      obtain ⟨blank, hstep⟩ := takeBlockLines_line hn.le (by omega) hline hbs (.inr hspace)
        htabBreak hfits hrest hcolumn fuel s
      have hend : (p.past (line ++ (b :: (bs ++ spaces n)))).column ≠ indent := by
        rw [Cursor.past_append, ← List.cons_append,
          (Cursor.past_breaks hbs (unbroken_spaces n) _).1, length_spaces]
        omega
      exact ⟨blank, by rw [hstep, takeBlockLines_end hend]⟩
  | @more line d ds body hne hline hds hbody ih =>
      have hlength := List.length_pos_iff.2 hne
      simp only [List.length_append, List.length_cons] at hfuel
      obtain ⟨fuel, rfl⟩ : ∃ less, fuel = less + 1 := ⟨fuel - 1, by omega⟩
      have hindented : indented indent false (line ++ (d :: ds ++ body)) =
          line ++ (d :: (ds ++ (spaces indent ++ indented indent false body))) := by
        rw [indented_line hline hds, indented_body hbody]
        rfl
      rw [hindented] at hrest ⊢
      simp only [List.append_assoc, List.cons_append] at hrest
      have hstart : StartsOutside isTabOrBreak
          (indented indent false body ++ (b :: (bs ++ (spaces n ++ rest)))) :=
        hbody.startsOutside_indented (hbody.starts_text fun hmem => htab (by simp [hmem])) _
      obtain ⟨blank, hstep⟩ := takeBlockLines_line (Nat.le_refl indent) (by omega) hline hds
        (.inl rfl) hstart hfits hrest hcolumn fuel s
      have hwhole : p.rest = (line ++ (d :: (ds ++ spaces indent))) ++
          (indented indent false body ++ (b :: (bs ++ (spaces n ++ rest)))) := by
        rw [hrest]
        simp
      have hcolumn' : (p.past (line ++ (d :: (ds ++ spaces indent)))).column = indent := by
        rw [Cursor.past_append, ← List.cons_append,
          (Cursor.past_breaks hds (unbroken_spaces indent) _).1, length_spaces]
      obtain ⟨blank', hmore⟩ := ih (fun hmem => htab (by simp [hmem])) (hfits.past hwhole)
        (Cursor.rest_past hwhole) hcolumn' (Nat.le_of_lt_succ (by omega : _ < fuel + 1))
        ⟨line.reverse ++ (s.trailing.reverse ++ (s.leading.reverse ++ s.acc)), [d], ds, blank⟩
      refine ⟨blank', ?_⟩
      rw [hstep, hmore, ← Cursor.past_append]
      simp

/-!
## The header
-/

def Chomping.sign : Chomping → List Char
  | .strip => ['-']
  | .clip => []
  | .keep => ['+']

/-- The digit for the depth of a block, where it cannot be told from the first line. -/
def depthDigit (told : Bool) : List Char :=
  if told then [] else ['2']

def headText (told : Bool) (chomping : Chomping) : List Char :=
  '|' :: (depthDigit told ++ chomping.sign ++ ['\n'])

theorem takeHeader_eq {told : Bool} {chomping : Chomping} {rest : List Char} {p : Cursor}
    (hrest : p.rest = depthDigit told ++ chomping.sign ++ '\n' :: rest) :
    takeHeader p =
      some (chomping, if told then 0 else 2, p.past (depthDigit told ++ chomping.sign)) := by
  obtain ⟨text, size, index, line, column⟩ := p
  dsimp only at hrest
  subst hrest
  cases told <;> cases chomping <;> rfl

def chompingOf : List Char → Chomping
  | [] => .strip
  | [_] => .clip
  | _ => .keep

theorem blockHeader_of_reverse {text before : List Char} {last : Char}
    (hreverse : text.reverse = last :: before) :
    blockHeader text = '|' :: (depthDigit (!text.head?.any isEdge) ++
      if !isBreak last then ['-']
      else if before.isEmpty || before.head?.any isBreak then ['+'] else []) := by
  unfold blockHeader depthDigit
  rw [hreverse]
  cases text.head?.any isEdge <;> rfl

theorem blockHeader_breaks {front : List Char} (hfront : AllBreaks front) (hsome : front ≠ []) :
    blockHeader front ++ ['\n'] = headText false .keep := by
  have hhead : front.head?.any isEdge = true := by
    obtain ⟨b, more, rfl⟩ := List.exists_cons_of_ne_nil hsome
    rw [List.head?_cons, Option.any_some]
    exact Bool.or_eq_true_iff.2 (.inr (hfront.isBreak List.mem_cons_self))
  obtain ⟨last, before, hreverse⟩ :=
    List.exists_cons_of_ne_nil (List.reverse_eq_nil_iff.not.2 hsome)
  have hbreak : ∀ c ∈ last :: before, isBreak c = true := by
    intro c hc
    rw [← hreverse, List.mem_reverse] at hc
    exact hfront.isBreak hc
  have hends : (before.isEmpty || before.head?.any isBreak) = true := by
    cases before with
    | nil => rfl
    | cons c more => exact hbreak c (by simp)
  rw [blockHeader_of_reverse hreverse, hhead, hbreak last List.mem_cons_self, hends]
  rfl

theorem blockHeader_lined {front body tail : List Char} (hbody : Lined body)
    (htail : AllBreaks tail) :
    blockHeader (front ++ (body ++ tail)) ++ ['\n'] =
      headText (!(front ++ (body ++ tail)).head?.any isEdge) (chompingOf tail) := by
  obtain ⟨last, before, hlast⟩ :=
    List.exists_cons_of_ne_nil (List.reverse_eq_nil_iff.not.2 hbody.ne_nil)
  have hend : isBreak last = false := by
    apply hbody.ends
    rw [← List.head?_reverse, hlast]
    rfl
  match tail, htail with
  | [], _ =>
      have hreverse : (front ++ (body ++ [])).reverse = last :: (before ++ front.reverse) := by
        rw [List.append_nil, List.reverse_append, hlast, List.cons_append]
      rw [blockHeader_of_reverse hreverse, hend]
      rfl
  | [b], htail =>
      have hreverse : (front ++ (body ++ [b])).reverse =
          b :: (last :: (before ++ front.reverse)) := by
        simp [hlast]
      rw [blockHeader_of_reverse hreverse, htail.isBreak List.mem_cons_self]
      simp [hend, chompingOf, Chomping.sign, headText]
  | b :: d :: more, htail =>
      obtain ⟨x, xs, hx⟩ := List.exists_cons_of_ne_nil
        (List.reverse_eq_nil_iff.not.2 (List.cons_ne_nil b (d :: more)))
      have hxs : xs ≠ [] := by
        rintro rfl
        have hlength := congrArg List.length hx
        simp at hlength
      obtain ⟨y, ys, rfl⟩ := List.exists_cons_of_ne_nil hxs
      have hbreak : ∀ c ∈ x :: y :: ys, isBreak c = true := by
        intro c hc
        rw [← hx, List.mem_reverse] at hc
        exact htail.isBreak hc
      have hreverse : (front ++ (body ++ b :: d :: more)).reverse =
          x :: (y :: (ys ++ (body.reverse ++ front.reverse))) := by
        rw [List.reverse_append, List.reverse_append, hx]
        simp
      rw [blockHeader_of_reverse hreverse, hbreak x (by simp)]
      simp [hbreak y (by simp), chompingOf, Chomping.sign, headText]

theorem indented_trailing {indent : Nat} {body : List Char} (hbody : Lined body) {tail : List Char}
    (htail : AllBreaks tail) :
    indented indent false (body ++ tail) = indented indent false body ++ tail := by
  have hbreaks : ∀ {bs : List Char}, AllBreaks bs → ∀ atStart, indented indent atStart bs = bs := by
    intro bs hbs
    induction bs with
    | nil => intro atStart; cases atStart <;> rfl
    | cons b more ih =>
        intro atStart
        rw [indented, if_pos (hbs.isBreak List.mem_cons_self),
          ih fun c hc => hbs c (List.mem_cons_of_mem b hc)]
  induction hbody with
  | @last line _ hline =>
      rw [indented_unbroken hline, hbreaks htail, indented_self indent hline]
  | @more line b bs body _ hline hbs hbody ih =>
      have hassoc : line ++ (b :: bs ++ body) ++ tail = line ++ (b :: bs ++ (body ++ tail)) := by
        simp
      rw [hassoc, indented_line hline hbs, indented_lined hbody, ih, indented_line hline hbs,
        indented_body hbody]
      simp

/-!
## Whole blocks
-/

theorem finishLine_break {p : Cursor} {rest : List Char} (hrest : p.rest = '\n' :: rest) :
    p.finishLine = some (p.past ['\n']) := by
  have hstay : p.skipWhile isSpace = p := by
    unfold Cursor.skipWhile
    rw [hrest]
    rfl
  unfold Cursor.finishLine Cursor.skipBreak
  simp [hstay, Cursor.sees, hrest, atLineEnd, isBreak, Cursor.takeBreak_eq hrest (.inl rfl)]

def Chomping.kept : Chomping → (leading trailing : List Char) → List Char
  | .strip, _, _ => []
  | .clip, leading, _ => leading
  | .keep, leading, trailing => leading ++ trailing

def takeBlockFrom (chomping : Chomping) (known : Nat) (parent : Int) (p : Cursor) :
    Option (String × Cursor) := do
  let (deepest, breaks, p) ← takeBlockBreaks known (p.left + 1) 0 [] p
  let indent := if known == 0 then max (max deepest (parent + 1).toNat) 1 else known
  let (s, p) ← takeBlockLines true indent (p.left + 1) ⟨[], [], breaks, false⟩ p
  some (String.ofList (s.acc.reverse ++ chomping.kept s.leading s.trailing), p)

theorem takeBlock_eq {s : Nat} {told : Bool} {chomping : Chomping} {rest : List Char} {p : Cursor}
    (hrest : p.rest = headText told chomping ++ rest) :
    takeBlock true s p =
      takeBlockFrom chomping (if told then 0 else s + 2) s (p.past (headText told chomping)) := by
  have hskip : p.skip = p.past ['|'] := (Cursor.past_single rfl).symm
  have hafter : (p.past ['|']).rest = depthDigit told ++ chomping.sign ++ '\n' :: rest := by
    apply Cursor.rest_past
    rw [hrest]
    simp [headText]
  have hline := finishLine_break (Cursor.rest_past hafter)
  have hpast : ((p.past ['|']).past (depthDigit told ++ chomping.sign)).past ['\n'] =
      p.past (headText told chomping) := by
    rw [← Cursor.past_append, ← Cursor.past_append]
    rfl
  unfold takeBlock takeBlockFrom
  rw [hskip, takeHeader_eq hafter]
  simp only [Option.bind_eq_bind, Option.bind_some, hline]
  rw [hpast]
  cases told with
  | true => cases chomping <;> rfl
  | false =>
      have hdepth : (max (s : ℤ) 0).toNat = s := by omega
      simp only [hdepth]
      cases chomping <;> rfl

theorem column_headText (told : Bool) (chomping : Chomping) (p : Cursor) :
    (p.past (headText told chomping)).column = 0 :=
  (@Cursor.past_after_break '\n' rfl [] (by simp [Unbroken]) p
    ('|' :: (depthDigit told ++ chomping.sign))).1

/--
The empty lines before the first line of a block are read, and the indentation of that line:
it is what the header says, or tells the depth itself.
-/
theorem takeBlockBreaks_first {s : Nat} {front next : List Char} (hfront : AllBreaks front)
    {told : Bool} (htold : told = true → front = [] ∧ StartsOutside isPlainSpace next)
    (hstart : StartsOutside isTabOrBreak next) {p : Cursor} (hfits : p.Fits)
    (hcolumn : p.column = 0)
    (hrest : p.rest = front ++ spaces (s + 2) ++ next) :
    ∃ deepest, takeBlockBreaks (if told then 0 else s + 2) (p.left + 1) 0 [] p =
        some (deepest, front, p.past (front ++ spaces (s + 2))) ∧
      (told = true → deepest = s + 2) := by
  cases told with
  | true =>
      obtain ⟨rfl, hspace⟩ := htold rfl
      have hroom : (if (0 : Nat) == 0 then (p.rest.takeWhile (· == ' ')).length
          else min (p.rest.takeWhile (· == ' ')).length (0 - p.column)) = s + 2 := by
        rw [if_pos (by decide), hrest, List.nil_append, takeWhile_spaces, takeWhile_outside hspace]
        rfl
      refine ⟨_, takeBlockBreaks_end hrest hroom hstart p.left 0 [], fun _ => ?_⟩
      rw [hcolumn]
      omega
  | false =>
      rw [List.append_assoc] at hrest
      obtain ⟨deepest, hbreaks⟩ := takeBlockBreaks_eq (Nat.le_refl (s + 2)) (by omega) hfront
        (.inl rfl) hstart hrest hcolumn (hfits.length_lt hrest) 0 []
      exact ⟨deepest, hbreaks, fun h => (Bool.false_ne_true h).elim⟩

theorem takeBlockFrom_lined {s n : Nat} (hn : n < s + 2) {front body : List Char} {b : Char}
    {bs rest : List Char} (hfront : AllBreaks front) (hbody : Lined body) (htab : '\t' ∉ body)
    (hbs : AllBreaks (b :: bs)) (houtside : StartsOutside isWhite rest) {told : Bool}
    (htold : told = true → front = [] ∧ StartsOutside isPlainSpace body) (chomping : Chomping)
    {p : Cursor} (hfits : p.Fits) (hcolumn : p.column = 0)
    (hrest : p.rest = front ++ spaces (s + 2) ++
      (indented (s + 2) false body ++ (b :: (bs ++ (spaces n ++ rest))))) :
    takeBlockFrom chomping (if told then 0 else s + 2) s p =
      some (String.ofList (front ++ (body ++ chomping.kept [b] bs)),
        p.past (front ++ spaces (s + 2) ++
          (indented (s + 2) false body ++ (b :: (bs ++ spaces n))))) := by
  have hafter := Cursor.rest_past hrest
  have hfits' := hfits.past hrest
  obtain ⟨deepest, hbreaks, hdeepest⟩ := takeBlockBreaks_first hfront
    (fun h => ⟨(htold h).1, hbody.startsOutside_indented (htold h).2 _⟩)
    (hbody.startsOutside_indented (hbody.starts_text htab) _) hfits hcolumn hrest
  have hindent : (if (if told then 0 else s + 2) == 0 then max (max deepest ((s : ℤ) + 1).toNat) 1
      else (if told then 0 else s + 2)) = s + 2 := by
    cases told with
    | true =>
        rw [hdeepest rfl]
        show max (max (s + 2) ((s : ℤ) + 1).toNat) 1 = s + 2
        omega
    | false => rfl
  have hcolumn' : (p.past (front ++ spaces (s + 2))).column = s + 2 := by
    cases front with
    | nil =>
        rw [List.nil_append, Cursor.column_past (unbroken_spaces _), length_spaces, hcolumn,
          Nat.zero_add]
    | cons d ds => rw [(Cursor.past_breaks hfront (unbroken_spaces _) p).1, length_spaces]
  have hlength : body.length ≤ (p.past (front ++ spaces (s + 2))).left := by
    have hle := length_le_indented (s + 2) false body
    have hlt := hfits'.length_lt hafter
    omega
  obtain ⟨blank, hlines⟩ := takeBlockLines_lined hn hbody htab hbs houtside hfits' hafter hcolumn'
    (Nat.le_succ_of_le hlength) ⟨[], [], front, false⟩
  unfold takeBlockFrom
  rw [hbreaks]
  simp only [Option.bind_eq_bind, Option.bind_some, hindent, hlines]
  rw [← Cursor.past_append]
  simp

theorem takeBlockFrom_breaks {s n : Nat} (hn : n < s + 2) {b : Char} {bs rest : List Char}
    (hbs : AllBreaks (b :: bs)) (houtside : StartsOutside isWhite rest) {p : Cursor}
    (hfits : p.Fits) (hcolumn : p.column = 0) (hrest : p.rest = b :: bs ++ (spaces n ++ rest)) :
    takeBlockFrom .keep (s + 2) s p =
      some (String.ofList (b :: bs), p.past (b :: bs ++ spaces n)) := by
  obtain ⟨hspace, htab⟩ := houtside.white
  obtain ⟨deepest, hbreaks⟩ := takeBlockBreaks_eq hn.le (by omega) hbs (.inr hspace) htab hrest
    hcolumn (hfits.length_lt hrest) 0 []
  have hend : (p.past (b :: bs ++ spaces n)).column ≠ s + 2 := by
    rw [(Cursor.past_breaks hbs (unbroken_spaces n) p).1, length_spaces]
    omega
  unfold takeBlockFrom
  rw [hbreaks]
  simp only [Option.bind_eq_bind, Option.bind_some]
  rw [if_neg (by simp), takeBlockLines_end hend]
  rfl

theorem endLine_breaks {text : List Char} {b : Char} {bs : List Char} (hbs : AllBreaks (b :: bs)) :
    endLine (text ++ b :: bs) = text ++ b :: bs := by
  have hlast := List.getLast?_eq_some_getLast (List.cons_ne_nil b bs)
  have hbreak : (text ++ b :: bs).getLast?.any isBreak = true := by
    rw [List.getLast?_append, hlast, Option.some_or, Option.any_some]
    exact hbs.isBreak (List.getLast_mem _)
  unfold endLine
  rw [if_pos hbreak]

theorem endLine_unended {text more : List Char} (hsome : more ≠ [])
    (hends : ∀ c ∈ more.getLast?, isBreak c = false) :
    endLine (text ++ more) = text ++ more ++ ['\n'] := by
  have hlast := List.getLast?_eq_some_getLast hsome
  have hbreak : (text ++ more).getLast?.any isBreak = false := by
    rw [List.getLast?_append, hlast, Option.some_or, Option.any_some]
    exact hends _ hlast
  unfold endLine
  rw [hbreak]
  rfl

theorem Lined.indented_ends {body : List Char} (hbody : Lined body) (indent : Nat) :
    indented indent false body ≠ [] ∧
      ∀ c ∈ (indented indent false body).getLast?, isBreak c = false := by
  induction hbody with
  | @last line hne hline =>
      rw [indented_self indent hline]
      exact ⟨hne, fun c hc => hline c (List.mem_of_getLast? hc)⟩
  | @more line b bs body hne hline hbs hbody ih =>
      have hlast := List.getLast?_eq_some_getLast ih.1
      rw [indented_line hline hbs, indented_body hbody]
      refine ⟨List.append_ne_nil_of_left_ne_nil hne _, fun c hc => ?_⟩
      simp only [List.getLast?_append, hlast, Option.some_or] at hc
      exact ih.2 c (hlast.trans hc)

def literalText (indent : Nat) (text : List Char) : List Char :=
  endLine (blockHeader text ++ '\n' :: indented indent true text)

theorem literalText_eq (indent : Nat) (text : List Char) :
    literalText indent text =
      endLine (blockHeader text ++ ['\n'] ++ indented indent true text) := by
  unfold literalText
  simp

theorem literalText_lined (indent : Nat) {front body tail : List Char} (hfront : AllBreaks front)
    (hbody : Lined body) (htail : AllBreaks tail) :
    ∃ b bs, AllBreaks (b :: bs) ∧ (chompingOf tail).kept [b] bs = tail ∧
      literalText indent (front ++ (body ++ tail)) =
        headText (!(front ++ (body ++ tail)).head?.any isEdge) (chompingOf tail) ++
          (front ++ spaces indent ++ (indented indent false body ++ b :: bs)) := by
  have hwritten : indented indent true (front ++ (body ++ tail)) =
      front ++ spaces indent ++ (indented indent false body ++ tail) := by
    rw [indented_breaks hfront, indented_lined hbody, indented_trailing hbody htail,
      List.append_assoc]
  rw [literalText_eq, hwritten, blockHeader_lined hbody htail, ← List.append_assoc (front ++ _),
    ← List.append_assoc]
  cases tail with
  | nil =>
      obtain ⟨hsome, hends⟩ := hbody.indented_ends indent
      refine ⟨'\n', [], fun c hc => .inl (List.mem_singleton.1 hc), rfl, ?_⟩
      rw [List.append_nil, ← List.append_assoc, endLine_unended hsome hends]
      simp
  | cons b bs =>
      refine ⟨b, bs, htail, by cases bs <;> rfl, ?_⟩
      rw [endLine_breaks htail]
      simp

/-- A literal block is read as its text, and with it the indentation of the next line. -/
theorem takeBlock_literal {s n : Nat} (hn : n < s + 2) {text rest : List Char}
    (hshown : ∀ c ∈ text, isShown c = true) (hsome : text ≠ [])
    (houtside : StartsOutside isWhite rest) {p : Cursor} (hfits : p.Fits)
    (hrest : p.rest = literalText (s + 2) text ++ (spaces n ++ rest)) :
    takeBlock true s p =
      some (String.ofList text, p.past (literalText (s + 2) text ++ spaces n)) := by
  have htab : '\t' ∉ text := fun hmem => absurd (hshown '\t' hmem) (by decide)
  have hbreaks : ∀ c ∈ text, isBreak c = true → AllBreaks [c] := by
    intro c hc hbreak d hd
    rw [List.mem_singleton.1 hd]
    exact break_of_shown (hshown c hc) hbreak
  obtain ⟨front, body, tail, rfl, hfront, htail, hbody⟩ := exists_lined hbreaks
  -- A text of breaks only has no first line, so its block is one of empty lines.
  rcases hbody with ⟨rfl, rfl⟩ | hbody
  · simp only [List.append_nil] at hrest hsome ⊢
    obtain ⟨b, bs, rfl⟩ := List.exists_cons_of_ne_nil hsome
    have hliteral : literalText (s + 2) (b :: bs) = headText false .keep ++ (b :: bs) := by
      have hwritten : indented (s + 2) true (b :: bs ++ []) = b :: bs ++ [] :=
        indented_breaks hfront []
      rw [List.append_nil] at hwritten
      rw [literalText_eq, hwritten, blockHeader_breaks hfront hsome, endLine_breaks hfront]
    rw [hliteral, List.append_assoc] at hrest
    rw [takeBlock_eq hrest, hliteral, List.append_assoc, Cursor.past_append]
    exact takeBlockFrom_breaks hn hfront houtside (hfits.past hrest) (column_headText _ _ p)
      (Cursor.rest_past hrest)
  · obtain ⟨b, bs, hbs, hkept, hliteral⟩ := literalText_lined (s + 2) hfront hbody htail
    have htold : (!(front ++ (body ++ tail)).head?.any isEdge) = true →
        front = [] ∧ StartsOutside isPlainSpace body := by
      intro htold
      rw [Bool.not_eq_true'] at htold
      cases front with
      | nil =>
          refine ⟨rfl, fun c hc => ?_⟩
          rw [Option.mem_def] at hc
          rw [List.nil_append, List.head?_append, hc] at htold
          exact (Bool.or_eq_false_iff.1 htold).1
      | cons b bs =>
          have hedge := (Bool.or_eq_false_iff.1 htold).2
          rw [hfront.isBreak List.mem_cons_self] at hedge
          cases hedge
    rw [hliteral, List.append_assoc] at hrest
    rw [takeBlock_eq hrest, hliteral, List.append_assoc, Cursor.past_append]
    have hafter : (p.past (headText (!(front ++ (body ++ tail)).head?.any isEdge)
        (chompingOf tail))).rest = front ++ spaces (s + 2) ++
          (indented (s + 2) false body ++ (b :: (bs ++ (spaces n ++ rest)))) := by
      rw [Cursor.rest_past hrest]
      simp
    rw [takeBlockFrom_lined hn hfront hbody (fun hmem => htab (by simp [hmem])) hbs houtside htold
      (chompingOf tail) (hfits.past hrest) (column_headText _ _ p) hafter, hkept]
    simp

end Yaml
end LogHarvest
