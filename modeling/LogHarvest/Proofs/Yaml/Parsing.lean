import LogHarvest.Proofs.Yaml.Layout
import LogHarvest.Yaml.Document

/-!
# The nodes of a written value

The tokens of a value are read as nodes that say the value: `Says` relates a node and a
value in the words in which the value is written.  Every function that reads nodes gets
over the tokens of its part and stops in front of what follows.
-/

namespace LogHarvest
namespace Yaml

mutual

inductive Says : Node → Value → Prop
  | null (spot) : Says (.scalar spot none .plain "null") .null
  | flag (spot value) :
      Says (.scalar spot none .plain (if value then "true" else "false")) (.flag value)
  | natural (spot value) :
      Says (.scalar spot none .plain (String.ofList (Nat.toDigits 10 value))) (.natural value)
  | number (spot value) :
      Says (.scalar spot none .plain (Text.documentStyle.render value)) (.number value)
  | text (spot value) : Says (.scalar spot none (styleOf value) value) (.text value)
  | sequence (spot) {nodes items} :
      AllSay nodes items → Says (.sequence spot nodes true) (.sequence items)
  | mapping (spot) {nodes entries} :
      EntriesSay nodes entries → Says (.mapping spot nodes true) (.mapping entries)

inductive AllSay : List Node → List Value → Prop
  | nil : AllSay [] []
  | cons {node nodes item items} :
      Says node item → AllSay nodes items → AllSay (node :: nodes) (item :: items)

inductive EntriesSay : List (Node × Node) → List (String × Value) → Prop
  | nil : EntriesSay [] []
  | cons (spot) {key node nodes value entries} :
      Says node value → EntriesSay nodes entries →
        EntriesSay ((.scalar spot none (styleOf key) key, node) :: nodes) ((key, value) :: entries)

end

structure Remains (tokens : List Token) (r : Reader) : Prop where
  tokens : r.tokens.map Placed.token = tokens
  marks : r.marks = []
  marked : r.marked = []

def startsNode (loose : Bool) : Token → Bool
  | .scalar .. | .flowSequenceStart | .flowMappingStart => true
  | .blockSequenceStart | .blockMappingStart => true
  | .blockEntry => loose
  | _ => false

theorem tokens_start (v : Value) (loose : Bool) :
    ∃ token more, v.tokens loose = token :: more ∧ startsNode loose token = true := by
  cases v with
  | sequence items =>
      cases items with
      | nil => exact ⟨_, _, rfl, rfl⟩
      | cons item items => cases loose <;> exact ⟨_, _, rfl, rfl⟩
  | mapping entries => cases entries <;> exact ⟨_, _, rfl, rfl⟩
  | _ => exact ⟨_, _, rfl, rfl⟩

namespace Reader

theorem peek?_eq {r : Reader} {token : Token} {rest : List Token}
    (hremains : Remains (token :: rest) r) : r.peek? = some token := by
  unfold peek?
  rw [← List.head?_map, hremains.tokens]
  rfl

theorem goesOn_eq {r : Reader} {token : Token} {rest : List Token}
    (hremains : Remains (token :: rest) r) : r.goesOn = true := by
  have htokens := hremains.tokens
  unfold goesOn
  cases hr : r.tokens with
  | nil =>
      rw [hr] at htokens
      cases htokens
  | cons placed more => rfl

theorem sees_eq {r : Reader} {token : Token} {rest : List Token}
    (hremains : Remains (token :: rest) r) (tokens : List Token) :
    r.sees tokens = tokens.contains token := by
  unfold sees
  rw [peek?_eq hremains]

theorem remains_skip {r : Reader} {token : Token} {rest : List Token}
    (hremains : Remains (token :: rest) r) : Remains rest r.skip where
  tokens := by
    unfold skip
    rw [List.map_tail, hremains.tokens]
    rfl
  marks := hremains.marks
  marked := hremains.marked

theorem takeProperties_eq (loose : Bool) {r : Reader} {token : Token} {rest : List Token}
    (hremains : Remains (token :: rest) r) (hstarts : startsNode loose token = true) :
    r.takeProperties = (none, none, r) := by
  have hpeek := peek?_eq hremains
  have hproperty :
      (∀ name, token ≠ .anchor name) ∧ ∀ handle suffix, token ≠ .tag handle suffix := by
    constructor
    · rintro name rfl
      cases hstarts
    · rintro handle suffix rfl
      cases hstarts
  have hmark : r.takeMark = (none, r) := by
    unfold takeMark
    rw [hpeek]
    split
    · rename_i name heq
      exact absurd (Option.some.inj heq) (hproperty.1 name)
    · rfl
  have htag : r.takeTag = (none, r) := by
    unfold takeTag
    rw [hpeek]
    split
    · rename_i handle suffix heq
      exact absurd (Option.some.inj heq) (hproperty.2 handle suffix)
    · rfl
  unfold takeProperties
  rw [hmark]
  dsimp only
  rw [htag]

/-!
## Nodes without nodes in them
-/

theorem takeNode_scalar {r : Reader} {text : String} {style : ScalarStyle} {rest : List Token}
    (hremains : Remains (.scalar text style :: rest) r) (block loose : Bool) (fuel : Nat) :
    r.takeNode block loose (fuel + 1) = (.scalar r.spot none style text, r.skip) := by
  rw [takeNode, peek?_eq hremains]
  simp [takeProperties_eq loose hremains rfl, peek?_eq hremains, register, file]

theorem takeNode_plain {v : Value} {loose : Bool} {text : String}
    (htokens : v.tokens loose = [.scalar text .plain])
    (hsaid : ∀ spot, Says (.scalar spot none .plain text) v) {fuel : Nat}
    (hfuel : 2 * (v.tokens loose).length ≤ fuel) {r : Reader} {rest : List Token}
    (hremains : Remains (v.tokens loose ++ rest) r) (allowed : Bool) :
    ∃ node r', r.takeNode true allowed fuel = (node, r') ∧ Says node v ∧ Remains rest r' := by
  rw [htokens] at hremains hfuel
  obtain ⟨fuel, rfl⟩ : ∃ less, fuel = less + 1 := ⟨fuel - 1, by simp at hfuel; omega⟩
  exact ⟨_, _, takeNode_scalar hremains true allowed fuel, hsaid _, remains_skip hremains⟩

theorem takeNode_brackets {r : Reader} {rest : List Token} (block loose : Bool) (fuel : Nat) :
    (Remains (.flowSequenceStart :: .flowSequenceEnd :: rest) r →
      r.takeNode block loose (fuel + 2) = (.sequence r.spot [] true, r.skip.skip)) ∧
    (Remains (.flowMappingStart :: .flowMappingEnd :: rest) r →
      r.takeNode block loose (fuel + 2) = (.mapping r.spot [] true, r.skip.skip)) := by
  constructor
  · intro hremains
    have hend : r.skip.sees [.flowSequenceEnd] = true := sees_eq (remains_skip hremains) _
    rw [takeNode, peek?_eq hremains]
    simp [takeProperties_eq loose hremains rfl, peek?_eq hremains, register, file,
      takeFlowItems, hend]
  · intro hremains
    have hend : r.skip.sees [.flowMappingEnd] = true := sees_eq (remains_skip hremains) _
    rw [takeNode, peek?_eq hremains]
    simp [takeProperties_eq loose hremains rfl, peek?_eq hremains, register, file,
      takeFlowEntries, hend]

/-!
## Items and entries
-/

theorem takeNode_items {r : Reader} {rest : List Token}
    (hremains : Remains (.blockSequenceStart :: rest) r) (loose : Bool) (fuel : Nat) :
    r.takeNode true loose (fuel + 1) =
      (.sequence r.spot (takeItems fuel r.skip).1 (takeItems fuel r.skip).2.1,
        (takeItems fuel r.skip).2.2) := by
  rw [takeNode, peek?_eq hremains]
  simp [takeProperties_eq loose hremains rfl, peek?_eq hremains, register, file]

theorem takeNode_looseItems {r : Reader} {rest : List Token}
    (hremains : Remains (.blockEntry :: rest) r) (fuel : Nat) :
    r.takeNode true true (fuel + 1) =
      (.sequence r.spot (takeLooseItems fuel r).1 (takeLooseItems fuel r).2.1,
        (takeLooseItems fuel r).2.2) := by
  rw [takeNode, peek?_eq hremains]
  simp [takeProperties_eq true hremains rfl, peek?_eq hremains, register, file]

theorem takeNode_entries {r : Reader} {rest : List Token}
    (hremains : Remains (.blockMappingStart :: rest) r) (loose : Bool) (fuel : Nat) :
    r.takeNode true loose (fuel + 1) =
      (.mapping r.spot (takeEntries fuel r.skip).1 (takeEntries fuel r.skip).2.1,
        (takeEntries fuel r.skip).2.2) := by
  rw [takeNode, peek?_eq hremains]
  simp [takeProperties_eq loose hremains rfl, peek?_eq hremains, register, file]

theorem takePart_eq {r : Reader} {token : Token} {rest blankBefore : List Token}
    (hremains : Remains (token :: rest) r) (hfull : blankBefore.contains token = false)
    (block loose : Bool) (fuel : Nat) (spot : Spot) :
    r.takePart block loose blankBefore (fuel + 1) spot = r.takeNode block loose fuel := by
  rw [takePart, goesOn_eq hremains, sees_eq hremains, hfull]
  rfl

theorem not_startsNode {loose : Bool} {token : Token} (hstarts : startsNode loose token = true)
    {tokens : List Token} (htokens : ∀ other ∈ tokens, startsNode loose other = false) :
    tokens.contains token = false := by
  rw [← Bool.not_eq_true, List.contains_iff_mem]
  intro hmem
  rw [htokens token hmem] at hstarts
  cases hstarts

theorem takePart_item {item : Value} {items : List Value} {fuel : Nat} {rest : List Token}
    (hfuel : 2 * (itemTokens (item :: items)).length + 1 ≤ fuel + 2) (blankBefore : List Token)
    (hblank : ∀ other ∈ blankBefore, startsNode false other = false)
    (hitem : ∀ {r : Reader} {rest : List Token}, 2 * (item.tokens false).length ≤ fuel →
      Remains (item.tokens false ++ rest) r →
        ∃ node r', r.takeNode true false fuel = (node, r') ∧ Says node item ∧ Remains rest r')
    {r : Reader} (hremains : Remains (itemTokens (item :: items) ++ rest) r) :
    2 * (itemTokens items).length + 1 ≤ fuel + 1 ∧ r.sees [.blockEntry] = true ∧
      ∃ node r', r.skip.takePart true false blankBefore (fuel + 1) r.spotBehind = (node, r') ∧
        Says node item ∧ Remains (itemTokens items ++ rest) r' := by
  rw [itemTokens, List.length_cons, List.length_append] at hfuel
  rw [itemTokens, List.cons_append, List.append_assoc] at hremains
  refine ⟨by omega, sees_eq hremains _, ?_⟩
  have hskipped := remains_skip hremains
  obtain ⟨token, more, htokens, hstarts⟩ := tokens_start item false
  have hfirst := hskipped
  rw [htokens, List.cons_append] at hfirst
  rw [takePart_eq hfirst (not_startsNode hstarts hblank)]
  exact hitem (by omega) hskipped

theorem takeNode_leaf {v : Value} (hleaf : v.isLeaf = true) {loose : Bool} {fuel : Nat}
    (henough : 2 * (v.tokens loose).length ≤ fuel) {r : Reader} {rest : List Token}
    (hremains : Remains (v.tokens loose ++ rest) r) (allowed : Bool) :
    ∃ node r', r.takeNode true allowed fuel = (node, r') ∧ Says node v ∧ Remains rest r' := by
  match v, hleaf with
  | .null, _ =>
      exact takeNode_plain (by simp [Value.tokens, leafText]) .null henough hremains allowed
  | .flag value, _ =>
      exact takeNode_plain (by simp [Value.tokens, leafText]) (fun spot => .flag spot value) henough
        hremains allowed
  | .natural value, _ =>
      exact takeNode_plain rfl (fun spot => .natural spot value) henough hremains allowed
  | .number value, _ =>
      exact takeNode_plain (by simp [Value.tokens, leafText]) (fun spot => .number spot value)
        henough hremains allowed
  | .text value, _ =>
      have hlength : ((Value.text value).tokens loose).length = 1 := rfl
      obtain ⟨fuel, rfl⟩ : ∃ less, fuel = less + 1 := ⟨fuel - 1, by omega⟩
      exact ⟨_, _, takeNode_scalar hremains true allowed fuel, .text _ value, remains_skip hremains⟩
  | .sequence [], _ =>
      have hlength : ((Value.sequence []).tokens loose).length = 2 := rfl
      obtain ⟨fuel, rfl⟩ : ∃ less, fuel = less + 2 := ⟨fuel - 2, by omega⟩
      exact ⟨_, _, (takeNode_brackets true allowed fuel).1 hremains, .sequence _ .nil,
        remains_skip (remains_skip hremains)⟩
  | .mapping [], _ =>
      have hlength : ((Value.mapping []).tokens loose).length = 2 := rfl
      obtain ⟨fuel, rfl⟩ : ∃ less, fuel = less + 2 := ⟨fuel - 2, by omega⟩
      exact ⟨_, _, (takeNode_brackets true allowed fuel).2 hremains, .mapping _ .nil,
        remains_skip (remains_skip hremains)⟩

-- Two units of fuel for each token are enough: a list takes one for an item, and the item one.
mutual

theorem takeNode_says (v : Value) (loose : Bool) (fuel : Nat)
    (hfuel : 2 * (v.tokens loose).length + 2 * loose.toNat ≤ fuel) (allowed : Bool)
    (hallowed : loose = true → allowed = true) {r : Reader} {rest : List Token}
    (hremains : Remains (v.tokens loose ++ rest) r)
    (hrest : loose = true → ∃ token more, rest = token :: more ∧ token ≠ .blockEntry) :
    ∃ node r', r.takeNode true allowed fuel = (node, r') ∧ Says node v ∧ Remains rest r' := by
  have henough : 2 * (v.tokens loose).length ≤ fuel := le_trans (Nat.le_add_right _ _) hfuel
  match v with
  | .null | .flag _ | .natural _ | .number _ | .text _ | .sequence [] | .mapping [] =>
      exact takeNode_leaf rfl henough hremains allowed
  | .sequence (item :: items) =>
      cases loose with
      | false =>
          have htokens : (Value.sequence (item :: items)).tokens false =
            .blockSequenceStart :: (itemTokens (item :: items) ++ [.blockEnd]) := rfl
          rw [htokens, List.cons_append, List.append_assoc, List.singleton_append] at hremains
          rw [htokens] at hfuel
          simp only [List.length_cons, List.length_append, List.length_nil] at hfuel
          obtain ⟨fuel, rfl⟩ : ∃ less, fuel = less + 1 := ⟨fuel - 1, by omega⟩
          have hskipped := remains_skip hremains
          obtain ⟨nodes, r', htake, hsaid, hleft⟩ :=
            takeItems_say (item :: items) fuel (by omega) hskipped
          refine ⟨_, r', ?_, .sequence r.spot hsaid, hleft⟩
          rw [takeNode_items hremains, htake]
      | true =>
          have htokens : (Value.sequence (item :: items)).tokens true =
            itemTokens (item :: items) := rfl
          have hhyphen : ∃ more, itemTokens (item :: items) = .blockEntry :: more := ⟨_, rfl⟩
          obtain ⟨more, hmore⟩ := hhyphen
          obtain ⟨token, others, rfl, hother⟩ := hrest rfl
          rw [hallowed rfl]
          rw [htokens] at hremains hfuel
          have hfirst := hremains
          rw [hmore] at hfirst
          rw [Bool.toNat_true] at hfuel
          obtain ⟨fuel, rfl⟩ : ∃ less, fuel = less + 1 := ⟨fuel - 1, by omega⟩
          obtain ⟨nodes, r', htake, hsaid, hleft⟩ :=
            takeLooseItems_say (item :: items) fuel (by omega) hother hremains
          refine ⟨_, r', ?_, .sequence r.spot hsaid, hleft⟩
          rw [takeNode_looseItems hfirst, htake]
  | .mapping (entry :: entries) =>
      have htokens : (Value.mapping (entry :: entries)).tokens loose =
        .blockMappingStart :: (entryTokens (entry :: entries) ++ [.blockEnd]) := rfl
      rw [htokens, List.cons_append, List.append_assoc, List.singleton_append] at hremains
      rw [htokens] at hfuel
      simp only [List.length_cons, List.length_append, List.length_nil] at hfuel
      obtain ⟨fuel, rfl⟩ : ∃ less, fuel = less + 1 := ⟨fuel - 1, by omega⟩
      have hskipped := remains_skip hremains
      obtain ⟨nodes, r', htake, hsaid, hleft⟩ :=
        takeEntries_say (entry :: entries) fuel (by omega) hskipped
      refine ⟨_, r', ?_, .mapping r.spot hsaid, hleft⟩
      rw [takeNode_entries hremains, htake]

theorem takeItems_say (items : List Value) (fuel : Nat)
    (hfuel : 2 * (itemTokens items).length + 1 ≤ fuel) {r : Reader} {rest : List Token}
    (hremains : Remains (itemTokens items ++ .blockEnd :: rest) r) :
    ∃ nodes r', takeItems fuel r = (nodes, true, r') ∧ AllSay nodes items ∧ Remains rest r' := by
  match items with
  | [] =>
      obtain ⟨fuel, rfl⟩ : ∃ less, fuel = less + 1 := ⟨fuel - 1, by omega⟩
      have hentry : r.sees [.blockEntry] = false := sees_eq hremains _
      have hend : r.sees [.blockEnd] = true := sees_eq hremains _
      refine ⟨[], r.skip, ?_, .nil, remains_skip hremains⟩
      simp [takeItems, hentry, hend]
  | item :: items =>
      obtain ⟨fuel, rfl⟩ : ∃ less, fuel = less + 2 :=
        ⟨fuel - 2, by simp [itemTokens] at hfuel; omega⟩
      obtain ⟨henough, hentry, node, r', hpart, hnode, hleft⟩ :=
        takePart_item hfuel afterItem (by decide)
        (fun hless hremains => takeNode_says item false fuel (by rw [Bool.toNat_false]; omega) false
          nofun hremains nofun) hremains
      obtain ⟨nodes, r'', hitems, hnodes, hend⟩ := takeItems_say items (fuel + 1) henough hleft
      refine ⟨node :: nodes, r'', ?_, .cons hnode hnodes, hend⟩
      rw [takeItems, hentry]
      simp [hpart, hitems]

theorem takeLooseItems_say (items : List Value) (fuel : Nat)
    (hfuel : 2 * (itemTokens items).length + 1 ≤ fuel) {token : Token}
    (htoken : token ≠ .blockEntry) {r : Reader} {rest : List Token}
    (hremains : Remains (itemTokens items ++ token :: rest) r) :
    ∃ nodes r', takeLooseItems fuel r = (nodes, true, r') ∧ AllSay nodes items ∧
      Remains (token :: rest) r' := by
  match items with
  | [] =>
      obtain ⟨fuel, rfl⟩ : ∃ less, fuel = less + 1 := ⟨fuel - 1, by omega⟩
      have hentry : r.sees [.blockEntry] = false := by
        rw [sees_eq hremains]
        simp [htoken]
      refine ⟨[], r, ?_, .nil, hremains⟩
      simp [takeLooseItems, hentry, goesOn_eq hremains]
  | item :: items =>
      obtain ⟨fuel, rfl⟩ : ∃ less, fuel = less + 2 :=
        ⟨fuel - 2, by simp [itemTokens] at hfuel; omega⟩
      obtain ⟨henough, hentry, node, r', hpart, hnode, hleft⟩ :=
        takePart_item hfuel afterLooseItem (by decide)
        (fun hless hremains => takeNode_says item false fuel (by rw [Bool.toNat_false]; omega) false
          nofun hremains nofun) hremains
      obtain ⟨nodes, r'', hitems, hnodes, hend⟩ :=
        takeLooseItems_say items (fuel + 1) henough htoken hleft
      refine ⟨node :: nodes, r'', ?_, .cons hnode hnodes, hend⟩
      rw [takeLooseItems, hentry]
      simp [hpart, hitems]

theorem takeEntries_say (entries : List (String × Value)) (fuel : Nat)
    (hfuel : 2 * (entryTokens entries).length + 1 ≤ fuel) {r : Reader} {rest : List Token}
    (hremains : Remains (entryTokens entries ++ .blockEnd :: rest) r) :
    ∃ nodes r', takeEntries fuel r = (nodes, true, r') ∧ EntriesSay nodes entries ∧
      Remains rest r' := by
  match entries with
  | [] =>
      obtain ⟨fuel, rfl⟩ : ∃ less, fuel = less + 1 := ⟨fuel - 1, by omega⟩
      have hkey : r.sees [.key] = false := sees_eq hremains _
      have hend : r.sees [.blockEnd] = true := sees_eq hremains _
      refine ⟨[], r.skip, ?_, .nil, remains_skip hremains⟩
      simp [takeEntries, hkey, hend]
  | (key, value) :: entries =>
      have hlength : (entryTokens ((key, value) :: entries)).length =
          (value.tokens (isSimpleKey key)).length + (entryTokens entries).length + 3 := by
        rw [entryTokens]
        simp only [List.length_cons, List.length_append]
      have htoNat := Bool.toNat_le (isSimpleKey key)
      obtain ⟨fuel, rfl⟩ : ∃ less, fuel = less + 3 := ⟨fuel - 3, by omega⟩
      rw [entryTokens] at hremains
      simp only [List.cons_append, List.append_assoc] at hremains
      have hkey : r.sees [.key] = true := sees_eq hremains _
      -- The key is a scalar, and behind it the value's mark is seen.
      have hscalar := remains_skip hremains
      have hkeyTaken : r.skip.takePart true true afterPart (fuel + 2) r.spotBehind =
          (.scalar r.skip.spot none (styleOf key) key, r.skip.skip) := by
        rw [takePart_eq hscalar (by rfl)]
        exact takeNode_scalar hscalar true true fuel
      have hmark := remains_skip hscalar
      have hvalue : r.skip.skip.sees [.value] = true := sees_eq hmark _
      have hrest : ∃ token more, entryTokens entries ++ .blockEnd :: rest = token :: more ∧
          token ≠ .blockEntry := by
        cases entries with
        | nil => exact ⟨_, _, rfl, by decide⟩
        | cons entry entries => exact ⟨_, _, rfl, by decide⟩
      have hskipped := remains_skip hmark
      obtain ⟨token, more, htokens, hstarts⟩ := tokens_start value (isSimpleKey key)
      have hfirst := hskipped
      rw [htokens, List.cons_append] at hfirst
      obtain ⟨node, r', hnodeTaken, hnode, hleft⟩ :=
        takeNode_says value (isSimpleKey key) (fuel + 1)
        (by omega) true (fun _ => rfl) hskipped (fun _ => hrest)
      have hvalueTaken : r.skip.skip.skip.takePart true true afterPart (fuel + 2)
          r.skip.skip.spotBehind = (node, r') := by
        rw [takePart_eq hfirst (not_startsNode hstarts (by
          cases isSimpleKey key <;> decide))]
        exact hnodeTaken
      obtain ⟨nodes, r'', hentries, hnodes, hend⟩ :=
        takeEntries_say entries (fuel + 2) (by omega) hleft
      refine ⟨_, r'', ?_, .cons r.skip.spot hnode hnodes, hend⟩
      rw [takeEntries, hkey]
      simp [hkeyTaken, hvalue, hvalueTaken, hentries]

end

end Reader

/-!
## Whole documents
-/

namespace Reader

theorem skipEnds_eq {r : Reader} (hremains : Remains [.streamEnd] r) : r.skipEnds = r := by
  have htokens := hremains.tokens
  obtain ⟨tokens, handles, marks, marked⟩ := r
  unfold skipEnds
  cases tokens with
  | nil => cases htokens
  | cons placed more =>
      have hend : placed.token = .streamEnd := (List.cons.inj htokens).1
      rw [List.dropWhile_cons_of_neg]
      rw [hend]
      decide

theorem takeRoot_eq {r : Reader} {rest : List Token}
    (hremains : Remains (.blockMappingStart :: rest) r) :
    r.takeRoot =
      takeNode true false (2 * r.tokens.length + 2) { r with handles := commonHandles } := by
  have hnone : announcesDocument r = false := by
    unfold announcesDocument
    rw [peek?_eq hremains]
  unfold takeRoot
  rw [hnone]
  rfl

end Reader

open Reader in
/-- The text of a mapping is one whole document that says the mapping. -/
theorem ofText_render {entries : List (String × Value)} (hsome : entries ≠ [])
    (hpos : EntriesPositive entries) :
    ∃ node, Document.ofText (Value.mapping entries).render = ⟨node, [], true⟩ ∧
      Says node (.mapping entries) := by
  have htokens := tokensOf_render hsome hpos
  unfold Document.ofText
  generalize tokensOf (Value.mapping entries).render.toList = placed at htokens
  obtain ⟨more, hmore⟩ :
      ∃ more, (Value.mapping entries).tokens false = .blockMappingStart :: more := by
    unfold Value.tokens
    rw [if_neg (by simpa using hsome)]
    exact ⟨_, rfl⟩
  have hremains : Remains ((Value.mapping entries).tokens false ++ [.streamEnd])
      ⟨placed, commonHandles, [], []⟩ := ⟨htokens, rfl, rfl⟩
  have hfirst : Remains (.blockMappingStart :: (more ++ [.streamEnd])) ⟨placed, [], [], []⟩ := by
    rw [hmore] at htokens
    exact ⟨htokens, rfl, rfl⟩
  have hlength : ((Value.mapping entries).tokens false).length ≤ placed.length := by
    have htotal := congrArg List.length htokens
    rw [List.length_map, List.length_append] at htotal
    omega
  obtain ⟨node, r', htake, hsaid, hleft⟩ := takeNode_says (.mapping entries) false
    (2 * placed.length + 2) (by rw [Bool.toNat_false]; omega) false (fun h => h) hremains
    (fun h => absurd h (by decide))
  have hroot : takeRoot ⟨placed, [], [], []⟩ = (node, r') := (takeRoot_eq hfirst).trans htake
  have hends : r'.skipEnds.sees [.streamEnd] = true := by
    rw [skipEnds_eq hleft]
    exact sees_eq hleft _
  have hunfinished : sees ⟨placed, [], [], []⟩ [.streamEnd] = false := sees_eq hfirst _
  refine ⟨node, ?_, hsaid⟩
  unfold Document.ofTokens
  simp only [hunfinished, hroot, hends, hleft.marked]
  rfl

end Yaml
end LogHarvest
