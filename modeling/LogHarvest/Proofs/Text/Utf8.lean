import LogHarvest.Text.Utf8
import Mathlib.Tactic.SplitIfs

/-!
# Decoding what was encoded

The bytes of a text are read as the text.
-/

namespace LogHarvest
namespace Text

theorem readTail_cons {least greatest : UInt8} {k bits n : Nat} {rest : Bytes}
    (hlow : least.toNat ≤ n) (hhigh : n ≤ greatest.toNat) :
    readTail least greatest (k + 1) bits (UInt8.ofNat n :: rest) =
      readTail 0x80 0xBF k (bits * 64 + (n - 0x80)) rest := by
  have hsize : n < 2 ^ 8 := Nat.lt_of_le_of_lt hhigh greatest.toNat_lt
  have hnat : (UInt8.ofNat n).toNat = n := UInt8.toNat_ofNat_of_lt' hsize
  have hcond : (decide (least ≤ UInt8.ofNat n) && decide (UInt8.ofNat n ≤ greatest)) = true := by
    rw [Bool.and_eq_true, decide_eq_true_iff, decide_eq_true_iff, UInt8.le_iff_toNat_le,
      UInt8.le_iff_toNat_le, hnat]
    exact ⟨hlow, hhigh⟩
  rw [readTail, if_pos hcond, hnat]

theorem Lead.of?_ofNat {n : Nat} (hn : n < 256) :
    Lead.of? (UInt8.ofNat n) =
      if 0xC2 ≤ n ∧ n ≤ 0xDF then some ⟨n - 0xC0, 1, 0x80, 0xBF⟩
      else if n = 0xE0 then some ⟨0, 2, 0xA0, 0xBF⟩
      else if n = 0xED then some ⟨13, 2, 0x80, 0x9F⟩
      else if 0xE1 ≤ n ∧ n ≤ 0xEF then some ⟨n - 0xE0, 2, 0x80, 0xBF⟩
      else if n = 0xF0 then some ⟨0, 3, 0x90, 0xBF⟩
      else if 0xF1 ≤ n ∧ n ≤ 0xF3 then some ⟨n - 0xF0, 3, 0x80, 0xBF⟩
      else if n = 0xF4 then some ⟨4, 3, 0x80, 0x8F⟩
      else none := by
  have hnat : (UInt8.ofNat n).toNat = n := UInt8.toNat_ofNat_of_lt' hn
  unfold Lead.of?
  simp only [UInt8.le_iff_toNat_le, beq_iff_eq, ← UInt8.toNat_inj, hnat, Bool.and_eq_true,
    decide_eq_true_eq]
  rfl

theorem readChar_of_lead {n : Nat} (hlow : 0x80 ≤ n) (hhigh : n < 256) {lead : Lead}
    (hlead : Lead.of? (UInt8.ofNat n) = some lead) {bytes rest : Bytes} {code : Nat}
    (htail : readTail lead.least lead.greatest lead.follow lead.bits bytes = .complete code rest) :
    readChar (UInt8.ofNat n) bytes = .char (Char.ofNat code) rest := by
  have hstart : ¬ UInt8.ofNat n < 0x80 := by
    rw [UInt8.lt_iff_toNat_lt, UInt8.toNat_ofNat_of_lt' hhigh]
    exact Nat.not_lt.2 hlow
  unfold readChar
  rw [if_neg hstart, hlead]
  dsimp only
  rw [htail]

theorem readChar_two {v : Nat} (hlow : 0x80 ≤ v) (hhigh : v ≤ 0x7FF) (rest : Bytes) :
    readChar (UInt8.ofNat (v / 64 % 32 + 192)) (UInt8.ofNat (v % 64 + 128) :: rest) =
      .char (Char.ofNat v) rest := by
  apply readChar_of_lead (by omega) (by omega)
  · rw [Lead.of?_ofNat (by omega), if_pos (by omega)]
  · dsimp only
    rw [readTail_cons (by show 128 ≤ _; omega) (by show _ ≤ 191; omega), readTail]
    exact congrArg (Tail.complete · rest) (by omega)

theorem readChar_three {v : Nat} (hlow : 0x800 ≤ v) (hhigh : v ≤ 0xFFFF)
    (hvalid : v < 0xD800 ∨ 0xDFFF < v) (rest : Bytes) :
    readChar (UInt8.ofNat (v / 4096 % 16 + 224))
        (UInt8.ofNat (v / 64 % 64 + 128) :: UInt8.ofNat (v % 64 + 128) :: rest) =
      .char (Char.ofNat v) rest := by
  have hlast : ∀ bits, readTail 0x80 0xBF 1 bits (UInt8.ofNat (v % 64 + 128) :: rest) =
      .complete (bits * 64 + (v % 64 + 128 - 0x80)) rest := by
    intro bits
    rw [readTail_cons (by show 128 ≤ _; omega) (by show _ ≤ 191; omega), readTail]
  -- Overlong forms and surrogates are excluded by the second byte.
  by_cases hleast : v / 4096 % 16 = 0
  · apply readChar_of_lead (by omega) (by omega)
    · rw [Lead.of?_ofNat (by omega), if_neg (by omega), if_pos (by omega)]
    · dsimp only
      rw [readTail_cons (by show 160 ≤ _; omega) (by show _ ≤ 191; omega), hlast]
      exact congrArg (Tail.complete · rest) (by omega)
  · by_cases hsurrogate : v / 4096 % 16 = 13
    · apply readChar_of_lead (by omega) (by omega)
      · rw [Lead.of?_ofNat (by omega), if_neg (by omega), if_neg (by omega), if_pos (by omega)]
      · dsimp only
        rw [readTail_cons (by show 128 ≤ _; omega) (by show _ ≤ 159; omega), hlast]
        exact congrArg (Tail.complete · rest) (by omega)
    · apply readChar_of_lead (by omega) (by omega)
      · rw [Lead.of?_ofNat (by omega), if_neg (by omega), if_neg (by omega), if_neg (by omega),
          if_pos (by omega)]
      · dsimp only
        rw [readTail_cons (by show 128 ≤ _; omega) (by show _ ≤ 191; omega), hlast]
        exact congrArg (Tail.complete · rest) (by omega)

theorem readChar_four {v : Nat} (hlow : 0x10000 ≤ v) (hhigh : v < 0x110000) (rest : Bytes) :
    readChar (UInt8.ofNat (v / 262144 % 8 + 240))
        (UInt8.ofNat (v / 4096 % 64 + 128) :: UInt8.ofNat (v / 64 % 64 + 128) ::
          UInt8.ofNat (v % 64 + 128) :: rest) =
      .char (Char.ofNat v) rest := by
  have hlast : ∀ bits, readTail 0x80 0xBF 2 bits
      (UInt8.ofNat (v / 64 % 64 + 128) :: UInt8.ofNat (v % 64 + 128) :: rest) =
      .complete ((bits * 64 + (v / 64 % 64 + 128 - 0x80)) * 64 + (v % 64 + 128 - 0x80)) rest := by
    intro bits
    rw [readTail_cons (by show 128 ≤ _; omega) (by show _ ≤ 191; omega),
      readTail_cons (by show 128 ≤ _; omega) (by show _ ≤ 191; omega), readTail]
  by_cases hleast : v / 262144 % 8 = 0
  · apply readChar_of_lead (by omega) (by omega)
    · rw [Lead.of?_ofNat (by omega), if_neg (by omega), if_neg (by omega), if_neg (by omega),
        if_neg (by omega), if_pos (by omega)]
    · dsimp only
      rw [readTail_cons (by show 144 ≤ _; omega) (by show _ ≤ 191; omega), hlast]
      exact congrArg (Tail.complete · rest) (by omega)
  · by_cases hgreatest : v / 262144 % 8 = 4
    · apply readChar_of_lead (by omega) (by omega)
      · rw [Lead.of?_ofNat (by omega), if_neg (by omega), if_neg (by omega), if_neg (by omega),
          if_neg (by omega), if_neg (by omega), if_neg (by omega), if_pos (by omega)]
      · dsimp only
        rw [readTail_cons (by show 128 ≤ _; omega) (by show _ ≤ 143; omega), hlast]
        exact congrArg (Tail.complete · rest) (by omega)
    · apply readChar_of_lead (by omega) (by omega)
      · rw [Lead.of?_ofNat (by omega), if_neg (by omega), if_neg (by omega), if_neg (by omega),
          if_neg (by omega), if_neg (by omega), if_pos (by omega)]
      · dsimp only
        rw [readTail_cons (by show 128 ≤ _; omega) (by show _ ≤ 191; omega), hlast]
        exact congrArg (Tail.complete · rest) (by omega)

/-- The bytes of a character are read as the character, whatever follows. -/
theorem readChar_encode (c : Char) (rest : Bytes) :
    ∃ b tail, String.utf8EncodeChar c = b :: tail ∧ readChar b (tail ++ rest) = .char c rest := by
  have hchar : Char.ofNat c.val.toNat = c := Char.ofNat_toNat c
  have hvalid : c.val.toNat < 0xD800 ∨ 0xDFFF < c.val.toNat ∧ c.val.toNat < 0x110000 := c.valid
  unfold String.utf8EncodeChar
  dsimp only
  generalize c.val.toNat = v at hchar hvalid
  subst hchar
  split
  · have hnat : (UInt8.ofNat v).toNat = v := UInt8.toNat_ofNat_of_lt' (by show v < 256; omega)
    have hsmall : UInt8.ofNat v < 0x80 := by
      rw [UInt8.lt_iff_toNat_lt, hnat]
      show v < 128
      omega
    refine ⟨_, [], rfl, ?_⟩
    unfold readChar
    rw [if_pos hsmall, hnat]
    rfl
  · split
    · exact ⟨_, _, rfl, readChar_two (by omega) (by omega) rest⟩
    · split
      · exact ⟨_, _, rfl, readChar_three (by omega) (by omega) (by omega) rest⟩
      · exact ⟨_, _, rfl, readChar_four (by omega) (by omega) rest⟩

theorem decodeChunks_encode (cs : List Char) {fuel : Nat}
    (hfuel : (cs.flatMap String.utf8EncodeChar).length ≤ fuel) :
    decodeChunks fuel (cs.flatMap String.utf8EncodeChar) = cs.map some := by
  induction cs generalizing fuel with
  | nil =>
      cases fuel <;> rfl
  | cons c rest ih =>
      obtain ⟨b, tail, hbytes, hread⟩ := readChar_encode c (rest.flatMap String.utf8EncodeChar)
      rw [List.flatMap_cons, hbytes, List.cons_append, List.length_cons, List.length_append]
        at hfuel
      obtain ⟨more, rfl⟩ : ∃ more, fuel = more + 1 := ⟨fuel - 1, by omega⟩
      rw [List.flatMap_cons, hbytes, List.cons_append, decodeChunks, hread]
      dsimp only
      rw [ih (by omega), List.map_cons]

theorem decode?_encode (s : String) : decode? (encode s) = some s := by
  have hall : ∀ cs : List Char, (cs.map some).mapM id = some cs := by
    intro cs
    induction cs with
    | nil => rfl
    | cons c rest ih =>
        rw [List.map_cons, List.mapM_cons, ih]
        rfl
  unfold decode? chunksOf encode
  rw [decodeChunks_encode s.toList (Nat.le_refl _), hall, Option.map_some, String.ofList_toList]

end Text
end LogHarvest
