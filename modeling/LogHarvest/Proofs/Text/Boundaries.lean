import LogHarvest.Text.Utf8

/-!
# Places in the bytes of a text

A text can be cut into slices where a character starts, and at its ends, but not within a
character.  In the bytes of a text only the first byte of a character looks like a start, so
a walk back from any place ends where the character there starts, after at most three steps.
-/

namespace LogHarvest
namespace Text

/-!
## Lengths
-/

theorem byteLength_cons (c : Char) (cs : List Char) :
    byteLength (c :: cs) = c.utf8Size + byteLength cs :=
  rfl

theorem byteLength_append (xs ys : List Char) :
    byteLength (xs ++ ys) = byteLength xs + byteLength ys := by
  induction xs with
  | nil => exact (Nat.zero_add _).symm
  | cons c rest ih => rw [List.cons_append, byteLength_cons, byteLength_cons, ih, Nat.add_assoc]

theorem length_le_byteLength (cs : List Char) : cs.length ≤ byteLength cs := by
  induction cs with
  | nil => exact Nat.le_refl 0
  | cons c rest ih =>
      have hsize := c.utf8Size_pos
      rw [byteLength_cons, List.length_cons]
      omega

theorem byteLength_le (cs : List Char) : byteLength cs ≤ 4 * cs.length := by
  induction cs with
  | nil => exact Nat.le_refl 0
  | cons c rest ih =>
      have hsize := c.utf8Size_le_four
      rw [byteLength_cons, List.length_cons]
      omega

theorem byteLength_le_of_sublist {xs ys : List Char} (hsublist : xs.Sublist ys) :
    byteLength xs ≤ byteLength ys := by
  induction hsublist with
  | slnil => exact Nat.le_refl 0
  | cons c _ ih => exact Nat.le_trans ih (Nat.le_add_left _ c.utf8Size)
  | cons_cons c _ ih => exact Nat.add_le_add_left ih c.utf8Size

theorem byteLength_of_single {cs : List Char} (hcs : ∀ c ∈ cs, c.utf8Size = 1) :
    byteLength cs = cs.length := by
  induction cs with
  | nil => rfl
  | cons c rest ih =>
      obtain ⟨hc, hrest⟩ := List.forall_mem_cons.1 hcs
      rw [byteLength_cons, hc, ih hrest, List.length_cons, Nat.add_comm]

theorem length_encode (s : String) : (encode s).length = byteLength s.toList := by
  unfold encode
  induction s.toList with
  | nil => rfl
  | cons c rest ih =>
      rw [List.flatMap_cons, List.length_append, ih, String.length_utf8EncodeChar,
        byteLength_cons]

theorem encode_append (s t : String) : encode (s ++ t) = encode s ++ encode t := by
  unfold encode
  rw [String.toList_append, List.flatMap_append]

theorem encode_singleton (c : Char) : encode (String.singleton c) = String.utf8EncodeChar c := by
  rw [encode, String.toList_singleton, List.flatMap_singleton]

/-!
## The bytes of a character
-/

theorem isContinuation_iff {b : UInt8} :
    isContinuation b = true ↔ 128 ≤ b.toNat ∧ b.toNat ≤ 191 := by
  unfold isContinuation
  rw [Bool.and_eq_true, decide_eq_true_iff, decide_eq_true_iff, UInt8.le_iff_toNat_le,
    UInt8.le_iff_toNat_le]
  rfl

theorem utf8EncodeChar_cases (c : Char) :
    (c.toNat < 128 ∧ String.utf8EncodeChar c = [UInt8.ofNat c.toNat]) ∨
      ∃ first more, String.utf8EncodeChar c = first :: more ∧ 192 ≤ first.toNat ∧
        ∀ b ∈ more, isContinuation b = true := by
  have hfirst : ∀ n, 192 ≤ n → n < 256 → 192 ≤ (UInt8.ofNat n).toNat := by
    intro n hlow hhigh
    rwa [UInt8.toNat_ofNat_of_lt' hhigh]
  have hmore : ∀ n, isContinuation (UInt8.ofNat (n % 64 + 128)) = true := by
    intro n
    rw [isContinuation_iff, UInt8.toNat_ofNat_of_lt' (by show _ < 256; omega)]
    omega
  rw [show c.toNat = c.val.toNat from rfl]
  unfold String.utf8EncodeChar
  dsimp only
  generalize c.val.toNat = v
  split
  · exact .inl ⟨by omega, rfl⟩
  · right
    split
    · exact ⟨_, _, rfl, hfirst _ (by omega) (by omega), List.forall_mem_singleton.2 (hmore _)⟩
    · split
      · exact ⟨_, _, rfl, hfirst _ (by omega) (by omega),
          List.forall_mem_cons.2 ⟨hmore _, List.forall_mem_singleton.2 (hmore _)⟩⟩
      · exact ⟨_, _, rfl, hfirst _ (by omega) (by omega), List.forall_mem_cons.2 ⟨hmore _,
          List.forall_mem_cons.2 ⟨hmore _, List.forall_mem_singleton.2 (hmore _)⟩⟩⟩

/-- Only the first byte of a character looks like a start. -/
theorem exists_first_byte (c : Char) :
    ∃ first more, String.utf8EncodeChar c = first :: more ∧ isContinuation first = false ∧
      ∀ b ∈ more, isContinuation b = true := by
  have hother : ∀ b : UInt8, b.toNat < 128 ∨ 192 ≤ b.toNat → isContinuation b = false := by
    intro b hb
    rw [← Bool.not_eq_true, isContinuation_iff]
    omega
  rcases utf8EncodeChar_cases c with ⟨hascii, hone⟩ | ⟨first, more, hbytes, hfirst, hmore⟩
  · refine ⟨_, [], hone, hother _ (.inl ?_), nofun⟩
    rwa [UInt8.toNat_ofNat_of_lt' (by show _ < 256; omega)]
  · exact ⟨first, more, hbytes, hother first (.inr hfirst), hmore⟩

def pointByte : UInt8 := 0x2E

theorem pointByte_mem_encode_iff {s : String} : pointByte ∈ encode s ↔ '.' ∈ s.toList := by
  unfold encode
  rw [List.mem_flatMap]
  constructor
  · rintro ⟨c, hc, hmem⟩
    have hpoint : pointByte.toNat = 46 := rfl
    rcases utf8EncodeChar_cases c with ⟨hascii, hone⟩ | ⟨first, more, hbytes, hfirst, hmore⟩
    · rw [hone, List.mem_singleton] at hmem
      have hvalue := congrArg UInt8.toNat hmem
      rw [UInt8.toNat_ofNat_of_lt' (by show _ < 256; omega)] at hvalue
      rwa [show c = '.' from Char.toNat_inj.1 hvalue.symm] at hc
    · rw [hbytes] at hmem
      rcases List.mem_cons.1 hmem with rfl | hmem
      · omega
      · have hbounds := isContinuation_iff.1 (hmore _ hmem)
        omega
  · exact fun hmem => ⟨'.', hmem, by decide⟩

/-!
## Boundaries and slices
-/

def isBoundary (bytes : Bytes) (place : Nat) : Bool :=
  place == 0 ||
    match bytes[place]? with
    | some b => !isContinuation b
    | none => place == bytes.length

/-- The bytes from one place to another; no slice starts or ends within a character. -/
def slice? (bytes : Bytes) (start stop : Nat) : Option Bytes :=
  if start ≤ stop ∧ isBoundary bytes start ∧ isBoundary bytes stop then
    some ((bytes.take stop).drop start)
  else none

theorem isBoundary_append (front back : String) :
    isBoundary (encode (front ++ back)) (encode front).length = true := by
  unfold isBoundary
  rw [Bool.or_eq_true, encode_append, List.getElem?_append_right (Nat.le_refl _), Nat.sub_self]
  right
  cases hback : back.toList with
  | nil =>
      rw [encode, encode, hback]
      simp
  | cons c rest =>
      obtain ⟨first, more, hbytes, hfirst, -⟩ := exists_first_byte c
      have hhead : (encode back)[0]? = some first := by
        rw [encode, hback, List.flatMap_cons, hbytes]
        rfl
      rw [hhead]
      dsimp only
      rw [hfirst]
      rfl

theorem isBoundary_within (front back : String) (c : Char) {k : Nat} (hpositive : 0 < k)
    (hwithin : k < c.utf8Size) :
    isBoundary (encode (front ++ String.singleton c ++ back)) ((encode front).length + k) =
      false := by
  obtain ⟨first, more, hbytes, -, hmore⟩ := exists_first_byte c
  have hlength : k < (first :: more).length := by
    rwa [← hbytes, String.length_utf8EncodeChar]
  obtain ⟨k, rfl⟩ := Nat.exists_eq_succ_of_ne_zero (Nat.ne_of_gt hpositive)
  have hk : k < more.length := Nat.lt_of_succ_lt_succ hlength
  have hbyte : (encode (front ++ String.singleton c ++ back))[(encode front).length + (k + 1)]? =
      some more[k] := by
    rw [encode_append, encode_append, encode_singleton, hbytes, List.append_assoc,
      List.getElem?_append_right (Nat.le_add_right _ _), Nat.add_sub_cancel_left,
      List.cons_append, List.getElem?_cons_succ, List.getElem?_append_left hk,
      List.getElem?_eq_getElem hk]
  unfold isBoundary
  rw [hbyte]
  dsimp only
  rw [hmore _ (List.getElem_mem hk)]
  rfl

theorem slice?_encode (front middle back : String) :
    slice? (encode (front ++ middle ++ back)) (encode front).length
      (encode (front ++ middle)).length = some (encode middle) := by
  have hstart := isBoundary_append front (middle ++ back)
  have hstop := isBoundary_append (front ++ middle) back
  have hle : (encode front).length ≤ (encode (front ++ middle)).length := by
    rw [encode_append, List.length_append]
    exact Nat.le_add_right _ _
  rw [← String.append_assoc] at hstart
  rw [slice?, if_pos ⟨hle, hstart, hstop⟩, encode_append (front ++ middle) back, List.take_left,
    encode_append, List.drop_left]

/-!
## Walking back
-/

structure Retreat where
  steps : Nat
  place : Nat
deriving DecidableEq, Repr

/-- Walks back from a place to a boundary; no step leads back from the first byte. -/
def retreat? (bytes : Bytes) : (place : Nat) → Option Retreat
  | 0 => if isBoundary bytes 0 then some ⟨0, 0⟩ else none
  | place + 1 =>
      if isBoundary bytes (place + 1) then some ⟨0, place + 1⟩
      else (retreat? bytes place).map fun r => ⟨r.steps + 1, r.place⟩

theorem retreat?_of_isBoundary {bytes : Bytes} {place : Nat}
    (hboundary : isBoundary bytes place = true) : retreat? bytes place = some ⟨0, place⟩ := by
  cases place <;> rw [retreat?, if_pos hboundary]

theorem retreat?_encode (front back : String) (c : Char) {k : Nat} (hwithin : k < c.utf8Size) :
    retreat? (encode (front ++ String.singleton c ++ back)) ((encode front).length + k) =
      some ⟨k, (encode front).length⟩ := by
  induction k with
  | zero =>
      have hstart := isBoundary_append front (String.singleton c ++ back)
      rw [← String.append_assoc] at hstart
      exact retreat?_of_isBoundary hstart
  | succ k ih =>
      have hinside := isBoundary_within front back c (Nat.succ_pos k) hwithin
      rw [Nat.add_succ] at hinside ⊢
      rw [retreat?, hinside, ih (Nat.lt_of_succ_lt hwithin)]
      rfl

/-!
## Looking for a byte from the end
-/

def lastPlace? (wanted : UInt8) : Bytes → Option Nat
  | [] => none
  | b :: rest =>
      match lastPlace? wanted rest with
      | some place => some (place + 1)
      | none => if b == wanted then some 0 else none

variable {wanted : UInt8} {bytes : Bytes}

theorem lastPlace?_eq_none (hmissing : wanted ∉ bytes) : lastPlace? wanted bytes = none := by
  induction bytes with
  | nil => rfl
  | cons b rest ih =>
      obtain ⟨hb, hrest⟩ := List.ne_and_not_mem_of_not_mem_cons hmissing
      rw [lastPlace?, ih hrest]
      exact if_neg (by simpa using Ne.symm hb)

theorem lastPlace?_append (before : Bytes) (hmissing : wanted ∉ bytes) :
    lastPlace? wanted (before ++ wanted :: bytes) = some before.length := by
  induction before with
  | nil =>
      rw [List.nil_append, lastPlace?, lastPlace?_eq_none hmissing]
      exact if_pos (beq_self_eq_true wanted)
  | cons b rest ih => rw [List.cons_append, lastPlace?, ih, List.length_cons]

end Text
end LogHarvest
