import Mathlib.Algebra.Ring.Nat
import Mathlib.Data.List.GetD
import Mathlib.Tactic.Common

/-!
# Bit vectors in byte buffers

Bit `i` of a buffer is bit `i % 8` of byte `i / 8`: the least significant bit
comes first. A position past the end reads as zero.
-/

namespace JtagRemote

abbrev Byte := BitVec 8

/-! ## Reading bits -/

def bitAt (l : List Byte) (i : Nat) : Bool := (l.getD (i / 8) 0).getLsbD (i % 8)

/-- The first `n` bits of a buffer. -/
def bitsOf (l : List Byte) (n : Nat) : List Bool := (List.range n).map (bitAt l)

@[simp] theorem bitsOf_length (l : List Byte) (n : Nat) : (bitsOf l n).length = n := by
  simp [bitsOf]

@[simp] theorem bitsOf_getElem (l : List Byte) (n i : Nat) (h : i < (bitsOf l n).length) :
    (bitsOf l n)[i] = bitAt l i := by simp [bitsOf]

@[simp] theorem bitsOf_zero (l : List Byte) : bitsOf l 0 = [] := rfl

theorem bitsOf_succ (l : List Byte) (n : Nat) : bitsOf l (n + 1) = bitsOf l n ++ [bitAt l n] := by
  simp [bitsOf, List.range_succ]

theorem bitsOf_take (l : List Byte) (m n : Nat) : (bitsOf l n).take m = bitsOf l (min m n) := by
  simp only [bitsOf, ← List.map_take, List.take_range]

/-- The `n` bits from position `a` on. -/
def bitsFrom (l : List Byte) (a n : Nat) : List Bool := (List.range n).map fun i => bitAt l (a + i)

@[simp] theorem bitsFrom_length (l : List Byte) (a n : Nat) : (bitsFrom l a n).length = n := by
  simp [bitsFrom]

theorem bitsFrom_succ (l : List Byte) (a n : Nat) :
    bitsFrom l a (n + 1) = bitsFrom l a n ++ [bitAt l (a + n)] := by
  simp [bitsFrom, List.range_succ]

theorem bitsOf_append (l : List Byte) (m n : Nat) :
    bitsOf l (m + n) = bitsOf l m ++ bitsFrom l m n := by
  simp [bitsOf, bitsFrom, List.range_add, Function.comp_def]

/-- Counting in groups of eight, of which the last one may be shorter. -/
theorem range_groups {α : Type} (f : Nat → α) (n m : Nat) :
    ((List.range m).flatMap fun i => (List.range (min 8 (n - i * 8))).map fun j => f (i * 8 + j)) =
      (List.range (min n (m * 8))).map f := by
  induction m with
  | zero => simp
  | succ m ih =>
    rw [List.range_succ, List.flatMap_append, ih, List.flatMap_singleton]
    have hsplit : min n ((m + 1) * 8) = min n (m * 8) + min 8 (n - m * 8) := by omega
    rw [hsplit, List.range_add, List.map_append, List.map_map]
    congr 1
    by_cases h : n ≤ m * 8
    · simp [Nat.sub_eq_zero_of_le h]
    · have hmin : min n (m * 8) = m * 8 := by omega
      rw [hmin]
      rfl

theorem bitAt_of_le (l : List Byte) (i : Nat) (h : 8 * l.length ≤ i) : bitAt l i = false := by
  rw [bitAt, List.getD_eq_default _ _ (by omega)]
  simp

theorem bitAt_nil (i : Nat) : bitAt [] i = false := by simp [bitAt]

theorem bitAt_cons (b : Byte) (l : List Byte) (i : Nat) :
    bitAt (b :: l) i = if i < 8 then b.getLsbD i else bitAt l (i - 8) := by
  unfold bitAt
  split
  · rw [Nat.div_eq_of_lt (by assumption), Nat.mod_eq_of_lt (by assumption)]
    rfl
  · have hq : i / 8 = (i - 8) / 8 + 1 := by omega
    have hr : i % 8 = (i - 8) % 8 := by omega
    rw [hq, hr, List.getD_cons_succ]

theorem bitAt_append (l m : List Byte) (i : Nat) :
    bitAt (l ++ m) i = if i < 8 * l.length then bitAt l i else bitAt m (i - 8 * l.length) := by
  unfold bitAt
  split
  · rw [List.getD_append _ _ _ _ (by omega)]
  · have hq : i / 8 - l.length = (i - 8 * l.length) / 8 := by omega
    have hr : i % 8 = (i - 8 * l.length) % 8 := by omega
    rw [List.getD_append_right _ _ _ _ (by omega), hq, hr]

theorem bitAt_take (l : List Byte) (k i : Nat) :
    bitAt (l.take k) i = (decide (i < 8 * k) && bitAt l i) := by
  unfold bitAt
  rw [List.getD_eq_getElem?_getD, List.getD_eq_getElem?_getD, List.getElem?_take]
  by_cases h : i < 8 * k
  · rw [if_pos (by omega)]
    simp [h]
  · rw [if_neg (by omega)]
    simp [h]

theorem bitAt_drop (l : List Byte) (k i : Nat) : bitAt (l.drop k) i = bitAt l (8 * k + i) := by
  have hq : (8 * k + i) / 8 = k + i / 8 := by omega
  have hr : (8 * k + i) % 8 = i % 8 := by omega
  rw [bitAt, bitAt, hq, hr, List.getD_eq_getElem?_getD, List.getD_eq_getElem?_getD,
    List.getElem?_drop]

theorem bitAt_replicate_zero (k i : Nat) : bitAt (List.replicate k 0) i = false := by
  unfold bitAt
  rw [List.getD_eq_getElem?_getD, List.getElem?_replicate]
  split <;> simp

/-- Two buffers of one length with the same bits are the same. -/
theorem eq_of_bitAt {l m : List Byte} (hlen : l.length = m.length)
    (h : ∀ i, i < 8 * l.length → bitAt l i = bitAt m i) : l = m := by
  apply List.ext_getElem hlen
  intro k hk hk'
  apply BitVec.eq_of_getLsbD_eq
  intro j hj
  have hb := h (8 * k + j) (by omega)
  have hq : (8 * k + j) / 8 = k := by omega
  have hr : (8 * k + j) % 8 = j := by omega
  simpa only [bitAt, hq, hr, List.getD_eq_getElem _ _ hk, List.getD_eq_getElem _ _ hk'] using hb

theorem bitsOf_cons (b : Byte) (l : List Byte) (n : Nat) :
    bitsOf (b :: l) (8 + n) = bitsOf [b] 8 ++ bitsOf l n := by
  rw [bitsOf_append]
  congr 1
  apply List.map_congr_left
  intro i _
  simp [bitAt_cons]

theorem bitsOf_congr {l m : List Byte} {n : Nat} (h : ∀ i, i < n → bitAt l i = bitAt m i) :
    bitsOf l n = bitsOf m n := by
  apply List.ext_getElem (by simp)
  intro i hi _
  simpa using h i (by simpa using hi)

/-! ## Setting bits -/

/-- `buf[i / 8] |= b << (i % 8)`. -/
def orBit (l : List Byte) (i : Nat) (b : Bool) : List Byte :=
  l.set (i / 8) (l.getD (i / 8) 0 ||| (BitVec.ofBool b).setWidth 8 <<< (i % 8))

@[simp] theorem orBit_length (l : List Byte) (i : Nat) (b : Bool) :
    (orBit l i b).length = l.length := by simp [orBit]

theorem getLsbD_bit (b : Bool) (k j : Nat) (hk : k < 8) (hj : j < 8) :
    ((BitVec.ofBool b).setWidth 8 <<< k).getLsbD j = (decide (k = j) && b) := by
  rw [BitVec.getLsbD_shiftLeft, BitVec.getLsbD_setWidth, BitVec.getLsbD_ofBool]
  by_cases h : k = j
  · subst h
    simp [hk]
  · have hne : ¬ (¬ j < k ∧ j - k = 0) := by omega
    simp only [h, decide_false, Bool.false_and]
    by_cases hlt : j < k
    · simp [hlt]
    · have : ¬ j - k = 0 := by omega
      simp [this]

theorem bitAt_orBit (l : List Byte) (i j : Nat) (b : Bool) (h : i / 8 < l.length) :
    bitAt (orBit l i b) j = (bitAt l j || (decide (i = j) && b)) := by
  unfold bitAt orBit
  by_cases hq : i / 8 = j / 8
  · rw [← hq, List.getD_eq_getElem _ _ (by simpa using h), List.getElem_set_self,
      BitVec.getLsbD_or, getLsbD_bit _ _ _ (by omega) (by omega)]
    have hiff : (i % 8 = j % 8) ↔ i = j := by omega
    simp [hiff]
  · have hne : ¬ i = j := by rintro rfl; exact hq rfl
    rw [List.getD_eq_getElem?_getD, List.getD_eq_getElem?_getD, List.getElem?_set_ne hq]
    simp [hne]

/-! ## Packing -/

/-- Up to eight bits in one byte, the first one lowest. -/
def packByte (bs : List Bool) : Byte := (BitVec.ofBoolListLE bs).setWidth 8

/-- The bits in as few bytes as they fit, zero padded. -/
def packBits (bs : List Bool) : List Byte :=
  (List.range ((bs.length + 7) / 8)).map fun k => packByte (bs.drop (8 * k))

theorem getLsbD_packByte (bs : List Bool) (j : Nat) :
    (packByte bs).getLsbD j = (decide (j < 8) && bs.getD j false) := by
  simp [packByte]

@[simp] theorem packBits_length (bs : List Bool) : (packBits bs).length = (bs.length + 7) / 8 := by
  simp [packBits]

theorem bitAt_packBits (bs : List Bool) (i : Nat) : bitAt (packBits bs) i = bs.getD i false := by
  by_cases h : i / 8 < (packBits bs).length
  · have hlt : i % 8 < 8 := by omega
    have hi : 8 * (i / 8) + i % 8 = i := by omega
    rw [bitAt, List.getD_eq_getElem _ _ h]
    simp only [packBits, List.getElem_map, List.getElem_range, getLsbD_packByte, hlt, decide_true,
      Bool.true_and, List.getD_eq_getElem?_getD, List.getElem?_drop, hi]
  · have hle : bs.length ≤ i := by simp only [packBits_length] at h; omega
    rw [List.getD_eq_default _ _ hle]
    exact bitAt_of_le _ _ (by omega)

theorem bitsOf_packBits (bs : List Bool) : bitsOf (packBits bs) bs.length = bs := by
  apply List.ext_getElem (by simp)
  intro i hi hi'
  rw [bitsOf_getElem, bitAt_packBits, List.getD_eq_getElem _ _ hi']

/-- A buffer that holds the bits, and zeros after them, is the packed one. -/
theorem eq_packBits {l : List Byte} {bs : List Bool} (hlen : l.length = (bs.length + 7) / 8)
    (h : ∀ i, i < 8 * l.length → bitAt l i = bs.getD i false) : l = packBits bs := by
  apply eq_of_bitAt (by simpa using hlen)
  intro i hi
  rw [h i hi, bitAt_packBits]

theorem packBits_nil : packBits [] = [] := rfl

/-- A buffer of whole bytes is extended by packing the rest after it. -/
theorem packBits_append (bs cs : List Bool) (h : bs.length % 8 = 0) :
    packBits (bs ++ cs) = packBits bs ++ packBits cs := by
  symm
  apply eq_packBits
  · simp only [List.length_append, packBits_length]
    omega
  · intro i _
    have h8 : 8 * ((bs.length + 7) / 8) = bs.length := by omega
    rw [bitAt_append, packBits_length, h8, bitAt_packBits, bitAt_packBits]
    split
    · rw [List.getD_append _ _ _ _ (by assumption)]
    · rw [List.getD_append_right _ _ _ _ (by omega)]

theorem packBits_short (bs : List Bool) (h : 1 ≤ bs.length) (h8 : bs.length ≤ 8) :
    packBits bs = [packByte bs] := by
  have hone : (bs.length + 7) / 8 = 1 := by omega
  simp [packBits, hone]

/-! ## Overwriting a block -/

/-- Puts `src` over `dst` from position `off` on. -/
def splice {α : Type} (dst : List α) (off : Nat) (src : List α) : List α :=
  dst.take off ++ src ++ dst.drop (off + src.length)

theorem splice_length {α : Type} (dst : List α) (off : Nat) (src : List α)
    (h : off + src.length ≤ dst.length) : (splice dst off src).length = dst.length := by
  simp [splice]
  omega

theorem splice_take {α : Type} {dst src : List α} {off k : Nat} (hoff : off ≤ dst.length) (hk : k ≤ off + src.length) :
    (splice dst off src).take k = (dst.take off ++ src).take k := by
  rw [splice, List.take_append_of_le_length]
  rw [List.length_append, List.length_take]
  omega

theorem bitAt_splice_zero (dst src : List Byte) (i : Nat) :
    bitAt (splice dst 0 src) i = if i < 8 * src.length then bitAt src i else bitAt dst i := by
  rw [splice, List.take_zero, List.nil_append, bitAt_append, bitAt_drop]
  split
  · rfl
  · congr 1
    omega

/-- Blank space is filled from its start. -/
theorem splice_append_replicate {α : Type} (l m : List α) (a : α) (k : Nat) :
    splice (l ++ List.replicate k a) l.length m = l ++ m ++ List.replicate (k - m.length) a := by
  rw [splice, List.take_left, List.drop_length_add_append, List.drop_replicate]

theorem splice_replicate {α : Type} (m : List α) (a : α) (k : Nat) :
    splice (List.replicate k a) 0 m = m ++ List.replicate (k - m.length) a := by
  simpa using splice_append_replicate [] m a k

/-- A block gives way to another one of its length. -/
theorem splice_middle {α : Type} (l m m' rest : List α) (h : m.length = m'.length) :
    splice (l ++ (m ++ rest)) l.length m' = l ++ (m' ++ rest) := by
  rw [splice, List.take_left, List.drop_length_add_append, ← h, List.drop_left, List.append_assoc]

theorem getElem?_splice {α : Type} {dst src : List α} {off : Nat} (h : off + src.length ≤ dst.length) (i : Nat) :
    (splice dst off src)[i]? = if off ≤ i ∧ i < off + src.length then src[i - off]? else dst[i]? := by
  have htake : (dst.take off).length = off := by
    rw [List.length_take]
    omega
  rw [splice, List.append_assoc]
  by_cases hlow : i < off
  · rw [List.getElem?_append_left (by omega), List.getElem?_take, if_pos hlow, if_neg (by omega)]
  · rw [List.getElem?_append_right (by omega), htake]
    by_cases hmid : i < off + src.length
    · rw [List.getElem?_append_left (by omega), if_pos ⟨by omega, hmid⟩]
    · rw [List.getElem?_append_right (by omega), if_neg (by omega), List.getElem?_drop]
      congr 1
      omega

theorem take_splice_zero {α : Type} (dst src : List α) :
    (splice dst 0 src).take src.length = src := by
  simp [splice]

/-! ## Collecting bits -/

/-- The bits stand in the buffer, and zeros behind them. -/
def Holds (out : List Byte) (tdo : List Bool) : Prop := ∀ i, bitAt out i = tdo.getD i false

theorem holds_packBits (bs : List Bool) (k : Nat) : Holds (packBits bs ++ List.replicate k 0) bs := by
  intro i
  rw [bitAt_append, bitAt_packBits, bitAt_replicate_zero, packBits_length]
  split
  · rfl
  · rw [List.getD_eq_default _ _ (by omega)]

/-- One more bit goes behind the ones that are there. -/
theorem Holds.orBit {out : List Byte} {bs : List Bool} (h : Holds out bs) (b : Bool)
    (hlen : bs.length / 8 < out.length) : Holds (orBit out bs.length b) (bs ++ [b]) := by
  intro i
  rw [bitAt_orBit _ _ _ _ hlen, h i]
  rcases Nat.lt_trichotomy i bs.length with hi | rfl | hi
  · have hne : ¬ bs.length = i := by omega
    rw [List.getD_append _ _ _ _ hi]
    simp [hne]
  · simp
  · have hne : ¬ bs.length = i := by omega
    rw [List.getD_eq_default _ _ (by omega), List.getD_eq_default _ _ (by simp; omega)]
    simp [hne]

theorem Holds.append_false {out : List Byte} {bs : List Bool} (h : Holds out bs) (k : Nat) :
    Holds out (bs ++ List.replicate k false) := by
  intro i
  rw [h i]
  by_cases hi : i < bs.length
  · rw [List.getD_append _ _ _ _ hi]
  · rw [List.getD_append_right _ _ _ _ (by omega), List.getD_eq_default _ _ (by omega),
      List.getD_eq_getElem?_getD, List.getElem?_replicate]
    split <;> rfl

theorem Holds.bitsOf {out : List Byte} {bs : List Bool} (h : Holds out bs) :
    bitsOf out bs.length = bs := by
  apply List.ext_getElem (by simp)
  intro i hi hi'
  rw [bitsOf_getElem, h i, List.getD_eq_getElem _ _ hi']

theorem holds_replicate (k : Nat) : Holds (List.replicate k 0) [] := bitAt_replicate_zero k

/-- Two buffers of one length that hold the same bits are the same. -/
theorem Holds.unique {l m : List Byte} {bs : List Bool} (hl : Holds l bs) (hm : Holds m bs)
    (hlen : l.length = m.length) : l = m := eq_of_bitAt hlen fun i _ => by rw [hl i, hm i]

/-- A buffer of this size with these bits. -/
def inBuffer (size : Nat) (bits : List Bool) : List Byte :=
  packBits bits ++ List.replicate (size - (packBits bits).length) 0

theorem inBuffer_length {size : Nat} {bits : List Bool} (h : (bits.length + 7) / 8 ≤ size) :
    (inBuffer size bits).length = size := by
  rw [inBuffer, List.length_append, packBits_length, List.length_replicate]
  omega

theorem Holds.eq_inBuffer {out : List Byte} {bits : List Bool} {size : Nat} (h : Holds out bits)
    (hlen : out.length = size) (hfits : (bits.length + 7) / 8 ≤ size) : out = inBuffer size bits :=
  h.unique (holds_packBits bits _) (hlen.trans (inBuffer_length hfits).symm)

end JtagRemote
