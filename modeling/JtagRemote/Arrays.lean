import JtagRemote.Code.Common
import JtagRemote.Lib.Twin

/-! # Array accesses -/

namespace JtagRemote

variable {σ : Type}

theorem assert_ok {b : Bool} (h : b = true) (s : σ) :
    (assert b : EStateM Fault σ Unit) s = .ok () s := by
  rw [h]
  rfl

theorem assert_fails {b : Bool} (h : b = false) (s : σ) :
    (assert b : EStateM Fault σ Unit) s = .error .assert_failed s := by
  rw [h]
  rfl

theorem index_ok {l : List Byte} {i : Nat} (h : i < l.length) (s : σ) :
    (index l i : EStateM Fault σ Byte) s = .ok (l.getD i 0) s := by
  rw [index, List.getElem?_eq_getElem h, List.getD_eq_getElem _ _ h]
  rfl

theorem index_spec (l : List Byte) (i : Nat) (s : σ) :
    Ensures (index l i : EStateM Fault σ Byte) s fun b s' => s' = s ∧ b = l.getD i 0 ∧ i < l.length := by
  unfold index
  split
  · rename_i b hb
    obtain ⟨hi, rfl⟩ := List.getElem?_eq_some_iff.mp hb
    exact ensures_pure ⟨rfl, (List.getD_eq_getElem _ _ hi).symm, hi⟩
  · exact ensures_throw

theorem bit_of_ok {l : List Byte} {i : Nat} (h : i / 8 < l.length) (s : σ) :
    (bit_of l i : EStateM Fault σ Bool) s = .ok (bitAt l i) s := by
  rw [bit_of, bind_of_ok (index_ok h s)]
  rfl

theorem bit_of_spec (l : List Byte) (i : Nat) (s : σ) :
    Ensures (bit_of l i : EStateM Fault σ Bool) s fun b s' => s' = s ∧ b = bitAt l i ∧ i / 8 < l.length := by
  refine Ensures.bind (index_spec l (i / 8) s) ?_
  rintro b s' ⟨rfl, rfl, hi⟩
  exact ensures_pure ⟨rfl, rfl, hi⟩

theorem or_bit_ok {l : List Byte} {i : Nat} (h : i / 8 < l.length) (b : Bool) (s : σ) :
    (or_bit l i b : EStateM Fault σ (List Byte)) s = .ok (orBit l i b) s := by
  rw [or_bit, if_pos h]
  rfl

theorem memcpy_ok {dst src : List Byte} {off : Nat} (h : off + src.length ≤ dst.length) (s : σ) :
    (memcpy dst off src : EStateM Fault σ (List Byte)) s = .ok (splice dst off src) s := by
  rw [memcpy, if_pos h]
  rfl

theorem memcpy_spec (dst : List Byte) (off : Nat) (src : List Byte) (s : σ) :
    Ensures (memcpy dst off src : EStateM Fault σ (List Byte)) s fun b s' =>
      s' = s ∧ b = splice dst off src ∧ off + src.length ≤ dst.length := by
  unfold memcpy
  split
  · exact ensures_pure ⟨rfl, rfl, by assumption⟩
  · exact ensures_throw

theorem or_bit_spec (l : List Byte) (i : Nat) (b : Bool) (s : σ) :
    Ensures (or_bit l i b : EStateM Fault σ (List Byte)) s fun r s' =>
      s' = s ∧ r = orBit l i b ∧ i / 8 < l.length := by
  unfold or_bit
  split
  · exact ensures_pure ⟨rfl, rfl, by assumption⟩
  · exact ensures_throw

theorem bytes_at_ok {src : List Byte} {off len : Nat} (h : off + len ≤ src.length) (s : σ) :
    (bytes_at src off len : EStateM Fault σ (List Byte)) s = .ok ((src.drop off).take len) s := by
  rw [bytes_at, if_pos h]
  rfl

theorem bytes_at_spec (src : List Byte) (off len : Nat) (s : σ) :
    Ensures (bytes_at src off len : EStateM Fault σ (List Byte)) s fun b s' =>
      s' = s ∧ b = (src.drop off).take len ∧ off + len ≤ src.length := by
  unfold bytes_at
  split
  · exact ensures_pure ⟨rfl, rfl, by assumption⟩
  · exact ensures_throw

theorem first_element_ok {α : Type} {v : List α} (h : 0 < v.length) (s : σ) :
    (first_element v : EStateM Fault σ Unit) s = .ok () s := by
  rw [first_element, if_pos h]
  rfl

theorem first_element_spec {α : Type} (v : List α) (s : σ) :
    Ensures (first_element v : EStateM Fault σ Unit) s fun _ s' => s' = s ∧ 0 < v.length := by
  unfold first_element
  split
  · exact ensures_pure ⟨rfl, by assumption⟩
  · exact ensures_throw

theorem first_element_error {α : Type} {v : List α} (h : ¬ 0 < v.length) (s : σ) :
    (first_element v : EStateM Fault σ Unit) s = .error .out_of_bounds s := by
  rw [first_element, if_neg h]
  rfl

theorem memset_zero_ok {dst : List Byte} {len : Nat} (h : len ≤ dst.length) (s : σ) :
    (memset_zero dst len : EStateM Fault σ (List Byte)) s =
      .ok (splice dst 0 (List.replicate len 0)) s :=
  memcpy_ok (by simpa using h) s

/-! ## Accesses that fail do so with faults of their own -/

theorem assert_guards (b : Bool) (s : σ) :
    Guards (assert b : EStateM Fault σ Unit) s .no_tms_seq fun _ s' => s' = s := by
  unfold assert
  exact guards_ite (fun _ => guards_pure rfl) fun _ => guards_throw (by decide)

theorem index_guards (l : List Byte) (i : Nat) (s : σ) :
    Guards (index l i : EStateM Fault σ Byte) s .no_tms_seq fun b s' =>
      s' = s ∧ b = l.getD i 0 ∧ i < l.length := by
  refine ⟨index_spec l i s, ?_⟩
  intro t ht
  unfold index at ht
  cases hl : l[i]? <;> rw [hl] at ht <;> cases ht

theorem memcpy_guards (dst : List Byte) (off : Nat) (src : List Byte) (s : σ) :
    Guards (memcpy dst off src : EStateM Fault σ (List Byte)) s .no_tms_seq fun b s' =>
      s' = s ∧ b = splice dst off src ∧ off + src.length ≤ dst.length := by
  unfold memcpy
  exact guards_ite (fun h => guards_pure ⟨rfl, rfl, h⟩) fun _ => guards_throw (by decide)

theorem bytes_at_guards (src : List Byte) (off len : Nat) (s : σ) :
    Guards (bytes_at src off len : EStateM Fault σ (List Byte)) s .no_tms_seq fun b s' =>
      s' = s ∧ b = (src.drop off).take len ∧ off + len ≤ src.length := by
  unfold bytes_at
  exact guards_ite (fun h => guards_pure ⟨rfl, rfl, h⟩) fun _ => guards_throw (by decide)

theorem first_element_guards {α : Type} (v : List α) (s : σ) :
    Guards (first_element v : EStateM Fault σ Unit) s .no_tms_seq fun _ s' => s' = s ∧ 0 < v.length := by
  unfold first_element
  exact guards_ite (fun h => guards_pure ⟨rfl, h⟩) fun _ => guards_throw (by decide)

/-! ## Accesses leave the state alone -/

section

variable {τ : Type} {part : σ → τ}

theorem assert_keeps (b : Bool) : Keeps part (assert b : EStateM Fault σ Unit) :=
  keeps_of_same fun s => (assert_guards b s).ensures

theorem index_keeps (l : List Byte) (i : Nat) : Keeps part (index l i : EStateM Fault σ Byte) :=
  keeps_of_same fun s => (index_spec l i s).mono fun _ _ h => h.1

theorem bit_of_keeps (l : List Byte) (i : Nat) : Keeps part (bit_of l i : EStateM Fault σ Bool) :=
  keeps_of_same fun s => (bit_of_spec l i s).mono fun _ _ h => h.1

theorem or_bit_keeps (l : List Byte) (i : Nat) (b : Bool) : Keeps part (or_bit l i b : EStateM Fault σ (List Byte)) :=
  keeps_of_same fun s => (or_bit_spec l i b s).mono fun _ _ h => h.1

theorem memcpy_keeps (dst : List Byte) (off : Nat) (src : List Byte) :
    Keeps part (memcpy dst off src : EStateM Fault σ (List Byte)) :=
  keeps_of_same fun s => (memcpy_spec dst off src s).mono fun _ _ h => h.1

theorem bytes_at_keeps (src : List Byte) (off len : Nat) :
    Keeps part (bytes_at src off len : EStateM Fault σ (List Byte)) :=
  keeps_of_same fun s => (bytes_at_spec src off len s).mono fun _ _ h => h.1

end

section

variable {R : σ → σ → Prop} [IsPreorder σ R]

theorem index_within (l : List Byte) (i : Nat) : Within R (index l i : EStateM Fault σ Byte) := by
  unfold index
  split
  · exact within_pure _
  · exact within_throw _

theorem bit_of_within (l : List Byte) (i : Nat) : Within R (bit_of l i : EStateM Fault σ Bool) :=
  (index_within l _).bind fun _ => within_pure _

theorem or_bit_within (l : List Byte) (i : Nat) (b : Bool) :
    Within R (or_bit l i b : EStateM Fault σ (List Byte)) := within_ite (within_pure _) (within_throw _)

theorem memcpy_within (dst : List Byte) (off : Nat) (src : List Byte) :
    Within R (memcpy dst off src : EStateM Fault σ (List Byte)) := within_ite (within_pure _) (within_throw _)

theorem bytes_at_within (src : List Byte) (off len : Nat) :
    Within R (bytes_at src off len : EStateM Fault σ (List Byte)) := within_ite (within_pure _) (within_throw _)

end

/-! ## Accesses do not look at the state -/

section

variable {E R : σ → σ → Prop} (hE : ∀ s s', R s s' → E s s')

include hE

theorem assert_twins (b : Bool) : Twins E R R (assert b : EStateM Fault σ Unit) :=
  twins_ite (fun _ => twins_pure _) fun _ => twins_throw hE _

theorem index_twins (l : List Byte) (i : Nat) : Twins E R R (index l i : EStateM Fault σ Byte) := by
  unfold index
  split
  · exact twins_pure _
  · exact twins_throw hE _

theorem bit_of_twins (l : List Byte) (i : Nat) : Twins E R R (bit_of l i : EStateM Fault σ Bool) :=
  (index_twins hE l _).bind fun _ => twins_pure _

theorem bytes_at_twins (src : List Byte) (off len : Nat) :
    Twins E R R (bytes_at src off len : EStateM Fault σ (List Byte)) :=
  twins_ite (fun _ => twins_pure _) fun _ => twins_throw hE _

theorem memcpy_twins (dst : List Byte) (off : Nat) (src : List Byte) :
    Twins E R R (memcpy dst off src : EStateM Fault σ (List Byte)) :=
  twins_ite (fun _ => twins_pure _) fun _ => twins_throw hE _

theorem or_bit_twins (data : List Byte) (i : Nat) (b : Bool) :
    Twins E R R (or_bit data i b : EStateM Fault σ (List Byte)) :=
  twins_ite (fun _ => twins_pure _) fun _ => twins_throw hE _

end

theorem memcpy_error {dst src : List Byte} {off : Nat} (h : ¬ off + src.length ≤ dst.length) (s : σ) :
    (memcpy dst off src : EStateM Fault σ (List Byte)) s = .error .out_of_bounds s := by
  rw [memcpy, if_neg h]
  rfl

theorem bytes_at_error {src : List Byte} {off len : Nat} (h : ¬ off + len ≤ src.length) (s : σ) :
    (bytes_at src off len : EStateM Fault σ (List Byte)) s = .error .out_of_bounds s := by
  rw [bytes_at, if_neg h]
  rfl

theorem index_error {l : List Byte} {i : Nat} (h : ¬ i < l.length) (s : σ) :
    (index l i : EStateM Fault σ Byte) s = .error .out_of_bounds s := by
  rw [index, List.getElem?_eq_none (Nat.le_of_not_lt h)]
  rfl

theorem bit_of_error {l : List Byte} {i : Nat} (h : ¬ i < 8 * l.length) (s : σ) :
    (bit_of l i : EStateM Fault σ Bool) s = .error .out_of_bounds s :=
  bind_of_error (index_error (by omega) s)

theorem size_sub_of_le {a b : Nat} (h : b ≤ a) (ha : a < 2 ^ 64) : size_sub a b = a - b := by
  unfold size_sub
  omega

theorem bulk_bits_of_pos {n : Nat} (flip : Bool) (h : 1 ≤ n) (hn : n < 2 ^ 64) :
    bulk_bits n flip = if flip then n - 1 else n := by
  unfold bulk_bits
  rw [size_sub_of_le h hn]

/-! ## Words in memory -/

theorem le_bytes_length (w : BitVec 32) : (le_bytes w).length = 4 := rfl

theorem le32_lt (l : List Byte) : le32 l < 2 ^ 32 := by
  have hfold : ∀ m : List Byte, m.foldr (fun b n => b.toNat + 256 * n) 0 < 256 ^ m.length := by
    intro m
    induction m with
    | nil => decide
    | cons b m ih =>
      have hb := b.isLt
      rw [List.foldr_cons, List.length_cons, Nat.pow_succ]
      omega
  have hlen : (l.take 4).length ≤ 4 := by
    rw [List.length_take]
    exact Nat.min_le_left 4 _
  exact Nat.lt_of_lt_of_le (hfold (l.take 4)) (Nat.pow_le_pow_right (by decide) hlen)

theorem le32_le_bytes (w : BitVec 32) (x : List Byte) : le32 (le_bytes w ++ x) = w.toNat := by
  have h0 : (w >>> 8).toNat = w.toNat / 256 := by simp [Nat.shiftRight_eq_div_pow]
  have h1 : (w >>> 16).toNat = w.toNat / 65536 := by simp [Nat.shiftRight_eq_div_pow]
  have h2 : (w >>> 24).toNat = w.toNat / 16777216 := by simp [Nat.shiftRight_eq_div_pow]
  have hlt := w.isLt
  simp only [le32, le_bytes, List.cons_append, List.nil_append, List.take_succ_cons, List.take_zero,
    List.foldr_cons, List.foldr_nil, BitVec.toNat_setWidth, h0, h1, h2]
  omega

theorem le32_word (w : BitVec 32) : le32 (le_bytes w) = w.toNat := by
  have h := le32_le_bytes w []
  rwa [List.append_nil] at h

end JtagRemote
