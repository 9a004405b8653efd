import JtagRemote.Regions

/-!
# The regions are an exact partition

What the tiles of a shift come to, in terms of the bits and the TAP states alone.
-/

namespace JtagRemote

open JtagState

variable {st : JtagState} {tms : List Byte} {bits : Nat} {rs : List Region}

/-- Every cycle of the region is taken in this state. -/
def Region.AllIn (st : JtagState) (tms : List Byte) (r : Region) (s : JtagState) : Prop :=
  ∀ i, r.begin_ ≤ i → i < r.end_ → stateAt st tms i = s

/-- The regions of `bits` TMS bits, seen from the state `st`. -/
structure ExactPartition (st : JtagState) (tms : List Byte) (bits : Nat) (rs : List Region) : Prop where
  nonempty : ∀ r ∈ rs, r.begin_ < r.end_
  consecutive : rs.IsChain fun r r' => r.end_ = r'.begin_
  first : ∀ r ∈ rs.head?, r.begin_ = 0
  last : ∀ r ∈ rs.getLast?, r.end_ = bits
  none_iff : rs = [] ↔ bits = 0
  data_iff : ∀ r ∈ rs, r.is_tms = false ↔ r.AllIn st tms ShiftDR ∨ r.AllIn st tms ShiftIR
  tms_iff : ∀ r ∈ rs, r.is_tms = true ↔
    ∀ i, r.begin_ ≤ i → i < r.end_ → stateAt st tms i ≠ ShiftDR ∧ stateAt st tms i ≠ ShiftIR
  tms_bits : ∀ r ∈ rs, r.is_tms = false → ∀ i, r.begin_ ≤ i → i < r.end_ →
    bitAt tms i = (r.flip_tms && decide (i + 1 = r.end_))
  final : ∀ r ∈ rs, r.is_tms = false → r.flip_tms = false → rs.getLast? = some r
  -- a data region is all of a visit to a Shift state
  visit : ∀ r ∈ rs, r.is_tms = false → (r.begin_ = 0 ∨ (stateAt st tms (r.begin_ - 1)).isShift = false) ∧
    (r.end_ = bits ∨ (stateAt st tms r.end_).isShift = false)

/-! ## Tiles are consecutive -/

theorem Tiles.head {a b : Nat} (h : Tiles st tms a rs b) : ∀ r ∈ rs.head?, r.begin_ = a := by
  cases h with
  | nil => simp
  | cons _ _ => simp

theorem Tiles.chain {a b : Nat} (h : Tiles st tms a rs b) : rs.IsChain fun r r' => r.end_ = r'.begin_ := by
  induction h with
  | nil => exact .nil
  | @cons r rs b _ htail ih =>
    cases rs with
    | nil => exact .singleton _
    | cons y ys => exact List.isChain_cons_cons.mpr ⟨(htail.head y rfl).symm, ih⟩

theorem Tiles.nil_iff {a b : Nat} (h : Tiles st tms a rs b) : rs = [] ↔ a = b := by
  constructor
  · rintro rfl
    cases h
    rfl
  · rintro rfl
    exact h.empty

theorem Tiles.getLast {a b : Nat} (h : Tiles st tms a rs b) : ∀ r ∈ rs.getLast?, r.end_ = b := by
  induction h with
  | nil => simp
  | @cons r rs b _ htail ih =>
    cases rs with
    | nil =>
      have hend : r.end_ = b := htail.nil_iff.mp rfl
      simpa using hend
    | cons y ys =>
      rw [List.getLast?_cons_cons]
      exact ih

/-- The region that ends last is the last one. -/
theorem Tiles.last_of_end {a b : Nat} (h : Tiles st tms a rs b) {r : Region} (hr : r ∈ rs) (hend : r.end_ = b) :
    rs.getLast? = some r := by
  induction h with
  | nil => cases hr
  | @cons x rs b _ htail ih =>
    rcases List.mem_cons.mp hr with rfl | hr
    · rw [htail.nil_iff.mpr hend]
      rfl
    · rw [List.getLast?_cons, ih hr hend]
      rfl

/-- What stands before a region is a closed one. -/
theorem Tiles.before {a b : Nat} (h : Tiles st tms a rs b) {r : Region} (hr : r ∈ rs) :
    r.begin_ = a ∨ ∃ x ∈ rs, x.end_ = r.begin_ ∧ x.end_ < b := by
  induction h with
  | nil => cases hr
  | @cons x rs b hok htail ih =>
    rcases List.mem_cons.mp hr with rfl | hr
    · exact Or.inl rfl
    · have hlt : r.begin_ < b := Nat.lt_of_lt_of_le (htail.ok hr).nonempty (htail.mem_le hr)
      rcases ih hr with hbegin | ⟨y, hy, hend⟩
      · exact Or.inr ⟨x, List.mem_cons_self, hbegin.symm, by omega⟩
      · exact Or.inr ⟨y, List.mem_cons_of_mem _ hy, hend⟩

/-! ## A region stays in one Shift state -/

theorem isShift_iff {s : JtagState} : s.isShift = true ↔ s = ShiftDR ∨ s = ShiftIR := by
  cases s <;> decide

theorem shift_stays {s : JtagState} {b : Bool} (h : s.isShift = true) (h' : (next_state s b).isShift = true) :
    next_state s b = s := by
  obtain rfl := next_shift h'
  exact next_low h

theorem RegionOk.same_state {r : Region} (h : RegionOk st tms r) (hdata : r.is_tms = false) {i : Nat}
    (hi : r.begin_ ≤ i) (hi' : i < r.end_) : stateAt st tms i = stateAt st tms r.begin_ := by
  have hshift : ∀ j, r.begin_ ≤ j → j < r.end_ → (stateAt st tms j).isShift = true := by
    intro j hj hj'
    have := h.kind j hj hj'
    rwa [hdata] at this
  obtain ⟨k, rfl⟩ := Nat.exists_eq_add_of_le hi
  induction k with
  | zero => rfl
  | succ k ih =>
    have hnext := hshift (r.begin_ + k + 1) (by omega) (by omega)
    rw [stateAt_succ] at hnext
    rw [← Nat.add_assoc, stateAt_succ, shift_stays (hshift _ (by omega) (by omega)) hnext, ih (by omega) (by omega)]

theorem RegionOk.data_iff {r : Region} (h : RegionOk st tms r) :
    r.is_tms = false ↔ r.AllIn st tms ShiftDR ∨ r.AllIn st tms ShiftIR := by
  constructor
  · intro hdata
    rcases isShift_iff.mp (h.isShift hdata) with hdr | hir
    · exact Or.inl fun i hi hi' => (h.same_state hdata hi hi').trans hdr
    · exact Or.inr fun i hi hi' => (h.same_state hdata hi hi').trans hir
  · intro hall
    have hkind := h.kind r.begin_ (Nat.le_refl _) h.nonempty
    have hshift : (stateAt st tms r.begin_).isShift = true :=
      isShift_iff.mpr (hall.imp (fun ha => ha _ (Nat.le_refl _) h.nonempty) fun ha => ha _ (Nat.le_refl _) h.nonempty)
    rw [shiftsAt, hshift] at hkind
    simpa using hkind.symm

theorem RegionOk.tms_iff {r : Region} (h : RegionOk st tms r) : r.is_tms = true ↔
    ∀ i, r.begin_ ≤ i → i < r.end_ → stateAt st tms i ≠ ShiftDR ∧ stateAt st tms i ≠ ShiftIR := by
  have hnot : ∀ s : JtagState, s.isShift = false ↔ s ≠ ShiftDR ∧ s ≠ ShiftIR := by
    intro s
    cases s <;> decide
  constructor
  · intro htms i hi hi'
    have hkind := h.kind i hi hi'
    rw [htms] at hkind
    exact (hnot _).mp hkind
  · intro hall
    have hkind := h.kind r.begin_ (Nat.le_refl _) h.nonempty
    rw [shiftsAt, (hnot _).mpr (hall _ (Nat.le_refl _) h.nonempty)] at hkind
    simpa using hkind.symm

/-! ## The partition -/

theorem Tiles.partition (h : Tiles st tms 0 rs bits) (hclosed : ∀ r ∈ rs, r.end_ = bits ∨ Closed st tms r) :
    ExactPartition st tms bits rs where
  nonempty r hr := (h.ok hr).nonempty
  consecutive := h.chain
  first := h.head
  last := h.getLast
  none_iff := h.nil_iff.trans eq_comm
  data_iff r hr := (h.ok hr).data_iff
  tms_iff r hr := (h.ok hr).tms_iff
  tms_bits r hr hdata := (h.ok hr).low hdata
  final := by
    intro r hr hdata hflip
    have hok := h.ok hr
    rcases hclosed r hr with hend | hend
    · exact h.last_of_end hr hend
    · -- with TMS low the TAP goes on shifting
      have hstate := hok.scan_state hdata
      rw [hflip] at hstate
      have hshift : shiftsAt st tms r.end_ = true := by
        rw [shiftsAt, ← hstate]
        exact hok.isShift hdata
      rw [Closed, hshift, hdata] at hend
      cases hend
  visit := by
    intro r hr hdata
    refine ⟨?_, (hclosed r hr).imp_right fun hend => by rw [Closed, hdata] at hend; exact hend⟩
    refine (h.before hr).imp_right ?_
    rintro ⟨x, hx, hend, hlt⟩
    have hx' := h.ok hx
    have hclose : Closed st tms x := (hclosed x hx).resolve_left (Nat.ne_of_lt hlt)
    have hbegin : shiftsAt st tms r.begin_ = true := (h.ok hr).isShift hdata
    rw [Closed, hend, hbegin] at hclose
    have hkind := hx'.kind (x.end_ - 1) (by have := hx'.nonempty; omega) (by have := hx'.nonempty; omega)
    rw [← hclose, hend] at hkind
    exact hkind

/-- For all TMS bits: the regions partition them exactly, and the state is the one after all of them. -/
theorem analyze_bitbang_partition {σ : Type} (st : JtagState) {tms : List Byte} {bits : Nat}
    (hlen : bits ≤ 8 * tms.length) (s : σ) :
    ∃ rs, (analyze_bitbang st tms bits : EStateM Fault σ (List Region × JtagState)) s =
      .ok (rs, (bitsOf tms bits).foldl next_state st) s ∧ ExactPartition st tms bits rs := by
  obtain ⟨⟨rs, cur⟩, _, hrun, rfl, htiles, hclosed, rfl⟩ := analyze_bitbang_spec st tms bits s hlen
  exact ⟨rs, hrun, htiles.partition hclosed⟩

/-- Into ShiftDR and out of it again. -/
theorem analyze_bitbang_partition_visit :
    ∃ rs, (analyze_bitbang TestLogicReset [0x82] 8 : EStateM Fault Unit (List Region × JtagState)) () =
      .ok (rs, (bitsOf [0x82] 8).foldl next_state TestLogicReset) () ∧
      ExactPartition TestLogicReset [0x82] 8 rs :=
  analyze_bitbang_partition TestLogicReset (by decide) ()

end JtagRemote
