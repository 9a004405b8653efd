import JtagRemote.Rbb.Marks

/-!
# Marks, cycle by cycle

That each scan is marked as a whole or not at all can be told from the cycles next
to each other. Told so, it is inherited by each piece of a stream.
-/

namespace JtagRemote.Rbb

open JtagState

variable {st : JtagState} {cs us vs : List Byte}

/-- The cycle `i` of the commands shifts data. -/
def shifts (st : JtagState) (cs : List Byte) (i : Nat) : Bool := shiftsAt st (tmsOf cs) i

/-- Marks are on data only, once, and do not change within a scan. A last mark without a cycle is
left open. -/
structure Steady (st : JtagState) (cs : List Byte) : Prop where
  data : ∀ p ∈ marks cs, p < (pins cs).length → shifts st cs p = true
  even : ∀ i, i + 1 < (pins cs).length → shifts st cs i = true → shifts st cs (i + 1) = true →
    (i ∈ marks cs ↔ i + 1 ∈ marks cs)
  once : (marks cs).Nodup

/-- The read ends between an 'R' and its clock. -/
def Cut (cs : List Byte) : Prop := (pins cs).length ∈ marks cs

instance (cs : List Byte) : Decidable (Cut cs) := inferInstanceAs (Decidable ((pins cs).length ∈ marks cs))

/-- Each cycle lies in a region, which is one of data if the cycle shifts. -/
theorem region_of (st : JtagState) {i : Nat} (hi : i < (pins cs).length) : ∃ r ∈ regions st cs, r.begin_ ≤ i ∧ i < r.end_ ∧
    RegionOk st (tmsOf cs) r ∧ r.is_tms = !shifts st cs i := by
  obtain ⟨htiles, -⟩ := regions_tiles st cs
  obtain ⟨r, hr, hbegin, hend⟩ := htiles.covers (Nat.zero_le i) hi
  have hok := htiles.ok hr
  refine ⟨r, hr, hbegin, hend, hok, ?_⟩
  rw [shifts, hok.kind i hbegin hend, Bool.not_not]

theorem Steady.uniform (h : Steady st cs) : Uniform st cs := by
  intro r hr hdata
  obtain ⟨htiles, -⟩ := regions_tiles st cs
  have hok := htiles.ok hr
  have hle := htiles.mem_le hr
  have hshift : ∀ i, r.begin_ ≤ i → i < r.end_ → shifts st cs i = true := by
    intro i hi hi'
    rw [shifts, hok.kind i hi hi', hdata]
    rfl
  -- the mark of the first cycle is that of all
  have hsame : ∀ n, r.begin_ + n < r.end_ → (r.begin_ + n ∈ marks cs ↔ r.begin_ ∈ marks cs) := by
    intro n hn
    induction n with
    | zero => rfl
    | succ n ih =>
      rw [← ih (by omega)]
      exact (h.even (r.begin_ + n) (by omega) (hshift _ (by omega) (by omega)) (hshift _ (by omega) hn)).symm
  by_cases hfirst : r.begin_ ∈ marks cs
  · left
    intro i hi hi'
    rw [show i = r.begin_ + (i - r.begin_) by omega, hsame _ (by omega)]
    exact hfirst
  · right
    intro i hi hi'
    rw [show i = r.begin_ + (i - r.begin_) by omega, hsame _ (by omega)]
    exact hfirst

theorem Steady.wellMarked (h : Steady st cs) (hcut : ¬ Cut cs) : WellMarked st cs := by
  refine ⟨h.uniform, ?_, h.once⟩
  intro p hp
  have hlt : p < (pins cs).length := by
    have hle := marks_le p hp
    have hne : p ≠ (pins cs).length := by
      rintro rfl
      exact hcut hp
    omega
  obtain ⟨r, hr, hbegin, hend, -, hkind⟩ := region_of st hlt
  refine ⟨r, hr, ?_, hbegin, hend⟩
  rw [hkind, h.data p hp hlt]
  rfl

theorem WellMarked.steady (h : WellMarked st cs) : Steady st cs ∧ ¬ Cut cs := by
  obtain ⟨htiles, hclosed⟩ := regions_tiles st cs
  refine ⟨⟨?_, ?_, h.once⟩, ?_⟩
  · intro p hp _
    obtain ⟨r, hr, hdata, hbegin, hend⟩ := h.inside p hp
    rw [shifts, (htiles.ok hr).kind p hbegin hend, hdata]
    rfl
  · intro i hi hshift hshift'
    obtain ⟨r, hr, hbegin, hend, hok, hkind⟩ := region_of st (show i < (pins cs).length by omega)
    rw [hshift] at hkind
    have hin : i + 1 < r.end_ := by
      by_contra hout
      have heq : r.end_ = i + 1 := by omega
      rcases hclosed r hr with hlast | hclosed
      · omega
      · rw [Closed, heq, hkind] at hclosed
        rw [shifts, hclosed] at hshift'
        cases hshift'
    rcases h.uniform r hr hkind with hall | hnone
    · exact iff_of_true (hall i hbegin hend) (hall (i + 1) (by omega) hin)
    · exact iff_of_false (hnone i hbegin hend) (hnone (i + 1) (by omega) hin)
  · intro hcut
    obtain ⟨r, hr, -, -, hend⟩ := h.inside _ hcut
    have := htiles.mem_le hr
    omega

/-- A last mark without a cycle fails the check of the totals. -/
theorem Steady.not_passes (h : Steady st cs) (hcut : Cut cs) : ¬ Passes st cs := by
  intro hpass
  have heq := h.uniform.replied_eq hpass.total
  have hmem : (pins cs).length ∈ replied st cs := by
    rw [heq]
    exact hcut
  obtain ⟨r, hr, -, -, hend⟩ := mem_replied.mp hmem
  have := (regions_tiles st cs).1.mem_le hr
  omega

/-! ## Pieces -/

theorem bitAt_tmsOf (cs : List Byte) (i : Nat) : bitAt (tmsOf cs) i = ((pins cs).map Pins.tms).getD i false :=
  bitAt_packBits _ _

/-- The TAP state after the commands. -/
def afterCommands (st : JtagState) (cs : List Byte) : JtagState := stateAfter st ((pins cs).map Pins.tms)

theorem afterCommands_append (st : JtagState) (us vs : List Byte) :
    afterCommands st (us ++ vs) = afterCommands (afterCommands st us) vs := by
  rw [afterCommands, pins_append, List.map_append, stateAfter_append]
  rfl

theorem shifts_left (vs : List Byte) {i : Nat} (hi : i ≤ (pins us).length) : shifts st (us ++ vs) i = shifts st us i := by
  unfold shifts shiftsAt
  rw [stateAt_congr]
  intro j hj
  rw [bitAt_tmsOf, bitAt_tmsOf, pins_append, List.map_append, List.getD_append _ _ _ _ (by simp; omega)]

theorem shifts_right (i : Nat) :
    shifts st (us ++ vs) ((pins us).length + i) = shifts (afterCommands st us) vs i := by
  have hbits : bitsFrom (tmsOf (us ++ vs)) (pins us).length i = bitsOf (tmsOf vs) i := by
    apply List.map_congr_left
    intro j _
    rw [bitAt_tmsOf, bitAt_tmsOf, pins_append, List.map_append, List.getD_append_right _ _ _ _ (by simp)]
    congr 1
    simp
  have hfirst : stateAt st (tmsOf (us ++ vs)) (pins us).length = afterCommands st us := by
    have hsame : ∀ j, j < (pins us).length → bitAt (tmsOf (us ++ vs)) j = bitAt (tmsOf us) j := by
      intro j hj
      rw [bitAt_tmsOf, bitAt_tmsOf, pins_append, List.map_append, List.getD_append _ _ _ _ (by simpa using hj)]
    rw [stateAt_congr hsame, stateAt, bitsOf_tmsOf]
    rfl
  unfold shifts shiftsAt
  rw [stateAt_add, hfirst, hbits]
  rfl

theorem mem_marks_left (vs : List Byte) {p : Nat} (hp : p < (pins us).length) : p ∈ marks (us ++ vs) ↔ p ∈ marks us := by
  rw [marks_append, List.mem_append, List.mem_map]
  constructor
  · rintro (hmem | ⟨q, -, heq⟩)
    · exact hmem
    · omega
  · exact Or.inl

theorem mem_marks_right (vs : List Byte) {p : Nat} (hcut : ¬ Cut us) :
    (pins us).length + p ∈ marks (us ++ vs) ↔ p ∈ marks vs := by
  rw [marks_append, List.mem_append, List.mem_map]
  constructor
  · rintro (hmem | ⟨q, hq, heq⟩)
    · have hle := marks_le _ hmem
      obtain rfl : p = 0 := by omega
      exact absurd hmem hcut
    · rwa [show p = q by omega]
  · exact fun hp => Or.inr ⟨p, hp, rfl⟩

theorem Steady.left (h : Steady st (us ++ vs)) : Steady st us := by
  have hlen : (pins (us ++ vs)).length = (pins us).length + (pins vs).length := by
    rw [pins_append, List.length_append]
  refine ⟨?_, ?_, ?_⟩
  · intro p hp hlt
    rw [← shifts_left vs (Nat.le_of_lt hlt)]
    exact h.data p ((mem_marks_left vs hlt).mpr hp) (by omega)
  · intro i hi hshift hshift'
    rw [← mem_marks_left vs (show i < _ by omega), ← mem_marks_left vs hi]
    refine h.even i (by omega) ?_ ?_
    · rwa [shifts_left vs (by omega)]
    · rwa [shifts_left vs (by omega)]
  · have := h.once
    rw [marks_append] at this
    exact (List.nodup_append.mp this).1

theorem Steady.right (h : Steady st (us ++ vs)) (hcut : ¬ Cut us) : Steady (afterCommands st us) vs := by
  have hlen : (pins (us ++ vs)).length = (pins us).length + (pins vs).length := by
    rw [pins_append, List.length_append]
  refine ⟨?_, ?_, ?_⟩
  · intro p hp hlt
    rw [← shifts_right]
    exact h.data _ ((mem_marks_right vs hcut).mpr hp) (by omega)
  · intro i hi hshift hshift'
    rw [← mem_marks_right vs hcut, ← mem_marks_right vs hcut, ← Nat.add_assoc]
    refine h.even _ (by omega) ?_ ?_
    · rwa [shifts_right]
    · rwa [Nat.add_assoc, shifts_right]
  · have := h.once
    rw [marks_append] at this
    exact (List.nodup_append.mp this).2.1.of_map _

end JtagRemote.Rbb
