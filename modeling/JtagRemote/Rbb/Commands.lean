import JtagRemote.Code.Rbb
import JtagRemote.Hardware.Board
import JtagRemote.Tap

/-!
# The commands of one read

A command of '4' to '7' asks for one cycle. An 'R' marks the cycle that comes
next. The three bit vectors of a tick hold just that.
-/

namespace JtagRemote.Rbb

/-- The pins of a command that clocks. -/
def clock (command : Byte) : Option Pins :=
  if 0x34#8 ≤ command ∧ command ≤ CHAR_7 then some ⟨command.getLsbD 1, command.getLsbD 0⟩ else none

/-- One cycle for each command that clocks. -/
def pins (cs : List Byte) : List Pins := cs.filterMap clock

/-- For each 'R' the number of the cycle that it precedes; `k` cycles came before. -/
def marksFrom (k : Nat) : List Byte → List Nat
  | [] => []
  | c :: cs =>
    if (clock c).isSome then marksFrom (k + 1) cs
    else if c = CHAR_R then k :: marksFrom k cs
    else marksFrom k cs

def marks (cs : List Byte) : List Nat := marksFrom 0 cs

/-- The TMS bits of the cycles, packed. -/
def tmsOf (cs : List Byte) : List Byte := packBits ((pins cs).map Pins.tms)

def tdiOf (cs : List Byte) : List Byte := packBits ((pins cs).map Pins.tdi)

/-! ## Streams in pieces -/

theorem pins_append (cs ds : List Byte) : pins (cs ++ ds) = pins cs ++ pins ds := List.filterMap_append

theorem marksFrom_append (k : Nat) (cs ds : List Byte) :
    marksFrom k (cs ++ ds) = marksFrom k cs ++ marksFrom (k + (pins cs).length) ds := by
  induction cs generalizing k with
  | nil => rfl
  | cons c cs ih =>
    rw [List.cons_append, marksFrom, marksFrom, pins, List.filterMap_cons]
    cases hc : clock c with
    | some p =>
      simp only [Option.isSome_some, if_true, List.length_cons]
      rw [ih, pins, Nat.add_assoc, Nat.add_comm 1]
    | none =>
      simp only [Option.isSome_none, Bool.false_eq_true, if_false, ih]
      split <;> rfl

theorem marksFrom_shift (k : Nat) (cs : List Byte) : marksFrom k cs = (marks cs).map (k + ·) := by
  unfold marks
  suffices h : ∀ j, marksFrom (k + j) cs = (marksFrom j cs).map (k + ·) from h 0
  induction cs with
  | nil => intro j; rfl
  | cons c cs ih =>
    intro j
    rw [marksFrom, marksFrom]
    split
    · exact ih (j + 1)
    · split
      · rw [List.map_cons, ih]
      · exact ih j

theorem marks_append (cs ds : List Byte) :
    marks (cs ++ ds) = marks cs ++ (marks ds).map ((pins cs).length + ·) := by
  rw [marks, marksFrom_append, Nat.zero_add, marksFrom_shift _ ds]
  rfl

theorem pins_length_le (cs : List Byte) : (pins cs).length ≤ cs.length := List.length_filterMap_le _ _

/-- A mark precedes a cycle, or follows the last one. -/
theorem marks_le {cs : List Byte} : ∀ p ∈ marks cs, p ≤ (pins cs).length := by
  suffices h : ∀ k, ∀ p ∈ marksFrom k cs, k ≤ p ∧ p ≤ k + (pins cs).length by
    intro p hp
    have := (h 0 p hp).2
    omega
  induction cs with
  | nil => simp [marksFrom]
  | cons c cs ih =>
    intro k p hp
    rw [marksFrom] at hp
    rw [pins, List.filterMap_cons]
    cases hc : clock c with
    | some q =>
      simp only [hc, Option.isSome_some, if_true] at hp
      have := ih (k + 1) p hp
      rw [pins] at this
      rw [List.length_cons]
      omega
    | none =>
      simp only [hc, Option.isSome_none, Bool.false_eq_true, if_false] at hp
      split at hp
      · rcases List.mem_cons.mp hp with rfl | hp
        · omega
        · exact ih _ p hp
      · exact ih k p hp

/-- The marks come in the order of the cycles. -/
theorem marks_sorted (cs : List Byte) : (marks cs).Pairwise (· ≤ ·) := by
  suffices h : ∀ k, (marksFrom k cs).Pairwise (· ≤ ·) ∧ ∀ p ∈ marksFrom k cs, k ≤ p from (h 0).1
  induction cs with
  | nil => simp [marksFrom]
  | cons c cs ih =>
    intro k
    rw [marksFrom]
    split
    · obtain ⟨hsort, hle⟩ := ih (k + 1)
      exact ⟨hsort, fun p hp => Nat.le_of_succ_le (hle p hp)⟩
    · obtain ⟨hsort, hle⟩ := ih k
      split
      · refine ⟨List.pairwise_cons.mpr ⟨hle, hsort⟩, ?_⟩
        intro p hp
        rcases List.mem_cons.mp hp with rfl | hp
        · exact Nat.le_refl _
        · exact hle p hp
      · exact ⟨hsort, hle⟩

/-! ## The three bit vectors -/

theorem clock_eq (c : Byte) : clock c =
    if CHAR_0 ≤ c ∧ c ≤ CHAR_7 ∧ (c - CHAR_0).getLsbD 2 = true then
      some ⟨(c - CHAR_0).getLsbD 1, (c - CHAR_0).getLsbD 0⟩ else none := by
  revert c
  decide +kernel

/-- The locals after the commands `cs`: the first `n` bytes of each array are those bits. -/
structure Filled (n : Nat) (cs : List Byte) (a : Inputs) : Prop where
  bits : a.bits = (pins cs).length
  read_bits : a.read_bits = (marks cs).length
  tms_size : a.tms_input.length = BUFFER_SIZE
  tdi_size : a.tdi_input.length = BUFFER_SIZE
  read_size : a.read_input.length = BUFFER_SIZE
  tms : ∀ i, i < 8 * n → bitAt a.tms_input i = bitAt (tmsOf cs) i
  tdi : ∀ i, i < 8 * n → bitAt a.tdi_input i = bitAt (tdiOf cs) i
  read : ∀ i, i < 8 * n → bitAt a.read_input i = decide (i ∈ marks cs)

theorem getD_snoc (bs : List Bool) (b : Bool) (i : Nat) :
    (bs ++ [b]).getD i false = (bs.getD i false || (decide (bs.length = i) && b)) := by
  rcases Nat.lt_trichotomy i bs.length with hi | rfl | hi
  · have hne : ¬ bs.length = i := by omega
    rw [List.getD_append _ _ _ _ hi]
    simp [hne]
  · simp
  · have hne : ¬ bs.length = i := by omega
    have hlen : (bs ++ [b]).length ≤ i := by
      rw [List.length_append, List.length_singleton]
      omega
    rw [List.getD_eq_default _ _ (Nat.le_of_lt hi), List.getD_eq_default _ _ hlen]
    simp [hne]

theorem pins_snoc (cs : List Byte) (c : Byte) : pins (cs ++ [c]) = pins cs ++ (clock c).toList := by
  rw [pins_append]
  rfl

theorem marks_snoc (cs : List Byte) (c : Byte) :
    marks (cs ++ [c]) =
      marks cs ++ if (clock c).isNone ∧ c = CHAR_R then [(pins cs).length] else [] := by
  rw [marks, marksFrom_append, Nat.zero_add]
  congr 1
  cases hc : clock c <;> simp [marksFrom, hc]

section

variable {σ : Type}

theorem cleared_spec (junk : Nat → Byte) {n : Nat} (hn : n ≤ BUFFER_SIZE) (s : σ) :
    ∃ l, (memset_zero (uninit junk) n : EStateM Fault σ (List Byte)) s = .ok l s ∧
      l.length = BUFFER_SIZE ∧ ∀ i, i < 8 * n → bitAt l i = false := by
  have hsize : (uninit junk).length = BUFFER_SIZE := by simp [uninit]
  refine ⟨_, memset_zero_ok (by rwa [hsize]) s, ?_, ?_⟩
  · rw [splice_length _ _ _ (by simpa [hsize] using hn), hsize]
  · intro i hi
    rw [bitAt_splice_zero, if_pos (by simpa using hi), bitAt_replicate_zero]

end

section

variable {δ : Type} {s : Rbb δ} {n : Nat} {cs : List Byte} {a : Inputs}

theorem rbb_command_spec (h : Filled n cs a) (hbits : (pins cs).length < 8 * n) (hn : n ≤ BUFFER_SIZE) (c : Byte) :
    Returns (rbb_command c a : RbbProg δ Inputs) s fun a' s' => s' = s ∧ Filled n (cs ++ [c]) a' := by
  have htms_size := h.tms_size
  have htdi_size := h.tdi_size
  have hread_size := h.read_size
  have hbits_eq := h.bits
  have hclock := clock_eq c
  unfold rbb_command
  split
  · rename_i hset
    have hnr : ¬ c = CHAR_R := by
      rintro rfl
      exact absurd hset (by decide)
    dsimp only
    split
    · -- one more cycle
      rename_i htck
      rw [if_pos ⟨hset.1, hset.2, htck⟩] at hclock
      refine Returns.of_eq_bind (or_bit_ok (by omega) _ _) ?_
      refine Returns.of_eq_bind (or_bit_ok (by omega) _ _) ?_
      refine returns_pure ⟨rfl, ?_, ?_, ?_, ?_, hread_size, ?_, ?_, ?_⟩
      · simp [pins_snoc, hclock, hbits_eq]
      · simp [marks_snoc, hclock, h.read_bits]
      · rwa [orBit_length]
      · rwa [orBit_length]
      · intro i hi
        rw [bitAt_orBit _ _ _ _ (by omega), h.tms i hi, tmsOf, tmsOf, bitAt_packBits, bitAt_packBits, pins_snoc,
          hclock, List.map_append]
        simp only [Option.toList_some, List.map_cons, List.map_nil]
        rw [getD_snoc, List.length_map, hbits_eq]
      · intro i hi
        rw [bitAt_orBit _ _ _ _ (by omega), h.tdi i hi, tdiOf, tdiOf, bitAt_packBits, bitAt_packBits, pins_snoc,
          hclock, List.map_append]
        simp only [Option.toList_some, List.map_cons, List.map_nil]
        rw [getD_snoc, List.length_map, hbits_eq]
      · intro i hi
        rw [h.read i hi, marks_snoc, hclock]
        simp
    · -- TCK stays low
      rename_i htck
      rw [if_neg (fun hc => htck hc.2.2)] at hclock
      have hpins : pins (cs ++ [c]) = pins cs := by rw [pins_snoc, hclock]; exact List.append_nil _
      have hmarks : marks (cs ++ [c]) = marks cs := by rw [marks_snoc, if_neg (fun hc => hnr hc.2), List.append_nil]
      refine returns_pure ⟨rfl, ?_, ?_, htms_size, htdi_size, hread_size, ?_, ?_, ?_⟩
      · rw [hpins, hbits_eq]
      · rw [hmarks, h.read_bits]
      · rw [tmsOf, hpins]
        exact h.tms
      · rw [tdiOf, hpins]
        exact h.tdi
      · rw [hmarks]
        exact h.read
  · rename_i hset
    rw [if_neg (fun hc => hset ⟨hc.1, hc.2.1⟩)] at hclock
    have hpins : pins (cs ++ [c]) = pins cs := by rw [pins_snoc, hclock]; exact List.append_nil _
    split
    · rename_i hread
      have hmarks : marks (cs ++ [c]) = marks cs ++ [(pins cs).length] := by
        rw [marks_snoc, if_pos ⟨by rw [hclock]; rfl, hread⟩]
      refine Returns.of_eq_bind (or_bit_ok (by omega) _ _) ?_
      refine returns_pure ⟨rfl, ?_, ?_, htms_size, htdi_size, ?_, ?_, ?_, ?_⟩
      · rw [hpins, hbits_eq]
      · rw [hmarks, h.read_bits, List.length_append, List.length_singleton]
      · rwa [orBit_length]
      · rw [tmsOf, hpins]
        exact h.tms
      · rw [tdiOf, hpins]
        exact h.tdi
      · intro i hi
        rw [bitAt_orBit _ _ _ _ (by omega), h.read i hi, hmarks, hbits_eq]
        simp [eq_comm]
    · rename_i hread
      have hmarks : marks (cs ++ [c]) = marks cs := by rw [marks_snoc, if_neg (fun hc => hread hc.2), List.append_nil]
      refine returns_pure ⟨rfl, ?_, ?_, htms_size, htdi_size, hread_size, ?_, ?_, ?_⟩
      · rw [hpins, hbits_eq]
      · rw [hmarks, h.read_bits]
      · rw [tmsOf, hpins]
        exact h.tms
      · rw [tdiOf, hpins]
        exact h.tdi
      · rw [hmarks]
        exact h.read

theorem rbb_commands_spec (junk : Junk) (hlen : cs.length ≤ BUFFER_SIZE) :
    Returns (rbb_commands junk cs : RbbProg δ Inputs) s fun a s' => s' = s ∧ Filled ((cs.length + 7) / 8) cs a := by
  have hbytes : (cs.length + 7) / 8 ≤ BUFFER_SIZE := by
    unfold BUFFER_SIZE at *
    omega
  obtain ⟨tms, htms, htms_size, htms_zero⟩ := cleared_spec junk.tms hbytes s
  obtain ⟨tdi, htdi, htdi_size, htdi_zero⟩ := cleared_spec junk.tdi hbytes s
  obtain ⟨read, hread, hread_size, hread_zero⟩ := cleared_spec junk.read hbytes s
  unfold rbb_commands
  refine Returns.of_eq_bind htms (Returns.of_eq_bind htdi (Returns.of_eq_bind hread ?_))
  have hempty : Filled ((cs.length + 7) / 8) [] ⟨0, 0, tms, tdi, read⟩ := by
    refine ⟨rfl, rfl, htms_size, htdi_size, hread_size, ?_, ?_, ?_⟩
    · intro i hi
      rw [htms_zero i hi]
      exact (bitAt_nil i).symm
    · intro i hi
      rw [htdi_zero i hi]
      exact (bitAt_nil i).symm
    · intro i hi
      rw [hread_zero i hi]
      rfl
  have hloop := Returns.forUpto (n := cs.length) (a := (⟨0, 0, tms, tdi, read⟩ : Inputs)) (s := s)
    (f := fun i a => (index cs i >>= fun command => rbb_command command a : RbbProg δ Inputs))
    (fun i a s' => s' = s ∧ Filled ((cs.length + 7) / 8) (cs.take i) a) ⟨rfl, hempty⟩ ?_
  · refine hloop.mono ?_
    rintro a s' ⟨hs, h⟩
    rw [List.take_length] at h
    exact ⟨hs, h⟩
  · rintro i a _ hi ⟨rfl, h⟩
    have hpins := pins_length_le (cs.take i)
    rw [List.length_take] at hpins
    refine Returns.of_eq_bind (index_ok hi _) ?_
    refine (rbb_command_spec h (by omega) hbytes _).mono ?_
    rintro a' s' ⟨hs, h'⟩
    refine ⟨hs, ?_⟩
    rwa [List.getD_eq_getElem _ _ hi, List.take_append_getElem hi] at h'

end

end JtagRemote.Rbb
