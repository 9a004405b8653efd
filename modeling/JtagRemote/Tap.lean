import JtagRemote.Arrays

/-!
# The TAP, and the calls of `common.cpp`

Each call counts its bits, moves the TAP if it is a TMS sequence, and goes to the
driver.
-/

namespace JtagRemote

open JtagState

/-- The TAP state after some TMS bits. -/
def stateAfter (st : JtagState) (tms : List Bool) : JtagState := tms.foldl next_state st

@[simp] theorem stateAfter_nil (st : JtagState) : stateAfter st [] = st := rfl

theorem stateAfter_append (st : JtagState) (tms tms' : List Bool) :
    stateAfter st (tms ++ tms') = stateAfter (stateAfter st tms) tms' := List.foldl_append

theorem stateAfter_idle (n : Nat) : stateAfter RunTestIdle (List.replicate n false) = RunTestIdle := by
  induction n with
  | zero => rfl
  | succ n ih => exact ih

theorem five_ones (st : JtagState) : stateAfter st (List.replicate 5 true) = TestLogicReset := by
  cases st <;> rfl

/-- Data is shifted in two of the states. -/
def JtagState.isShift (st : JtagState) : Bool := st == ShiftDR || st == ShiftIR

/-- A Shift state is only entered, and kept, with TMS low. -/
theorem next_shift {st : JtagState} {b : Bool} (h : (next_state st b).isShift = true) : b = false := by
  revert h
  cases st <;> cases b <;> decide

theorem shift_low {st : JtagState} {tms : List Bool} (hne : tms ≠ [])
    (h : (stateAfter st tms).isShift = true) : tms.getLastD true = false := by
  obtain ⟨us, b, rfl⟩ := List.eq_nil_or_concat' tms |>.resolve_left hne
  rw [stateAfter_append] at h
  simpa using next_shift h

/-- The TAP state that a scan leaves: the drivers count the cycle with TMS high. -/
def stateAfterScan (st : JtagState) (flip : Bool) : JtagState :=
  if flip then next_state st true else st

variable {δ : Type} (adapter : driver δ)

def withCount (c : Jtag δ) (n : Nat) : Jtag δ := { c with bits_send := (c.bits_send + n) % 2 ^ 64 }

theorem count_bits_ok (n : Nat) (c : Jtag δ) : count_bits n c = .ok () (withCount c n) := rfl

/-- The TAP state follows the TMS bits, and the driver gets them. -/
theorem jtag_tms_seq_eq (data : List Byte) (n : Nat) (c : Jtag δ) (hlen : n ≤ 8 * data.length) :
    jtag_tms_seq adapter data n c =
      adapter.jtag_tms_seq data n
        { withCount c n with state := stateAfter c.state (bitsOf data n) } := by
  have hfold : Returns (forUpto n c.state fun i new_state => do
      let bit ← bit_of data i
      pure (next_state new_state bit) : EStateM Fault (Jtag δ) JtagState) (withCount c n)
      fun st d => d = withCount c n ∧ st = stateAfter c.state (bitsOf data n) := by
    refine Returns.forUpto (fun i st d => d = withCount c n ∧ st = stateAfter c.state (bitsOf data i))
      ⟨rfl, rfl⟩ ?_
    rintro i _ _ hi ⟨rfl, rfl⟩
    refine Returns.of_eq_bind (bit_of_ok (by omega) _) ?_
    refine returns_pure ⟨rfl, ?_⟩
    rw [bitsOf_succ, stateAfter_append]
    rfl
  obtain ⟨_, _, hrun, rfl, rfl⟩ := hfold
  unfold jtag_tms_seq
  rw [bind_of_ok (count_bits_ok n c), bind_of_ok (get_apply _)]
  exact bind_of_ok hrun

theorem jtag_scan_chain_send_eq (data : List Byte) (n : Nat) (flip read : Bool) (c : Jtag δ) :
    jtag_scan_chain_send adapter data n flip read c =
      adapter.jtag_scan_chain_send data n flip read (withCount c n) := rfl

theorem jtag_clock_tck_eq (n : Nat) (c : Jtag δ) :
    jtag_clock_tck adapter n c = adapter.jtag_clock_tck n (withCount c n) := rfl

end JtagRemote
