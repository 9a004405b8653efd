import JtagRemote.Probe.Walk

/-!
# Where the chain probe leaves the TAP

The count comes from what TDO answers. With no device found the probe returns at
once, and the reset that follows the read of the IDCODEs is not made.
-/

namespace JtagRemote

open JtagState

/-! ## The answers of TDO -/

/-- TDO goes through a sequence, one bit a cycle. -/
def Answers (answers : Nat → Bool) (log : List Cycle) : Prop :=
  ∀ i, i < log.length → (log.map Cycle.tdo).getD i false = answers i

theorem Answers.of_append {answers : Nat → Bool} {log rs : List Cycle} (h : Answers answers (log ++ rs)) {i : Nat}
    (hi : i < rs.length) : (rs.map Cycle.tdo).getD i false = answers (log.length + i) := by
  rw [← h (log.length + i) (by rw [List.length_append]; omega), List.map_append,
    List.getD_append_right _ _ _ _ (by simp), List.length_map, Nat.add_sub_cancel_left]

/-- Something is counted when the first answer is low and a later one is not. -/
theorem delay_ne_zero (tdo : List Bool) :
    delay tdo ≠ 0 ↔ tdo.getD 0 false = false ∧ ∃ i, i < MAX_TAPS ∧ tdo.getD i false = true := by
  unfold delay
  cases hfind : (List.range MAX_TAPS).find? fun i => tdo.getD i false with
  | none =>
    rw [List.find?_eq_none] at hfind
    constructor
    · intro hne
      exact absurd rfl hne
    · rintro ⟨-, i, hi, hbit⟩
      exact absurd hbit (hfind i (List.mem_range.mpr hi))
  | some k =>
    have hbit := List.find?_some hfind
    have hk := List.mem_range.mp (List.mem_of_find?_eq_some hfind)
    constructor
    · intro hne
      refine ⟨?_, k, hk, hbit⟩
      have hmin := (List.find?_range_eq_some.mp hfind).2.2 0 (Nat.pos_of_ne_zero hne)
      simpa using hmin
    · rintro ⟨hlow, -⟩ hzero
      obtain rfl : k = 0 := hzero
      rw [hlow] at hbit
      cases hbit

theorem length_of_pins {cs : List Cycle} {data : List Byte} {n : Nat} {flip : Bool}
    (h : cs.map Cycle.pins = scanPins data n flip) : cs.length = n := by
  have hlen := congrArg List.length h
  simpa [scanPins] using hlen

theorem Flushed.length {cs : List Cycle} (h : Flushed cs) : cs.length = 150 := by
  obtain ⟨reset, to_ir, ones, to_dr, zeros, hflush, rfl⟩ := h
  have h₁ := congrArg List.length hflush.reset
  have h₂ := congrArg List.length hflush.to_ir
  have h₃ := length_of_pins hflush.ones
  have h₄ := congrArg List.length hflush.to_dr
  have h₅ := length_of_pins hflush.zeros
  simp only [List.length_map, List.length_replicate, List.length_cons, List.length_nil] at h₁ h₂ h₄
  simp only [List.length_append]
  omega

/-! ## The result -/

section

variable {δ : Type} {answers : Nat → Bool} {d : driver δ} (T : Tracer (Answers answers) d) {c : Jtag δ}
  {log : List Cycle}

/-- The probe always returns, and it leaves both the server and the TAP in reset just when the
first of the eight answers is low and one of the others is not. -/
theorem jtag_probe_devices_resets (junk : Nat → Byte) (tap : JtagState) (h : T.Stands c.state c.dev log) :
    ∃ res c' log', jtag_probe_devices d junk c = .ok res c' ∧ T.Stands c'.state c'.dev log' ∧
      (c'.state = TestLogicReset ∧ stateAfter tap (log'.map Cycle.tms) = TestLogicReset ↔
        answers (log.length + 150) = false ∧ ∃ i, i < MAX_TAPS ∧ answers (log.length + 150 + i) = true) := by
  obtain ⟨res, c', hrun, cs, rs, n, hcs, hrs, hn, hpossible, hzero, hpos⟩ := jtag_probe_devices_spec T junk tap h
  have hlen : (log ++ cs).length = log.length + 150 := by rw [List.length_append, hcs.length]
  have htdo : ∀ i, i < MAX_TAPS → (rs.map Cycle.tdo).getD i false = answers (log.length + 150 + i) := by
    intro i hi
    rw [hpossible.of_append (by rw [length_of_pins hrs]; exact hi), hlen]
  have hcount : n ≠ 0 ↔ answers (log.length + 150) = false ∧
      ∃ i, i < MAX_TAPS ∧ answers (log.length + 150 + i) = true := by
    rw [hn, delay_ne_zero, htdo 0 (by decide)]
    refine and_congr_right fun _ => exists_congr fun i => and_congr_right fun hi => ?_
    rw [htdo i hi]
  by_cases hdone : n = 0
  · obtain ⟨-, hat⟩ := hzero hdone
    refine ⟨res, c', _, hrun, hat.stands, ?_⟩
    rw [← hcount, hat.state]
    simp [hdone]
  · obtain ⟨cs', rs', reset, -, -, -, hat⟩ := hpos hdone
    refine ⟨res, c', _, hrun, hat.stands, ?_⟩
    rw [← hcount]
    exact iff_of_true ⟨hat.state, hat.tap⟩ hdone

end

/-! ## On a bench -/

def sequenceBoard (answers : Nat → Bool) : Board := ⟨fun log => answers log.length, fun _ => 0⟩

theorem sequenceBoard_answers {answers : Nat → Bool} {log : List Cycle}
    (h : (sequenceBoard answers).Since [] log) : Answers answers log := by
  obtain ⟨cs, rfl, hran⟩ := h
  intro i hi
  have hget := hran.tdo (List.getElem?_eq_getElem hi)
  rw [List.getD_eq_getElem _ _ (by simpa using hi), List.getElem_map, hget]
  simp [sequenceBoard, Nat.le_of_lt hi]

abbrev benchProber (board : Board) : Prober board (mpsse_driver (mpsseUsb board Mpsse.idleEngine) (100 + 0) 15) :=
  mpsseProber board (mpsseUsb board Mpsse.idleEngine) Mpsse.idleEngine 0 15 (mpsseUsb_delivers board Mpsse.idleEngine)

/-- The mpsse driver, on hardware that answers with a sequence. -/
def benchTracer (answers : Nat → Bool) : Tracer (Answers answers)
    (mpsse_driver (mpsseUsb (sequenceBoard answers) Mpsse.idleEngine) (100 + 0) 15) :=
  ((benchProber (sequenceBoard answers)).tracer []).mono fun _ => sequenceBoard_answers

theorem benchTracer_stands (answers : Nat → Bool) (st : JtagState) :
    (benchTracer answers).Stands (benchMpsse st).state (benchMpsse st).dev [] :=
  ⟨⟨[], rfl, rfl⟩, false, benchMpsse_stands (sequenceBoard answers) st⟩

/-- One low answer, and then high ones: a chain of one device. -/
theorem jtag_probe_devices_resets_one :
    ∃ res c' log', jtag_probe_devices
        (mpsse_driver (mpsseUsb (sequenceBoard fun i => decide (150 < i)) Mpsse.idleEngine) (100 + 0) 15)
        (fun _ => 0xA5) (benchMpsse ShiftIR) = .ok res c' ∧
      (benchTracer fun i => decide (150 < i)).Stands c'.state c'.dev log' ∧
      (c'.state = TestLogicReset ∧ stateAfter PauseDR (log'.map Cycle.tms) = TestLogicReset ↔
        decide (150 < 0 + 150) = false ∧ ∃ i, i < MAX_TAPS ∧ decide (150 < 0 + 150 + i) = true) :=
  jtag_probe_devices_resets (benchTracer fun i => decide (150 < i)) (fun _ => 0xA5) PauseDR
    (benchTracer_stands _ ShiftIR)

theorem bench_seen {board : Board} {c : Jtag Mpsse} {l : Line}
    (h : (benchMpsseAdapter board).Stands c.state c.dev l) : mpsseSeen board Mpsse.idleEngine c = l.log :=
  mpsseSeen_eq h

/-- TDO is stuck at 0: the probe returns with the server and the TAP in Exit1DR. -/
theorem jtag_probe_devices_leaves_exit :
    ∃ c', jtag_probe_devices
        (mpsse_driver (mpsseUsb (sequenceBoard fun _ => false) Mpsse.idleEngine) (100 + 0) 15) (fun _ => 0)
        (benchMpsse RunTestIdle) = .ok [] c' ∧ c'.state = Exit1DR ∧
      stateAfter RunTestIdle ((mpsseSeen (sequenceBoard fun _ => false) Mpsse.idleEngine c').map Cycle.tms) =
        Exit1DR := by
  obtain ⟨res, c', hrun, cs, rs, n, hcs, hrs, hn, hpossible, hzero, -⟩ :=
    jtag_probe_devices_spec (benchTracer fun _ => false) (fun _ => 0) RunTestIdle (benchTracer_stands _ RunTestIdle)
  have hnone : n = 0 := by
    by_contra hne
    rw [hn, ← ne_eq, delay_ne_zero] at hne
    obtain ⟨-, i, hi, hbit⟩ := hne
    rw [hpossible.of_append (by rw [length_of_pins hrs]; exact hi)] at hbit
    cases hbit
  obtain ⟨rfl, hat⟩ := hzero hnone
  obtain ⟨-, tms, hstands⟩ := hat.stands
  have hseen : mpsseSeen (sequenceBoard fun _ => false) Mpsse.idleEngine c' = [] ++ cs ++ rs :=
    bench_seen hstands
  refine ⟨c', hrun, hat.state, ?_⟩
  rw [hseen]
  exact hat.tap

end JtagRemote
