import JtagRemote.Probe.Count
import JtagRemote.Xvc.Refine

/-!
# Who is on the chain

A client that resets the TAP and shifts out the data registers reads the IDCODEs of all
devices, in their order. The chain may be as long as it likes.
-/

namespace JtagRemote.Xvc

open JtagState

/-- The TMS bits of a reset, of the way to ShiftDR, and of 32 cycles for each of `n` devices. -/
def idcodeTms (n : Nat) : List Bool :=
  List.replicate 5 true ++ [false, true, false, false] ++ List.replicate (32 * n) false

theorem idcodeTms_length (n : Nat) : (idcodeTms n).length = 9 + 32 * n := by
  simp [idcodeTms]
  omega

/-- The cycles of some pins, with TDO left out. -/
def played (ps : List Pins) : List Cycle := ps.map fun p => ⟨p.tms, p.tdi, false⟩

theorem played_pins (ps : List Pins) : (played ps).map Cycle.pins = ps := by
  simp [played, Cycle.pins, Function.comp_def]

theorem played_tms (ps : List Pins) : (played ps).map Cycle.tms = ps.map Pins.tms := by
  simp [played, Function.comp_def]

/-- A reset and the way to ShiftDR have the IDCODEs captured. -/
theorem chain_captures (devices : List Device) (q : JtagState × Chain) {reset way : List Pins}
    (hreset : reset.map Pins.tms = List.replicate 5 true) (hway : way.map Pins.tms = [false, true, false, false]) :
    ∃ s, (chainTarget devices).machine.run q (reset ++ way) = (ShiftDR, s) ∧
      s.drs = devices.map fun dev => idcodeBits dev.idcode := by
  have hrun : ∀ (q : JtagState × Chain) (ps : List Pins),
      (chainTarget devices).machine.run q ps = chainRun devices q.1 q.2 (played ps) := by
    intro q ps
    rw [← chainTarget_run, played_pins]
  rw [← played_tms] at hreset hway
  have hcaptured := @chain_reset_to_dr devices (chainRun devices q.1 q.2 (played reset)).2 _ hway
  rw [captured_idcode] at hcaptured
  rw [Mealy.run_append, hrun, hrun, chain_reset hreset, hcaptured]
  exact ⟨_, rfl, rfl⟩

/-- A row of cycles with these TMS bits reads them from the chain, whatever it shifts in. -/
theorem chain_identifies (devices : List Device) (q : JtagState × Chain) {ps : List Pins}
    (htms : ps.map Pins.tms = idcodeTms devices.length) :
    ((chainTarget devices).machine.outs q ps).drop 9 = devices.flatMap fun dev => idcodeBits dev.idcode := by
  have hlen : ps.length = 9 + 32 * devices.length := by
    rw [← List.length_map (f := Pins.tms), htms, idcodeTms_length]
  obtain ⟨head, tail, rfl, hhead, htail⟩ := List.map_eq_append_iff.mp htms
  obtain ⟨reset, way, rfl, hreset, hway⟩ := List.map_eq_append_iff.mp hhead
  obtain ⟨s, hrun, hdrs⟩ := chain_captures devices q hreset hway
  have hflat : (s.path ShiftDR).flatten = devices.flatMap fun dev => idcodeBits dev.idcode := by
    show s.drs.flatten = _
    rw [hdrs, List.flatMap_def]
  have hcodes : (devices.flatMap fun dev => idcodeBits dev.idcode).length = 32 * devices.length := by
    simp [List.length_flatMap, idcodeBits, Nat.mul_comm]
  have hfront : (reset ++ way).length = 9 := by
    simpa using congrArg List.length hhead
  have hback : tail.length = 32 * devices.length := by
    rw [List.length_append, hfront] at hlen
    omega
  rw [Mealy.outs_append, List.drop_left' (by rw [Mealy.outs_length, hfront]), hrun]
  cases devices with
  | nil =>
    rw [List.length_eq_zero_iff.mp hback]
    rfl
  | cons dev devices =>
    have hfilled : (s.path ShiftDR).flatten ≠ [] := by
      apply List.ne_nil_of_length_pos
      rw [hflat, hcodes, List.length_cons]
      omega
    have hlow : ∀ p ∈ tail, p.tms = false := by
      intro p hp
      have hmem := List.mem_map_of_mem (f := Pins.tms) hp
      rw [htail] at hmem
      exact List.eq_of_mem_replicate hmem
    rw [chain_outs _ rfl hfilled hlow, shiftOuts_eq, hflat, List.length_map, hback, ← hcodes, List.take_left]

section

variable {δ : Type} {devices : List Device} {q₀ q : JtagState × Chain} {noise : List Cycle → Byte} {d : driver δ}
  (A : Adapter ((chainTarget devices).board q₀ noise) d) {s : Xvc δ}

/-- Behind the nine bits of the way, the client reads the IDCODEs. -/
theorem xvc_reads_idcodes (hroom : ∀ k, A.Room k) (hticks : ∀ n, A.ticks n = n) (h : Serving A s q)
    {batches : List (List Shift)}
    (hfits : ∀ shs ∈ batches, (encodeAll (shs.map Command.shift)).length ≤ BUFFER_SIZE)
    (htms : batches.flatten.flatMap Shift.tmsBits = idcodeTms devices.length) :
    Returns (serve d (batches.map (List.map Command.shift))) s fun _ t => ∃ bytes,
      t.sock.written = s.sock.written ++ bytes ∧
      (tdoBits batches.flatten bytes).drop 9 = devices.flatMap fun dev => idcodeBits dev.idcode := by
  have hpins : (batches.flatten.flatMap Shift.pins).map Pins.tms = idcodeTms devices.length := by
    rw [← htms]
    simp [List.map_flatMap, Shift.pins_tms]
  apply (serve_shifts_spec A hroom hticks h hfits).mono
  rintro _ t ⟨bytes, hwritten, hbits, -⟩
  exact ⟨bytes, hwritten, by rw [hbits, chain_identifies devices q hpins]⟩

end

/-! ## On a bench -/

def twoDevices : List Device := [plainDevice 0x4BA00477 rfl, plainDevice 0x06413041 rfl]

/-- The way and the first device, and then the second one. -/
def idcodeBatches : List (List Shift) :=
  [[⟨9, [0x5F, 0x00], [0, 0], by decide, rfl, rfl⟩,
      ⟨32, List.replicate 4 0, List.replicate 4 0xFF, by decide, rfl, rfl⟩],
    [⟨32, List.replicate 4 0, List.replicate 4 0xA5, by decide, rfl, rfl⟩]]

theorem chain_serving (st : JtagState) (s : Chain) :
    Serving (T := chainTarget twoDevices) (benchMpsseAdapter ((chainTarget twoDevices).board (st, s) fun _ => 0))
      (fresh (benchMpsse st)) (st, s) :=
  ⟨fresh_ok _, (by decide : (0 : Int) ≤ 4), rfl, rfl, [], false, benchMpsse_stands _ st, rfl⟩

theorem xvc_reads_idcodes_two :
    Returns (serve (mpsse_driver (mpsseUsb ((chainTarget twoDevices).board (PauseIR, usedChain) fun _ => 0)
        Mpsse.idleEngine) (100 + 0) 15) (idcodeBatches.map (List.map Command.shift))) (fresh (benchMpsse PauseIR))
      fun _ t => ∃ bytes, t.sock.written = [] ++ bytes ∧
        (tdoBits idcodeBatches.flatten bytes).drop 9 = twoDevices.flatMap fun dev => idcodeBits dev.idcode :=
  xvc_reads_idcodes (benchMpsseAdapter _) (fun _ => trivial) (fun _ => rfl) (chain_serving PauseIR usedChain)
    (by decide) (by decide +kernel)

end JtagRemote.Xvc
