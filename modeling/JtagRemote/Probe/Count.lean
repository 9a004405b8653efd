import JtagRemote.Probe.Reset
import JtagRemote.Hardware.Chain

/-!
# What the chain probe finds

The eight bits that are read back count the bypass bits of the chain, so that
eight devices leave nothing to see. With fewer of them, their IDCODEs come out.
-/

namespace JtagRemote

open JtagState

variable {devices : List Device} {st : JtagState} {s : Chain}

/-! ## The walk on a chain -/

theorem chain_to_ir {cs : List Cycle} (h : cs.map Cycle.tms = [false, true, true, false, false]) :
    chainRun devices TestLogicReset s cs = (ShiftIR,
      { s with instructions := devices.map fun _ => none, irs := devices.map Device.ir_capture }) := by
  simp only [List.map_eq_cons_iff, List.map_eq_nil_iff] at h
  obtain ⟨a, _, rfl, ha, b, _, rfl, hb, c, _, rfl, hc, e, _, rfl, he, f, _, rfl, hf, rfl⟩ := h
  simp [chainRun, chainStep, next_state, ha, hb, hc, he, hf]

theorem chain_to_dr {cs : List Cycle} (h : cs.map Cycle.tms = [true, true, false, false]) :
    chainRun devices Exit1IR s cs = (ShiftDR,
      { s with
        instructions := s.irs.map some
        drs := List.zipWith Device.captured devices (s.irs.map some) }) := by
  simp only [List.map_eq_cons_iff, List.map_eq_nil_iff] at h
  obtain ⟨a, _, rfl, ha, b, _, rfl, hb, c, _, rfl, hc, e, _, rfl, he, rfl⟩ := h
  simp [chainRun, chainStep, next_state, ha, hb, hc, he]

theorem chain_reset_to_dr {cs : List Cycle} (h : cs.map Cycle.tms = [false, true, false, false]) :
    chainRun devices TestLogicReset s cs = (ShiftDR,
      { s with
        instructions := devices.map fun _ => none
        drs := List.zipWith Device.captured devices (devices.map fun _ => none) }) := by
  simp only [List.map_eq_cons_iff, List.map_eq_nil_iff] at h
  obtain ⟨a, _, rfl, ha, b, _, rfl, hb, c, _, rfl, hc, e, _, rfl, he, rfl⟩ := h
  simp [chainRun, chainStep, next_state, ha, hb, hc, he]

theorem chain_reset {cs : List Cycle} (h : cs.map Cycle.tms = List.replicate 5 true) :
    (chainRun devices st s cs).1 = TestLogicReset := by
  rw [chainRun_tap, h, five_ones]

theorem scan_tms {cs : List Cycle} {data : List Byte} {m : Nat} {flip : Bool}
    (h : cs.map Cycle.pins = scanPins data (m + 1) flip) :
    cs.map Cycle.tms = List.replicate m false ++ [flip] ∧ cs.map Cycle.tdi = bitsOf data (m + 1) := by
  rw [map_tms_eq, map_tdi_eq, h]
  refine ⟨?_, by simp [scanPins, bitsOf, Function.comp_def]⟩
  rw [scanPins_split data (m + 1) flip (by omega), List.map_append]
  cases flip with
  | true => rw [if_pos rfl, if_pos rfl, dataPins_low]; rfl
  | false =>
    rw [if_neg (by decide), if_neg (by decide), dataPins_low, List.map_nil, List.append_nil,
      List.replicate_succ']

/-- A scan on the chain. -/
theorem chain_scan (devices : List Device) (s : Chain) (hshift : st.isShift = true) {cs : List Cycle} {data : List Byte} {m : Nat} {flip : Bool}
    (h : cs.map Cycle.pins = scanPins data (m + 1) flip) :
    (chainRun devices st s cs).1 = next_state st flip ∧
      Shifted st s (chainRun devices st s cs).2 (bitsOf data (m + 1)) ∧
      (ChainDrives devices st s cs →
        cs.map Cycle.tdo = shiftOuts (s.path st).flatten (bitsOf data (m + 1))) := by
  obtain ⟨htms, htdi⟩ := scan_tms h
  rw [← htdi]
  exact chain_shifts hshift htms

/-! ## Steps 1 to 6 -/

/-- All instruction registers of the chain, full of ones. -/
def allOnes (devices : List Device) : List (List Bool) :=
  devices.map fun dev => List.replicate dev.ir_capture.length true

theorem chain_filled {reset to_ir ones : List Cycle} (hreset : reset.map Cycle.tms = List.replicate 5 true)
    (hto_ir : to_ir.map Cycle.tms = [false, true, true, false, false])
    (hones : ones.map Cycle.pins = scanPins (List.replicate 16 0xFF) 128 true)
    (hir : (devices.map fun dev => dev.ir_capture.length).sum ≤ MAX_TAPS * MAX_IR) :
    (chainRun devices st s (reset ++ to_ir ++ ones)).1 = Exit1IR ∧
      (chainRun devices st s (reset ++ to_ir ++ ones)).2.irs = allOnes devices := by
  have hbits : bitsOf (List.replicate 16 0xFF) 128 = List.replicate 128 true := by decide
  simp only [chainRun_append]
  rw [chain_reset hreset, chain_to_ir hto_ir]
  obtain ⟨htap, hshift, -⟩ := @chain_scan ShiftIR devices { (chainRun devices st s reset).2 with
    instructions := devices.map fun _ => none
    irs := devices.map Device.ir_capture } rfl _ _ _ _ hones
  rw [hbits] at hshift
  have hfull := hshift.full (by simpa [Chain.path, Function.comp_def, MAX_TAPS, MAX_IR] using hir)
  refine ⟨htap, hfull.trans ?_⟩
  simp [Chain.path, allOnes, Function.comp_def]

theorem captured_bypass (devices : List Device) :
    List.zipWith Device.captured devices ((allOnes devices).map some) = devices.map fun _ => [false] := by
  induction devices with
  | nil => rfl
  | cons dev devices ih =>
    rw [allOnes, List.map_cons, List.map_cons, List.zipWith_cons_cons, ← allOnes, ih, List.map_cons]
    exact congrArg (· :: _) dev.bypass

/-- With all ones as the instruction, every device captures the 0 of its BYPASS register. -/
theorem chain_bypassed {to_dr zeros : List Cycle} (hirs : s.irs = allOnes devices)
    (hto_dr : to_dr.map Cycle.tms = [true, true, false, false])
    (hzeros : zeros.map Cycle.pins = scanPins [0] 8 false) :
    (chainRun devices Exit1IR s (to_dr ++ zeros)).1 = ShiftDR ∧
      (chainRun devices Exit1IR s (to_dr ++ zeros)).2.drs.flatten = List.replicate devices.length false := by
  have hbits : bitsOf [0] 8 = List.replicate 8 false := by decide
  have hflat : (devices.map fun _ => [false]).flatten = List.replicate devices.length false := by simp
  rw [chainRun_append, chain_to_dr hto_dr, hirs, captured_bypass]
  obtain ⟨htap, hshift, -⟩ := @chain_scan ShiftDR devices ⟨(allOnes devices).map some, allOnes devices,
    devices.map fun _ => [false]⟩ rfl _ _ _ _ hzeros
  refine ⟨htap, hshift.flat.trans ?_⟩
  have hpath : (⟨(allOnes devices).map some, allOnes devices, devices.map fun _ => [false]⟩ : Chain).path ShiftDR =
      devices.map fun _ => [false] := rfl
  rw [hbits, hpath, hflat, shiftAll_eq, List.replicate_append_replicate, List.length_replicate,
    List.drop_replicate, Nat.add_sub_cancel]

theorem chain_flushed {cs : List Cycle} (h : Flushed cs)
    (hir : (devices.map fun dev => dev.ir_capture.length).sum ≤ MAX_TAPS * MAX_IR) :
    (chainRun devices st s cs).1 = ShiftDR ∧
      (chainRun devices st s cs).2.drs.flatten = List.replicate devices.length false := by
  obtain ⟨reset, to_ir, ones, to_dr, zeros, hflush, rfl⟩ := h
  obtain ⟨htap, hirs⟩ := @chain_filled _ st s _ _ _ hflush.reset hflush.to_ir hflush.ones hir
  rw [List.append_assoc _ to_dr, chainRun_append, htap]
  exact chain_bypassed hirs hflush.to_dr hflush.zeros

/-- The bypass bits come back before the ones that push them out. -/
theorem chain_delay {cs rs : List Cycle} (h : Flushed cs) (hrs : rs.map Cycle.pins = scanPins [0xFF] 8 true)
    (hn : devices.length ≤ MAX_TAPS)
    (hir : (devices.map fun dev => dev.ir_capture.length).sum ≤ MAX_TAPS * MAX_IR)
    (hdrives : ChainDrives devices st s (cs ++ rs)) :
    delay (rs.map Cycle.tdo) = if devices.length < MAX_TAPS then devices.length else 0 := by
  obtain ⟨htap, hdrs⟩ := @chain_flushed _ st s _ h hir
  obtain ⟨-, hdrives⟩ := (chainDrives_append cs rs).mp hdrives
  rw [htap] at hdrives
  obtain ⟨-, -, houts⟩ := @chain_scan ShiftDR devices (chainRun devices st s cs).2 rfl _ _ _ _ hrs
  have hbits : bitsOf [0xFF] 8 = List.replicate 8 true := by decide
  have hcount : ∀ n, n ≤ MAX_TAPS → delay ((List.replicate n false ++ List.replicate 8 true).take 8) =
      if n < MAX_TAPS then n else 0 := by decide
  have hpath : ((chainRun devices st s cs).2.path ShiftDR).flatten = List.replicate devices.length false := hdrs
  rw [houts hdrives, hpath, hbits, shiftOuts_eq, List.length_replicate, hcount _ hn]

/-! ## The IDCODEs -/

theorem captured_idcode (devices : List Device) :
    List.zipWith Device.captured devices (devices.map fun _ => none) =
      devices.map fun dev => idcodeBits dev.idcode := by
  induction devices with
  | nil => rfl
  | cons dev devices ih => simp only [List.map_cons, List.zipWith_cons_cons, ih, Device.captured]

theorem getD_idcodes (devices : List Device) (rest : List Bool) {i j : Nat} (hi : i < devices.length) (hj : j < 32) :
    ((devices.map fun dev => idcodeBits dev.idcode).flatten ++ rest).getD (32 * i + j) false =
      (devices[i]).idcode.getLsbD j := by
  induction devices generalizing i with
  | nil => exact absurd hi (Nat.not_lt_zero i)
  | cons dev devices ih =>
    have hlen : (idcodeBits dev.idcode).length = 32 := by simp [idcodeBits]
    rw [List.map_cons, List.flatten_cons, List.append_assoc]
    cases i with
    | zero =>
      rw [List.getD_append _ _ _ _ (by omega), List.getD_eq_getElem _ _ (by omega)]
      simp [idcodeBits]
    | succ i =>
      rw [List.getD_append_right _ _ _ _ (by omega), hlen]
      have hpos : 32 * (i + 1) + j - 32 = 32 * i + j := by omega
      rw [hpos, ih (by simpa using hi)]
      rfl

theorem chain_idcodes {cs rs : List Cycle} (h : Restores cs)
    (hrs : rs.map Cycle.pins = scanPins (List.replicate 32 0) 256 true) (hn : devices.length ≤ MAX_TAPS)
    (hdrives : ChainDrives devices st s (cs ++ rs)) :
    (List.range devices.length).map (wordAt (rs.map Cycle.tdo)) = devices.map Device.idcode := by
  obtain ⟨reset, to_dr, hreset, hto_dr, rfl⟩ := h
  obtain ⟨-, hdrives⟩ := (chainDrives_append (reset ++ to_dr) rs).mp hdrives
  rw [chainRun_append, chain_reset hreset, chain_reset_to_dr hto_dr, captured_idcode] at hdrives
  obtain ⟨-, -, houts⟩ := @chain_scan ShiftDR devices { (chainRun devices st s reset).2 with
    instructions := devices.map fun _ => none
    drs := devices.map fun dev => idcodeBits dev.idcode } rfl _ _ _ _ hrs
  have houts := houts hdrives
  have hbits : (bitsOf (List.replicate 32 0) 256).length = 256 := bitsOf_length _ _
  rw [shiftOuts_eq, hbits] at houts
  apply List.ext_getElem (by simp)
  intro i hi _
  simp only [List.length_map, List.length_range] at hi
  rw [List.getElem_map, List.getElem_map, List.getElem_range]
  apply BitVec.eq_of_getLsbD_eq
  intro j hj
  rw [getLsbD_wordAt _ _ hj, houts, List.getD_eq_getElem?_getD, List.getElem?_take,
    if_pos (by unfold MAX_TAPS at hn; omega), ← List.getD_eq_getElem?_getD]
  exact getD_idcodes devices _ hi hj

/-! ## The probe -/

section

variable {δ : Type} {d : driver δ} {tap : JtagState} {c : Jtag δ} {log : List Cycle}

theorem probe_chain_spec (T : Tracer (ChainDrives devices tap s) d) (junk : Nat → Byte)
    (h : T.Stands c.state c.dev log) (hn : devices.length ≤ MAX_TAPS)
    (hir : (devices.map fun dev => dev.ir_capture.length).sum ≤ MAX_TAPS * MAX_IR) :
    Returns (jtag_probe_devices d junk) c fun res _ =>
      res = if devices.length < MAX_TAPS then devices.map Device.idcode else [] := by
  refine (jtag_probe_devices_spec T junk tap h).mono ?_
  rintro res c' ⟨cs, rs, n, hcs, hrs, hcount, hpossible, hzero, hpos⟩
  rw [List.append_assoc, chainDrives_append] at hpossible
  rw [chain_delay hcs hrs hn hir hpossible.2] at hcount
  by_cases hnone : n = 0
  · obtain ⟨rfl, -⟩ := hzero hnone
    split
    · rename_i hlt
      rw [if_pos hlt] at hcount
      rw [List.length_eq_zero_iff.mp (hcount.symm.trans hnone), List.map_nil]
    · rfl
  · obtain ⟨cs', rs', reset, hcs', hrs', rfl, hat⟩ := hpos hnone
    have hlt : devices.length < MAX_TAPS := by
      by_contra hge
      rw [if_neg hge] at hcount
      exact hnone hcount
    rw [if_pos hlt] at hcount ⊢
    have hlast := T.possible hat.stands
    rw [List.append_assoc _ cs', List.append_assoc _ (cs' ++ rs'), chainDrives_append] at hlast
    have hread := ((chainDrives_append (cs' ++ rs') reset).mp hlast.2).1
    rw [hcount]
    exact chain_idcodes hcs' hrs' hn hread

/-- The probe finds exactly the devices of the chain, in their order, as long as there are fewer
than `MAX_TAPS` of them. -/
theorem jtag_probe_devices_finds (T : Tracer (ChainDrives devices tap s) d) (junk : Nat → Byte)
    (h : T.Stands c.state c.dev log) (hn : devices.length ≤ MAX_TAPS)
    (hir : (devices.map fun dev => dev.ir_capture.length).sum ≤ MAX_TAPS * MAX_IR) :
    (∃ c', jtag_probe_devices d junk c = .ok (devices.map Device.idcode) c') ↔ devices.length < MAX_TAPS := by
  obtain ⟨res, c', hrun, rfl⟩ := probe_chain_spec T junk h hn hir
  rw [hrun]
  constructor
  · rintro ⟨c'', heq⟩
    by_contra hge
    rw [if_neg hge] at heq
    have hnil : [] = devices.map Device.idcode := congrArg (fun r => (answer r).getD []) heq
    rw [eq_comm, List.map_eq_nil_iff] at hnil
    subst hnil
    exact hge (by decide)
  · intro hlt
    exact ⟨c', by rw [if_pos hlt]⟩

end

/-! ## Chains on a bench -/

/-- A device with an instruction register of four bits. -/
def plainDevice (idcode : BitVec 32) (h : idcode.getLsbD 0 = true) : Device :=
  ⟨idcode, [true, false, false, false], fun _ => [false], h, rfl⟩

/-- The registers of a chain that was never reset. -/
def usedChain : Chain := ⟨[some [true, false]], [[true]], [[true, true]]⟩

theorem usedChain_filled : usedChain.Filled := ⟨by decide, by decide, by decide⟩

/-- The mpsse driver on a chain of at least one device. -/
def chainTracer (idcode : BitVec 32) (h : idcode.getLsbD 0 = true) (rest : List Device) (st : JtagState) :
    Tracer (ChainDrives (plainDevice idcode h :: rest) st usedChain)
      (mpsse_driver (mpsseUsb (chainBoard (plainDevice idcode h :: rest) st usedChain) Mpsse.idleEngine)
        (100 + 0) 15) :=
  ((benchProber (chainBoard (plainDevice idcode h :: rest) st usedChain)).tracer []).mono fun _ =>
    chainBoard_drives (List.cons_ne_nil _ _) (fun _ => List.cons_ne_nil _ _) usedChain_filled

theorem chainTracer_stands (idcode : BitVec 32) (h : idcode.getLsbD 0 = true) (rest : List Device)
    (st st' : JtagState) :
    (chainTracer idcode h rest st).Stands (benchMpsse st').state (benchMpsse st').dev [] :=
  ⟨⟨[], rfl, rfl⟩, false, benchMpsse_stands _ st'⟩

theorem jtag_probe_devices_finds_two :
    (∃ c', jtag_probe_devices (mpsse_driver (mpsseUsb (chainBoard
        [plainDevice 0x4BA00477 rfl, plainDevice 0x06413041 rfl] PauseIR usedChain) Mpsse.idleEngine) (100 + 0) 15)
      (fun _ => 0xA5) (benchMpsse RunTestIdle) =
        .ok ([plainDevice 0x4BA00477 rfl, plainDevice 0x06413041 rfl].map Device.idcode) c') ↔
      [plainDevice 0x4BA00477 rfl, plainDevice 0x06413041 rfl].length < MAX_TAPS :=
  jtag_probe_devices_finds (chainTracer 0x4BA00477 rfl [plainDevice 0x06413041 rfl] PauseIR) (fun _ => 0xA5)
    (chainTracer_stands _ rfl _ PauseIR RunTestIdle) (by decide) (by decide)

/-- Eight devices are within `MAX_TAPS`, and none of them is found. -/
theorem jtag_probe_devices_misses_eight :
    ∃ c', jtag_probe_devices (mpsse_driver (mpsseUsb (chainBoard
        (List.replicate 8 (plainDevice 0x06413041 rfl)) TestLogicReset usedChain) Mpsse.idleEngine) (100 + 0) 15)
      (fun _ => 0) (benchMpsse TestLogicReset) = .ok [] c' ∧
    (List.replicate 8 (plainDevice 0x06413041 rfl)).map Device.idcode ≠ [] := by
  obtain ⟨res, c', hrun, hres⟩ := probe_chain_spec
    (chainTracer 0x06413041 rfl (List.replicate 7 (plainDevice 0x06413041 rfl)) TestLogicReset) (fun _ => 0)
    (chainTracer_stands _ rfl _ TestLogicReset TestLogicReset) (by decide) (by decide)
  rw [if_neg (by decide)] at hres
  subst hres
  exact ⟨c', hrun, by decide⟩

end JtagRemote
