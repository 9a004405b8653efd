import JtagRemote.Hardware.Target
import JtagRemote.Probe.Walk
import JtagRemote.Vpi.Tick

/-!
# jtag_vpi as a cable

A record clocks the target, and a scan is answered with the bits that it shifted out.
Records come in any number of reads, and go to any driver that scans.
-/

namespace JtagRemote.Vpi

open JtagState JtagVpiCommand

/-! ## The cable -/

/-- The scans, and whether they flip TMS. -/
def JtagVpiCmd.scan (r : JtagVpiCmd) : Option Bool :=
  if r.cmd.toNat = CMD_SCAN_CHAIN.value then some false
  else if r.cmd.toNat = CMD_SCAN_CHAIN_FLIP_TMS.value then some true
  else none

/-- The cycles that a record asks for. -/
def JtagVpiCmd.pins (r : JtagVpiCmd) : List Pins :=
  if r.cmd.toNat = CMD_RESET.value then List.replicate 5 ⟨true, false⟩
  else if r.cmd.toNat = CMD_TMS_SEQ.value then (bitsOf r.buffer_out r.nb_bits.toNat).map fun b => ⟨b, false⟩
  else match r.scan with
    | some flip => scanPins r.buffer_out r.nb_bits.toNat flip
    | none => []

def cable {σ : Type} (T : Target σ) : Mealy (JtagState × σ) JtagVpiCmd (List Byte) where
  step q r := T.machine.run q r.pins
  out q r := if r.scan.isSome then splice r.bytes BUFFER_IN (inBuffer SIZEOF_BUFFER (T.machine.outs q r.pins)) else []

/-- A scan starts where data is shifted, and nothing else shifts any. -/
def JtagVpiCmd.Apt (st : JtagState) (r : JtagVpiCmd) : Prop :=
  if r.scan.isSome then st.isShift = true
  else ∀ i, i < r.pins.length → (stateAfter st ((r.pins.map Pins.tms).take i)).isShift = false

def AllApt : JtagState → List JtagVpiCmd → Prop
  | _, [] => True
  | st, r :: rs => r.Valid ∧ r.Apt st ∧ AllApt (stateAfter st (r.pins.map Pins.tms)) rs

theorem allApt_valid {st : JtagState} {rs : List JtagVpiCmd} (h : AllApt st rs) : ∀ r ∈ rs, r.Valid := by
  induction rs generalizing st with
  | nil => exact fun r hr => by cases hr
  | cons r rs ih =>
    obtain ⟨hvalid, -, hrest⟩ := h
    exact List.forall_mem_cons.mpr ⟨hvalid, ih hrest⟩

/-! ## The cycles of a record -/

/-- Data is shifted in all cycles of a scan. -/
theorem scanPins_shift {st : JtagState} (h : st.isShift = true) {data : List Byte} {n : Nat} {flip : Bool} {i : Nat}
    (hi : i < n) : (stateAfter st (((scanPins data n flip).map Pins.tms).take i)).isShift = true := by
  have hlow : ((scanPins data n flip).map Pins.tms).take i = List.replicate i false := by
    apply List.ext_getElem
    · simp [scanPins, Nat.le_of_lt hi]
    · intro j hj hj'
      rw [List.length_replicate] at hj'
      have hlast : ¬ j + 1 = n := by omega
      simp [scanPins, hlast]
  rw [hlow, stateAfter_low h, h]

theorem shiftBits_scan {st : JtagState} (h : st.isShift = true) {data : List Byte} {n : Nat} {flip : Bool}
    {cyc : List Cycle} (hcyc : cyc.map Cycle.pins = scanPins data n flip) :
    shiftBits st cyc = cyc.map Cycle.tdo := by
  have hlen : cyc.length = n := by simpa [scanPins] using congrArg List.length hcyc
  apply List.ext_getElem?
  intro i
  rw [shiftBits_getElem?, List.getElem?_map]
  by_cases hi : i < cyc.length
  · have hshift : (stateAfter st (((scanPins data n flip).map Pins.tms).take i)).isShift = true :=
      scanPins_shift h (hlen ▸ hi)
    rw [← hcyc, ← map_tms_eq] at hshift
    simp [List.getElem?_eq_getElem hi, hshift]
  · rw [List.getElem?_eq_none (Nat.le_of_not_lt hi)]
    rfl

/-- Without a shift, TDI does not count. -/
theorem same_of_quiet {st : JtagState} {ps ps' : List Pins} (htms : ps.map Pins.tms = ps'.map Pins.tms)
    (hquiet : ∀ i, i < ps'.length → (stateAfter st ((ps'.map Pins.tms).take i)).isShift = false) :
    SameAsked st ps ps' := by
  refine ⟨htms, ?_⟩
  intro i hshift
  rw [htms] at hshift
  have hlen : ps.length = ps'.length := by simpa using congrArg List.length htms
  by_cases hi : i < ps'.length
  · rw [hquiet i hi] at hshift
    cases hshift
  · rw [List.getElem?_eq_none (hlen ▸ Nat.le_of_not_lt hi), List.getElem?_eq_none (Nat.le_of_not_lt hi)]

/-- A record is a scan, or is not answered. -/
theorem Performs.kind {st st' : JtagState} {r : JtagVpiCmd} {cyc : List Cycle} {bytes : List Byte}
    (h : Performs st r cyc bytes st') :
    (r.scan = none ∧ bytes = [] ∧ cyc.map Cycle.tms = r.pins.map Pins.tms ∧
      st' = stateAfter st (r.pins.map Pins.tms)) ∨
    ∃ flip recv, ∃ hrecv : recv.length = SIZEOF_BUFFER, r.scan = some flip ∧
      r.pins = scanPins r.buffer_out r.nb_bits.toNat flip ∧
      ScanCycles st r.buffer_out r.nb_bits.toNat flip (cyc.map Cycle.pins) ∧ Holds recv (cyc.map Cycle.tdo) ∧
      bytes = (r.reply recv hrecv).bytes ∧ st' = stateAfterScan st flip := by
  cases h with
  | reset hcmd _ htms =>
    left
    have hpins : r.pins = List.replicate 5 ⟨true, false⟩ := if_pos hcmd
    refine ⟨?_, rfl, ?_, ?_⟩
    · simp [JtagVpiCmd.scan, hcmd, JtagVpiCommand.value]
    · rw [htms, hpins, List.map_replicate]
    · rw [hpins, List.map_replicate, five_ones]
  | tms_seq hcmd htms =>
    left
    have hpins : r.pins.map Pins.tms = bitsOf r.buffer_out r.nb_bits.toNat := by
      simp [JtagVpiCmd.pins, hcmd, JtagVpiCommand.value, Function.comp_def]
    refine ⟨?_, rfl, ?_, ?_⟩
    · simp [JtagVpiCmd.scan, hcmd, JtagVpiCommand.value]
    · rw [htms, hpins]
    · rw [hpins]
  | @scan _ recv hrecv flip hcmd hcycles hholds =>
    right
    refine ⟨flip, recv, hrecv, ?_, ?_, hcycles, hholds, rfl, rfl⟩
    · cases flip <;> simp [JtagVpiCmd.scan, hcmd, JtagVpiCommand.value]
    · cases flip <;> simp [JtagVpiCmd.pins, JtagVpiCmd.scan, hcmd, JtagVpiCommand.value]
  | other hcmd =>
    left
    have hcmd : 3 < r.cmd.toNat := hcmd
    have h0 : ¬ r.cmd.toNat = 0 := by omega
    have h1 : ¬ r.cmd.toNat = 1 := by omega
    have h2 : ¬ r.cmd.toNat = 2 := by omega
    have h3 : ¬ r.cmd.toNat = 3 := by omega
    simp [JtagVpiCmd.pins, JtagVpiCmd.scan, JtagVpiCommand.value, h0, h1, h2, h3]

section

variable {σ : Type} {T : Target σ} {q₀ : JtagState × σ} {noise : List Cycle → Byte}

/-- A record is answered as the target answers it. -/
theorem Performs.answered {st st' : JtagState} {r : JtagVpiCmd} {cyc log : List Cycle} {bytes : List Byte}
    (h : Performs st r cyc bytes st') (hvalid : r.Valid) (hapt : r.Apt st) (hran : (T.board q₀ noise).Ran log cyc)
    (hst : st = (T.machine.run q₀ (log.map Cycle.pins)).1) :
    bytes = (cable T).out (T.machine.run q₀ (log.map Cycle.pins)) r ∧
      T.machine.run q₀ ((log ++ cyc).map Cycle.pins) = (cable T).step (T.machine.run q₀ (log.map Cycle.pins)) r ∧
      st' = stateAfter st (r.pins.map Pins.tms) := by
  unfold JtagVpiCmd.Apt at hapt
  rcases h.kind with ⟨hscan, rfl, htms, hend⟩ | ⟨flip, recv, hrecv, hscan, hpins, hcycles, hholds, rfl, rfl⟩
  · rw [hscan] at hapt
    have hsame : SameAsked st (cyc.map Cycle.pins) r.pins := same_of_quiet (by rw [← map_tms_eq, htms]) hapt
    rw [hst] at hsame
    exact ⟨by simp [cable, hscan], (Target.answers hran hsame).2, hend⟩
  · rw [hscan] at hapt
    have hcyc := hcycles.exact hapt
    have hsame : SameAsked st (cyc.map Cycle.pins) r.pins := by
      rw [hcyc, hpins]
      exact .refl _ _
    have htdo := shiftBits_scan hapt hcyc
    rw [hst] at hsame htdo
    obtain ⟨hbits, hrun⟩ := Target.answers hran hsame
    rw [← htdo, hbits] at hholds
    have hfits : ((T.machine.outs (T.machine.run q₀ (log.map Cycle.pins)) r.pins).length + 7) / 8 ≤ SIZEOF_BUFFER := by
      have := hvalid.2
      rw [Mealy.outs_length, hpins, scanPins, List.length_map, List.length_range]
      omega
    have hbuffer := hholds.eq_inBuffer hrecv hfits
    refine ⟨?_, hrun, ?_⟩
    · rw [← r.splice_in hrecv, hbuffer]
      simp [cable, hscan]
    · rw [hpins, stateAfter_scan hapt _ flip hvalid.1]

/-- Records one after the other. -/
theorem Plays.answered {st st' : JtagState} {rs : List JtagVpiCmd} {cyc log : List Cycle} {bytes : List Byte}
    (h : Plays st rs cyc bytes st') (hapt : AllApt st rs) (hran : (T.board q₀ noise).Ran log cyc)
    (hst : st = (T.machine.run q₀ (log.map Cycle.pins)).1) :
    bytes = ((cable T).outs (T.machine.run q₀ (log.map Cycle.pins)) rs).flatten ∧
      T.machine.run q₀ ((log ++ cyc).map Cycle.pins) = (cable T).run (T.machine.run q₀ (log.map Cycle.pins)) rs ∧
      st' = ((cable T).run (T.machine.run q₀ (log.map Cycle.pins)) rs).1 := by
  induction h generalizing log with
  | nil st => exact ⟨rfl, by rw [List.append_nil]; rfl, hst⟩
  | @cons st st₁ st₂ r rs cyc cyc' bytes bytes' hone _ ih =>
    obtain ⟨hvalid, hone_apt, hrest⟩ := hapt
    obtain ⟨hfirst, hsecond⟩ := hran.split
    obtain ⟨hbytes, hrun, hnext⟩ := hone.answered hvalid hone_apt hfirst hst
    have hst₁ : st₁ = (T.machine.run q₀ ((log ++ cyc).map Cycle.pins)).1 := by
      rw [hrun, hnext, hst]
      exact (T.run_tap _ _).symm
    rw [← hnext] at hrest
    obtain ⟨hbytes', hrun', hend⟩ := ih hrest hsecond hst₁
    rw [hrun] at hbytes' hrun' hend
    exact ⟨by rw [hbytes, hbytes']; rfl, by rw [← List.append_assoc, hrun']; rfl, hend⟩

/-! ## The server -/

variable {q : JtagState × σ} {δ : Type} {d : driver δ} (A : Scanner (T.board q₀ noise) d) {s : Vpi δ}

/-- No client is there and no record has begun; `q` is where the target is. -/
structure Alone (s : Vpi δ) (q : JtagState × σ) : Prop where
  waits : Waits s []
  alone : ¬ s.sock.client_fd ≥ 0
  state : s.jtag.state = q.1
  stands : ∃ log tms, A.Stands s.jtag.state s.jtag.dev ⟨log, tms, []⟩ ∧ T.machine.run q₀ (log.map Cycle.pins) = q

/-- What some records leave. -/
structure Leaves (s : Vpi δ) (q : JtagState × σ) (bytes : List Byte) (t : Vpi δ) : Prop where
  written : t.sock.written = s.sock.written ++ bytes
  state : t.jtag.state = q.1
  stands : ∃ log tms, A.Stands t.jtag.state t.jtag.dev ⟨log, tms, []⟩ ∧ T.machine.run q₀ (log.map Cycle.pins) = q

theorem Alone.client (h : Alone A s q) {waits nets : List Net} (recv : Recv)
    (hwaits : ∀ net ∈ waits, net.accept = false) (hopen : ∀ net ∈ nets, net.recv ≠ .closed) {rs : List JtagVpiCmd}
    {part : List Byte} (hapt : AllApt q.1 rs) (hin : received 0 nets = rs.flatMap JtagVpiCmd.bytes ++ part)
    (hpart : part.length < SIZEOF_CMD) :
    Returns ((waits ++ ⟨recv, true⟩ :: nets).forM (jtag_vpi_tick d)) s fun _ t =>
      Leaves A s ((cable T).run q rs) ((cable T).outs q rs).flatten t ∧ t.sock.client_fd ≥ 0 := by
  obtain ⟨log, tms, hstands, rfl⟩ := h.stands
  have hst := h.state
  rw [← hst] at hapt
  have hserves : Serves A (admitted s) ⟨log, tms, []⟩ := ⟨(by decide : (4 : Int) ≥ 0), rfl, hstands, rfl⟩
  have hwaiting : Waits (admitted s) [] := ⟨h.waits.size, h.waits.count, h.waits.held, h.waits.short⟩
  obtain ⟨-, hreturns⟩ := session_spec A hwaiting hserves hopen (allApt_valid hapt) hin hpart
  rw [Returns, (waiting_spec (d := d) hwaits h.alone (⟨recv, true⟩ :: nets)).2]
  apply Returns.of_eq_bind (tick_admits h.alone recv)
  apply hreturns.mono
  rintro _ t ⟨cyc, replies, hplays, hdid⟩
  obtain ⟨hbytes, hrun, hend⟩ := hplays.answered hapt hdid.ran hst
  obtain ⟨tms', hserves'⟩ := hdid.serves
  refine ⟨⟨?_, hend, _, tms', hserves'.stands, hrun⟩, hserves'.connected⟩
  rw [hdid.written, hbytes]
  rfl

/-- Two servers over two drivers, and the same target behind both: whatever the reads that bring the records,
the replies are those of the cable, and both targets end in the same state. -/
theorem vpi_drivers_agree {q₀' : JtagState × σ} {noise' : List Cycle → Byte} {δ' : Type} {d' : driver δ'}
    (B : Scanner (T.board q₀' noise') d') {s' : Vpi δ'} (h : Alone A s q) (h' : Alone B s' q)
    {waits waits' nets nets' : List Net} {recv recv' : Recv} (hwaits : ∀ net ∈ waits, net.accept = false)
    (hwaits' : ∀ net ∈ waits', net.accept = false) (hopen : ∀ net ∈ nets, net.recv ≠ .closed)
    (hopen' : ∀ net ∈ nets', net.recv ≠ .closed) {rs : List JtagVpiCmd} {part part' : List Byte}
    (hapt : AllApt q.1 rs) (hin : received 0 nets = rs.flatMap JtagVpiCmd.bytes ++ part)
    (hpart : part.length < SIZEOF_CMD) (hin' : received 0 nets' = rs.flatMap JtagVpiCmd.bytes ++ part')
    (hpart' : part'.length < SIZEOF_CMD) :
    ∃ t t', (waits ++ ⟨recv, true⟩ :: nets).forM (jtag_vpi_tick d) s = .ok () t ∧
      (waits' ++ ⟨recv', true⟩ :: nets').forM (jtag_vpi_tick d') s' = .ok () t' ∧
      Leaves A s ((cable T).run q rs) ((cable T).outs q rs).flatten t ∧
      Leaves B s' ((cable T).run q rs) ((cable T).outs q rs).flatten t' := by
  obtain ⟨_, t, hrun, hleaves, -⟩ := h.client A recv hwaits hopen hapt hin hpart
  obtain ⟨_, t', hrun', hleaves', -⟩ := h'.client B recv' hwaits' hopen' hapt hin' hpart'
  exact ⟨t, t', hrun, hrun', hleaves, hleaves'⟩

end

/-! ## On a bench -/

abbrev bypassMpsse (st : JtagState) :=
  Mpsse.mpsseScanner (bypassBoard st) (mpsseUsb (bypassBoard st) Mpsse.idleEngine) Mpsse.idleEngine 0 15
    (mpsseUsb_delivers _ _)

abbrev bypassBlaster (st : JtagState) :=
  Blaster.blasterScanner (bypassBoard st) (blasterUsb (bypassBoard st) idleBlasterEngine) idleBlasterEngine 0

theorem bypassMpsse_alone (st : JtagState) :
    Alone (T := bypassTarget) (bypassMpsse st) (bootVpi (benchMpsse st)) (st, false) :=
  ⟨boot_waits _, (by decide : ¬ (-1 : Int) ≥ 0), rfl, [], false, benchMpsse_stands (bypassBoard st) st, rfl⟩

theorem bypassBlaster_alone (st : JtagState) :
    Alone (T := bypassTarget) (bypassBlaster st) (bootVpi { idleBlaster with state := st }) (st, false) :=
  ⟨boot_waits _, (by decide : ¬ (-1 : Int) ≥ 0), rfl, [], false,
    blaster_stands 0 (idleBlaster_linked (bypassBoard st) st) rfl, rfl⟩

/-- The record as it comes to one server in two reads, and to the other in one. -/
theorem vpi_drivers_agree_byte : ∃ t t',
    ([] ++ ⟨.failed, true⟩ :: inTwoReads : List Net).forM (jtag_vpi_tick (mpsse_driver
      (mpsseUsb (bypassBoard ShiftDR) Mpsse.idleEngine) (100 + 0) 15)) (bootVpi (benchMpsse ShiftDR)) = .ok () t ∧
    ([⟨.failed, false⟩] ++ ⟨.failed, true⟩ :: [⟨deliver scanByte.bytes, false⟩] : List Net).forM
      (jtag_vpi_tick (usb_blaster_driver (blasterUsb (bypassBoard ShiftDR) idleBlasterEngine) 0))
      (bootVpi { idleBlaster with state := ShiftDR }) = .ok () t' ∧
    Leaves (T := bypassTarget) (bypassMpsse ShiftDR) (bootVpi (benchMpsse ShiftDR))
      ((cable bypassTarget).run (ShiftDR, false) [scanByte])
      ((cable bypassTarget).outs (ShiftDR, false) [scanByte]).flatten t ∧
    Leaves (T := bypassTarget) (bypassBlaster ShiftDR) (bootVpi { idleBlaster with state := ShiftDR })
      ((cable bypassTarget).run (ShiftDR, false) [scanByte])
      ((cable bypassTarget).outs (ShiftDR, false) [scanByte]).flatten t' := by
  have hopen : ∀ net ∈ inTwoReads, net.recv ≠ .closed := by
    simp only [inTwoReads, List.mem_cons, List.not_mem_nil, or_false, forall_eq_or_imp, forall_eq]
    exact ⟨deliver_open _, deliver_open _, deliver_open _⟩
  have hopen' : ∀ net ∈ [(⟨deliver scanByte.bytes, false⟩ : Net)], net.recv ≠ .closed := by
    simp only [List.mem_singleton, forall_eq]
    exact deliver_open _
  have hapt : AllApt ShiftDR [scanByte] := ⟨⟨by decide, by decide⟩, rfl, trivial⟩
  exact vpi_drivers_agree (bypassMpsse ShiftDR) (bypassBlaster ShiftDR) (bypassMpsse_alone ShiftDR)
    (bypassBlaster_alone ShiftDR) (by decide) (by decide) hopen hopen' hapt
    (by decide +kernel : received 0 inTwoReads = [scanByte].flatMap JtagVpiCmd.bytes ++ [2]) (by decide)
    (by decide +kernel : received 0 [⟨deliver scanByte.bytes, false⟩] = [scanByte].flatMap JtagVpiCmd.bytes ++ [])
    (by decide)

end JtagRemote.Vpi
