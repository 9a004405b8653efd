import JtagRemote.Regions
import JtagRemote.Drivers

/-!
# The walk of the chain probe

`jtag_probe_devices` first counts the devices (steps 1 to 6), and then resets the
TAP and reads the IDCODEs. Each part is followed here over any adapter: the
cycles that the board sees, and the TDO bits that come back.
-/

namespace JtagRemote

open JtagState

/-! ## Adapters that fill the buffer -/

/-- A receive clears the bytes that it fills, so what was in them does not matter. -/
structure Prober {δ : Type} (board : Board) (d : driver δ) extends Adapter board d where
  room_none : Room 0
  clears {c c' : Jtag δ} {recv out : List Byte} {n : Nat} {flip : Bool} :
    (bulk_bits n flip + 7) % 2 ^ 64 / 8 = recv.length →
    d.jtag_scan_chain_recv (List.replicate recv.length 0) n flip c = .ok (true, out) c' →
    d.jtag_scan_chain_recv recv n flip c = .ok (true, out) c'

theorem memset_zero_all {σ : Type} (recv : List Byte) (s : σ) :
    (memset_zero recv recv.length : EStateM Fault σ (List Byte)) s = .ok (List.replicate recv.length 0) s := by
  rw [memset_zero_ok (Nat.le_refl _), splice, List.take_zero, List.length_replicate, List.drop_of_length_le (by omega)]
  simp

/-- Two buffers of one length are the same once they are cleared. -/
theorem memset_zero_same {σ : Type} (recv : List Byte) (s : σ) :
    (memset_zero recv recv.length : EStateM Fault σ (List Byte)) s =
      memset_zero (List.replicate recv.length 0) recv.length s := by
  have h := memset_zero_all (List.replicate recv.length 0) s
  rw [List.length_replicate] at h
  rw [memset_zero_all, h]

def mpsseProber (board : Board) (usb : Usb) (e₀ : MpsseEngine) (fuel freq : Nat) (hdel : usb.Delivers) :
    Prober board (mpsse_driver usb (100 + fuel) freq) where
  toAdapter := Mpsse.mpsseAdapter board usb e₀ fuel freq hdel
  room_none := trivial
  clears := by
    intro c c' recv out n flip hlen hrun
    change mpsse_jtag_scan_chain_recv usb (100 + fuel) _ n flip c = _ at hrun
    change mpsse_jtag_scan_chain_recv usb (100 + fuel) recv n flip c = _
    unfold mpsse_jtag_scan_chain_recv at hrun ⊢
    rw [bind_apply] at hrun ⊢
    cases hpending : mpsse_send_pending usb c with
    | error e t =>
      rw [hpending] at hrun
      cases hrun
    | ok r t =>
      rw [hpending] at hrun
      cases r with
      | false => cases hrun
      | true =>
        dsimp only at hrun ⊢
        rw [if_pos rfl, hlen, bind_apply] at hrun ⊢
        rwa [memset_zero_same]

def blasterProber (board : Board) (usb : Usb) (e₀ : BlasterEngine) (fuel : Nat) :
    Prober board (usb_blaster_driver usb fuel) where
  toAdapter := Blaster.blasterAdapter board usb e₀ fuel
  room_none := Blaster.room_none board usb e₀ fuel
  clears := by
    intro c c' recv out n flip hlen hrun
    change usb_blaster_jtag_scan_chain_recv _ n flip c = _ at hrun
    change usb_blaster_jtag_scan_chain_recv recv n flip c = _
    unfold usb_blaster_jtag_scan_chain_recv at hrun ⊢
    dsimp only at hrun ⊢
    rw [hlen, bind_apply] at hrun ⊢
    rwa [memset_zero_same]

/-! ## Drivers that clock what they are told -/

/-- A driver that clocks the cycles of each call, on hardware for which these logs are possible.
Unlike that of a board, the answer to a cycle may depend on the cycle itself. -/
structure Tracer {δ : Type} (Possible : List Cycle → Prop) (d : driver δ) where
  /-- The driver is in order after these cycles, and no answer waits. -/
  Stands : JtagState → δ → List Cycle → Prop
  possible {st : JtagState} {dev : δ} {log : List Cycle} : Stands st dev log → Possible log
  tms_seq {c : Jtag δ} {log : List Cycle} (data : List Byte) {n : Nat} :
    Stands c.state c.dev log → 1 ≤ n → n ≤ MAX_BITS → n ≤ 8 * data.length →
    Returns (jtag_tms_seq d data n) c fun _ c' => c'.state = stateAfter c.state (bitsOf data n) ∧
      ∃ cs : List Cycle, cs.map Cycle.tms = bitsOf data n ∧ Stands c'.state c'.dev (log ++ cs)
  send {c : Jtag δ} {log : List Cycle} {data : List Byte} {n : Nat} (flip : Bool) :
    Stands c.state c.dev log → c.state.isShift = true → 1 ≤ n → n ≤ MAX_BITS → n ≤ 8 * data.length →
    Returns (jtag_scan_chain_send d data n flip false) c fun _ c' => c'.state = stateAfterScan c.state flip ∧
      ∃ cs : List Cycle, cs.map Cycle.pins = scanPins data n flip ∧ Stands c'.state c'.dev (log ++ cs)
  /-- A read that fills the whole buffer. -/
  read {c : Jtag δ} {log : List Cycle} {data recv : List Byte} {n : Nat} (flip : Bool) :
    Stands c.state c.dev log → c.state.isShift = true → 1 ≤ n → n ≤ MAX_BITS → n ≤ 8 * data.length →
    n ≤ 8 * recv.length → (bulk_bits n flip + 7) % 2 ^ 64 / 8 = recv.length →
    Returns (jtag_scan_chain d data recv n flip true) c fun r c' => c'.state = stateAfterScan c.state flip ∧
      r.2.length = recv.length ∧ ∃ cs : List Cycle, cs.map Cycle.pins = scanPins data n flip ∧
        Holds r.2 (cs.map Cycle.tdo) ∧ Stands c'.state c'.dev (log ++ cs)

def Tracer.mono {δ : Type} {Possible Possible' : List Cycle → Prop} {d : driver δ} (T : Tracer Possible d)
    (h : ∀ log, Possible log → Possible' log) : Tracer Possible' d :=
  { T with possible := fun hstands => h _ (T.possible hstands) }

/-- An adapter clocks what it is told. -/
def Prober.tracer {δ : Type} {board : Board} {d : driver δ} (P : Prober board d) (log₀ : List Cycle) :
    Tracer (board.Since log₀) d where
  Stands st dev log := board.Since log₀ log ∧ ∃ tms, P.Stands st dev ⟨log, tms, []⟩
  possible h := h.1
  tms_seq := by
    rintro c log data n ⟨hlog, tms, h⟩ hn hn' hlen
    refine (P.tms_seq_spec data h hn hn' hlen).mono ?_
    rintro _ c' ⟨-, hst, ps, hps, h'⟩
    exact ⟨hst, _, by rw [cycles_tms, hps], hlog.cycles ps, _, h'⟩
  send := by
    rintro c log data n flip ⟨hlog, tms, h⟩ hshift hn hn' hlen
    refine (P.send_spec h hshift P.room_none hn hn' hlen).mono ?_
    rintro _ c' ⟨-, hst, h'⟩
    exact ⟨hst, _, cycles_pins _ _ _, hlog.cycles _, _, h'⟩
  read := by
    rintro c log data recv n flip ⟨hlog, tms, h⟩ hshift hn hn' hlen hsize hfill
    have hsend : Returns (jtag_scan_chain_send d data n flip true) c _ :=
      P.send_spec h hshift P.room_none hn hn' hlen
    unfold jtag_scan_chain
    refine Returns.bind hsend ?_
    rintro _ c₁ ⟨rfl, hst, h₁⟩
    obtain ⟨⟨_, out⟩, c₂, hrun, rfl, hout, hholds, hst₂, h₂⟩ := P.recv h₁ rfl hsize
    exact ⟨(true, out), c₂, P.clears hfill hrun, hst₂.trans hst, hout, _, cycles_pins _ _ _, hholds,
      hlog.cycles _, _, h₂⟩

/-! ## One call after the other -/

theorem dataPins_low (data : List Byte) (a n : Nat) :
    (dataPins data a n).map Pins.tms = List.replicate n false := by simp [dataPins, Function.comp_def]

/-- A scan leads the TAP where the driver takes `state`. -/
theorem stateAfter_scan {st : JtagState} (h : st.isShift = true) (data : List Byte) {n : Nat} (flip : Bool)
    (hn : 1 ≤ n) : stateAfter st ((scanPins data n flip).map Pins.tms) = stateAfterScan st flip := by
  rw [scanPins_split data n flip hn, List.map_append, dataPins_low, stateAfter_append, stateAfter_low h]
  cases flip <;> rfl

section

variable {δ : Type} {Possible : List Cycle → Prop} {d : driver δ} (T : Tracer Possible d) {tap st : JtagState}
  {c : Jtag δ} {log : List Cycle}

/-- The server and the TAP are both in `st`; `tap` is where the TAP was before the first cycle. -/
structure At (tap st : JtagState) (c : Jtag δ) (log : List Cycle) : Prop where
  stands : T.Stands c.state c.dev log
  state : c.state = st
  tap : stateAfter tap (log.map Cycle.tms) = st

/-- Five ones lead both to reset, wherever they were. -/
theorem goto_tlr_at (tap : JtagState) (h : T.Stands c.state c.dev log) :
    Returns (jtag_goto_tlr d) c fun _ c' => ∃ cs : List Cycle, cs.map Cycle.tms = List.replicate 5 true ∧
      At T tap TestLogicReset c' (log ++ cs) := by
  have hones : bitsOf [0x1F] 5 = List.replicate 5 true := by decide
  refine (T.tms_seq [0x1F] (n := 5) h (by decide) (by decide) (by decide)).mono ?_
  rintro _ c' ⟨hst, cs, hcs, h'⟩
  rw [hones] at hst hcs
  rw [five_ones] at hst
  exact ⟨cs, hcs, h', hst, by rw [List.map_append, stateAfter_append, hcs, five_ones]⟩

theorem tms_seq_at (h : At T tap st c log) (data : List Byte) {n : Nat} (hn : 1 ≤ n) (hn' : n ≤ 8)
    (hlen : n ≤ 8 * data.length) :
    Returns (jtag_tms_seq d data n) c fun _ c' => ∃ cs : List Cycle, cs.map Cycle.tms = bitsOf data n ∧
      At T tap (stateAfter st (bitsOf data n)) c' (log ++ cs) := by
  refine (T.tms_seq data h.stands hn (hn'.trans (by decide)) hlen).mono ?_
  rintro _ c' ⟨hst, cs, hcs, h'⟩
  rw [h.state] at hst
  exact ⟨cs, hcs, h', hst, by rw [List.map_append, stateAfter_append, h.tap, hcs]⟩

/-- A move for which the table has a way. -/
theorem tms_seq_to_at (h : At T tap st c log) {dst : JtagState} (tms : Byte) {n : Nat}
    (hway : jtag_get_tms_seq st dst c = .ok (tms, n) c) (hn : 1 ≤ n) (hn' : n ≤ 8)
    (hdst : stateAfter st (bitsOf [tms] n) = dst) :
    Returns (jtag_tms_seq_to d dst) c fun _ c' => ∃ cs : List Cycle, cs.map Cycle.tms = bitsOf [tms] n ∧
      At T tap dst c' (log ++ cs) := by
  unfold jtag_tms_seq_to
  apply Returns.get_bind
  rw [h.state]
  refine Returns.of_eq_bind hway ?_
  dsimp only
  rw [if_pos (by omega)]
  have hmove := tms_seq_at T h [tms] hn hn' (by simpa using hn')
  rwa [hdst] at hmove

theorem At.scan {c' : Jtag δ} {cs : List Cycle} {data : List Byte} {n : Nat} {flip : Bool} (h : At T tap st c log)
    (hshift : st.isShift = true) (hn : 1 ≤ n) (hst : c'.state = stateAfterScan c.state flip)
    (hcs : cs.map Cycle.pins = scanPins data n flip) (h' : T.Stands c'.state c'.dev (log ++ cs)) :
    At T tap (stateAfterScan st flip) c' (log ++ cs) := by
  rw [h.state] at hst
  refine ⟨h', hst, ?_⟩
  rw [List.map_append, stateAfter_append, h.tap, map_tms_eq cs, hcs, stateAfter_scan hshift data flip hn]

theorem send_at (h : At T tap st c log) (hshift : st.isShift = true) {data : List Byte} {n : Nat} (flip : Bool)
    (hn : 1 ≤ n) (hn' : n ≤ MAX_BITS) (hlen : n ≤ 8 * data.length) :
    Returns (jtag_scan_chain_send d data n flip false) c fun _ c' =>
      ∃ cs : List Cycle, cs.map Cycle.pins = scanPins data n flip ∧
        At T tap (stateAfterScan st flip) c' (log ++ cs) := by
  refine (T.send flip h.stands (h.state ▸ hshift) hn hn' hlen).mono ?_
  rintro _ c' ⟨hst, cs, hcs, h'⟩
  exact ⟨cs, hcs, h.scan T hshift hn hst hcs h'⟩

theorem read_at (h : At T tap st c log) (hshift : st.isShift = true) {data recv : List Byte} {n : Nat} (flip : Bool)
    (hn : 1 ≤ n) (hn' : n ≤ MAX_BITS) (hlen : n ≤ 8 * data.length) (hsize : n ≤ 8 * recv.length)
    (hfill : (bulk_bits n flip + 7) % 2 ^ 64 / 8 = recv.length) :
    Returns (jtag_scan_chain d data recv n flip true) c fun r c' => r.2.length = recv.length ∧
      ∃ cs : List Cycle, cs.map Cycle.pins = scanPins data n flip ∧ Holds r.2 (cs.map Cycle.tdo) ∧
        At T tap (stateAfterScan st flip) c' (log ++ cs) := by
  refine (T.read flip h.stands (h.state ▸ hshift) hn hn' hlen hsize hfill).mono ?_
  rintro r c' ⟨hst, hout, cs, hcs, hholds, h'⟩
  exact ⟨hout, cs, hcs, hholds, h.scan T hshift hn hst hcs h'⟩

end

/-! ## The two parts of the probe -/

section

variable {δ : Type} (d : driver δ) (junk : Nat → Byte)

/-- Steps 1 to 6: the devices of the chain are counted. -/
def probe_count : EStateM Fault (Jtag δ) Nat := do
  let _ ← jtag_goto_tlr d
  let _ ← jtag_tms_seq_to d ShiftIR
  let _ ← jtag_scan_chain_send d (List.replicate (MAX_TAPS * MAX_IR / 8) 0xFF) (MAX_TAPS * MAX_IR) true false
  let _ ← jtag_tms_seq_to d ShiftDR
  let _ ← jtag_scan_chain_send d (List.replicate (MAX_TAPS / 8) 0) MAX_TAPS false false
  let (_, read_buffer) ← jtag_scan_chain d (List.replicate (MAX_TAPS / 8) 0xFF)
    ((List.range (MAX_TAPS / 8)).map junk) MAX_TAPS true true
  pure (((List.range MAX_TAPS).find? (bitAt read_buffer)).getD 0)

/-- Steps 7 to 9: the TAP is reset, and the IDCODEs are read out. -/
def probe_idcodes (num_devices : Nat) : EStateM Fault (Jtag δ) (List (BitVec 32)) := do
  let _ ← jtag_goto_tlr d
  let _ ← jtag_tms_seq d [0x02] 4
  let (_, read_buffer2) ← jtag_scan_chain d (List.replicate (MAX_TAPS * 32 / 8) 0)
    ((List.range (MAX_TAPS * 32 / 8)).map junk) (MAX_TAPS * 32) true true
  let res ← forUpto num_devices [] fun i res => do
    let idcode ← idcode_at read_buffer2 i
    pure (res ++ [idcode])
  let _ ← jtag_goto_tlr d
  pure res

theorem jtag_probe_devices_eq : jtag_probe_devices d junk = (do
    let num_devices ← probe_count d junk
    if num_devices = 0 then pure [] else probe_idcodes d junk num_devices) := by
  unfold jtag_probe_devices probe_count probe_idcodes
  simp only [bind_assoc, pure_bind]

end

section

/-- The cycles of steps 1 to 5: a reset, ones for the instruction registers, and zeros for
the bypass bits. -/
structure Flushes (reset to_ir ones to_dr zeros : List Cycle) : Prop where
  reset : reset.map Cycle.tms = List.replicate 5 true
  to_ir : to_ir.map Cycle.tms = [false, true, true, false, false]
  ones : ones.map Cycle.pins = scanPins (List.replicate 16 0xFF) 128 true
  to_dr : to_dr.map Cycle.tms = [true, true, false, false]
  zeros : zeros.map Cycle.pins = scanPins [0] 8 false

/-- The log of steps 1 to 5. -/
def Flushed (cs : List Cycle) : Prop :=
  ∃ reset to_ir ones to_dr zeros, Flushes reset to_ir ones to_dr zeros ∧
    cs = reset ++ to_ir ++ ones ++ to_dr ++ zeros

/-- The number of zeros before the first one. -/
def delay (tdo : List Bool) : Nat := ((List.range MAX_TAPS).find? fun i => tdo.getD i false).getD 0

theorem delay_le (tdo : List Bool) : delay tdo ≤ MAX_TAPS := by
  unfold delay
  cases hfind : (List.range MAX_TAPS).find? fun i => tdo.getD i false with
  | none => exact Nat.zero_le _
  | some i => exact Nat.le_of_lt (List.mem_range.mp (List.mem_of_find?_eq_some hfind))

variable {δ : Type} {Possible : List Cycle → Prop} {d : driver δ} (T : Tracer Possible d) {tap st : JtagState}
  {c : Jtag δ} {log : List Cycle}

theorem probe_count_spec (junk : Nat → Byte) (tap : JtagState) (h : T.Stands c.state c.dev log) :
    Returns (probe_count d junk) c fun n c' => ∃ cs rs : List Cycle, Flushed cs ∧
      rs.map Cycle.pins = scanPins [0xFF] 8 true ∧ n = delay (rs.map Cycle.tdo) ∧
      At T tap Exit1DR c' (log ++ cs ++ rs) := by
  unfold probe_count
  refine Returns.bind (goto_tlr_at T tap h) ?_
  rintro _ c₁ ⟨reset, hreset, h₁⟩
  refine Returns.bind (tms_seq_to_at T h₁ 0x06 (n := 5) rfl (by decide) (by decide) (by decide)) ?_
  rintro _ c₂ ⟨to_ir, hir, h₂⟩
  refine Returns.bind (send_at T h₂ rfl true (by decide) (by decide) (by decide)) ?_
  rintro _ c₃ ⟨ones, hones, h₃⟩
  refine Returns.bind (tms_seq_to_at T h₃ 0x3 (n := 4) rfl (by decide) (by decide) (by decide)) ?_
  rintro _ c₄ ⟨to_dr, hdr, h₄⟩
  refine Returns.bind (send_at T h₄ rfl false (by decide) (by decide) (by decide)) ?_
  rintro _ c₅ ⟨zeros, hzeros, h₅⟩
  refine Returns.bind (read_at T h₅ rfl true (by decide) (by decide) (by decide) (by simp [MAX_TAPS])
    (by simp [MAX_TAPS, bulk_bits, size_sub])) ?_
  rintro ⟨_, read_buffer⟩ c₆ ⟨-, rs, hrs, hholds, h₆⟩
  have hbits : bitAt read_buffer = fun i => (rs.map Cycle.tdo).getD i false := funext hholds
  refine returns_pure ⟨_, rs, ⟨reset, to_ir, ones, to_dr, zeros, ⟨hreset, hir, hones, hdr, hzeros⟩, rfl⟩, hrs, ?_, ?_⟩
  · rw [hbits]
    rfl
  · have hexit : At T tap Exit1DR c₆ (log ++ reset ++ to_ir ++ ones ++ to_dr ++ zeros ++ rs) := h₆
    simpa only [List.append_assoc] using hexit

/-- Word `i` of the bits, lowest bit first. -/
def wordAt (tdo : List Bool) (i : Nat) : BitVec 32 :=
  (BitVec.ofBoolListLE ((tdo.drop (32 * i)).take 32)).setWidth 32

theorem getLsbD_wordAt (tdo : List Bool) (i : Nat) {j : Nat} (hj : j < 32) :
    (wordAt tdo i).getLsbD j = tdo.getD (32 * i + j) false := by
  rw [wordAt, BitVec.getLsbD_setWidth, BitVec.getLsbD_ofBoolListLE, decide_eq_true hj, Bool.true_and,
    List.getD_eq_getElem?_getD, List.getElem?_take, if_pos hj, List.getElem?_drop, List.getD_eq_getElem?_getD]

theorem idcode_at_ok {out : List Byte} {tdo : List Bool} (hholds : Holds out tdo) {i : Nat}
    (hi : 4 * i + 4 ≤ out.length) (c : Jtag δ) : idcode_at out i c = .ok (wordAt tdo i) c := by
  unfold idcode_at
  rw [bind_of_ok (index_ok (by omega) c), bind_of_ok (index_ok (by omega) c), bind_of_ok (index_ok (by omega) c),
    bind_of_ok (index_ok (by omega) c)]
  refine congrArg (fun w => EStateM.Result.ok w c) ?_
  apply BitVec.eq_of_getLsbD_eq
  intro j hj
  rw [getLsbD_wordAt tdo i hj, ← hholds, bitAt]
  simp only [BitVec.getLsbD_append]
  have hbyte : ∀ k, k < 4 → 8 * k ≤ j → j < 8 * k + 8 →
      (32 * i + j) / 8 = i * 4 + k ∧ (32 * i + j) % 8 = j - 8 * k := by omega
  split
  · obtain ⟨hq, hr⟩ := hbyte 0 (by omega) (by omega) (by omega)
    rw [hq, hr]
    rfl
  split
  · obtain ⟨hq, hr⟩ := hbyte 1 (by omega) (by omega) (by omega)
    rw [hq, hr]
  split
  · obtain ⟨hq, hr⟩ := hbyte 2 (by omega) (by omega) (by omega)
    rw [hq, hr, Nat.sub_sub]
  · obtain ⟨hq, hr⟩ := hbyte 3 (by omega) (by omega) (by omega)
    rw [hq, hr, Nat.sub_sub, Nat.sub_sub]

theorem collect_spec {out : List Byte} {tdo : List Bool} (hholds : Holds out tdo) {n : Nat} (hn : 4 * n ≤ out.length)
    (c : Jtag δ) :
    Returns (forUpto n [] fun i res => do
      let idcode ← idcode_at out i
      pure (res ++ [idcode])) c fun res c' => c' = c ∧ res = (List.range n).map (wordAt tdo) := by
  refine Returns.forUpto (fun i res c' => c' = c ∧ res = (List.range i).map (wordAt tdo)) ⟨rfl, rfl⟩ ?_
  rintro i res _ hi ⟨rfl, rfl⟩
  refine Returns.of_eq_bind (idcode_at_ok hholds (by omega) _) (returns_pure ⟨rfl, ?_⟩)
  rw [List.range_succ, List.map_append]
  rfl

/-- The cycles of steps 7 and 8: a reset, and the way to the IDCODEs. -/
def Restores (cs : List Cycle) : Prop :=
  ∃ reset to_dr : List Cycle, reset.map Cycle.tms = List.replicate 5 true ∧
    to_dr.map Cycle.tms = [false, true, false, false] ∧ cs = reset ++ to_dr

theorem probe_idcodes_spec (junk : Nat → Byte) {n : Nat} (hn : n ≤ MAX_TAPS) (h : At T tap st c log) :
    Returns (probe_idcodes d junk n) c fun res c' => ∃ cs rs reset : List Cycle, Restores cs ∧
      rs.map Cycle.pins = scanPins (List.replicate 32 0) 256 true ∧
      res = (List.range n).map (wordAt (rs.map Cycle.tdo)) ∧
      At T tap TestLogicReset c' (log ++ cs ++ rs ++ reset) := by
  unfold probe_idcodes
  refine Returns.bind (goto_tlr_at T tap h.stands) ?_
  rintro _ c₁ ⟨reset, hreset, h₁⟩
  refine Returns.bind (tms_seq_at T h₁ [0x02] (n := 4) (by decide) (by decide) (by decide)) ?_
  rintro _ c₂ ⟨to_dr, hdr, h₂⟩
  refine Returns.bind (read_at T h₂ rfl true (by decide) (by decide) (by decide) (by simp [MAX_TAPS])
    (by simp [MAX_TAPS, bulk_bits, size_sub])) ?_
  rintro ⟨_, read_buffer2⟩ c₃ ⟨hlen, rs, hrs, hholds, h₃⟩
  simp only [List.length_map, List.length_range] at hlen
  have hfit : 4 * n ≤ read_buffer2.length := by
    rw [hlen]
    unfold MAX_TAPS at hn ⊢
    omega
  refine Returns.bind (collect_spec hholds hfit c₃) ?_
  rintro res _ ⟨rfl, rfl⟩
  refine Returns.bind (goto_tlr_at T tap h₃.stands) ?_
  rintro _ c₄ ⟨last, -, h₄⟩
  refine returns_pure ⟨_, rs, last, ⟨reset, to_dr, hreset, hdr, rfl⟩, hrs, rfl, ?_⟩
  simpa only [List.append_assoc] using h₄

/-- The whole probe: it returns, and stays in Exit1DR when it counts nothing. -/
theorem jtag_probe_devices_spec (junk : Nat → Byte) (tap : JtagState) (h : T.Stands c.state c.dev log) :
    Returns (jtag_probe_devices d junk) c fun res c' => ∃ cs rs n, Flushed cs ∧
      rs.map Cycle.pins = scanPins [0xFF] 8 true ∧ n = delay (rs.map Cycle.tdo) ∧
      Possible (log ++ cs ++ rs) ∧
      (n = 0 → res = [] ∧ At T tap Exit1DR c' (log ++ cs ++ rs)) ∧
      (n ≠ 0 → ∃ cs' rs' reset, Restores cs' ∧ rs'.map Cycle.pins = scanPins (List.replicate 32 0) 256 true ∧
        res = (List.range n).map (wordAt (rs'.map Cycle.tdo)) ∧
        At T tap TestLogicReset c' (log ++ cs ++ rs ++ cs' ++ rs' ++ reset)) := by
  rw [jtag_probe_devices_eq]
  refine Returns.bind (probe_count_spec T junk tap h) ?_
  rintro n c₁ ⟨cs, rs, hcs, hrs, hn, h₁⟩
  have hpossible := T.possible h₁.stands
  split
  · rename_i hzero
    exact returns_pure ⟨cs, rs, n, hcs, hrs, hn, hpossible, fun _ => ⟨rfl, h₁⟩, fun hne => absurd hzero hne⟩
  · rename_i hne
    have hle : n ≤ MAX_TAPS := by
      rw [hn]
      exact delay_le _
    refine (probe_idcodes_spec T junk hle h₁).mono ?_
    rintro res c₂ ⟨cs', rs', reset, hcs', hrs', hres, h₂⟩
    exact ⟨cs, rs, n, hcs, hrs, hn, hpossible, fun hzero => absurd hzero hne,
      fun _ => ⟨cs', rs', reset, hcs', hrs', hres, h₂⟩⟩

end

end JtagRemote
