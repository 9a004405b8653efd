import JtagRemote.Mpsse.Runs
import JtagRemote.Scanner
import Mathlib.Tactic.Linarith

/-!
# The mpsse driver is an adapter

Any number of read scans may wait, and the idle clock is worth its cycles.
-/

namespace JtagRemote.Mpsse

variable {board : Board} {usb : Usb} {e₀ : MpsseEngine}

/-- TMS is low in the states that shift. -/
structure Stands (board : Board) (usb : Usb) (e₀ : MpsseEngine) (st : JtagState) (dev : Mpsse)
    (l : Line) (e : MpsseEngine) (queue : List (Scan × List Byte)) : Prop where
  tracks : Tracks board usb e₀ e ⟨st, 0, dev⟩ queue
  line : l = ⟨e.log, e.pins.tms, queue.map Prod.fst⟩
  low : st.isShift = true → e.pins.tms = false

theorem clock_tms (p : Pins) (ps : List Pins) (log : List Cycle) (pending : List Scan) :
    (Line.clock board ⟨log, p.tms, pending⟩ ps) =
      ⟨log ++ board.cycles log ps, (lastPins p ps).tms, pending⟩ := by
  rw [lastPins_tms]
  rfl

/-- A call that succeeds moves the line. -/
theorem Stands.call {c d : Jtag Mpsse} {st : JtagState} {l : Line} {e : MpsseEngine}
    {queue : List (Scan × List Byte)} {call : Call} (h : Stands board usb e₀ st c.dev l e queue)
    (hvalid : call.Valid) (hlow : call.isScan = true → e.pins.tms = false)
    (hcall : call.run usb c = .ok true d) :
    ∃ e' ps queue', Tracks board usb e₀ e' d queue' ∧ call.Cycles e.pins ps ∧
      e'.pins.tms = call.level e.pins.tms ∧
      ({ l.clock board ps with pending := l.pending ++ call.scans (board.cycles l.log ps) } : Line) =
        ⟨e'.log, e'.pins.tms, queue'.map Prod.fst⟩ := by
  have htracks : Tracks board usb e₀ e c queue := h.tracks.of_dev rfl
  obtain ⟨e', ps, new, htracks', hclocks, hpins, hlog, -, -, hscans⟩ := htracks.call hvalid.sized hvalid.reads hcall
  have hcycles := hclocks.cycles hvalid hlow
  refine ⟨e', ps, _, htracks', hcycles, by rw [hpins, hcycles.level hvalid], ?_⟩
  rw [h.line, clock_tms, ← hscans, hlog, hpins, List.map_append]

theorem clock_silent (l : Line) (ps : List Pins) {scans : List Scan} (h : scans = []) :
    ({ l.clock board ps with pending := l.pending ++ scans } : Line) = l.clock board ps := by
  simp [Line.clock, h]

/-- The driver stands for the same line once a call is done, if TMS is low where it must be. -/
theorem stands_of {e' : MpsseEngine} {queue' : List (Scan × List Byte)} {d : Jtag Mpsse} {l' : Line}
    (htracks : Tracks board usb e₀ e' d queue') (hline : l' = ⟨e'.log, e'.pins.tms, queue'.map Prod.fst⟩)
    (hlow : d.state.isShift = true → e'.pins.tms = false) :
    ∃ e queue, Stands board usb e₀ d.state d.dev l' e queue :=
  ⟨e', queue', htracks.of_dev rfl, hline, hlow⟩

theorem tms_low {st : JtagState} {data : List Byte} {n : Nat} {tms : Bool} (hn : 1 ≤ n)
    (h : (stateAfter st (bitsOf data n)).isShift = true) :
    (Call.tms_seq data n).level tms = false := by
  obtain ⟨m, rfl⟩ : ∃ m, n = m + 1 := ⟨n - 1, by omega⟩
  rw [bitsOf_succ] at h
  have := shift_low (by simp) h
  simpa [Call.level] using this

theorem scan_low {st : JtagState} {flip : Bool} (h : (stateAfterScan st flip).isShift = true) :
    flip = false := by
  cases flip with
  | false => rfl
  | true => exact next_shift h

/-- The frequencies that give a divisor. -/
theorem set_tck_freq_succeeds (h : usb.Delivers) (freq : Nat) (c : Jtag Mpsse) (hpos : 1 ≤ freq)
    (hle : freq ≤ 2 ^ 32) :
    Returns (mpsse_set_tck_freq usb freq) c fun r d => r = true ∧ Sends c c.state (freqCodes freq) r d := by
  refine Returns.and ?_ (set_tck_freq_spec freq c)
  unfold mpsse_set_tck_freq
  refine Returns.bind (flush_succeeds h c) ?_
  rintro _ d rfl
  simp only [if_true]
  rw [if_neg (by omega), if_neg (divisor_defined hpos hle)]
  exact port_write_succeeds h _ d

theorem set_tck_freq_zero (h : usb.Delivers) (c : Jtag Mpsse) :
    Faults (mpsse_set_tck_freq usb 0) c .div_by_zero := by
  unfold mpsse_set_tck_freq
  refine Returns.bind_faults (flush_succeeds h c) ?_
  rintro _ d rfl
  exact ⟨d, rfl⟩

/-- A scan that the buffer has room for. -/
theorem Stands.send {c : Jtag Mpsse} {l : Line} {e : MpsseEngine} {queue : List (Scan × List Byte)}
    {data : List Byte} {n : Nat} (h : Stands board usb e₀ c.state c.dev l e queue) (hdel : usb.Delivers)
    (flip read : Bool) (hshift : c.state.isShift = true) (hn : 1 ≤ n)
    (hroom : 3 + (if flip then n - 1 else n) / 8 < BUFFER_LENGTH) (hlen : n ≤ 8 * data.length) :
    Returns (mpsse_jtag_scan_chain_send usb data n flip read) c fun r c' => r = true ∧
      c'.state = stateAfterScan c.state flip ∧
      ∃ e queue, Stands board usb e₀ c'.state c'.dev (l.scan board data n flip read) e queue := by
  have hsmall : n < 2 ^ 64 := by
    unfold BUFFER_LENGTH at hroom
    split at hroom <;> omega
  obtain ⟨_, d, hrun, rfl, hsent⟩ := scan_chain_send_succeeds hdel data n flip read c hn hlen hroom hsmall
  obtain ⟨hstate, -⟩ := hsent rfl
  have hcall : (Call.scan_chain_send data n flip read).run usb c = .ok true d := hrun
  have hvalid : (Call.scan_chain_send data n flip read).Valid := ⟨hn, hsmall⟩
  obtain ⟨e', ps, queue', htracks, hps, htms, hline⟩ := h.call hvalid (fun _ => h.low hshift) hcall
  obtain rfl : ps = scanPins data n flip := hps
  refine ⟨true, d, hrun, rfl, hstate, stands_of htracks ?_ ?_⟩
  · rw [← hline]
    cases read <;> simp [Line.scan, Line.clock, Call.scans]
  · rw [hstate, htms]
    exact scan_low

/-! ## The calls -/

section

variable {c : Jtag Mpsse} {st : JtagState} {l : Line} {data : List Byte} {n : Nat} {flip read : Bool}

theorem tms_seq_stands (hdel : usb.Delivers) (h : ∃ e queue, Stands board usb e₀ st c.dev l e queue)
    (hst : c.state = stateAfter st (bitsOf data n)) (hn : 1 ≤ n) (hlen : n ≤ 8 * data.length) :
    Returns (mpsse_jtag_tms_seq usb data n) c fun r c' => r = true ∧ c'.state = c.state ∧
      ∃ ps, ps.map Pins.tms = bitsOf data n ∧
        ∃ e queue, Stands board usb e₀ c'.state c'.dev (l.clock board ps) e queue := by
  obtain ⟨e, queue, h⟩ := h
  obtain ⟨_, d, hrun, rfl, hsent⟩ := tms_seq_succeeds hdel data n c hlen
  obtain ⟨hstate, -⟩ := hsent rfl
  have hcall : (Call.tms_seq data n).run usb c = .ok true d := hrun
  have hvalid : (Call.tms_seq data n).Valid := trivial
  obtain ⟨e', ps, queue', htracks, hps, htms, hline⟩ := h.call hvalid (by simp [Call.isScan]) hcall
  refine ⟨true, d, hrun, rfl, hstate, ps, hps, stands_of htracks ((clock_silent l ps rfl).symm.trans hline) ?_⟩
  rw [hstate, hst, htms]
  exact tms_low hn

theorem recv_stands {s : Scan} {rest : List Scan} {size : Nat} (hdel : usb.Delivers) (fuel : Nat)
    (h : ∃ e queue, Stands board usb e₀ c.state c.dev l e queue) (hpending : l.pending = s :: rest)
    (hsize : s.bits ≤ 8 * size) :
    Returns (mpsse_jtag_scan_chain_recv usb (100 + fuel) (List.replicate size 0) s.bits s.flip) c fun r c' =>
      r.1 = true ∧ r.2.length = size ∧ Holds r.2 s.tdo ∧ c'.state = c.state ∧
        ∃ e queue, Stands board usb e₀ c'.state c'.dev { l with pending := rest } e queue := by
  obtain ⟨e, queue, h⟩ := h
  have hline := h.line
  match queue, h with
  | [], h =>
    rw [hline] at hpending
    cases hpending
  | x :: queue, h =>
    rw [hline, List.map_cons, List.cons.injEq] at hpending
    obtain ⟨rfl, rfl⟩ := hpending
    have htracks : Tracks board usb e₀ e c (x :: queue) := h.tracks.of_dev rfl
    refine (htracks.recv_succeeds hdel fuel size hsize).mono ?_
    rintro r d ⟨hok, htracks', hholds, hstate, hout⟩
    refine ⟨hok, hout, hholds, hstate, stands_of htracks' ?_ ?_⟩
    · rw [hline]
    · rw [hstate]
      exact h.low

theorem clock_stands (hdel : usb.Delivers) (h : ∃ e queue, Stands board usb e₀ c.state c.dev l e queue)
    (hn : n ≤ MAX_BITS) :
    Returns (mpsse_jtag_clock_tck usb n) c fun r c' => r = true ∧ c'.state = c.state ∧
      ∃ ps, ps.map Pins.tms = List.replicate n l.tms ∧
        ∃ e queue, Stands board usb e₀ c'.state c'.dev (l.clock board ps) e queue := by
  obtain ⟨e, queue, h⟩ := h
  unfold MAX_BITS at hn
  obtain ⟨_, d, hrun, rfl, hsent⟩ := clock_tck_succeeds hdel n c
  obtain ⟨hstate, -⟩ := hsent rfl
  have hcall : (Call.clock_tck n).run usb c = .ok true d := hrun
  have hvalid : (Call.clock_tck n).Valid := by
    show n < 8 * 65536
    omega
  obtain ⟨e', ps, queue', htracks, hps, htms, hline⟩ := h.call hvalid (by simp [Call.isScan]) hcall
  refine ⟨true, d, hrun, rfl, hstate, ps, ?_, stands_of htracks ((clock_silent l ps rfl).symm.trans hline) ?_⟩
  · rw [show ps = List.replicate n e.pins from hps, h.line, List.map_replicate]
  · rw [hstate, htms]
    exact h.low

theorem freq_stands {f : Nat} (hdel : usb.Delivers) (h : ∃ e queue, Stands board usb e₀ c.state c.dev l e queue)
    (hpos : 1 ≤ f) (hle : f ≤ 2 ^ 32) :
    Returns (mpsse_set_tck_freq usb f) c fun _ c' => c'.state = c.state ∧
      ∃ e queue, Stands board usb e₀ c'.state c'.dev l e queue := by
  obtain ⟨e, queue, h⟩ := h
  obtain ⟨_, d, hrun, rfl, hsent⟩ := set_tck_freq_succeeds hdel f c hpos hle
  obtain ⟨hstate, -⟩ := hsent rfl
  have hcall : (Call.set_tck_freq f).run usb c = .ok true d := hrun
  have hvalid : (Call.set_tck_freq f).Valid := trivial
  obtain ⟨e', ps, queue', htracks, hps, htms, hline⟩ := h.call hvalid (by simp [Call.isScan]) hcall
  obtain rfl : ps = [] := hps
  refine ⟨true, d, hrun, hstate, stands_of htracks ?_ ?_⟩
  · rw [← hline]
    simp [Line.clock, Call.scans]
  · rw [hstate, htms]
    exact h.low

theorem freq_faults {f : Nat} (hdel : usb.Delivers) (hle : f ≤ MAX_FREQ) (hnot : ¬ (1 ≤ f ∧ f ≤ 2 ^ 32)) :
    ∃ e, Faults (mpsse_set_tck_freq usb f) c e := by
  unfold MAX_FREQ at hle
  obtain rfl : f = 0 := by omega
  exact ⟨_, set_tck_freq_zero hdel c⟩

theorem scan_room (flip : Bool) (hn' : n ≤ MAX_BITS) : 3 + (if flip then n - 1 else n) / 8 < BUFFER_LENGTH := by
  unfold MAX_BITS at hn'
  unfold BUFFER_LENGTH
  split <;> omega

theorem send_any_stands (hdel : usb.Delivers) (h : ∃ e queue, Stands board usb e₀ c.state c.dev l e queue)
    (hn : 1 ≤ n) (hn' : n ≤ MAX_BITS) (hlen : n ≤ 8 * data.length) :
    Returns (mpsse_jtag_scan_chain_send usb data n flip read) c fun r c' => r = true ∧
      c'.state = stateAfterScan c.state flip ∧ ∃ ps, ScanCycles c.state data n flip ps ∧
        ∃ e queue, Stands board usb e₀ c'.state c'.dev (l.scanned board ps n flip read) e queue := by
  obtain ⟨e, queue, h⟩ := h
  have hroom := scan_room flip hn'
  unfold MAX_BITS at hn'
  obtain ⟨_, d, hrun, rfl, hsent⟩ := scan_chain_send_succeeds hdel data n flip read c hn hlen hroom (by omega)
  obtain ⟨hstate, -⟩ := hsent rfl
  have htracks : Tracks board usb e₀ e c queue := h.tracks.of_dev rfl
  have hcall : (Call.scan_chain_send data n flip read).run usb c = .ok true d := hrun
  have hvalid : (Call.scan_chain_send data n flip read).Valid := ⟨hn, by omega⟩
  obtain ⟨e', ps, new, htracks', hclocks, hpins, hlog, -, -, hscans⟩ := htracks.call hvalid.sized hvalid.reads hcall
  obtain rfl : ps = scanPinsAt e.pins.tms data n flip := hclocks
  have hps : ScanCycles c.state data n flip (scanPinsAt e.pins.tms data n flip) := by
    refine ⟨scanPinsAt_shifts _ data flip hn, fun hshift => ?_⟩
    rw [h.low hshift, scanPinsAt_low data flip hn]
  refine ⟨true, d, hrun, rfl, hstate, _, hps, stands_of htracks' ?_ ?_⟩
  · rw [h.line, Line.scanned, clock_tms, List.map_append, hscans, hpins, hlog]
    cases read <;> simp [Call.scans]
  · intro hshift
    rw [hstate] at hshift
    obtain rfl := scan_low hshift
    have hlow := h.low hshift
    rw [hpins, hlow, scanPinsAt_low data false hn]
    exact @Call.Cycles.level (.scan_chain_send data n false read) _ _ rfl ⟨hn, by omega⟩

end

/-- `fuel` is for the reads: a hundred of them is what a retry makes. -/
def mpsseAdapter (board : Board) (usb : Usb) (e₀ : MpsseEngine) (fuel freq : Nat) (hdel : usb.Delivers) :
    Adapter board (mpsse_driver usb (100 + fuel) freq) where
  Stands st dev l := ∃ e queue, Stands board usb e₀ st dev l e queue
  Room _ := True
  ticks n := n
  Accepts f := 1 ≤ f ∧ f ≤ 2 ^ 32
  tms_seq h hst hn _ hlen := tms_seq_stands hdel h hst hn hlen
  send h hshift _ hn hn' hlen := by
    obtain ⟨_, _, h⟩ := h
    exact h.send hdel _ _ hshift hn (scan_room _ hn') hlen
  send_full _ hroom := absurd trivial hroom
  recv h hpending hsize := recv_stands hdel fuel h hpending hsize
  clock h hn := clock_stands hdel h hn
  freq h hf := freq_stands hdel h hf.1 hf.2
  freq_fails _ hle hnot := freq_faults hdel hle hnot

/-- It scans in any TAP state, with TMS where it was. -/
def mpsseScanner (board : Board) (usb : Usb) (e₀ : MpsseEngine) (fuel freq : Nat) (hdel : usb.Delivers) :
    Scanner board (mpsse_driver usb (100 + fuel) freq) where
  toAdapter := mpsseAdapter board usb e₀ fuel freq hdel
  room_none := trivial
  send_any h _ hn hn' hlen := send_any_stands hdel h hn hn' hlen

end JtagRemote.Mpsse
