import JtagRemote.Drivers
import JtagRemote.Mpsse.Failing
import JtagRemote.Blaster.Failing

/-!
# The TAP state when writes fail

`state` moves before the write that may fail, and a flush that fails drops what waits.
It goes on to count the cycles of the line as long as neither loses a bit with TMS high.
-/

namespace JtagRemote

open JtagState

/-- The calls of `common.cpp` that send. -/
inductive Request where
  | tms_seq (data : List Byte) (num_bits : Nat)
  | scan_chain_send (data : List Byte) (num_bits : Nat) (flip_tms do_read : Bool)
  deriving DecidableEq, Repr

def Request.run {δ : Type} (d : driver δ) : Request → EStateM Fault (Jtag δ) Bool
  | .tms_seq data num_bits => jtag_tms_seq d data num_bits
  | .scan_chain_send data num_bits flip_tms do_read => jtag_scan_chain_send d data num_bits flip_tms do_read

/-- There is a bit at least, the array holds them all, and scans are issued in the Shift states. -/
def Request.Issued (st : JtagState) : Request → Prop
  | .tms_seq data num_bits => 1 ≤ num_bits ∧ num_bits ≤ 8 * data.length
  | .scan_chain_send data num_bits _ _ =>
    1 ≤ num_bits ∧ num_bits < 2 ^ 64 ∧ num_bits ≤ 8 * data.length ∧ st.isShift = true

/-- The device of each driver, before it took anything. -/
structure Chips where
  mpsse : MpsseEngine
  usb_blaster : BlasterEngine

/-- The cycles that the device went through, and those that still wait in the driver. -/
def lineSeen (board : Board) (x : Chips) : (kind : DriverKind) → Jtag kind.Dev → List Cycle
  | .mpsse, c => mpsseSeen board x.mpsse c
  | .usb_blaster, c => blasterSeen board x.usb_blaster c

/-- A run starts: nothing waits, and the device is between two commands. -/
def Started (o : Origin) (board : Board) (x : Chips) : (kind : DriverKind) → Jtag kind.Dev → Prop
  | .mpsse, c => c.dev.mpsse_buffer = [] ∧ c.state = o.state ∧
      ∃ e, mpsseFeed board ⟨[], x.mpsse⟩ c.dev.port.delivered = ⟨[], e⟩ ∧ e.log = o.log ∧ e.pins.tms = o.level
  | .usb_blaster, c => c.state = o.state ∧
      ∃ e, blasterFeed board x.usb_blaster c.dev.port.delivered = e ∧ e.shift_left = 0 ∧ e.log = o.log ∧
        e.pins.tms = o.level

/-- What the driver is called with once `jtag_tms_seq` has moved the TAP state. -/
def movedBy {δ : Type} (c : Jtag δ) (data : List Byte) (n : Nat) : Jtag δ :=
  { withCount c n with state := stateAfter c.state (bitsOf data n) }

/-- No write fails that loses bits which `state` counts. -/
def Request.Kept (usb : Usb) (o : Origin) (board : Board) (x : Chips) :
    (kind : DriverKind) → Jtag kind.Dev → Request → Prop
  | .mpsse, c, .tms_seq data n => Mpsse.TmsKept usb o board x.mpsse data n c.state (movedBy c data n)
  | .mpsse, c, .scan_chain_send data n flip read =>
    Mpsse.ScanKept usb o board x.mpsse data n flip read c.state (withCount c n)
  | .usb_blaster, c, .tms_seq data n => Blaster.TmsSent usb data n c.state (movedBy c data n)
  | .usb_blaster, c, .scan_chain_send data n flip read => Blaster.ScanSent usb data n flip read (withCount c n)

/-- Calls one after the other, each of which keeps its bits. -/
inductive KeptRun (usb : Usb) (fuel freq : Nat) (o : Origin) (board : Board) (x : Chips) (kind : DriverKind)
    (c₀ : Jtag kind.Dev) : Jtag kind.Dev → Prop
  | start : KeptRun usb fuel freq o board x kind c₀ c₀
  | call {c d : Jtag kind.Dev} {req : Request} {r : Bool} : KeptRun usb fuel freq o board x kind c₀ c →
      req.Issued c.state → req.Kept usb o board x kind c → req.run (kind.driver usb fuel freq) c = .ok r d →
      KeptRun usb fuel freq o board x kind c₀ d

/-! ## The invariant -/

/-- Each driver's own: what was sent is whole commands, and `state` counts all cycles. -/
def Counts (o : Origin) (board : Board) (x : Chips) : (kind : DriverKind) → Jtag kind.Dev → Prop
  | .mpsse, c => Mpsse.Counted o board x.mpsse c
  | .usb_blaster, c => Blaster.Counted o board x.usb_blaster c

variable {usb : Usb} {fuel freq : Nat} {o : Origin} {board : Board} {x : Chips} {kind : DriverKind}

theorem Started.counts {c : Jtag kind.Dev} (h : Started o board x kind c) : Counts o board x kind c := by
  cases kind with
  | mpsse =>
    obtain ⟨hempty, hst, e, hfeed, hlog, hlevel⟩ := h
    have hsince : o.Since e.log e.pins.tms := by
      rw [hlog, hlevel]
      exact o.since_refl
    refine ⟨e, e, ⟨hfeed, ?_, hsince, hsince⟩, ?_⟩
    · rw [hempty]
      rfl
    · rw [hlog, o.tap_refl, hst]
  | usb_blaster =>
    obtain ⟨hst, e, hfeed, hidle, hlog, hlevel⟩ := h
    refine ⟨e, ⟨hfeed, hidle, ?_⟩, ?_⟩
    · rw [hlog, hlevel]
      exact o.since_refl
    · rw [hlog, o.tap_refl, hst]

theorem mpsseSeen_queued {e₀ e f : MpsseEngine} {c : Jtag Mpsse} (h : Mpsse.Queued o board e₀ c e f) :
    mpsseSeen board e₀ c = f.log := by
  rw [mpsseSeen, Mpsse.stream, mpsseFeed_append, h.sent, h.held]

theorem blasterSeen_seen {e₀ e : BlasterEngine} {c : Jtag Blaster} (h : Blaster.Seen o board e₀ c e) :
    blasterSeen board e₀ c = e.log := by
  rw [blasterSeen, h.fed]

theorem Counts.tap {c : Jtag kind.Dev} (h : Counts o board x kind c) : o.tap (lineSeen board x kind c) = c.state := by
  cases kind with
  | mpsse =>
    obtain ⟨e, f, hq, hst⟩ := h
    rw [← hst, ← mpsseSeen_queued hq]
    rfl
  | usb_blaster =>
    obtain ⟨e, hseen, hst⟩ := h
    rw [← hst, ← blasterSeen_seen hseen]
    rfl

/-- A call that keeps its bits. One that returns `false` left `state` alone, unless it clocked the last bit. -/
theorem Counts.call {c d : Jtag kind.Dev} {req : Request} {r : Bool} (hw : usb.Whole) (h : Counts o board x kind c)
    (hissued : req.Issued c.state) (hkept : req.Kept usb o board x kind c)
    (hrun : req.run (kind.driver usb fuel freq) c = .ok r d) :
    Counts o board x kind d ∧ (r = false → d.state = c.state ∨
      ∃ log y, lineSeen board x kind d = lineSeen board x kind c ++ (log ++ [y]) ∧ y.tms = true) := by
  cases kind with
  | mpsse =>
    obtain ⟨e, f, hq, hst⟩ := h
    cases req with
    | tms_seq data n =>
      obtain ⟨hn, hlen⟩ := hissued
      rw [Request.run, jtag_tms_seq_eq _ data n c hlen] at hrun
      have hmoved : Mpsse.Queued o board x.mpsse (movedBy c data n) e f := hq.of_dev rfl
      obtain ⟨hd, hr⟩ := Mpsse.tms_seq_counted hw hmoved hst rfl hkept _ _ hrun
      exact ⟨hd, fun h => Or.inl (hr h)⟩
    | scan_chain_send data n flip read =>
      obtain ⟨hn, hn', hlen, hshift⟩ := hissued
      have hcount : Mpsse.Queued o board x.mpsse (withCount c n) e f := hq.of_dev rfl
      obtain ⟨hd, hr⟩ := Mpsse.scan_chain_send_counted hw hcount hst hshift hn hn' hlen hkept _ _ hrun
      exact ⟨hd, fun h => Or.inl (hr h)⟩
  | usb_blaster =>
    obtain ⟨e, hseen, hst⟩ := h
    cases req with
    | tms_seq data n =>
      obtain ⟨hn, hlen⟩ := hissued
      rw [Request.run, jtag_tms_seq_eq _ data n c hlen] at hrun
      have hmoved : Blaster.Seen o board x.usb_blaster (movedBy c data n) e := hseen.of_delivered rfl
      obtain ⟨hd, hr⟩ := Blaster.tms_seq_counted hw hmoved hst rfl hn hlen hkept _ _ hrun
      exact ⟨hd, fun h => Or.inl (hr h)⟩
    | scan_chain_send data n flip read =>
      obtain ⟨hn, hn', hlen, hshift⟩ := hissued
      have hcount : Blaster.Seen o board x.usb_blaster (withCount c n) e := hseen.of_delivered rfl
      obtain ⟨hd, hr⟩ := Blaster.scan_chain_send_counted hw hcount hst hshift hn hn' hlen hkept _ _ hrun
      refine ⟨hd, fun h => (hr h).imp_right ?_⟩
      rintro ⟨log, y, hlog, hy⟩
      rw [← blasterSeen_seen hseen] at hlog
      exact ⟨log, y, hlog, hy⟩

theorem KeptRun.counts {c₀ c : Jtag kind.Dev} (hw : usb.Whole) (hstart : Started o board x kind c₀)
    (h : KeptRun usb fuel freq o board x kind c₀ c) : Counts o board x kind c := by
  induction h with
  | start => exact hstart.counts
  | call _ hissued hkept hrun ih => exact (ih.call hw hissued hkept hrun).1

/-- As long as no write that fails loses bits which it counts, `state` is that of the cycles that were
delivered or wait. -/
theorem state_mirrors (hw : usb.Whole) {c₀ : Jtag kind.Dev} (hstart : Started o board x kind c₀) :
    ∀ c, KeptRun usb fuel freq o board x kind c₀ c → o.tap (lineSeen board x kind c) = c.state ∧
      ∀ (req : Request) d, req.Issued c.state → req.Kept usb o board x kind c →
        req.run (kind.driver usb fuel freq) c = .ok false d → d.state = c.state ∨
          ∃ log y, lineSeen board x kind d = lineSeen board x kind c ++ (log ++ [y]) ∧ y.tms = true := by
  intro c h
  have hcounts := h.counts hw hstart
  exact ⟨hcounts.tap, fun req d hissued hkept hrun => (hcounts.call hw hissued hkept hrun).2 rfl⟩

/-! ## On a bench -/

/-- A Blaster of which every write fails. -/
def deafUsb : Usb := { blasterUsb Mpsse.blinkBoard idleBlasterEngine with write_result := fun _ => .error }

theorem deafUsb_whole : deafUsb.Whole := whole_of_errors fun _ => rfl

def benchChips : Chips := ⟨Mpsse.idleEngine, idleBlasterEngine⟩

def benchOrigin (st : JtagState) : Origin := ⟨[], false, st, fun _ => rfl⟩

theorem idleBlaster_started (st : JtagState) :
    Started (benchOrigin st) Mpsse.blinkBoard benchChips .usb_blaster { idleBlaster with state := st } :=
  ⟨rfl, idleBlasterEngine, rfl, rfl, rfl, rfl⟩

/-- A scan whose packet fails. -/
theorem state_mirrors_deaf :
    ∃ d, jtag_scan_chain_send (usb_blaster_driver deafUsb 0) [0xA5] 8 false false
        { idleBlaster with state := ShiftDR } = .ok false d ∧
      (benchOrigin ShiftDR).tap (lineSeen Mpsse.blinkBoard benchChips .usb_blaster d) = d.state := by
  have hissued : (Request.scan_chain_send [0xA5] 8 false false).Issued ShiftDR :=
    ⟨by decide, by decide, by decide, rfl⟩
  have hkept : (Request.scan_chain_send [0xA5] 8 false false).Kept deafUsb (benchOrigin ShiftDR) Mpsse.blinkBoard
      benchChips .usb_blaster { idleBlaster with state := ShiftDR } := by
    intro h
    cases h
  have hrun : (Request.scan_chain_send [0xA5] 8 false false).run (DriverKind.driver deafUsb 0 15 .usb_blaster)
      { idleBlaster with state := ShiftDR } = .ok false _ := of_answer (by decide +kernel)
  have hkeptrun := KeptRun.call .start hissued hkept hrun
  exact ⟨_, hrun, (state_mirrors deafUsb_whole (idleBlaster_started ShiftDR) _ hkeptrun).1⟩

/-- Five bits with TMS high that fail: `state` is reset, and the device has seen nothing. With the mpsse driver a
way to ShiftDR waits, and a scan drops it. -/
theorem state_runs_ahead :
    (∃ d, jtag_tms_seq (usb_blaster_driver deafUsb 0) [0x1F] 5 { idleBlaster with state := RunTestIdle } =
        .ok false d ∧ d.state = TestLogicReset ∧
      (benchOrigin RunTestIdle).tap (lineSeen Mpsse.blinkBoard benchChips .usb_blaster d) = RunTestIdle) ∧
    ∃ c d, jtag_tms_seq (mpsse_driver deafUsb 100 15) [0x02] 4 (benchMpsse RunTestIdle) = .ok true c ∧
      jtag_scan_chain_send (mpsse_driver deafUsb 100 15) (List.replicate 2042 0) 16336 false false c =
        .ok false d ∧ d.state = ShiftDR ∧
      (benchOrigin RunTestIdle).tap (lineSeen Mpsse.blinkBoard benchChips .mpsse d) = RunTestIdle := by
  refine ⟨⟨_, of_answer (by decide +kernel), ?_, ?_⟩, _, _, of_answer (by decide +kernel),
    of_answer (by decide +kernel), ?_, ?_⟩
  all_goals decide +kernel

end JtagRemote
