import JtagRemote.Mpsse.Recv
import Mathlib.Data.List.Forall2

/-!
# Runs of the mpsse driver

Any calls in any order, all of which succeed. The cycles of a run are those that
its calls ask for, and each receive gives the bits of its own scan.
-/

namespace JtagRemote.Mpsse

/-! ## Calls -/

/-- Every call but a receive. -/
inductive Call where
  | tms_seq (data : List Byte) (num_bits : Nat)
  | scan_chain_send (data : List Byte) (num_bits : Nat) (flip_tms do_read : Bool)
  | clock_tck (times : Nat)
  | set_tck_freq (freq_mhz : Nat)
  deriving DecidableEq, Repr

def Call.run (usb : Usb) : Call → MpsseProg Bool
  | .tms_seq data num_bits => mpsse_jtag_tms_seq usb data num_bits
  | .scan_chain_send data num_bits flip_tms do_read =>
    mpsse_jtag_scan_chain_send usb data num_bits flip_tms do_read
  | .clock_tck times => mpsse_jtag_clock_tck usb times
  | .set_tck_freq freq_mhz => mpsse_set_tck_freq usb freq_mhz

/-- A scan has a bit at least, and a clock command counts in 16 bits. -/
def Call.Valid : Call → Prop
  | .scan_chain_send _ num_bits _ _ => 1 ≤ num_bits ∧ num_bits < 2 ^ 64
  | .clock_tck times => times < 8 * 65536
  | _ => True

/-- The size of a scan is a `size_t`. -/
def Call.Sized : Call → Prop
  | .scan_chain_send _ num_bits _ _ => num_bits < 2 ^ 64
  | _ => True

/-- A read scan has a bit at least. -/
def Call.Reads : Call → Prop
  | .scan_chain_send _ num_bits _ true => 1 ≤ num_bits
  | _ => True

theorem Call.Valid.sized {call : Call} (h : call.Valid) : call.Sized := by
  cases call with
  | scan_chain_send data n flip read => exact h.2
  | _ => trivial

theorem Call.Valid.reads {call : Call} (h : call.Valid) : call.Reads := by
  cases call with
  | scan_chain_send data n flip read =>
    cases read with
    | false => trivial
    | true => exact h.1
  | _ => trivial

/-- The cycles that a call asks for; `p` is the level of the pins before it. -/
def Call.Cycles (p : Pins) : Call → List Pins → Prop
  | .tms_seq data num_bits, ps => ps.map Pins.tms = bitsOf data num_bits
  | .scan_chain_send data num_bits flip_tms _, ps => ps = scanPins data num_bits flip_tms
  | .clock_tck times, ps => ps = List.replicate times p
  | .set_tck_freq _, ps => ps = []

/-- The cycles that a call gives, whatever it finds at the pins: a scan holds TMS but for a bit that flips it, and
a clock command counts in 16 bits. -/
def Call.Clocks (p : Pins) : Call → List Pins → Prop
  | .tms_seq data num_bits, ps => ps.map Pins.tms = bitsOf data num_bits
  | .scan_chain_send data num_bits flip_tms _, ps => ps = scanPinsAt p.tms data num_bits flip_tms
  | .clock_tck times, ps => ps = List.replicate (clocked times) p
  | .set_tck_freq _, ps => ps = []

/-- The level of TMS after a call. -/
def Call.level (tms : Bool) : Call → Bool
  | .tms_seq data num_bits => if num_bits = 0 then tms else bitAt data (num_bits - 1)
  | .scan_chain_send _ _ flip_tms _ => flip_tms
  | _ => tms

def Call.isScan : Call → Bool
  | .scan_chain_send _ _ _ _ => true
  | _ => false

/-- TMS is low whenever a scan starts. -/
def ScansLow : Bool → List Call → Prop
  | _, [] => True
  | tms, call :: calls => (call.isScan = true → tms = false) ∧ ScansLow (call.level tms) calls

/-- The board goes through these cycles, call by call. -/
def Performed (board : Board) : Pins → List Cycle → List Call → List (List Cycle) → Prop
  | _, _, [], css => css = []
  | p, log, call :: calls, css => ∃ ps css', call.Cycles p ps ∧ css = board.cycles log ps :: css' ∧
      Performed board (lastPins p ps) (log ++ board.cycles log ps) calls css'

/-- The board goes through the cycles that the calls give. -/
def Clocked (board : Board) : Pins → List Cycle → List Call → List (List Cycle) → Prop
  | _, _, [], css => css = []
  | p, log, call :: calls, css => ∃ ps css', call.Clocks p ps ∧ css = board.cycles log ps :: css' ∧
      Clocked board (lastPins p ps) (log ++ board.cycles log ps) calls css'

/-- The read scan of a call whose cycles are `cs`. -/
def Call.scans (cs : List Cycle) : Call → List Scan
  | .scan_chain_send _ num_bits flip_tms true => [⟨num_bits, flip_tms, cs.map Cycle.tdo⟩]
  | _ => []

/-! ## One call -/

/-- The bytes that the device answers to a call. -/
def Call.Answers (tdo : List Bool) : Call → List Byte → Prop
  | .scan_chain_send _ num_bits flip_tms true, rs => ScanAnswer num_bits flip_tms tdo rs
  | _, rs => rs = []

/-- A call that succeeds moves the engine through its cycles. -/
structure Call.Done (call : Call) (board : Board) (c d : Jtag Mpsse) (e e' : MpsseEngine)
    (ps : List Pins) (rs : List Byte) : Prop where
  taken : d.dev.port.taken = c.dev.port.taken
  advances : Advances board e e' ps rs
  cycles : call.Clocks e.pins ps
  answers : call.Answers ((board.cycles e.log ps).map Cycle.tdo) rs
  fits : ∀ cs, ∀ s ∈ call.scans cs, s.bits + 7 < 2 ^ 64

variable {usb : Usb} {board : Board}

theorem fed_emits {e₀ e : MpsseEngine} {c d : Jtag Mpsse} {ws : List Coded}
    (hfed : mpsseFeed board ⟨[], e₀⟩ (stream c) = ⟨[], e⟩) (hd : Emits c d (encode ws))
    (hws : ∀ w ∈ ws, Whole w) : mpsseFeed board ⟨[], e₀⟩ (stream d) = ⟨[], run board ws e⟩ := by
  rw [hd.stream, mpsseFeed_append, hfed, feed_encode hws]

/-- A scan of no bits either sends nothing, or asks for more room than there is. -/
theorem empty_scan {data : List Byte} {flip read : Bool} {c d : Jtag Mpsse}
    (h : mpsse_jtag_scan_chain_send usb data 0 flip read c = .ok true d) : flip = false ∧ d = c := by
  cases flip with
  | false => exact ⟨rfl, by cases h; rfl⟩
  | true =>
    have hfull : mpsse_jtag_scan_chain_send usb data 0 true read c = .ok false c := rfl
    rw [hfull] at h
    cases h

/-- A scan that succeeds. -/
theorem scan_spec {e₀ e : MpsseEngine} {c d : Jtag Mpsse} {data : List Byte} {n : Nat} {flip read : Bool}
    (hn : n < 2 ^ 64) (hfed : mpsseFeed board ⟨[], e₀⟩ (stream c) = ⟨[], e⟩)
    (h : mpsse_jtag_scan_chain_send usb data n flip read c = .ok true d) :
    ∃ e' rs, mpsseFeed board ⟨[], e₀⟩ (stream d) = ⟨[], e'⟩ ∧
      (Call.scan_chain_send data n flip read).Done board c d e e' (scanPinsAt e.pins.tms data n flip) rs := by
  rcases Nat.eq_zero_or_pos n with rfl | hpos
  · obtain ⟨rfl, rfl⟩ := empty_scan h
    refine ⟨e, [], hfed, rfl, .refl e, rfl, ?_, ?_⟩
    · cases read with
      | false => rfl
      | true => exact ⟨[], [], [], 0, 0, rfl, rfl, rfl, rfl, rfl⟩
    · cases read <;> simp [Call.scans]
  · obtain ⟨hsent, hlen⟩ := scan_chain_send_spec data n flip read c hpos hn _ _ h
    obtain ⟨-, hd⟩ := hsent rfl
    obtain ⟨hlen, hroom⟩ := hlen rfl
    obtain ⟨rs, hadv, hno, hyes⟩ := scanCodes_run_at board data n flip read e hlen
    have hwhole := scanCodes_whole data n flip read hlen (by
      unfold BUFFER_LENGTH at hroom
      omega)
    have hfits : n + 7 < 2 ^ 64 := by
      unfold BUFFER_LENGTH at hroom
      split at hroom <;> omega
    refine ⟨_, rs, fed_emits hfed hd hwhole, hd.taken, hadv, rfl, ?_, ?_⟩
    · cases read with
      | false => exact hno rfl
      | true => exact hyes rfl
    · cases read with
      | false => simp [Call.scans]
      | true => simpa [Call.scans] using hfits

theorem call_spec {e₀ e : MpsseEngine} {call : Call} {c d : Jtag Mpsse} (hsized : call.Sized)
    (hfed : mpsseFeed board ⟨[], e₀⟩ (stream c) = ⟨[], e⟩) (h : call.run usb c = .ok true d) :
    ∃ e' ps rs, mpsseFeed board ⟨[], e₀⟩ (stream d) = ⟨[], e'⟩ ∧ call.Done board c d e e' ps rs := by
  cases call with
  | tms_seq data n =>
    obtain ⟨-, hd⟩ := tms_seq_spec data n c _ _ h rfl
    obtain ⟨ps, hps, hadv⟩ := tmsCodes_run board data n e
    exact ⟨_, ps, [], fed_emits hfed hd (tmsCodes_whole data n), hd.taken, hadv, hps, rfl,
      by simp [Call.scans]⟩
  | scan_chain_send data n flip read =>
    obtain ⟨e', rs, hfed', hdone⟩ := scan_spec hsized hfed h
    exact ⟨e', _, rs, hfed', hdone⟩
  | clock_tck times =>
    obtain ⟨-, hd⟩ := (clock_tck_spec times c).ensures _ _ h rfl
    exact ⟨_, _, [], fed_emits hfed hd (clockCodes_whole times), hd.taken,
      clockCodes_run board times e, rfl, rfl, by simp [Call.scans]⟩
  | set_tck_freq freq =>
    obtain ⟨-, hd⟩ := set_tck_freq_spec freq c _ _ h rfl
    exact ⟨_, _, [], fed_emits hfed hd (freqCodes_whole freq), hd.taken, freqCodes_run board freq e,
      rfl, rfl, by simp [Call.scans]⟩

/-- A call gives the cycles it asks for, when it counts in 16 bits and a scan finds TMS low. -/
theorem Call.Clocks.cycles {call : Call} {p : Pins} {ps : List Pins} (h : call.Clocks p ps) (hvalid : call.Valid)
    (hlow : call.isScan = true → p.tms = false) : call.Cycles p ps := by
  cases call with
  | tms_seq data n => exact h
  | scan_chain_send data n flip read =>
    have hps : ps = scanPinsAt p.tms data n flip := h
    rw [hlow rfl, scanPinsAt_low data flip hvalid.1] at hps
    exact hps
  | clock_tck times =>
    have hps : ps = List.replicate (clocked times) p := h
    have htimes : times < 8 * 65536 := hvalid
    rw [clocked_eq (by omega)] at hps
    exact hps
  | set_tck_freq freq => exact h

theorem Call.Cycles.level {call : Call} {p : Pins} {ps : List Pins} (h : call.Cycles p ps)
    (hvalid : call.Valid) : (lastPins p ps).tms = call.level p.tms := by
  cases call with
  | tms_seq data n =>
    rw [lastPins_tms, show ps.map Pins.tms = bitsOf data n from h]
    cases n with
    | zero => rfl
    | succ n => simp [Call.level, bitsOf_succ]
  | scan_chain_send data n flip read =>
    obtain ⟨m, rfl⟩ : ∃ m, n = m + 1 := ⟨n - 1, by have := hvalid.1; omega⟩
    rw [show ps = scanPins data (m + 1) flip from h]
    simp [scanPins, lastPins, List.range_succ, Call.level]
  | clock_tck times =>
    rw [show ps = List.replicate times p from h, lastPins_replicate]
    rfl
  | set_tck_freq freq =>
    rw [show ps = [] from h]
    rfl

/-! ## Runs -/

inductive Event where
  | call (call : Call)
  /-- A receive into a buffer of `size` zeros. -/
  | recv (num_bits : Nat) (flip_tms : Bool) (size : Nat)
  deriving DecidableEq, Repr

/-- All calls succeed; the receives leave these buffers. -/
inductive Ran (usb : Usb) : Jtag Mpsse → List Event → List (List Byte) → Jtag Mpsse → Prop
  | done (c : Jtag Mpsse) : Ran usb c [] [] c
  | call {call : Call} {c d e : Jtag Mpsse} {evs : List Event} {outs : List (List Byte)} :
      call.run usb c = .ok true d → Ran usb d evs outs e → Ran usb c (.call call :: evs) outs e
  | recv {n fuel size : Nat} {flip : Bool} {out : List Byte} {c d e : Jtag Mpsse}
      {evs : List Event} {outs : List (List Byte)} :
      mpsse_jtag_scan_chain_recv usb fuel (List.replicate size 0) n flip c = .ok (true, out) d →
      Ran usb d evs outs e → Ran usb c (.recv n flip size :: evs) (out :: outs) e

/-- The chip goes through the cycles that the calls give. -/
theorem run_clocked {e₀ e : MpsseEngine} {calls : List Call} {c c' : Jtag Mpsse}
    (hrun : Ran usb c (calls.map .call) [] c') (hsized : ∀ call ∈ calls, call.Sized)
    (hstart : mpsseFeed board ⟨[], e₀⟩ (stream c) = ⟨[], e⟩) :
    ∃ css e', Clocked board e.pins e.log calls css ∧
      mpsseFeed board ⟨[], e₀⟩ (stream c') = ⟨[], e'⟩ ∧ e'.log = e.log ++ css.flatten := by
  induction calls generalizing c e with
  | nil =>
    cases hrun
    exact ⟨[], e, rfl, hstart, by simp⟩
  | cons call calls ih =>
    obtain _ | ⟨hcall, hrest⟩ := hrun
    obtain ⟨e₁, ps, rs, hfed, hdone⟩ := call_spec (hsized call List.mem_cons_self) hstart hcall
    obtain ⟨css, e', hclocked, hend, hlog⟩ :=
      ih hrest (fun x hx => hsized x (List.mem_cons_of_mem _ hx)) hfed
    rw [hdone.advances.pins, hdone.advances.log] at hclocked
    refine ⟨_, e', ⟨ps, css, hdone.cycles, rfl, hclocked⟩, hend, ?_⟩
    rw [hlog, hdone.advances.log, List.flatten_cons, List.append_assoc]

theorem Clocked.performed {calls : List Call} {p : Pins} {log : List Cycle} {css : List (List Cycle)}
    (h : Clocked board p log calls css) (hvalid : ∀ call ∈ calls, call.Valid) (hlow : ScansLow p.tms calls) :
    Performed board p log calls css := by
  induction calls generalizing p log css with
  | nil => exact h
  | cons call calls ih =>
    obtain ⟨ps, css', hclocks, rfl, hrest⟩ := h
    have hcv := hvalid call List.mem_cons_self
    have hcycles := hclocks.cycles hcv hlow.1
    refine ⟨ps, css', hcycles, rfl, ih hrest (fun x hx => hvalid x (List.mem_cons_of_mem _ hx)) ?_⟩
    rw [hcycles.level hcv]
    exact hlow.2

/-- The chip, fed with all bytes that went out and those that wait, goes through exactly the
cycles that the calls ask for, in their order. -/
theorem mpsse_run_cycles {e₀ e : MpsseEngine} {calls : List Call} {c c' : Jtag Mpsse}
    (hrun : Ran usb c (calls.map .call) [] c') (hvalid : ∀ call ∈ calls, call.Valid)
    (hlow : ScansLow e.pins.tms calls)
    (hstart : mpsseFeed board ⟨[], e₀⟩ (stream c) = ⟨[], e⟩) :
    ∃ css e', Performed board e.pins e.log calls css ∧
      mpsseFeed board ⟨[], e₀⟩ (stream c') = ⟨[], e'⟩ ∧ e'.log = e.log ++ css.flatten := by
  obtain ⟨css, e', hclocked, hend, hlog⟩ := run_clocked hrun (fun call hcall => (hvalid call hcall).sized) hstart
  exact ⟨css, e', hclocked.performed hvalid hlow, hend, hlog⟩

/-- TDO is high in every other cycle. -/
def blinkBoard : Board := ⟨fun log => log.length % 2 == 1, fun _ => 0xFF⟩

def idleEngine : MpsseEngine := ⟨⟨false, false⟩, [], []⟩

def idleMpsse : Jtag Mpsse := ⟨.RunTestIdle, 0, ⟨[], ⟨BITMODE_MPSSE, [], 0, 0, 0⟩⟩⟩

/-- From RunTestIdle into ShiftDR, then one byte, and into Exit1DR with its last bit. -/
def byteCalls : List Call := [.tms_seq [0x01] 3, .scan_chain_send [0xA5] 8 true true]

theorem byteCalls_valid : ∀ call ∈ byteCalls, call.Valid := by
  simp [byteCalls, Call.Valid]

theorem byteCalls_low : ScansLow idleEngine.pins.tms byteCalls := by
  simp [ScansLow, byteCalls, idleEngine, Call.level, Call.isScan, bitAt]

theorem mpsse_run_cycles_byte : ∃ c' css e',
    Performed blinkBoard idleEngine.pins idleEngine.log byteCalls css ∧
      mpsseFeed blinkBoard ⟨[], idleEngine⟩ (stream c') = ⟨[], e'⟩ ∧
      e'.log = idleEngine.log ++ css.flatten := by
  have hrun : ∃ c', Ran (mpsseUsb blinkBoard idleEngine) idleMpsse (byteCalls.map .call) [] c' :=
    ⟨_, .call rfl (.call rfl (.done _))⟩
  obtain ⟨c', hrun⟩ := hrun
  exact ⟨c', mpsse_run_cycles hrun byteCalls_valid byteCalls_low rfl⟩

/-! ## Receives -/

def callsOf : List Event → List Call
  | [] => []
  | .call call :: evs => call :: callsOf evs
  | .recv _ _ _ :: evs => callsOf evs

/-- The read scans among the calls, with the cycles that they took. -/
def scansOf : List Call → List (List Cycle) → List Scan
  | call :: calls, cs :: css => call.scans cs ++ scansOf calls css
  | _, _ => []

/-- Each receive is for the oldest read scan that waits; `q` holds the sizes of those. -/
def InOrder : List (Nat × Bool) → List Event → Prop
  | _, [] => True
  | q, .call call :: evs => InOrder (q ++ (call.scans []).map Scan.size) evs
  | q, .recv num_bits flip_tms _ :: evs => q.head? = some (num_bits, flip_tms) ∧ InOrder q.tail evs

/-- A scan and its answer, which nobody has read. -/
structure Due (x : Scan × List Byte) : Prop where
  answer : ScanAnswer x.1.bits x.1.flip x.1.tdo x.2
  pos : 1 ≤ x.1.bits
  fits : x.1.bits + 7 < 2 ^ 64

/-- The answers in the queue are what the device holds behind the bytes that were read. -/
structure Tracks (board : Board) (usb : Usb) (e₀ e : MpsseEngine) (c : Jtag Mpsse)
    (queue : List (Scan × List Byte)) : Prop where
  respond : ∀ l, usb.respond l = (mpsseFeed board ⟨[], e₀⟩ l).machine.resp
  fed : mpsseFeed board ⟨[], e₀⟩ (stream c) = ⟨[], e⟩
  waiting : e.resp.drop c.dev.port.taken = (queue.map Prod.snd).flatten
  taken : c.dev.port.taken ≤ e.resp.length
  due : ∀ x ∈ queue, Due x

/-- The TAP state is not the driver's. -/
theorem Tracks.of_dev {e₀ e : MpsseEngine} {c d : Jtag Mpsse} {queue : List (Scan × List Byte)}
    (h : Tracks board usb e₀ e c queue) (hdev : d.dev = c.dev) : Tracks board usb e₀ e d queue := by
  obtain ⟨h1, h2, h3, h4, h5⟩ := h
  rw [← hdev] at h3 h4
  have hstream : stream d = stream c := by simp only [stream, hdev]
  rw [← hstream] at h2
  exact ⟨h1, h2, h3, h4, h5⟩

theorem send_immediate_nothing (e : MpsseEngine) :
    mpsseFeed board ⟨[], e⟩ [SEND_IMMEDIATE] = ⟨[], e⟩ := by
  have h : mpsseFeed board ⟨[], e⟩ [SEND_IMMEDIATE] = ⟨[], mpsseExec board .other e⟩ := rfl
  rw [h]
  simp [mpsseExec, MpsseCommand.pins, MpsseCommand.answer]

/-- Whatever goes out before a receive, the device answers with the queue. -/
theorem Tracks.drop {e₀ e : MpsseEngine} {c : Jtag Mpsse} {queue : List (Scan × List Byte)}
    (h : Tracks board usb e₀ e c queue) (l : List Byte)
    (hl : l = stream c ∨ l = stream c ++ [SEND_IMMEDIATE]) :
    (usb.respond l).drop c.dev.port.taken = (queue.map Prod.snd).flatten := by
  rw [h.respond]
  rcases hl with rfl | rfl
  · rw [h.fed]
    exact h.waiting
  · rw [mpsseFeed_append, h.fed, send_immediate_nothing]
    exact h.waiting

theorem Call.Answers.due {call : Call} {cs : List Cycle} {rs : List Byte}
    (h : call.Answers (cs.map Cycle.tdo) rs) (hreads : call.Reads)
    (hfits : ∀ s ∈ call.scans cs, s.bits + 7 < 2 ^ 64) :
    ∃ new : List (Scan × List Byte), new.map Prod.fst = call.scans cs ∧ (new.map Prod.snd).flatten = rs ∧
      ∀ x ∈ new, Due x := by
  unfold Call.Answers at h
  split at h
  · rename_i data n flip
    refine ⟨[(⟨n, flip, cs.map Cycle.tdo⟩, rs)], rfl, by simp, ?_⟩
    simp only [List.mem_singleton, forall_eq]
    exact ⟨h, hreads, hfits _ (by simp [Call.scans])⟩
  · rename_i hne
    refine ⟨[], ?_, by simpa using h.symm, by simp⟩
    unfold Call.scans
    split
    · rename_i data n flip
      exact absurd rfl (hne data n flip)
    · rfl

/-- The answers that a call brings go behind those that wait. -/
theorem Tracks.advances {e₀ e e' : MpsseEngine} {c d : Jtag Mpsse} {queue new : List (Scan × List Byte)}
    {ps : List Pins} (h : Tracks board usb e₀ e c queue) (hfed : mpsseFeed board ⟨[], e₀⟩ (stream d) = ⟨[], e'⟩)
    (htaken : d.dev.port.taken = c.dev.port.taken) (hadv : Advances board e e' ps (new.map Prod.snd).flatten)
    (hdue : ∀ x ∈ new, Due x) : Tracks board usb e₀ e' d (queue ++ new) := by
  refine ⟨h.respond, hfed, ?_, ?_, ?_⟩
  · rw [hadv.resp, htaken, List.drop_append_of_le_length h.taken, h.waiting]
    simp
  · rw [hadv.resp, htaken, List.length_append]
    have := h.taken
    omega
  · intro x hx
    rcases List.mem_append.mp hx with hx | hx
    · exact h.due x hx
    · exact hdue x hx

theorem Tracks.call {e₀ e : MpsseEngine} {c d : Jtag Mpsse} {queue : List (Scan × List Byte)}
    {call : Call} (h : Tracks board usb e₀ e c queue) (hsized : call.Sized) (hreads : call.Reads)
    (hcall : call.run usb c = .ok true d) :
    ∃ e' ps new, Tracks board usb e₀ e' d (queue ++ new) ∧ call.Clocks e.pins ps ∧
      e'.pins = lastPins e.pins ps ∧ e'.log = e.log ++ board.cycles e.log ps ∧
      e'.resp = e.resp ++ (new.map Prod.snd).flatten ∧ d.dev.port.taken = c.dev.port.taken ∧
      new.map Prod.fst = call.scans (board.cycles e.log ps) := by
  obtain ⟨e', ps, rs, hfed, hdone⟩ := call_spec hsized h.fed hcall
  obtain ⟨new, hnew, rfl, hdue⟩ := hdone.answers.due hreads (hdone.fits _)
  exact ⟨e', ps, new, h.advances hfed hdone.taken hdone.advances hdue, hdone.cycles, hdone.advances.pins,
    hdone.advances.log, hdone.advances.resp, hdone.taken, hnew⟩

theorem Tracks.recv {e₀ e : MpsseEngine} {c d : Jtag Mpsse} {x : Scan × List Byte}
    {queue : List (Scan × List Byte)} {fuel size : Nat} {out : List Byte}
    (h : Tracks board usb e₀ e c (x :: queue))
    (hrecv : mpsse_jtag_scan_chain_recv usb fuel (List.replicate size 0) x.1.bits x.1.flip c =
      .ok (true, out) d) :
    Tracks board usb e₀ e d queue ∧ Holds out x.1.tdo ∧
      d.dev.port.taken = c.dev.port.taken + x.2.length ∧ d.state = c.state ∧ out.length = size := by
  have hx := h.due x (by simp)
  obtain ⟨hst, hstream, htaken, hholds, hsize⟩ := scan_chain_recv_spec fuel size x.1.bits x.1.flip x.1.tdo x.2
    (queue.map Prod.snd).flatten c hx.pos hx.fits hx.answer (fun l hl => by simpa using h.drop l hl)
    _ _ hrecv rfl
  have hlen := congrArg List.length h.waiting
  simp only [List.length_drop, List.map_cons, List.flatten_cons, List.length_append] at hlen
  refine ⟨⟨h.respond, ?_, ?_, ?_, fun y hy => h.due y (by simp [hy])⟩,
    hholds, htaken, hst, hsize⟩
  · rcases hstream with hs | hs
    · rw [hs]
      exact h.fed
    · rw [hs, mpsseFeed_append, h.fed, send_immediate_nothing]
  · rw [htaken, ← List.drop_drop, h.waiting]
    simp
  · have := h.taken
    omega

/-- What a run makes of a queue of scans: it performs its calls, appends the read scans among
them, and its receives take from the front. -/
structure Attributed (board : Board) (usb : Usb) (e₀ e e' : MpsseEngine) (c c' : Jtag Mpsse)
    (queue : List (Scan × List Byte)) (evs : List Event) (outs : List (List Byte))
    (css : List (List Cycle)) (new : List (Scan × List Byte)) : Prop where
  performed : Clocked board e.pins e.log (callsOf evs) css
  scans : new.map Prod.fst = scansOf (callsOf evs) css
  resp : e'.resp = e.resp ++ (new.map Prod.snd).flatten
  due : ∀ x ∈ new, Due x
  count : outs.length ≤ (queue ++ new).length
  tracks : Tracks board usb e₀ e' c' ((queue ++ new).drop outs.length)
  taken : c'.dev.port.taken =
    c.dev.port.taken + (((queue ++ new).take outs.length).map Prod.snd).flatten.length
  holds : List.Forall₂ (fun x out => Holds out x.1.tdo) ((queue ++ new).take outs.length) outs

theorem Call.scans_size (call : Call) (cs cs' : List Cycle) :
    (call.scans cs).map Scan.size = (call.scans cs').map Scan.size := by
  unfold Call.scans
  split <;> rfl

theorem ran_attributed {e₀ e : MpsseEngine} {evs : List Event} {outs : List (List Byte)}
    {c c' : Jtag Mpsse} {queue : List (Scan × List Byte)} (hrun : Ran usb c evs outs c')
    (h : Tracks board usb e₀ e c queue) (hsized : ∀ call ∈ callsOf evs, call.Sized)
    (hreads : ∀ call ∈ callsOf evs, call.Reads)
    (horder : InOrder (queue.map fun x => x.1.size) evs) :
    ∃ e' css new, Attributed board usb e₀ e e' c c' queue evs outs css new := by
  induction hrun generalizing e queue with
  | done c => exact ⟨e, [], [], rfl, rfl, by simp, by simp, by simp, by simpa using h, by simp, by simp⟩
  | @call call c d c' evs outs hcall hrest ih =>
    obtain ⟨e₁, ps, new₁, htracks, hcycles, hpins, hlog, hresp, htaken, hscans⟩ :=
      h.call (hsized call List.mem_cons_self) (hreads call List.mem_cons_self) hcall
    have horder₁ : InOrder ((queue ++ new₁).map fun x => x.1.size) evs := by
      have hsizes : new₁.map (fun x => x.1.size) = (call.scans []).map Scan.size := by
        rw [call.scans_size [] (board.cycles e.log ps), ← hscans, List.map_map]
        rfl
      rw [List.map_append, hsizes]
      exact horder
    obtain ⟨e', css, new, hatt⟩ :=
      ih htracks (fun x hx => hsized x (List.mem_cons_of_mem _ hx)) (fun x hx => hreads x (List.mem_cons_of_mem _ hx))
        horder₁
    have hperf := hatt.performed
    rw [hpins, hlog] at hperf
    refine ⟨e', board.cycles e.log ps :: css, new₁ ++ new,
      ⟨ps, css, hcycles, rfl, hperf⟩, ?_, ?_, ?_, ?_, ?_, ?_, ?_⟩
    · rw [List.map_append, hscans, hatt.scans]
      rfl
    · rw [hatt.resp, hresp]
      simp
    · intro x hx
      rcases List.mem_append.mp hx with hx | hx
      · exact htracks.due x (List.mem_append_right queue hx)
      · exact hatt.due x hx
    · simpa using hatt.count
    · simpa using hatt.tracks
    · rw [hatt.taken, htaken]
      simp
    · simpa using hatt.holds
  | @recv n fuel size flip out c d c' evs outs hrecv hrest ih =>
    obtain ⟨hhead, htail⟩ := horder
    match queue, hhead, htail, h with
    | x :: queue, hhead, htail, h =>
      simp only [Scan.size, List.map_cons, List.head?_cons, Option.some.injEq, Prod.mk.injEq] at hhead
      obtain ⟨rfl, rfl⟩ := hhead
      obtain ⟨htracks, hholds, htaken, -⟩ := h.recv hrecv
      obtain ⟨e', css, new, hatt⟩ := ih htracks hsized hreads htail
      refine ⟨e', css, new, hatt.performed, hatt.scans, hatt.resp, hatt.due, ?_, hatt.tracks, ?_, ?_⟩
      · simpa using hatt.count
      · rw [hatt.taken, htaken]
        simp [Nat.add_assoc]
      · exact List.Forall₂.cons hholds hatt.holds

/-- The next receive ends, whatever the reads do, as long as they do not give nothing for ever. -/
theorem Tracks.recv_returns {e₀ e : MpsseEngine} {c : Jtag Mpsse} {x : Scan × List Byte}
    {queue : List (Scan × List Byte)} (h : Tracks board usb e₀ e c (x :: queue)) (hlive : usb.Live)
    (size : Nat) (hsize : x.1.bits ≤ 8 * size) :
    ∃ fuel, Returns (mpsse_jtag_scan_chain_recv usb fuel (List.replicate size 0) x.1.bits x.1.flip) c
      fun _ _ => True := by
  have hx := h.due x (by simp)
  exact scan_chain_recv_returns hlive size x.1.bits x.1.flip x.1.tdo x.2 (queue.map Prod.snd).flatten c
    hx.pos hx.fits hsize hx.answer fun l hl => by simpa using h.drop l hl

theorem Tracks.recv_succeeds {e₀ e : MpsseEngine} {c : Jtag Mpsse} {x : Scan × List Byte}
    {queue : List (Scan × List Byte)} (h : Tracks board usb e₀ e c (x :: queue)) (hdel : usb.Delivers)
    (fuel size : Nat) (hsize : x.1.bits ≤ 8 * size) :
    Returns (mpsse_jtag_scan_chain_recv usb (100 + fuel) (List.replicate size 0) x.1.bits x.1.flip) c
      fun r d => r.1 = true ∧ Tracks board usb e₀ e d queue ∧ Holds r.2 x.1.tdo ∧
        d.state = c.state ∧ r.2.length = size := by
  have hx := h.due x (by simp)
  obtain ⟨⟨_, out⟩, d, hrecv, rfl⟩ := scan_chain_recv_succeeds hdel fuel size x.1.bits x.1.flip x.1.tdo x.2
    (queue.map Prod.snd).flatten c hx.pos hx.fits hsize hx.answer fun l hl => by simpa using h.drop l hl
  obtain ⟨htracks, hholds, -, hst, hlen⟩ := h.recv hrecv
  exact ⟨_, d, hrecv, rfl, htracks, hholds, hst, hlen⟩

/-- The k-th receive takes exactly the bytes that answer the k-th read scan, and leaves the TDO
bits of that scan in its buffer, with zeros behind them. -/
theorem mpsse_recv_attributed {e₀ e : MpsseEngine} {evs : List Event} {outs : List (List Byte)}
    {c c' : Jtag Mpsse} (hdevice : ∀ l, usb.respond l = (mpsseFeed board ⟨[], e₀⟩ l).machine.resp)
    (hrun : Ran usb c evs outs c') (hstart : mpsseFeed board ⟨[], e₀⟩ (stream c) = ⟨[], e⟩)
    (hread : c.dev.port.taken = e.resp.length) (hsized : ∀ call ∈ callsOf evs, call.Sized)
    (hreads : ∀ call ∈ callsOf evs, call.Reads) (horder : InOrder [] evs) :
    ∃ css answers, Clocked board e.pins e.log (callsOf evs) css ∧
      List.Forall₂ (fun s rs => ScanAnswer s.bits s.flip s.tdo rs) (scansOf (callsOf evs) css) answers ∧
      usb.respond (stream c') = usb.respond (stream c) ++ answers.flatten ∧
      c'.dev.port.taken = c.dev.port.taken + (answers.take outs.length).flatten.length ∧
      List.Forall₂ (fun s out => Holds out s.tdo)
        ((scansOf (callsOf evs) css).take outs.length) outs ∧
      (usb.Live → ∀ s size, (scansOf (callsOf evs) css)[outs.length]? = some s → s.bits ≤ 8 * size →
        ∃ fuel, Returns (mpsse_jtag_scan_chain_recv usb fuel (List.replicate size 0) s.bits s.flip) c'
          fun _ _ => True) := by
  have htracks : Tracks board usb e₀ e c [] := ⟨hdevice, hstart, by simp [hread], by omega, by simp⟩
  obtain ⟨e', css, new, hatt⟩ := ran_attributed hrun htracks hsized hreads horder
  have hscans := hatt.scans
  have hcount := hatt.count
  have htracks' := hatt.tracks
  have htaken := hatt.taken
  have hholds := hatt.holds
  rw [List.nil_append] at hcount htracks' htaken hholds
  refine ⟨css, new.map Prod.snd, hatt.performed, ?_, ?_, ?_, ?_, ?_⟩
  · rw [← hscans]
    refine List.forall₂_map_left_iff.mpr (List.forall₂_map_right_iff.mpr (List.forall₂_same.mpr ?_))
    exact fun x hx => (hatt.due x hx).answer
  · rw [hdevice, hdevice, hstart, htracks'.fed]
    exact hatt.resp
  · rw [htaken, List.map_take]
  · rw [← hscans, ← List.map_take]
    exact List.forall₂_map_left_iff.mpr hholds
  · intro hlive s size hs hsize
    rw [← hscans, List.getElem?_map, Option.map_eq_some_iff] at hs
    obtain ⟨x, hx, rfl⟩ := hs
    obtain ⟨hlt, hget⟩ := List.getElem?_eq_some_iff.mp hx
    rw [List.drop_eq_getElem_cons hlt, hget] at htracks'
    exact htracks'.recv_returns hlive size hsize

/-- Two scans are read back to back, both with a flip, and only then are they received; the clock runs in between. -/
def pipelineCalls : List Call :=
  [.tms_seq [0x01] 3, .scan_chain_send [0xA5] 7 true true, .scan_chain_send [0x5A, 0x02] 11 true true,
    .clock_tck 9, .scan_chain_send [] 0 false false]

def pipelineEvents : List Event := pipelineCalls.map .call ++ [.recv 7 true 4, .recv 11 true 2]

def pipelineOuts : List (List Byte) := [[0x55, 0x00, 0x00, 0x00], [0xAA, 0x02]]

theorem mpsse_recv_attributed_two : ∃ c', Ran (mpsseUsb blinkBoard idleEngine) idleMpsse pipelineEvents pipelineOuts c' ∧
    ∃ css answers, Clocked blinkBoard idleEngine.pins idleEngine.log pipelineCalls css ∧
      List.Forall₂ (fun s rs => ScanAnswer s.bits s.flip s.tdo rs) (scansOf pipelineCalls css) answers ∧
      (mpsseUsb blinkBoard idleEngine).respond (stream c') =
        (mpsseUsb blinkBoard idleEngine).respond (stream idleMpsse) ++ answers.flatten ∧
      c'.dev.port.taken = idleMpsse.dev.port.taken + (answers.take pipelineOuts.length).flatten.length ∧
      List.Forall₂ (fun s out => Holds out s.tdo) ((scansOf pipelineCalls css).take pipelineOuts.length)
        pipelineOuts := by
  have hrun : ∃ c', Ran (mpsseUsb blinkBoard idleEngine) idleMpsse pipelineEvents pipelineOuts c' :=
    ⟨_, .call (of_answer (by decide +kernel)) (.call (of_answer (by decide +kernel))
      (.call (of_answer (by decide +kernel)) (.call (of_answer (by decide +kernel))
      (.call (of_answer (by decide +kernel)) (@Ran.recv _ 7 4 4 true _ _ _ _ _ _ (of_answer (by decide +kernel))
      (@Ran.recv _ 11 4 2 true _ _ _ _ _ _ (of_answer (by decide +kernel)) (.done _)))))))⟩
  obtain ⟨c', hrun⟩ := hrun
  obtain ⟨css, answers, hclocked, hans, hresp, htaken, hholds, -⟩ :=
    mpsse_recv_attributed (fun _ => rfl) hrun rfl rfl (by simp [callsOf, pipelineEvents, pipelineCalls, Call.Sized])
      (by simp [callsOf, pipelineEvents, pipelineCalls, Call.Reads]) ⟨rfl, rfl, trivial⟩
  exact ⟨c', hrun, css, answers, hclocked, hans, hresp, htaken, hholds⟩

end JtagRemote.Mpsse
