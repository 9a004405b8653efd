import JtagRemote.Probe.Walk
import JtagRemote.Mpsse.Bounds
import JtagRemote.Blaster.Bounds

/-!
# What the handlers of jtagd ask of an adapter

READ_CHAIN probes the chain, ACCESS_IR_2 scans ten bits, and ACCESS_DR_2 scans as many bits as its
client says, out of an array of `BUFFER_SIZE` bytes and into one.
-/

namespace JtagRemote.Jtagd

open JtagState

/-! ## The scans of ACCESS_DR_2 -/

/-- An adapter with the scans that ACCESS_DR_2 makes, some longer than a window of the other protocols. -/
structure DrAdapter {δ : Type} (board : Board) (d : driver δ) extends Adapter board d where
  Takes : Nat → Prop
  scan {c : Jtag δ} {l : Line} {data : List Byte} {n : Nat} :
    Stands c.state c.dev l → l.pending = [] → c.state.isShift = true → 1 ≤ n → n ≤ 8 * BUFFER_SIZE → Takes n →
    n ≤ 8 * data.length →
    Returns (jtag_scan_chain d data (List.replicate BUFFER_SIZE 0) n true true) c fun r c' =>
      r.2.length = BUFFER_SIZE ∧ Holds r.2 ((board.cycles l.log (scanPins data n true)).map Cycle.tdo) ∧
      c'.state = stateAfterScan c.state true ∧ Stands c'.state c'.dev (l.clock board (scanPins data n true))
  /-- Numbers of bits for which nothing is scanned, and `false` comes back. -/
  Refuses : Nat → Bool
  refused {c : Jtag δ} {data out : List Byte} {n : Nat} : Refuses n = true →
    jtag_scan_chain d data out n true true c = .ok (false, out) (withCount c n)
  /-- All other numbers lead out of one of the arrays. -/
  stops {c : Jtag δ} {l : Line} {data : List Byte} {n : Nat} :
    Stands c.state c.dev l → l.pending = [] → c.state.isShift = true → n < 2 ^ 32 → data.length = BUFFER_SIZE →
    Refuses n = false → ¬ (1 ≤ n ∧ n ≤ 8 * BUFFER_SIZE ∧ Takes n) →
    Faults (jtag_scan_chain d data (List.replicate BUFFER_SIZE 0) n true true) c .out_of_bounds

section

variable {board : Board} {usb : Usb} {fuel freq n : Nat} {data : List Byte}

theorem mpsse_refused {c : Jtag Mpsse} {out : List Byte} (hrefuses : (!decide (Mpsse.Fits n true)) = true) :
    jtag_scan_chain (mpsse_driver usb (100 + fuel) freq) data out n true true c = .ok (false, out) (withCount c n) :=
  Mpsse.jtag_scan_chain_refused (by simpa using hrefuses) data out c

theorem mpsse_stops (hdel : usb.Delivers) {c : Jtag Mpsse} (hn : n < 2 ^ 32) (hdata : data.length = BUFFER_SIZE)
    (hrefuses : (!decide (Mpsse.Fits n true)) = false) (hnot : ¬ (1 ≤ n ∧ n ≤ 8 * BUFFER_SIZE ∧ True)) :
    Faults (jtag_scan_chain (mpsse_driver usb (100 + fuel) freq) data (List.replicate BUFFER_SIZE 0) n true true) c
      .out_of_bounds := by
  have hfits : Mpsse.Fits n true := by simpa using hrefuses
  have hpos : 1 ≤ n := by
    by_contra hzero
    obtain rfl : n = 0 := by omega
    exact absurd hfits (by decide)
  have hlong : 8 * data.length < n := by
    rw [hdata]
    by_contra hle
    exact hnot ⟨hpos, by omega, trivial⟩
  unfold jtag_scan_chain
  refine Faults.bind ?_
  rw [Faults, jtag_scan_chain_send_eq]
  exact Mpsse.scan_chain_send_fault hdel true (fun _ => hpos) (by omega) hlong hfits

theorem blaster_stops {e₀ : BlasterEngine} {c : Jtag Blaster} {l : Line}
    (h : (Blaster.blasterAdapter board usb e₀ fuel).Stands c.state c.dev l) (hnone : l.pending = []) (hn : n < 2 ^ 32)
    (hdata : data.length = BUFFER_SIZE) (hnot : ¬ (1 ≤ n ∧ n ≤ 8 * BUFFER_SIZE ∧ Blaster.AnswerFits n true)) :
    Faults (jtag_scan_chain (usb_blaster_driver usb fuel) data (List.replicate BUFFER_SIZE 0) n true true) c
      .out_of_bounds := by
  obtain ⟨e, held, h⟩ := h
  have hsize : BUFFER_SIZE = 4096 := rfl
  have hbig : Blaster.RECV_BUFFER_SIZE = 4096 := rfl
  obtain ⟨-, rfl⟩ := h.holding.empty (by rw [hnone]; rfl)
  have hlinked : Blaster.Linked board usb e₀ (withCount c n) e [] := h.linked.of_dev rfl
  unfold jtag_scan_chain
  refine Faults.bind ?_
  rw [Faults, jtag_scan_chain_send_eq]
  by_cases hzero : n = 0
  · subst hzero
    exact Blaster.scan_chain_send_none hlinked true (by omega : data.length ≤ Blaster.RECV_BUFFER_SIZE)
  by_cases hlong : 8 * data.length < n
  · exact Blaster.scan_chain_send_fault hlinked true (fun _ => by omega) (by omega) hlong (by omega)
  · have hover : ¬ Blaster.AnswerFits n true := fun hfits => hnot ⟨by omega, by omega, hfits⟩
    exact Blaster.scan_chain_send_overflows hlinked data (by omega) (by omega) (by omega) (by omega) hover

end

def mpsseDr (board : Board) (usb : Usb) (e₀ : MpsseEngine) (fuel freq : Nat) (hdel : usb.Delivers) :
    DrAdapter board (mpsse_driver usb (100 + fuel) freq) where
  toAdapter := Mpsse.mpsseAdapter board usb e₀ fuel freq hdel
  Takes _ := True
  scan := by
    rintro c l data n h hnone hshift hn hn' - hlen
    obtain ⟨e, queue, hstands⟩ := h
    have hroom : 3 + (if true then n - 1 else n) / 8 < BUFFER_LENGTH := by
      have hsize : BUFFER_SIZE = 4096 := rfl
      unfold BUFFER_LENGTH
      simp only [if_true]
      omega
    have hsend : Returns (jtag_scan_chain_send (mpsse_driver usb (100 + fuel) freq) data n true true) c
        fun r c' => r = true ∧ c'.state = stateAfterScan c.state true ∧
          ∃ e queue, Mpsse.Stands board usb e₀ c'.state c'.dev (l.scan board data n true true) e queue := by
      rw [Returns, jtag_scan_chain_send_eq]
      exact Mpsse.Stands.send (c := withCount c n) hstands hdel true true hshift hn hroom hlen
    refine ((Mpsse.mpsseAdapter board usb e₀ fuel freq hdel).scan_chain_of_send hnone hn' hsend).mono ?_
    rintro r c' ⟨-, hout, hholds, hst, h'⟩
    exact ⟨hout, hholds, hst, h'⟩
  Refuses n := !decide (Mpsse.Fits n true)
  refused := mpsse_refused
  stops _ _ _ hn hdata := mpsse_stops hdel hn hdata

/-- The answer to a scan has to fit `recv_buffer`. -/
def blasterDr (board : Board) (usb : Usb) (e₀ : BlasterEngine) (fuel : Nat) :
    DrAdapter board (usb_blaster_driver usb fuel) where
  toAdapter := Blaster.blasterAdapter board usb e₀ fuel
  Takes n := Blaster.AnswerFits n true
  scan := by
    rintro c l data n ⟨e, held, h⟩ hnone hshift hn hn' hfits hlen
    have hsize : BUFFER_SIZE = 4096 := rfl
    obtain ⟨-, rfl⟩ := h.holding.empty (by rw [hnone]; rfl)
    have hlinked : Blaster.Linked board usb e₀ (withCount c n) e [] := h.linked.of_dev rfl
    have hsend := Blaster.scan_chain_send_spec hlinked data n true true (h.low hshift) hn (by omega) hlen hfits
    unfold jtag_scan_chain
    rw [Returns, bind_apply, jtag_scan_chain_send_eq, ← bind_apply]
    refine Returns.bind hsend ?_
    rintro _ c₁ ⟨rfl, hst, e₁, rs, hlinked₁, hpart⟩
    have hans := hpart.yes rfl
    refine (Blaster.scan_chain_recv_spec hlinked₁ BUFFER_SIZE n true _ hn (by omega) hn' hans).mono ?_
    rintro r c₂ ⟨-, hout, hholds, hst₂, hlinked₂⟩
    rw [← h.log] at hholds
    refine ⟨hout, hholds, hst₂.trans hst, ?_⟩
    have hclocks := hpart.clocks
    refine @Blaster.stands_of _ _ _ _ _ _ _ _ _ (scanPins data n true) rs hlinked₂ hclocks h.log h.tms rfl rfl ?_ ?_
    · rw [Line.clock, hnone]
      exact .none
    · rw [hst₂, hst]
      intro hleft
      exact absurd (next_shift hleft) (by decide)
  Refuses _ := false
  refused := Bool.false_ne_true.elim
  stops h hnone _ hn hdata _ := blaster_stops h hnone hn hdata

/-- An adapter for all that the handlers do. -/
structure HandlerAdapter {δ : Type} (board : Board) (d : driver δ) extends DrAdapter board d, Prober board d

def mpsseHandlers (board : Board) (usb : Usb) (e₀ : MpsseEngine) (fuel freq : Nat) (hdel : usb.Delivers) :
    HandlerAdapter board (mpsse_driver usb (100 + fuel) freq) where
  toDrAdapter := mpsseDr board usb e₀ fuel freq hdel
  room_none := (mpsseProber board usb e₀ fuel freq hdel).room_none
  clears := (mpsseProber board usb e₀ fuel freq hdel).clears

def blasterHandlers (board : Board) (usb : Usb) (e₀ : BlasterEngine) (fuel : Nat) :
    HandlerAdapter board (usb_blaster_driver usb fuel) where
  toDrAdapter := blasterDr board usb e₀ fuel
  room_none := (blasterProber board usb e₀ fuel).room_none
  clears := (blasterProber board usb e₀ fuel).clears

variable {δ : Type} {board : Board} {d : driver δ}

/-! ## The table -/

/-- `jtag_get_tms_seq` has a way from `src` to `dst`. -/
def tabulated (src dst : JtagState) : Bool :=
  match (jtag_get_tms_seq src dst : EStateM Fault (Jtag Unit) (Byte × Nat)) ⟨src, 0, ()⟩ with
  | .ok _ _ => true
  | .error _ _ => false

/-- A way that is in the table leads where it should. -/
theorem get_tms_seq_cases (src dst : JtagState) (c : Jtag δ) :
    (tabulated src dst = true ∧ ∃ tms n, jtag_get_tms_seq src dst c = .ok (tms, n) c ∧ n ≤ 8 ∧
      stateAfter src (bitsOf [tms] n) = dst) ∨
    (tabulated src dst = false ∧ jtag_get_tms_seq src dst c = .error .no_tms_seq c) := by
  cases src <;> cases dst <;>
    first
    | exact Or.inr ⟨rfl, rfl⟩
    | exact Or.inl ⟨rfl, _, _, rfl, by decide, by decide⟩

theorem clock_none (board : Board) (l : Line) : l.clock board [] = l := by
  simp [Line.clock]

/-- A move that is in the table ends where it should. -/
theorem move_returns (A : Adapter board d) {c : Jtag δ} {l : Line} {dst : JtagState} (h : A.Stands c.state c.dev l)
    (hway : tabulated c.state dst = true) : Returns (jtag_tms_seq_to d dst) c fun _ c' => c'.state = dst ∧
      ∃ ps, stateAfter c.state (ps.map Pins.tms) = dst ∧ A.Stands c'.state c'.dev (l.clock board ps) := by
  rcases get_tms_seq_cases c.state dst c with ⟨-, tms, n, hrun, hn, hdst⟩ | ⟨hno, -⟩
  · unfold jtag_tms_seq_to
    refine Returns.get_bind (Returns.of_eq_bind hrun ?_)
    by_cases hpos : n > 0
    · dsimp only
      rw [if_pos hpos]
      refine (A.tms_seq_spec [tms] h hpos (hn.trans (by decide)) (by simpa using hn)).mono ?_
      rintro _ c' ⟨-, hst, ps, hps, h'⟩
      exact ⟨hst.trans hdst, ps, by rw [hps, hdst], h'⟩
    · obtain rfl : n = 0 := by omega
      have hsame : c.state = dst := hdst
      dsimp only
      rw [if_neg hpos]
      refine ⟨true, c, rfl, hsame, [], hsame, ?_⟩
      rwa [clock_none]
  · rw [hway] at hno
    cases hno

/-- A move that returns had a way in the table. -/
theorem move_spec (A : Adapter board d) {c : Jtag δ} {l : Line} (h : A.Stands c.state c.dev l) (dst : JtagState) :
    Ensures (jtag_tms_seq_to d dst) c fun _ c' => c'.state = dst ∧
      ∃ ps, stateAfter c.state (ps.map Pins.tms) = dst ∧ A.Stands c'.state c'.dev (l.clock board ps) := by
  rcases get_tms_seq_cases c.state dst c with ⟨hyes, -⟩ | ⟨-, hno⟩
  · exact (move_returns A h hyes).ensures
  · unfold jtag_tms_seq_to
    refine Ensures.get_bind fun r c' hrun => ?_
    rw [bind_of_error hno] at hrun
    cases hrun

/-! ## Where the TAP is -/

/-- The driver is in order, no answer waits, and `log` is the first of what was clocked. -/
def Still (A : HandlerAdapter board d) (log : List Cycle) (c : Jtag δ) : Prop :=
  ∃ l : Line, A.Stands c.state c.dev l ∧ l.pending = [] ∧ board.Since log l.log

section

variable {A : HandlerAdapter board d} {log : List Cycle} {c : Jtag δ}

/-- A move that is in the table ends where it should. -/
theorem Still.seq_to (h : Still A log c) {dst : JtagState} (hway : tabulated c.state dst = true) :
    Guards (jtag_tms_seq_to d dst) c .no_tms_seq fun _ c' => c'.state = dst ∧ Still A log c' := by
  obtain ⟨l, hstands, hnone, hlog⟩ := h
  apply ((move_returns A.toAdapter hstands hway).mono ?_).guards
  rintro _ c' ⟨hst, ps, -, h'⟩
  exact ⟨hst, _, h', hnone, hlog.cycles _⟩

/-- The scan of ACCESS_IR_2. -/
theorem Still.scan_ir (h : Still A log c) (hst : c.state = ShiftIR) {data : List Byte} (hdata : data.length = 4) :
    Guards (jtag_scan_chain d data (List.replicate 4 0) 10 true true) c .no_tms_seq fun _ c' =>
      c'.state = Exit1IR ∧ Still A log c' := by
  obtain ⟨l, hstands, hnone, hlog⟩ := h
  have hlen : 10 ≤ 8 * data.length := by omega
  have hscan := A.scan_chain_spec true true hstands hnone (by rw [hst]; rfl) A.room_none (by decide) (by decide) hlen
    (by decide : 10 ≤ 8 * 4)
  apply (hscan.mono ?_).guards
  rintro _ c' ⟨-, -, -, hst', h'⟩
  exact ⟨hst'.trans (by rw [hst]; rfl), _, h', hnone, hlog.cycles _⟩

/-- The scan of ACCESS_DR_2, with any number of bits. -/
theorem Still.scan_dr (h : Still A log c) (hst : c.state = ShiftDR) {data : List Byte} {n : Nat} (hdata : data.length = BUFFER_SIZE)
    (hn : n < 2 ^ 32) : Guards (jtag_scan_chain d data (List.replicate BUFFER_SIZE 0) n true true) c .no_tms_seq
      fun _ c' => c'.state = (if A.Refuses n then ShiftDR else Exit1DR) ∧ Still A log c' := by
  obtain ⟨l, hstands, hnone, hlog⟩ := h
  have hshift : c.state.isShift = true := by rw [hst]; rfl
  cases hrefuses : A.Refuses n with
  | true =>
    have hrun := @DrAdapter.refused _ _ _ A.toDrAdapter c data (List.replicate BUFFER_SIZE 0) n hrefuses
    exact Returns.guards ⟨_, _, hrun, hst, l, hstands, hnone, hlog⟩
  | false =>
    by_cases htakes : 1 ≤ n ∧ n ≤ 8 * BUFFER_SIZE ∧ A.Takes n
    · obtain ⟨hpos, hle, htakes⟩ := htakes
      have hlen : n ≤ 8 * data.length := by omega
      have hscan := A.scan hstands hnone hshift hpos hle htakes hlen
      apply (hscan.mono ?_).guards
      rintro _ c' ⟨-, -, hst', h'⟩
      exact ⟨hst'.trans (by rw [hst]; rfl), _, h', hnone, hlog.cycles _⟩
    · exact (A.stops hstands hnone hshift hn hdata hrefuses htakes).guards (by decide)

/-- The probe has two exits. -/
theorem Still.probe (h : Still A log c) (junk : Nat → Byte) :
    Guards (jtag_probe_devices d junk) c .no_tms_seq fun devices c' =>
      c'.state = (if devices = [] then Exit1DR else TestLogicReset) ∧ Still A log c' := by
  obtain ⟨⟨log', level, pending⟩, hstands, hnone, hlog⟩ := h
  obtain rfl : pending = [] := hnone
  have hT : (A.toProber.tracer log').Stands c.state c.dev log' := ⟨.refl _ log', level, hstands⟩
  apply ((jtag_probe_devices_spec _ junk c.state hT).mono ?_).guards
  rintro devices c' ⟨cs, rs, n, -, -, -, -, hzero, hpos⟩
  by_cases hn : n = 0
  · obtain ⟨rfl, hat⟩ := hzero hn
    obtain ⟨hsince, level', hstands'⟩ := hat.stands
    exact ⟨hat.state, _, hstands', rfl, hlog.trans hsince⟩
  · obtain ⟨cs', rs', reset, -, -, rfl, hat⟩ := hpos hn
    obtain ⟨hsince, level', hstands'⟩ := hat.stands
    refine ⟨?_, _, hstands', rfl, hlog.trans hsince⟩
    rw [if_neg (by simpa using hn)]
    exact hat.state

end

end JtagRemote.Jtagd
