import JtagRemote.Origin
import JtagRemote.Blaster.Calls

/-!
# The usb_blaster driver when a write fails

Each write is whole: a packet, the rest bits, the last bit, or a TMS sequence. The
Blaster has seen the cycles of those that did not fail.
-/

namespace JtagRemote.Blaster

variable {usb : Usb} {o : Origin} {board : Board} {e₀ e : BlasterEngine} {c d : Jtag Blaster}

/-- The Blaster is at `e`, between two writes. -/
structure Seen (o : Origin) (board : Board) (e₀ : BlasterEngine) (c : Jtag Blaster) (e : BlasterEngine) : Prop where
  fed : blasterFeed board e₀ c.dev.port.delivered = e
  idle : e.shift_left = 0
  since : o.Since e.log e.pins.tms

theorem Seen.of_delivered (h : Seen o board e₀ c e) (hdel : d.dev.port.delivered = c.dev.port.delivered) :
    Seen o board e₀ d e := by
  refine ⟨?_, h.idle, h.since⟩
  rw [hdel]
  exact h.fed

/-- A write that the Blaster took. -/
theorem Seen.wrote {data rs : List Byte} {ps : List Pins} (h : Seen o board e₀ c e)
    (hdel : d.dev.port.delivered = c.dev.port.delivered ++ data)
    (hclocks : Clocks board e (blasterFeed board e data) ps rs) :
    Seen o board e₀ d (blasterFeed board e data) := by
  refine ⟨?_, hclocks.idle, ?_⟩
  · rw [hdel, blasterFeed_append, h.fed]
  · rw [hclocks.log, hclocks.pins, lastPins_tms]
    exact h.since.clock board ps

/-! ## One write -/

theorem write_whole (hw : usb.Whole) (data : List Byte) (c : Jtag Blaster) :
    Returns (blaster_port (ftdi_write_retry usb data)) c fun r d => d.state = c.state ∧
      d.dev.port.delivered = c.dev.port.delivered ++ (if r then data else []) ∧
      (r = true ↔ usb.Sends data c.dev.port) := by
  refine Returns.mono (Returns.focus (ftdi_write_retry_whole hw data c.dev.port)) ?_
  rintro r _ ⟨p, ⟨hp, hr⟩, rfl⟩
  exact ⟨rfl, hp, hr⟩

/-- A read delivers nothing, whether it succeeds or not. -/
theorem read_delivers_nothing (trans : Nat) (c : Jtag Blaster) :
    Ensures (usb_blaster_read usb trans) c fun _ d => d.state = c.state ∧
      d.dev.port.delivered = c.dev.port.delivered := by
  unfold usb_blaster_read
  refine Ensures.bind (Ensures.focus (ftdi_read_retry_spec trans c.dev.port).ensures) ?_
  rintro ⟨ok, got⟩ _ ⟨p, ⟨htook, -⟩, rfl⟩
  refine Ensures.get_bind (ensures_ite (fun _ => ?_) fun _ => ensures_throw)
  refine Ensures.bind (memcpy_spec _ _ _ _) ?_
  rintro recv_buffer _ ⟨rfl, -⟩
  exact Ensures.set_bind (ensures_pure ⟨rfl, htook.delivered⟩)

/-- An exchange is seen when its write succeeds; else it gives `false`, and nothing is seen. -/
theorem exchange_seen (hw : usb.Whole) (h : Seen o board e₀ c e) {data rs : List Byte} {ps : List Pins}
    (hclocks : Clocks board e (blasterFeed board e data) ps rs) (read : Bool) (trans : Nat) :
    Ensures (usb_blaster_exchange usb data read trans) c fun r d => d.state = c.state ∧
      (usb.Sends data c.dev.port → Seen o board e₀ d (blasterFeed board e data)) ∧
      (¬ usb.Sends data c.dev.port → r = false ∧ Seen o board e₀ d e) := by
  unfold usb_blaster_exchange
  refine Ensures.bind (write_whole hw data c).ensures ?_
  rintro r d ⟨hst, hdel, hsends⟩
  cases r with
  | false =>
    rw [if_neg Bool.false_ne_true, List.append_nil] at hdel
    refine ensures_pure ⟨hst, fun hs => ?_, fun _ => ⟨rfl, h.of_delivered hdel⟩⟩
    exact absurd (hsends.mpr hs) Bool.false_ne_true
  | true =>
    rw [if_pos rfl] at hdel
    have hs := hsends.mp rfl
    rw [if_pos rfl]
    refine ensures_ite (fun _ => ?_) fun _ => ensures_pure ⟨hst, fun _ => h.wrote hdel hclocks, fun hn => absurd hs hn⟩
    refine (read_delivers_nothing trans d).mono ?_
    rintro r d' ⟨hst', hdel'⟩
    refine ⟨hst'.trans hst, fun _ => ?_, fun hn => absurd hs hn⟩
    exact h.wrote (hdel'.trans hdel) hclocks

/-! ## The bits of a scan that do not flip -/

/-- The TAP stays in its Shift state. -/
structure Shifted (o : Origin) (board : Board) (e₀ e : BlasterEngine) (d : Jtag Blaster) (e' : BlasterEngine) : Prop where
  seen : Seen o board e₀ d e'
  tap : o.tap e'.log = o.tap e.log
  log : e.log <+: e'.log

theorem Shifted.refl (h : Seen o board e₀ c e) : Shifted o board e₀ e c e := ⟨h, rfl, List.prefix_refl _⟩

theorem exchange_shifted (hw : usb.Whole) (h : Seen o board e₀ c e) (hshift : (o.tap e.log).isShift = true)
    {data rs : List Byte} {bits : List Byte} {a k : Nat}
    (hclocks : Clocks board e (blasterFeed board e data) (heldPins false bits a k) rs) (read : Bool) (trans : Nat) :
    Ensures (usb_blaster_exchange usb data read trans) c fun _ d => d.state = c.state ∧
      ∃ e', Shifted o board e₀ e d e' := by
  refine (exchange_seen hw h hclocks read trans).mono ?_
  rintro r d ⟨hst, hsent, hfails⟩
  refine ⟨hst, ?_⟩
  by_cases hs : usb.Sends data c.dev.port
  · refine ⟨_, hsent hs, ?_, ?_⟩
    · rw [hclocks.log, h.since.tap_clock, heldPins_tms, stateAfter_low hshift]
    · rw [hclocks.log]
      exact List.prefix_append _ _
  · exact ⟨e, .refl (hfails hs).2⟩

theorem packets_shifted (hw : usb.Whole) (h : Seen o board e₀ c e) (hshift : (o.tap e.log).isShift = true)
    {data : List Byte} {len i fuel : Nat} (read : Bool) (hlen : len ≤ data.length) :
    Ensures (usb_blaster_packets usb data len read fuel i) c fun _ d => d.state = c.state ∧
      ∃ e', Shifted o board e₀ e d e' := by
  induction fuel generalizing c e i with
  | zero => exact ensures_ite (fun _ => ensures_throw) fun _ => ensures_pure ⟨rfl, e, .refl h⟩
  | succ fuel ih =>
    refine ensures_ite (fun hlt => ?_) fun _ => ensures_pure ⟨rfl, e, .refl h⟩
    have hmax : MAX_PACKET_SIZE = 32 := rfl
    have htrans : i + min (len - i) MAX_PACKET_SIZE ≤ data.length := by omega
    have hbytes : ((data.drop i).take (min (len - i) MAX_PACKET_SIZE)).length = min (len - i) MAX_PACKET_SIZE := by
      rw [List.length_take, List.length_drop]
      omega
    have hclocks := packet_clocks board read ((data.drop i).take (min (len - i) MAX_PACKET_SIZE)) e h.idle (by omega)
    rw [shiftPins_drop _ data i _ htrans, hbytes, h.since.low hshift] at hclocks
    refine Ensures.of_eq_bind (bytes_at_ok htrans c) ?_
    refine Ensures.bind (exchange_shifted hw h hshift hclocks read _) ?_
    rintro r d ⟨hst, e₁, h₁⟩
    refine ensures_ite (fun _ => ?_) fun _ => ensures_pure ⟨hst, e₁, h₁⟩
    refine (ih h₁.seen (by rw [h₁.tap]; exact hshift)).mono ?_
    rintro r' d' ⟨hst', e₂, h₂⟩
    exact ⟨hst'.trans hst, e₂, h₂.seen, h₂.tap.trans h₁.tap, h₁.log.trans h₂.log⟩

theorem send_rest_shifted (hw : usb.Whole) (h : Seen o board e₀ c e) (hshift : (o.tap e.log).isShift = true)
    {data : List Byte} {bulk : Nat} (read : Bool) (hlen : bulk ≤ 8 * data.length) :
    Ensures (usb_blaster_send_rest usb data bulk read) c fun _ d => d.state = c.state ∧
      ∃ e', Shifted o board e₀ e d e' := by
  by_cases hzero : bulk % 8 = 0
  · unfold usb_blaster_send_rest
    rw [if_pos hzero]
    exact ensures_pure ⟨rfl, e, .refl h⟩
  · obtain ⟨rs, hpart⟩ := restBytes_part board data (bulk / 8 * 8) (bulk % 8) read e h.idle
    rw [Ensures, send_rest_eq read hlen hzero]
    exact exchange_shifted hw h hshift hpart.clocks read _

/-! ## The calls -/

/-- `state` counts the cycles that the Blaster saw. -/
def Counted (o : Origin) (board : Board) (e₀ : BlasterEngine) (c : Jtag Blaster) : Prop :=
  ∃ e, Seen o board e₀ c e ∧ o.tap e.log = c.state

/-- The write of a TMS sequence from `st` does not fail, or the sequence leads back to `st`. -/
def TmsSent (usb : Usb) (data : List Byte) (n : Nat) (st : JtagState) (c : Jtag Blaster) : Prop :=
  usb.Sends (tmsWrite data n) c.dev.port ∨ stateAfter st (bitsOf data n) = st

theorem tms_seq_counted (hw : usb.Whole) {data : List Byte} {n : Nat} {st : JtagState} (h : Seen o board e₀ c e)
    (hst : o.tap e.log = st) (hmoved : c.state = stateAfter st (bitsOf data n)) (hn : 1 ≤ n)
    (hlen : n ≤ 8 * data.length) (hsent : TmsSent usb data n st c) :
    Ensures (usb_blaster_jtag_tms_seq usb data n) c fun r d =>
      Counted o board e₀ d ∧ (r = false → d.state = st) := by
  obtain ⟨hclocks, -⟩ := tmsWrite_clocks board data hn e h.idle
  rw [Ensures, tms_seq_eq hn hlen]
  refine (write_whole hw (tmsWrite data n) c).ensures.mono ?_
  rintro r d ⟨hstate, hdel, hsends⟩
  rw [hmoved] at hstate
  cases r with
  | true =>
    rw [if_pos rfl] at hdel
    refine ⟨⟨_, h.wrote hdel hclocks, ?_⟩, by simp⟩
    rw [hclocks.log, h.since.tap_clock, hst, hstate]
    simp [Function.comp_def]
  | false =>
    have hback := hsent.resolve_left fun hs => Bool.false_ne_true (hsends.mpr hs)
    rw [hback] at hstate
    rw [if_neg Bool.false_ne_true, List.append_nil] at hdel
    exact ⟨⟨e, h.of_delivered hdel, hst.trans hstate.symm⟩, fun _ => hstate⟩

/-- The write of the last bit with TMS high, once the scan comes to it, does not fail. -/
def ScanSent (usb : Usb) (data : List Byte) (n : Nat) (flip read : Bool) (c : Jtag Blaster) : Prop :=
  flip = true → ∀ k k', usb_blaster_packets usb data ((n - 1) / 8) read ((n - 1) / 8) 0 c = .ok true k →
    usb_blaster_send_rest usb data (n - 1) read k = .ok true k' → usb.Sends (lastWrite data n read) k'.dev.port

theorem scan_chain_send_counted (hw : usb.Whole) {data : List Byte} {n : Nat} {flip read : Bool}
    (h : Seen o board e₀ c e) (hst : o.tap e.log = c.state) (hshift : c.state.isShift = true) (hn : 1 ≤ n)
    (hn' : n < 2 ^ 64) (hlen : n ≤ 8 * data.length) (hsent : ScanSent usb data n flip read c) :
    Ensures (usb_blaster_jtag_scan_chain_send usb data n flip read) c fun r d => Counted o board e₀ d ∧
      (r = false → d.state = c.state ∨ ∃ log x, (blasterFeed board e₀ d.dev.port.delivered).log =
        e.log ++ (log ++ [x]) ∧ x.tms = true) := by
  have hbulk : (if flip then n - 1 else n) ≤ n := by split <;> omega
  have hshift₀ : (o.tap e.log).isShift = true := by rwa [hst]
  intro r d hrun
  unfold usb_blaster_jtag_scan_chain_send at hrun
  rw [bind_of_ok (get_apply c), bulk_bits_of_pos flip hn hn'] at hrun
  obtain ⟨_, c₀, hassert, hsend⟩ := bind_eq_ok.mp hrun
  obtain rfl : c₀ = c := (assert_guards _ c).ensures _ _ hassert
  obtain ⟨r₁, c₁, hrun₁, hrest₁⟩ := bind_eq_ok.mp hsend
  obtain ⟨hst₁, e₁, h₁⟩ := packets_shifted hw h hshift₀ read (by omega) _ _ hrun₁
  cases r₁ with
  | false =>
    cases hrest₁
    exact ⟨⟨e₁, h₁.seen, h₁.tap.trans (hst.trans hst₁.symm)⟩, fun _ => Or.inl hst₁⟩
  | true =>
    obtain ⟨r₂, c₂, hrun₂, hrest₂⟩ := bind_eq_ok.mp hrest₁
    obtain ⟨hst₂, e₂, h₂⟩ := send_rest_shifted hw h₁.seen (by rw [h₁.tap]; exact hshift₀) read (by omega) _ _ hrun₂
    rw [hst₁] at hst₂
    have htap₂ : o.tap e₂.log = c₂.state := by rw [h₂.tap, h₁.tap, hst, hst₂]
    cases r₂ with
    | false =>
      cases hrest₂
      exact ⟨⟨e₂, h₂.seen, htap₂⟩, fun _ => Or.inl hst₂⟩
    | true =>
      cases flip with
      | false =>
        cases hrest₂
        exact ⟨⟨e₂, h₂.seen, htap₂⟩, by simp⟩
      | true =>
        have hlast := hsent rfl c₁ c₂ hrun₁ hrun₂
        obtain ⟨rs, hclocks, -⟩ := lastWrite_clocks board data n read e₂ h₂.seen.idle
        have hc : Seen o board e₀ { c₂ with state := next_state c₂.state true } e₂ := h₂.seen.of_delivered rfl
        rw [if_pos rfl, if_pos rfl, send_last_eq read hn hn' hlen] at hrest₂
        obtain ⟨hst₃, hseen, -⟩ := exchange_seen hw hc hclocks read 1 _ _ hrest₂
        have hd := hseen hlast
        refine ⟨⟨_, hd, ?_⟩, fun _ => Or.inr ?_⟩
        · rw [hclocks.log, h₂.seen.since.tap_clock, htap₂, hst₃]
          rfl
        · obtain ⟨log, hlog⟩ := h₁.log.trans h₂.log
          refine ⟨log, ⟨true, bitAt data (n - 1), board.tdo e₂.log⟩, ?_, rfl⟩
          rw [hd.fed, hclocks.log, ← hlog, List.append_assoc]
          rfl

end JtagRemote.Blaster
