import JtagRemote.Blaster.Adapter

/-!
# Starting on a USB Blaster

An earlier process may have left the Blaster inside a packet, with answers that nobody
read and the TAP in any state. The flush ends the packet, the drain takes the answers,
and five cycles with TMS high reset the TAP.
-/

namespace JtagRemote.Blaster

open JtagState

variable {board : Board} {usb : Usb} {e₀ e : BlasterEngine} {c : Jtag Blaster}

/-! ## The flush -/

/-- The Blaster is in bit-bang mode again, and may have answered a few bytes more. -/
structure Flushed (board : Board) (e e' : BlasterEngine) : Prop where
  since : board.Since e.log e'.log
  idle : e'.shift_left = 0
  resp : ∃ rs, e'.resp = e.resp ++ rs ∧ rs.length ≤ e.shift_left

def levels (tcks : List Bool) : List Byte := tcks.map fun tck => build_command false false tck false

/-- In bit-bang mode a level may clock the TAP, and is not answered. -/
theorem level_flushed (tck : Bool) (h : e.shift_left = 0) :
    Flushed board e (blasterByte board e (build_command false false tck false)) := by
  obtain ⟨h0, -, -, h6, -⟩ := build_command_bits false false tck false
  rw [command_byte e false false tck false h]
  unfold blasterPins
  simp only [h0, h6, Bool.false_eq_true, if_false]
  split
  · exact ⟨(Board.Since.refl board _).cycles _, h, [], (List.append_nil _).symm, Nat.zero_le _⟩
  · exact ⟨.refl board _, h, [], (List.append_nil _).symm, Nat.zero_le _⟩

theorem Flushed.trans {e' e'' : BlasterEngine} (h : Flushed board e e') (h' : Flushed board e' e'') :
    Flushed board e e'' := by
  obtain ⟨rs, hresp, hrs⟩ := h.resp
  obtain ⟨ss, hresp', hss⟩ := h'.resp
  rw [h.idle, Nat.le_zero, List.length_eq_zero_iff] at hss
  subst hss
  refine ⟨h.since.trans h'.since, h'.idle, rs, ?_, hrs⟩
  rw [hresp', hresp, List.append_nil]

theorem levels_flushed (tcks : List Bool) (h : e.shift_left = 0) :
    Flushed board e (blasterFeed board e (levels tcks)) := by
  induction tcks generalizing e with
  | nil => exact ⟨.refl board _, h, [], (List.append_nil _).symm, Nat.zero_le _⟩
  | cons tck tcks ih =>
    have hfirst : Flushed board e (blasterByte board e (build_command false false tck false)) := level_flushed tck h
    exact hfirst.trans (ih hfirst.idle)

/-- Bytes that byte-shift mode takes are clocked out, whatever they mean in bit-bang mode. -/
theorem shifted_flushed (data : List Byte) (h : e.shift_left = data.length) :
    Flushed board e (blasterFeed board e data) := by
  have hshift := shifted_clocks board data e h
  refine ⟨?_, hshift.idle, _, hshift.resp, ?_⟩
  · rw [hshift.log]
    exact (Board.Since.refl board _).cycles _
  · unfold shiftAnswer
    split
    · simp [shiftPins, packBits_length, h]
      omega
    · exact Nat.zero_le _

/-- The first levels end the packet that the Blaster was in. -/
theorem packet_flushed (tcks : List Bool) (h : e.shift_left ≤ tcks.length) :
    Flushed board e (blasterFeed board e (levels tcks)) := by
  have hlen : e.shift_left = (levels (tcks.take e.shift_left)).length := by
    rw [levels, List.length_map, List.length_take, Nat.min_eq_left h]
  have hfeed : blasterFeed board e (levels tcks) = blasterFeed board
      (blasterFeed board e (levels (tcks.take e.shift_left))) (levels (tcks.drop e.shift_left)) := by
    rw [← blasterFeed_append, levels, levels, levels, ← List.map_append, List.take_append_drop]
  have hpacket : Flushed board e (blasterFeed board e (levels (tcks.take e.shift_left))) := shifted_flushed _ hlen
  rw [hfeed]
  exact hpacket.trans (levels_flushed _ hpacket.idle)

/-! ## The drain -/

/-- Reads one byte after the other, until none waits. -/
theorem drain_spec (hlive : ∀ k, 1 ≤ (usb.read_result k).size 1) (fuel : Nat)
    (hfuel : (usb.waiting c.dev.port).length < fuel) :
    Returns (usb_blaster_drain usb fuel) c fun _ d =>
      ∃ p, d = withPort c p ∧ c.dev.port.Took usb p (usb.waiting c.dev.port) := by
  induction fuel generalizing c with
  | zero => omega
  | succ fuel ih =>
    unfold usb_blaster_drain
    have hread : Returns (ftdi_read_data usb 1) c.dev.port _ := ftdi_read_data_spec 1 c.dev.port
    by_cases hnone : usb.waiting c.dev.port = []
    · refine Returns.bind (Returns.focus hread) ?_
      rintro r _ ⟨p, ⟨-, got, htook, -, hr⟩, rfl⟩
      have hgot : got = [] := by
        have hfirst := htook.first
        rwa [hnone, List.prefix_nil] at hfirst
      subst hgot
      rw [hnone]
      rcases hr with ⟨rfl, -⟩ | rfl
      · exact returns_pure ⟨p, rfl, htook⟩
      · exact returns_pure ⟨p, rfl, htook⟩
    · refine Returns.bind (Returns.focus (hread.and (ftdi_read_data_live 1 c.dev.port (hlive _) hnone))) ?_
      rintro r _ ⟨p, ⟨⟨-, got, htook, hlen, hr⟩, got', hsome, hne⟩, rfl⟩
      subst hsome
      rcases hr with ⟨hcontra, -⟩ | hr
      · cases hcontra
      · cases hr
        obtain ⟨b, bs, rfl⟩ := List.exists_cons_of_ne_nil hne
        have hbs : bs = [] := List.length_eq_zero_iff.mp (by simpa using hlen)
        subst hbs
        have hwait := htook.waiting
        apply (ih (c := withPort c p) ?_).mono
        · rintro _ d ⟨q, rfl, htook'⟩
          refine ⟨q, rfl, ?_⟩
          have hall := htook.trans htook'
          rw [show usb.waiting (withPort c p).dev.port = (usb.waiting c.dev.port).drop 1 from hwait] at hall
          obtain ⟨rest, hrest⟩ := htook.first
          rw [← hrest] at hall ⊢
          exact hall
        · show (usb.waiting p).length < fuel
          have hpos := List.length_pos_of_ne_nil hnone
          rw [hwait, List.length_drop, List.length_singleton]
          omega

/-! ## The whole start -/

/-- A process that has just started: the TAP is taken to be in Test-Logic-Reset, and the
Blaster stands at `e₀`. -/
structure Boots (board : Board) (usb : Usb) (e₀ : BlasterEngine) (c : Jtag Blaster) : Prop where
  delivers : usb.Delivers
  opens : usb.opens = true
  sets_up : usb.sets_up = true
  live : ∀ k, 1 ≤ (usb.read_result k).size 1
  respond : ∀ l, usb.respond l = (blasterFeed board e₀ l).resp
  /-- A packet has a length of six bits. -/
  packet : e₀.shift_left < 64
  state : c.state = TestLogicReset
  delivered : c.dev.port.delivered = []
  taken : c.dev.port.taken = 0
  size : c.dev.recv_buffer.length = RECV_BUFFER_SIZE
  empty : c.dev.recv_buffer_len = 0

def flush : List Byte := levels ((List.range 4096).map fun i => i % 2 == 1)

theorem flush_eq : ((List.range 4096).map fun i => build_command false false (i % 2 == 1) false) = flush := by
  rw [flush, levels, List.map_map]
  rfl

theorem Boots.flushed (h : Boots board usb e₀ c) : Flushed board e₀ (blasterFeed board e₀ flush) := by
  apply packet_flushed
  have := h.packet
  rw [List.length_map, List.length_range]
  omega

theorem Boots.waiting {p : Port} (h : Boots board usb e₀ c) (hp : c.dev.port.Wrote p flush) :
    usb.waiting p = (blasterFeed board e₀ flush).resp := by
  rw [Usb.waiting, h.respond, hp.delivered, h.delivered, List.nil_append, hp.taken, h.taken, List.drop_zero]

/-- With the flush sent and the answers drained, the driver is in step with the Blaster. -/
theorem Boots.linked {p q : Port} (h : Boots board usb e₀ c) (hp : c.dev.port.Wrote p flush)
    (hq : p.Took usb q (usb.waiting p)) :
    Linked board usb e₀ (withPort c q) (blasterFeed board e₀ flush) [] := by
  refine ⟨h.delivers, h.respond, ?_, h.flushed.idle, ?_, h.size, h.empty, rfl⟩
  · show blasterFeed board e₀ q.delivered = _
    rw [hq.delivered, hp.delivered, h.delivered, List.nil_append]
  · show q.taken = _
    rw [hq.taken, hp.taken, h.taken, Nat.zero_add, h.waiting hp]

theorem Boots.set_bitmode (h : Boots board usb e₀ c) (mode : Nat) :
    Boots board usb e₀ (withPort c { c.dev.port with bitmode := mode }) :=
  ⟨h.delivers, h.opens, h.sets_up, h.live, h.respond, h.packet, h.state, h.delivered, h.taken, h.size, h.empty⟩

/-- The driver ends up in step with a Blaster that has just reset the TAP. -/
theorem init_spec (h : Boots board usb e₀ c) {fuel : Nat} (hfuel : e₀.resp.length + e₀.shift_left < fuel)
    (adapter_type : AdapterTypes) :
    Returns (usb_blaster_init usb fuel adapter_type) c fun r d => r = true ∧ d.state = TestLogicReset ∧
      ∃ cs ps, board.Ran e₀.log (cs ++ board.cycles (e₀.log ++ cs) ps) ∧ ps.map Pins.tms = List.replicate 5 true ∧
        (blasterAdapter board usb e₀ fuel).Stands d.state d.dev
          ⟨e₀.log ++ (cs ++ board.cycles (e₀.log ++ cs) ps), true, []⟩ := by
  unfold usb_blaster_init
  rw [if_pos h.opens]
  refine Returns.of_eq_bind (assert_ok h.sets_up c) ?_
  have hmode : blaster_port (ftdi_set_bitmode BITMODE_RESET) c =
      .ok () (withPort c { c.dev.port with bitmode := BITMODE_RESET }) := rfl
  refine Returns.of_eq_bind hmode ?_
  rw [flush_eq]
  replace h := h.set_bitmode BITMODE_RESET
  generalize withPort c { c.dev.port with bitmode := BITMODE_RESET } = c at h
  refine Returns.bind (Returns.focus (ftdi_write_retry_delivers h.delivers flush c.dev.port)) ?_
  rintro _ _ ⟨p, ⟨rfl, hp⟩, rfl⟩
  have hwait := h.waiting hp
  obtain ⟨rs, hresp, hrs⟩ := h.flushed.resp
  refine Returns.bind (drain_spec (c := withPort c p) h.live fuel ?_) ?_
  · show (usb.waiting p).length < fuel
    rw [hwait, hresp, List.length_append]
    omega
  rintro _ _ ⟨q, rfl, hq⟩
  have hlinked : Linked board usb e₀ (withPort c q) (blasterFeed board e₀ flush) [] := h.linked hp hq
  -- the reset
  refine Returns.bind (tms_seq_spec hlinked [0xff] 5 (by omega) (by simp)) ?_
  rintro _ d ⟨rfl, hstate, e', ps, hlinked', hps, hclocks, -⟩
  have hones : ps.map Pins.tms = List.replicate 5 true := hps
  have hhigh : e'.pins.tms = true := by
    rw [hclocks.pins, lastPins_tms, hones]
    rfl
  obtain ⟨cs, hlog, hran⟩ := h.flushed.since
  have htlr : d.state = TestLogicReset := hstate.trans h.state
  refine returns_pure ⟨rfl, htlr, cs, ps, hran.append (cycles_ran board _ ps), hones,
    e', [], hlinked'.of_dev rfl, ?_, hhigh.symm, .none, ?_⟩
  · rw [hclocks.log, hlog, List.append_assoc]
  · intro hshift
    rw [htlr] at hshift
    cases hshift

/-- Whatever state the Blaster and the TAP were left in, the driver then stands for the cable
as it is, and the TAP is where the driver takes it to be. -/
theorem init_resyncs (h : Boots board usb e₀ c) {fuel : Nat} (hfuel : e₀.resp.length + e₀.shift_left < fuel)
    (adapter_type : AdapterTypes) :
    Returns (usb_blaster_init usb fuel adapter_type) c fun r d => r = true ∧ d.state = TestLogicReset ∧
      ∃ cs, board.Ran e₀.log cs ∧
        (blasterAdapter board usb e₀ fuel).Stands d.state d.dev ⟨e₀.log ++ cs, true, []⟩ ∧
        ∀ tap, stateAfter tap (cs.map Cycle.tms) = TestLogicReset := by
  apply (init_spec h hfuel adapter_type).mono
  rintro _ d ⟨rfl, hstate, cs, ps, hran, hones, hstands⟩
  refine ⟨rfl, hstate, _, hran, hstands, ?_⟩
  intro tap
  rw [List.map_append, stateAfter_append, cycles_tms, hones, five_ones]

/-- A Blaster with three bytes of a packet to come and two answers that were not read. -/
def leftEngine : BlasterEngine := ⟨true, ⟨true, false⟩, 3, true, [⟨false, true, false⟩], [0x01, 0x02]⟩

def leftBoard : Board := ⟨fun log => log.length % 2 == 0, fun _ => 0⟩

def bootState : Jtag Blaster := ⟨TestLogicReset, 0, ⟨List.replicate 4096 0, 0, ⟨0, [], 0, 0, 0⟩⟩⟩

theorem bootState_boots (board : Board) : Boots board (blasterUsb board leftEngine) leftEngine bootState where
  delivers := Usb.Reliable.delivers ⟨fun _ => rfl, fun _ => rfl⟩
  opens := rfl
  sets_up := rfl
  live := fun _ => Nat.le_refl 1
  respond := fun _ => rfl
  packet := by decide
  state := rfl
  delivered := rfl
  taken := rfl
  size := List.length_replicate
  empty := rfl

theorem init_resyncs_left : Returns (usb_blaster_init (blasterUsb leftBoard leftEngine) 6 .Adapter_Xilinx) bootState
    fun r d => r = true ∧ d.state = TestLogicReset ∧ ∃ cs, leftBoard.Ran leftEngine.log cs ∧
      (blasterAdapter leftBoard (blasterUsb leftBoard leftEngine) leftEngine 6).Stands d.state d.dev
        ⟨leftEngine.log ++ cs, true, []⟩ ∧
      ∀ tap, stateAfter tap (cs.map Cycle.tms) = TestLogicReset :=
  init_resyncs (bootState_boots leftBoard) (by decide) .Adapter_Xilinx

end JtagRemote.Blaster
