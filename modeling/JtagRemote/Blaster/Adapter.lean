import JtagRemote.Blaster.Calls
import JtagRemote.Scanner

/-!
# The usb_blaster driver is an adapter

One read scan at most may wait, and the idle clock is worth nothing.
-/

namespace JtagRemote.Blaster

variable {board : Board} {usb : Usb} {e₀ e : BlasterEngine}

/-- The answers in `recv_buffer` are those of the scan that waits. -/
inductive Holding : List Scan → List Byte → Prop
  | none : Holding [] []
  | one {s : Scan} {rs : List Byte} : ScanAnswer s.bits s.flip s.tdo rs → 1 ≤ s.bits →
      s.bits ≤ MAX_BITS → Holding [s] rs

/-- TMS is low in the states that shift. -/
structure Stands (board : Board) (usb : Usb) (e₀ : BlasterEngine) (st : JtagState) (dev : Blaster)
    (l : Line) (e : BlasterEngine) (held : List Byte) : Prop where
  linked : Linked board usb e₀ ⟨st, 0, dev⟩ e held
  log : l.log = e.log
  tms : l.tms = e.pins.tms
  holding : Holding l.pending held
  low : st.isShift = true → e.pins.tms = false

theorem scanAnswer_pos {n : Nat} {flip : Bool} {tdo : List Bool} {rs : List Byte} (hn : 1 ≤ n)
    (h : ScanAnswer n flip tdo rs) : rs ≠ [] := by
  obtain ⟨t, u, us, -, ht, hu, rfl, hus⟩ := h
  intro hnil
  obtain ⟨htnil, rfl⟩ := List.append_eq_nil_iff.mp hnil
  have htlen := congrArg List.length htnil
  have hulen := congrArg List.length hus
  rw [packBits_length] at htlen
  simp only [List.map_nil, List.length_nil] at htlen hulen
  cases flip <;> simp at ht hu <;> omega

theorem Holding.full {pending : List Scan} {held : List Byte} (h : Holding pending held)
    (hne : pending.length ≠ 0) : held ≠ [] := by
  cases h with
  | none => exact absurd rfl hne
  | one hans hpos _ => exact scanAnswer_pos hpos hans

theorem Holding.empty {pending : List Scan} {held : List Byte} (h : Holding pending held)
    (hnone : pending.length = 0) : pending = [] ∧ held = [] := by
  cases h with
  | none => exact ⟨rfl, rfl⟩
  | one => cases hnone

/-- The driver stands for a line that the Blaster's cycles have moved. -/
theorem stands_of {e' : BlasterEngine} {held : List Byte} {d : Jtag Blaster} {l l' : Line}
    {ps : List Pins} {rs : List Byte} (hlinked : Linked board usb e₀ d e' held)
    (hclocks : Clocks board e e' ps rs) (hlog : l.log = e.log) (htms : l.tms = e.pins.tms)
    (hlog' : l'.log = l.log ++ board.cycles l.log ps) (htms' : l'.tms = (ps.map Pins.tms).getLastD l.tms)
    (hholding : Holding l'.pending held) (hlow : d.state.isShift = true → l'.tms = false) :
    ∃ e held, Stands board usb e₀ d.state d.dev l' e held := by
  have hpins : l'.tms = e'.pins.tms := by rw [htms', hclocks.pins, lastPins_tms, htms]
  refine ⟨e', held, hlinked.of_dev rfl, ?_, hpins, hholding, ?_⟩
  · rw [hlog', hlog, hclocks.log]
  · rw [← hpins]
    exact hlow

theorem scanPins_level (data : List Byte) (n : Nat) (flip tms : Bool) (hn : 1 ≤ n) :
    ((scanPins data n flip).map Pins.tms).getLastD tms = flip := by
  obtain ⟨m, rfl⟩ : ∃ m, n = m + 1 := ⟨n - 1, by omega⟩
  simp [scanPins, List.range_succ]

/-! ## The calls -/

section

variable {c : Jtag Blaster} {st : JtagState} {l : Line} {data : List Byte} {n : Nat} {flip read : Bool}

theorem tms_seq_stands (h : ∃ e held, Stands board usb e₀ st c.dev l e held)
    (hst : c.state = stateAfter st (bitsOf data n)) (hn : 1 ≤ n) (hlen : n ≤ 8 * data.length) :
    Returns (usb_blaster_jtag_tms_seq usb data n) c fun r c' => r = true ∧ c'.state = c.state ∧
      ∃ ps, ps.map Pins.tms = bitsOf data n ∧
        ∃ e held, Stands board usb e₀ c'.state c'.dev (l.clock board ps) e held := by
  obtain ⟨e, held, h⟩ := h
  have hlinked : Linked board usb e₀ c e held := h.linked.of_dev rfl
  refine (tms_seq_spec hlinked data n hn hlen).mono ?_
  rintro r d ⟨hr, hstate, e', ps, hlinked', hps, hclocks, -⟩
  refine ⟨hr, hstate, ps, hps, stands_of hlinked' hclocks h.log h.tms rfl rfl h.holding ?_⟩
  rw [hstate, hst]
  intro hshift
  obtain ⟨m, rfl⟩ : ∃ m, n = m + 1 := ⟨n - 1, by omega⟩
  have hlast := shift_low (by simp [bitsOf_succ]) hshift
  rw [Line.clock, hps]
  simpa [bitsOf_succ] using hlast

theorem send_stands (h : ∃ e held, Stands board usb e₀ c.state c.dev l e held)
    (hshift : c.state.isShift = true) (hroom : l.pending.length = 0) (hn : 1 ≤ n) (hn' : n ≤ MAX_BITS)
    (hlen : n ≤ 8 * data.length) :
    Returns (usb_blaster_jtag_scan_chain_send usb data n flip read) c fun r c' => r = true ∧
      c'.state = stateAfterScan c.state flip ∧
      ∃ e held, Stands board usb e₀ c'.state c'.dev (l.scan board data n flip read) e held := by
  obtain ⟨e, held, h⟩ := h
  obtain ⟨hnone, rfl⟩ := h.holding.empty hroom
  have hlinked : Linked board usb e₀ c e [] := h.linked.of_dev rfl
  have hfits : AnswerFits n flip := answerFits_of_le flip (by unfold MAX_BITS at hn'; unfold RECV_BUFFER_SIZE; omega)
  refine (scan_chain_send_spec hlinked data n flip read (h.low hshift) hn
    (by unfold MAX_BITS at hn'; omega) hlen hfits).mono ?_
  rintro r d ⟨hr, hstate, e', rs, hlinked', hpart⟩
  refine ⟨hr, hstate, stands_of hlinked' hpart.clocks h.log h.tms rfl rfl ?_ ?_⟩
  · cases read with
    | false =>
      obtain rfl := hpart.no rfl
      simp only [Line.scan, Bool.false_eq_true, if_false]
      exact h.holding
    | true =>
      simp only [Line.scan, if_true, hnone, List.nil_append]
      have hans := hpart.yes rfl
      rw [← h.log] at hans
      exact .one hans hn hn'
  · intro hst
    have hlevel : (l.scan board data n flip read).tms = flip := scanPins_level data n flip l.tms hn
    rw [hlevel]
    rw [hstate] at hst
    cases flip with
    | false => rfl
    | true => exact next_shift hst

theorem send_faults (h : ∃ e held, Stands board usb e₀ c.state c.dev l e held)
    (hroom : ¬ l.pending.length = 0) :
    Faults (usb_blaster_jtag_scan_chain_send usb data n flip read) c .assert_failed := by
  obtain ⟨e, held, h⟩ := h
  have hlinked : Linked board usb e₀ c e held := h.linked.of_dev rfl
  exact scan_chain_send_fails hlinked (h.holding.full hroom) data n flip read

theorem recv_stands {s : Scan} {rest : List Scan} {size : Nat}
    (h : ∃ e held, Stands board usb e₀ c.state c.dev l e held) (hpending : l.pending = s :: rest)
    (hsize : s.bits ≤ 8 * size) :
    Returns (usb_blaster_jtag_scan_chain_recv (List.replicate size 0) s.bits s.flip) c fun r c' =>
      r.1 = true ∧ r.2.length = size ∧ Holds r.2 s.tdo ∧ c'.state = c.state ∧
        ∃ e held, Stands board usb e₀ c'.state c'.dev { l with pending := rest } e held := by
  obtain ⟨e, held, h⟩ := h
  have hlinked : Linked board usb e₀ c e held := h.linked.of_dev rfl
  have hholding := h.holding
  rw [hpending] at hholding
  cases hholding with
  | one hans hpos hle =>
    refine (scan_chain_recv_spec hlinked size s.bits s.flip s.tdo hpos
      (by unfold MAX_BITS at hle; omega) hsize hans).mono ?_
    rintro r d ⟨hok, hlen, hholds, hstate, hlinked'⟩
    refine ⟨hok, hlen, hholds, hstate, ?_⟩
    refine stands_of hlinked' (.refl h.linked.idle) h.log h.tms (by simp) (by simp) .none ?_
    rw [hstate]
    intro hshift
    exact h.tms.trans (h.low hshift)

theorem clock_stands (h : ∃ e held, Stands board usb e₀ c.state c.dev l e held) :
    ∃ ps : List Pins, ps.map Pins.tms = List.replicate 0 l.tms ∧
      ∃ e held, Stands board usb e₀ c.state c.dev (l.clock board ps) e held := by
  obtain ⟨e, held, h⟩ := h
  refine ⟨[], rfl, e, held, h.linked, ?_, h.tms, h.holding, h.low⟩
  simp [Line.clock, h.log]

theorem send_any_stands (h : ∃ e held, Stands board usb e₀ c.state c.dev l e held)
    (hnone : l.pending = []) (hn : 1 ≤ n) (hn' : n ≤ MAX_BITS) (hlen : n ≤ 8 * data.length) :
    Returns (usb_blaster_jtag_scan_chain_send usb data n flip read) c fun r c' => r = true ∧
      c'.state = stateAfterScan c.state flip ∧ ∃ ps, ScanCycles c.state data n flip ps ∧
        ∃ e held, Stands board usb e₀ c'.state c'.dev (l.scanned board ps n flip read) e held := by
  obtain ⟨e, held, h⟩ := h
  obtain ⟨-, rfl⟩ := h.holding.empty (by rw [hnone]; rfl)
  have hlinked : Linked board usb e₀ c e [] := h.linked.of_dev rfl
  have hfits : AnswerFits n flip := answerFits_of_le flip (by unfold MAX_BITS at hn'; unfold RECV_BUFFER_SIZE; omega)
  refine (scan_chain_send_at hlinked data n flip read hn (by unfold MAX_BITS at hn'; omega) hlen hfits).mono ?_
  rintro r d ⟨hr, hstate, e', rs, hlinked', hpart⟩
  have hps : ScanCycles c.state data n flip (scanPinsAt e.pins.tms data n flip) := by
    refine ⟨scanPinsAt_shifts _ data flip hn, fun hshift => ?_⟩
    rw [h.low hshift, scanPinsAt_low data flip hn]
  refine ⟨hr, hstate, _, hps, stands_of hlinked' hpart.clocks h.log h.tms rfl rfl ?_ ?_⟩
  · cases read with
    | false =>
      obtain rfl := hpart.no rfl
      simp only [Line.scanned, Bool.false_eq_true, if_false]
      exact h.holding
    | true =>
      simp only [Line.scanned, if_true, hnone, List.nil_append]
      have hans := hpart.yes rfl
      rw [← h.log] at hans
      exact .one hans hn hn'
  · intro hshift
    rw [hstate] at hshift
    have hflip : flip = false := by
      cases flip with
      | false => rfl
      | true => exact next_shift hshift
    subst hflip
    show ((scanPinsAt e.pins.tms data n false).map Pins.tms).getLastD l.tms = false
    rw [h.low hshift, scanPinsAt_low data false hn, scanPins_level data n false l.tms hn]

end

def blasterAdapter (board : Board) (usb : Usb) (e₀ : BlasterEngine) (fuel : Nat) :
    Adapter board (usb_blaster_driver usb fuel) where
  Stands st dev l := ∃ e held, Stands board usb e₀ st dev l e held
  Room k := k = 0
  ticks _ := 0
  Accepts _ := True
  tms_seq h hst hn _ hlen := tms_seq_stands h hst hn hlen
  send h hshift hroom hn hn' hlen := send_stands h hshift hroom hn hn' hlen
  send_full h hroom := send_faults h hroom
  recv h hpending hsize := recv_stands h hpending hsize
  clock h _ := returns_pure ⟨rfl, rfl, clock_stands h⟩
  freq h _ := returns_pure ⟨rfl, h⟩
  freq_fails _ _ hnot := absurd trivial hnot

theorem room_none (board : Board) (usb : Usb) (e₀ : BlasterEngine) (fuel : Nat) :
    (blasterAdapter board usb e₀ fuel).Room 0 := rfl

/-- It scans in any TAP state. -/
def blasterScanner (board : Board) (usb : Usb) (e₀ : BlasterEngine) (fuel : Nat) :
    Scanner board (usb_blaster_driver usb fuel) where
  toAdapter := blasterAdapter board usb e₀ fuel
  room_none := room_none board usb e₀ fuel
  send_any h hnone hn hn' hlen := send_any_stands h hnone hn hn' hlen

end JtagRemote.Blaster
