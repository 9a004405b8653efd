import JtagRemote.Drivers
import JtagRemote.Mpsse.Bounds
import JtagRemote.Blaster.Bounds
import JtagRemote.Vpi.Mode

/-!
# Accesses to the record

The bit count of a record is the client's, and no check stands between it and the
drivers: which counts keep each driver inside `buffer_out` and `buffer_in`.
-/

namespace JtagRemote.Vpi

open JtagVpiCommand

variable {δ : Type} {d : driver δ} {s : Vpi δ} {b : List Byte}

/-! ## Records that stay inside -/

/-- The command due makes no access out of range, and no bit count of it wraps below zero. -/
structure StaysInRecord (d : driver δ) (s : Vpi δ) : Prop where
  in_range : ¬ Faults (vpi_execute d) s .out_of_bounds
  no_wrap : commandOf s.jtag_vpi_buffer = CMD_SCAN_CHAIN_FLIP_TMS.value →
    bulk_bits (bitsAsked s.jtag_vpi_buffer) true ≤ bitsAsked s.jtag_vpi_buffer

/-- So with any device and in any state of the driver. -/
def AlwaysInRecord (b : List Byte) : DriverKind → Prop
  | .mpsse => ∀ usb fuel freq (s : Vpi Mpsse), s.jtag_vpi_buffer = b → StaysInRecord (mpsse_driver usb fuel freq) s
  | .usb_blaster => ∀ usb fuel (s : Vpi Blaster), s.jtag.dev.recv_buffer.length = Blaster.RECV_BUFFER_SIZE →
      s.jtag_vpi_buffer = b → StaysInRecord (usb_blaster_driver usb fuel) s

/-- The bits that `buffer_out` has. -/
def RECORD_BITS : Nat := 8 * SIZEOF_BUFFER

/-- The mpsse driver refuses a scan at once when its whole bytes are too many for a buffer. -/
def Refused (bulk : Nat) : DriverKind → Prop
  | .mpsse => 8 * (BUFFER_LENGTH - 3) ≤ bulk
  | .usb_blaster => False

structure BitsFit (b : List Byte) (kind : DriverKind) : Prop where
  tms_seq : commandOf b = CMD_TMS_SEQ.value → bitsAsked b ≤ RECORD_BITS
  scan : commandOf b = CMD_SCAN_CHAIN.value → bitsAsked b ≤ RECORD_BITS ∨ Refused (bitsAsked b) kind
  flip : commandOf b = CMD_SCAN_CHAIN_FLIP_TMS.value →
    1 ≤ bitsAsked b ∧ (bitsAsked b ≤ RECORD_BITS ∨ Refused (bitsAsked b - 1) kind)

theorem bitsAsked_lt (b : List Byte) : bitsAsked b < 2 ^ 32 := le32_lt _

/-! ## Commands that fit -/

theorem scanWith_ends {flip : Bool} (hs : s.jtag_vpi_buffer.length = SIZEOF_CMD)
    (h : Ends (jtag_scan_chain d (outOf b) (List.replicate SIZEOF_BUFFER 0) (bitsAsked b) flip true) s.jtag InRange
      fun r _ => r.2.length = SIZEOF_BUFFER) : Ends (scanWith d b flip) s InRange fun _ _ => True := by
  refine Ends.bind (Ends.focus h) ?_
  rintro ⟨ok, buffer_in⟩ _ ⟨c, hlen, rfl⟩
  have hfits : BUFFER_IN + buffer_in.length ≤ s.jtag_vpi_buffer.length := by
    rw [hs, hlen]
    decide
  have hset : Ends (vpi_set_buffer_in buffer_in) { s with jtag := c } InRange fun _ _ => True := by
    refine Ends.get_bind (Ends.bind (memcpy_ends hfits _) ?_)
    rintro r _ ⟨rfl, -⟩
    exact .of_ok (set_apply _ _) trivial
  refine Ends.bind hset fun _ t _ => Ends.get_bind ?_
  have hwrite : Ends (write_full t.jtag_vpi_buffer) t.sock InRange fun _ _ => True :=
    Ends.get_bind (ends_ite (fun _ => Ends.set_bind (ends_pure trivial)) fun _ => ends_pure trivial)
  refine Ends.bind (Ends.focus hwrite) ?_
  rintro _ _ -
  exact ends_pure trivial

theorem perform_ends (B : Bounded d) (hb : b.length = SIZEOF_CMD) (hs : s.jtag_vpi_buffer.length = SIZEOF_CMD)
    (hok : B.Ok s.jtag.dev) (htms : commandOf b = CMD_TMS_SEQ.value → bitsAsked b ≤ RECORD_BITS)
    (hscan : ∀ flip, commandOf b = (if flip then CMD_SCAN_CHAIN_FLIP_TMS else CMD_SCAN_CHAIN).value →
      Ends (jtag_scan_chain d (outOf b) (List.replicate SIZEOF_BUFFER 0) (bitsAsked b) flip true) s.jtag InRange
        fun r _ => r.2.length = SIZEOF_BUFFER) :
    Ends (perform d b) s InRange fun _ _ => True := by
  have hseq : ∀ {data n}, n ≤ 8 * data.length → Ends (do
      let _ ← vpi_jtag (jtag_tms_seq d data n)
      pure () : VpiProg δ Unit) s InRange fun _ _ => True := by
    intro data n hlen
    have hrun := (B.jtag_tms_seq_ends hok hlen).weaken fun _ => Finishes.in_range
    refine Ends.bind (Ends.focus hrun) ?_
    rintro _ _ -
    exact ends_pure trivial
  refine ends_ite (fun _ => hseq (by decide)) fun _ => ends_ite (fun hcmd => hseq ?_) fun _ => ?_
  · rw [outOf_length hb]
    exact htms hcmd
  · refine ends_ite (fun hcmd => scanWith_ends hs (hscan false hcmd)) fun _ => ?_
    exact ends_ite (fun hcmd => scanWith_ends hs (hscan true hcmd)) fun _ => ends_pure trivial

/-- A scan that fits the record, on a driver that can hold its answer. -/
theorem scan_ends (B : Bounded d) (hb : b.length = SIZEOF_CMD) {flip : Bool} {c : Jtag δ} (hok : B.Ok c.dev)
    (hfits : B.Fits (bitsAsked b) flip) (hn : flip = true → 1 ≤ bitsAsked b) (hn' : bitsAsked b ≤ RECORD_BITS) :
    Ends (jtag_scan_chain d (outOf b) (List.replicate SIZEOF_BUFFER 0) (bitsAsked b) flip true) c InRange
      fun r _ => r.2.length = SIZEOF_BUFFER := by
  have hlt := bitsAsked_lt b
  refine (B.jtag_scan_chain_ends hok hn (by omega) ?_ ?_ fun _ => hfits).mono fun r _ h => ?_
  · rwa [outOf_length hb]
  · rwa [List.length_replicate]
  · rw [h.1, List.length_replicate]

theorem stays_of_ends (hs : s.jtag_vpi_buffer = b) (hb : b.length = SIZEOF_CMD)
    (h : Ends (perform d b) (cleared s) InRange fun _ _ => True)
    (hflip : commandOf b = CMD_SCAN_CHAIN_FLIP_TMS.value → 1 ≤ bitsAsked b) : StaysInRecord d s := by
  subst hs
  refine ⟨?_, fun hcmd => ?_⟩
  · have hrun := vpi_execute_eq (d := d) hb
    rintro ⟨t, ht⟩
    rw [hrun] at ht
    exact h.not_faults (fun hne => hne rfl) ⟨t, ht⟩
  · have hlt := bitsAsked_lt s.jtag_vpi_buffer
    exact bulk_bits_le (fun _ => hflip hcmd) (by omega)

theorem mpsse_stays (hb : b.length = SIZEOF_CMD) (hfit : BitsFit b .mpsse) : AlwaysInRecord b .mpsse := by
  intro usb fuel freq s hs
  have hclear : (cleared s).jtag_vpi_buffer.length = SIZEOF_CMD := blank_length (by rw [hs, hb])
  refine stays_of_ends hs hb ?_ fun hcmd => (hfit.flip hcmd).1
  refine perform_ends (Mpsse.mpsseBounded usb fuel freq) hb hclear trivial hfit.tms_seq ?_
  intro flip hcmd
  have hlt := bitsAsked_lt b
  have hcount : (flip = true → 1 ≤ bitsAsked b) ∧
      (bitsAsked b ≤ RECORD_BITS ∨ Refused (if flip then bitsAsked b - 1 else bitsAsked b) .mpsse) := by
    cases flip with
    | false => exact ⟨fun h => absurd h (by decide), hfit.scan hcmd⟩
    | true => exact ⟨fun _ => (hfit.flip hcmd).1, (hfit.flip hcmd).2⟩
  obtain ⟨hn, hsmall | hrefused⟩ := hcount
  · exact scan_ends (Mpsse.mpsseBounded usb fuel freq) hb trivial trivial hn hsmall
  · have hlarge : BUFFER_LENGTH = 8192 := rfl
    unfold Refused at hrefused
    have hpos : 1 ≤ bitsAsked b := by
      cases flip with
      | false => exact Nat.le_trans (by decide) hrefused
      | true => exact hn rfl
    have hbulk := bulk_bits_of_pos flip hpos (by omega)
    refine .of_ok (Mpsse.jtag_scan_chain_refused ?_ _ _ _) List.length_replicate
    rw [Mpsse.Fits, hbulk]
    omega

theorem blaster_stays (hb : b.length = SIZEOF_CMD) (hfit : BitsFit b .usb_blaster) : AlwaysInRecord b .usb_blaster := by
  intro usb fuel s hok hs
  have hclear : (cleared s).jtag_vpi_buffer.length = SIZEOF_CMD := blank_length (by rw [hs, hb])
  refine stays_of_ends hs hb ?_ fun hcmd => (hfit.flip hcmd).1
  refine perform_ends (Blaster.blasterBounded usb fuel) hb hclear hok hfit.tms_seq ?_
  intro flip hcmd
  have hlt := bitsAsked_lt b
  have hcount : (flip = true → 1 ≤ bitsAsked b) ∧ bitsAsked b ≤ RECORD_BITS := by
    cases flip with
    | false => exact ⟨fun h => absurd h (by decide), (hfit.scan hcmd).resolve_right id⟩
    | true => exact ⟨fun _ => (hfit.flip hcmd).1, (hfit.flip hcmd).2.resolve_right id⟩
  obtain ⟨hn, hsmall⟩ := hcount
  refine scan_ends (Blaster.blasterBounded usb fuel) hb hok ?_ hn hsmall
  have hbulk := bulk_bits_le hn (by omega)
  have hbits : RECORD_BITS = 4096 := rfl
  have hroom : Blaster.RECV_BUFFER_SIZE = 4096 := rfl
  show Blaster.answerBytes (bitsAsked b) flip ≤ Blaster.RECV_BUFFER_SIZE
  unfold Blaster.answerBytes
  split <;> omega

/-! ## Commands that do not -/

theorem jtag_tms_seq_fault {data : List Byte} {n : Nat} (hlen : 8 * data.length < n) (c : Jtag δ) :
    Faults (jtag_tms_seq d data n) c .out_of_bounds := by
  unfold jtag_tms_seq
  refine Faults.of_eq_bind (count_bits_ok n c) (Faults.of_eq_bind (get_apply _) (Faults.bind ?_))
  refine Faults.forUpto (k := 8 * data.length) (fun _ _ => True) trivial hlen (fun i st t hi _ => ?_) fun st t _ => ?_
  · exact Returns.of_eq_bind (bit_of_ok (by omega) t) (returns_pure trivial)
  · exact Faults.bind ⟨t, bit_of_error (Nat.lt_irrefl _) t⟩

theorem scanWith_fault {flip : Bool} (h : Faults (d.jtag_scan_chain_send (outOf b) (bitsAsked b) flip true)
    (withCount s.jtag (bitsAsked b)) .out_of_bounds) : Faults (scanWith d b flip) s .out_of_bounds := by
  have hsend : Faults (jtag_scan_chain_send d (outOf b) (bitsAsked b) flip true) s.jtag .out_of_bounds := h
  exact Faults.bind (Faults.focus hsend.bind)

/-- A driver that takes each scan, unless it refuses it, stops when the record ends before the scan. -/
theorem bits_fit {kind : DriverKind} (hb : b.length = SIZEOF_CMD) (hs : s.jtag_vpi_buffer = b)
    (h : StaysInRecord d s) (hscan : ∀ flip, (flip = true → 1 ≤ bitsAsked b) → 8 * (outOf b).length < bitsAsked b →
      ¬ Refused (if flip then bitsAsked b - 1 else bitsAsked b) kind →
      Faults (d.jtag_scan_chain_send (outOf b) (bitsAsked b) flip true) (withCount s.jtag (bitsAsked b))
        .out_of_bounds) : BitsFit b kind := by
  subst hs
  have hperform : ¬ Faults (perform d s.jtag_vpi_buffer) (cleared s) .out_of_bounds := by
    rintro ⟨t, ht⟩
    exact h.in_range ⟨t, by rw [vpi_execute_eq hb, ht]⟩
  have hlen : 8 * (outOf s.jtag_vpi_buffer).length = RECORD_BITS := by rw [outOf_length hb, RECORD_BITS]
  unfold perform at hperform
  refine ⟨fun hcmd => ?_, fun hcmd => ?_, fun hcmd => ?_⟩
  · by_contra hlong
    rw [hcmd, if_neg (by decide), if_pos rfl] at hperform
    exact hperform (Faults.bind (Faults.focus (jtag_tms_seq_fault (by omega) _)))
  · by_contra hlong
    rw [not_or] at hlong
    rw [hcmd, if_neg (by decide), if_neg (by decide), if_pos rfl] at hperform
    exact hperform (scanWith_fault (hscan false (fun h => absurd h (by decide)) (by omega) hlong.2))
  · have hone : 1 ≤ bitsAsked s.jtag_vpi_buffer := by
      rcases Nat.eq_zero_or_pos (bitsAsked s.jtag_vpi_buffer) with hzero | hpos
      · have hwrap := h.no_wrap hcmd
        rw [hzero] at hwrap
        exact absurd hwrap (by decide)
      · exact hpos
    refine ⟨hone, ?_⟩
    by_contra hlong
    rw [not_or] at hlong
    rw [hcmd, if_neg (by decide), if_neg (by decide), if_neg (by decide), if_pos rfl] at hperform
    exact hperform (scanWith_fault (hscan true (fun _ => hone) (by omega) hlong.2))

theorem mpsse_fits (hb : b.length = SIZEOF_CMD) (h : AlwaysInRecord b .mpsse) : BitsFit b .mpsse := by
  have hstays := h usbMpsse 0 15 ⟨benchMpsse .TestLogicReset, bootSock, b, SIZEOF_CMD⟩ rfl
  refine bits_fit hb rfl hstays fun flip hn hlong hnot => ?_
  have hlt := bitsAsked_lt b
  have hlarge : BUFFER_LENGTH = 8192 := rfl
  refine Mpsse.scan_chain_send_fault (mpsseUsb_delivers _ _) true hn (by omega) hlong ?_
  unfold Refused at hnot
  rw [Mpsse.Fits, bulk_bits_of_pos flip (by omega) (by omega)]
  omega

theorem blaster_fits (hb : b.length = SIZEOF_CMD) (h : AlwaysInRecord b .usb_blaster) : BitsFit b .usb_blaster := by
  have hstays := h (blasterUsb Mpsse.blinkBoard idleBlasterEngine) 0 ⟨idleBlaster, bootSock, b, SIZEOF_CMD⟩
    List.length_replicate rfl
  refine bits_fit hb rfl hstays fun flip hn hlong _ => ?_
  have hlt := bitsAsked_lt b
  have hlinked := (idleBlaster_linked Mpsse.blinkBoard .RunTestIdle).of_dev (d := withCount idleBlaster (bitsAsked b)) rfl
  refine Blaster.scan_chain_send_fault hlinked true hn (by omega) hlong ?_
  rw [outOf_length hb]
  decide

/-- With any device, a record makes no access out of range just if its bits are in `buffer_out`; the mpsse
driver also refuses the scans that do not fit its own buffer. -/
theorem vpi_stays_in_record_iff (hb : b.length = SIZEOF_CMD) (kind : DriverKind) :
    AlwaysInRecord b kind ↔ BitsFit b kind := by
  cases kind with
  | mpsse => exact ⟨mpsse_fits hb, mpsse_stays hb⟩
  | usb_blaster => exact ⟨blaster_fits hb, blaster_stays hb⟩

/-- `CMD_SCAN_CHAIN`, of a byte. -/
theorem vpi_stays_in_record_iff_byte : scanRecord.length = SIZEOF_CMD ∧
    (AlwaysInRecord scanRecord .usb_blaster ↔ BitsFit scanRecord .usb_blaster) :=
  ⟨by decide +kernel, vpi_stays_in_record_iff (by decide +kernel) .usb_blaster⟩

/-- `CMD_SCAN_CHAIN_FLIP_TMS`, of no bits. -/
def emptyFlip : List Byte := [3, 0, 0, 0] ++ List.replicate 1032 0

/-- `CMD_TMS_SEQ`, of a bit more than there are. -/
def longSeq : List Byte := [1, 0, 0, 0] ++ List.replicate 1028 0 ++ [0x01, 0x10, 0, 0]

theorem bit_counts_are_trusted : longSeq.length = SIZEOF_CMD ∧ emptyFlip.length = SIZEOF_CMD ∧
    ∀ kind, ¬ AlwaysInRecord longSeq kind ∧ ¬ AlwaysInRecord emptyFlip kind := by
  have hlong : longSeq.length = SIZEOF_CMD := by decide +kernel
  have hempty : emptyFlip.length = SIZEOF_CMD := by decide +kernel
  have hseq : ∀ kind, ¬ BitsFit longSeq kind := fun kind h => absurd (h.tms_seq (by decide +kernel)) (by decide +kernel)
  have hflip : ∀ kind, ¬ BitsFit emptyFlip kind := fun kind h => absurd (h.flip (by decide +kernel)).1 (by decide +kernel)
  refine ⟨hlong, hempty, ?_⟩
  rintro (_ | _)
  · exact ⟨fun h => hseq _ (mpsse_fits hlong h), fun h => hflip _ (mpsse_fits hempty h)⟩
  · exact ⟨fun h => hseq _ (blaster_fits hlong h), fun h => hflip _ (blaster_fits hempty h)⟩

end JtagRemote.Vpi
