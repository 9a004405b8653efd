import JtagRemote.Bounds
import JtagRemote.Blaster.Calls

/-!
# The accesses of the usb_blaster driver

The answer to a scan has a byte for each whole byte, and one for each bit behind
these: the whole answer is in `recv_buffer` before it is received.
-/

namespace JtagRemote.Blaster

variable {usb : Usb} {F : Fault → Prop} {c : Jtag Blaster}

/-- `recv_buffer` is as long as it is declared, and holds at most `k` bytes. -/
structure Capped (k : Nat) (c : Jtag Blaster) : Prop where
  size : c.dev.recv_buffer.length = RECV_BUFFER_SIZE
  len : c.dev.recv_buffer_len ≤ k

theorem Capped.mono {k k' : Nat} (h : Capped k c) (hle : k ≤ k') : Capped k' c := ⟨h.size, Nat.le_trans h.len hle⟩

theorem port_ends {α : Type} {p : EStateM Fault Port α} {P : α → Port → Prop} {Q : α → Jtag Blaster → Prop}
    (hp : Returns p c.dev.port P) (hPQ : ∀ a t, P a t → Q a (withPort c t)) : Ends (blaster_port p) c F Q := by
  obtain ⟨a, t, hrun, hP⟩ := hp
  have hport : blaster_port p c = .ok a (withPort c t) := by
    rw [blaster_port, focus, hrun]
    rfl
  exact .of_ok hport (hPQ a t hP)

theorem write_ends {k : Nat} (data : List Byte) (h : Capped k c) :
    Ends (blaster_port (ftdi_write_retry usb data)) c F fun _ => Capped k :=
  port_ends (ftdi_write_retry_spec usb data c.dev.port) fun _ _ _ => ⟨h.size, h.len⟩

theorem tms_seq_ends {data : List Byte} {n k : Nat} (h : Capped k c) (hlen : n ≤ 8 * data.length) :
    Ends (usb_blaster_jtag_tms_seq usb data n) c F fun _ => Capped k := by
  unfold usb_blaster_jtag_tms_seq
  refine Ends.bind (Ends.forUpto (fun _ _ => Capped k) h ?_) ?_
  · rintro i ⟨buffer, bit⟩ d hi hd
    refine Ends.bind (bit_of_ends (by omega) d) ?_
    rintro bit' _ ⟨rfl, -⟩
    exact ends_pure hd
  · rintro ⟨buffer, bit⟩ d hd
    exact write_ends _ hd

/-! ## Sending -/

theorem read_ends {trans k : Nat} (h : Capped k c) (hroom : k + trans ≤ RECV_BUFFER_SIZE) :
    Ends (usb_blaster_read usb trans) c F fun _ => Capped (k + trans) := by
  have hlen := h.len
  have hsize := h.size
  unfold usb_blaster_read
  refine Ends.bind (port_ends (Q := fun r d => d.dev.recv_buffer = c.dev.recv_buffer ∧
    d.dev.recv_buffer_len = c.dev.recv_buffer_len ∧ r.2.length ≤ trans) (ftdi_read_retry_spec trans c.dev.port)
    fun r p hr => ⟨rfl, rfl, hr.2.1⟩) ?_
  rintro ⟨ok, got⟩ d ⟨hbuf, hheld, hgot⟩
  rw [← hbuf] at hsize
  rw [← hheld] at hlen
  simp only at hgot
  refine Ends.get_bind (ends_ite (fun _ => ?_) fun hfull => absurd hfull (by omega))
  refine Ends.bind (memcpy_ends (by omega) d) ?_
  rintro recv_buffer _ ⟨rfl, hrecv⟩
  refine Ends.set_bind (ends_pure ⟨hrecv.trans hsize, ?_⟩)
  show _ + (if ok = true then trans else 0) ≤ k + trans
  split <;> omega

theorem exchange_ends {read : Bool} {trans k : Nat} (buffer : List Byte) (h : Capped k c)
    (hroom : read = true → k + trans ≤ RECV_BUFFER_SIZE) :
    Ends (usb_blaster_exchange usb buffer read trans) c F fun _ => Capped (k + trans) := by
  have hle := Nat.le_add_right k trans
  refine Ends.bind (write_ends buffer h) fun ok d hd => ends_ite (fun _ => ?_) fun _ => ends_pure (hd.mono hle)
  exact ends_ite (fun hread => read_ends hd (hroom hread)) fun _ => ends_pure (hd.mono hle)

theorem packets_ends {data : List Byte} {len : Nat} {read : Bool} (hlen : len ≤ data.length)
    (hroom : read = true → len ≤ RECV_BUFFER_SIZE) {fuel i : Nat} (hi : i ≤ len) (hfuel : len - i ≤ fuel)
    (h : Capped i c) : Ends (usb_blaster_packets usb data len read fuel i) c F fun _ => Capped len := by
  induction fuel generalizing i c with
  | zero => exact ends_ite (fun hlt => absurd hlt (by omega)) fun _ => ends_pure (h.mono hi)
  | succ fuel ih =>
    refine ends_ite (fun hlt => ?_) fun _ => ends_pure (h.mono hi)
    have hmax : MAX_PACKET_SIZE = 32 := rfl
    have htrans : i + min (len - i) MAX_PACKET_SIZE ≤ len := by omega
    refine Ends.bind (bytes_at_ends (Nat.le_trans htrans hlen) c) ?_
    rintro bytes _ ⟨rfl, -⟩
    refine Ends.bind (exchange_ends _ h fun hread => Nat.le_trans htrans (hroom hread)) fun ok d hd => ?_
    exact ends_ite (fun _ => ih htrans (by omega) hd) fun _ => ends_pure (hd.mono htrans)

theorem send_rest_ends {data : List Byte} {bulk k : Nat} {read : Bool} (hlen : bulk ≤ 8 * data.length)
    (hroom : read = true → k + bulk % 8 ≤ RECV_BUFFER_SIZE) (h : Capped k c) :
    Ends (usb_blaster_send_rest usb data bulk read) c F fun _ => Capped (k + bulk % 8) := by
  refine ends_ite (fun _ => ends_pure (h.mono (Nat.le_add_right _ _))) fun _ => ?_
  refine Ends.bind (Ends.forUpto (fun _ _ => Capped k) h ?_) fun buffer d hd => exchange_ends buffer hd hroom
  intro i buffer d hi hd
  refine Ends.bind (bit_of_ends (by omega) d) ?_
  rintro bit _ ⟨rfl, -⟩
  exact ends_pure hd

theorem send_last_ends {data : List Byte} {n k : Nat} {read : Bool} (hn : 1 ≤ n) (hn' : n < 2 ^ 64)
    (hlen : n ≤ 8 * data.length) (hroom : read = true → k + 1 ≤ RECV_BUFFER_SIZE) (h : Capped k c) :
    Ends (usb_blaster_send_last usb data n read) c F fun _ => Capped (k + 1) := by
  unfold usb_blaster_send_last
  rw [size_sub_of_le hn hn']
  refine Ends.modify_bind (Ends.bind (bit_of_ends (by omega) _) ?_)
  rintro bit _ ⟨rfl, -⟩
  exact exchange_ends _ ⟨h.size, h.len⟩ hroom

/-- The bytes that answer a read scan. -/
def answerBytes (n : Nat) (flip : Bool) : Nat :=
  bulk_bits n flip / 8 + bulk_bits n flip % 8 + if flip then 1 else 0

theorem scan_chain_send_ends {data : List Byte} {n : Nat} {flip read : Bool} (hF : F .assert_failed)
    (hn : flip = true → 1 ≤ n) (hn' : n < 2 ^ 64) (hlen : n ≤ 8 * data.length)
    (hfits : read = true → answerBytes n flip ≤ RECV_BUFFER_SIZE) (h : c.dev.recv_buffer.length = RECV_BUFFER_SIZE) :
    Ends (usb_blaster_jtag_scan_chain_send usb data n flip read) c F fun _ d =>
      d.dev.recv_buffer.length = RECV_BUFFER_SIZE := by
  have hbulk := bulk_bits_le hn hn'
  unfold answerBytes at hfits
  refine Ends.get_bind (Ends.bind (P := fun _ => Capped 0) ?_ fun _ d hd => ?_)
  · unfold assert
    exact ends_ite (fun hzero => ends_pure ⟨h, Nat.le_of_eq (by simpa using hzero)⟩) fun _ => ends_throw hF
  have hbytes : read = true → bulk_bits n flip / 8 ≤ RECV_BUFFER_SIZE := fun hread => by have := hfits hread; omega
  refine Ends.bind (packets_ends (by omega) hbytes (Nat.zero_le _) (Nat.le_refl _) hd) fun _ e he => ?_
  refine ends_ite (fun _ => ?_) fun _ => ends_pure he.size
  refine Ends.bind (send_rest_ends (by omega) (fun hread => by have := hfits hread; omega) he) fun _ f hf => ?_
  refine ends_ite (fun _ => ends_ite (fun hflip => ?_) fun _ => ends_pure hf.size) fun _ => ends_pure hf.size
  refine (send_last_ends (hn hflip) hn' hlen (fun hread => ?_) hf).mono fun _ _ hg => hg.size
  have hfit := hfits hread
  rwa [if_pos hflip] at hfit

/-! ## Scans that the data ends before -/

theorem send_rest_fault {data : List Byte} {bulk : Nat} {read : Bool} (hlen : data.length ≤ bulk / 8)
    (hrest : bulk % 8 ≠ 0) : Faults (usb_blaster_send_rest usb data bulk read) c .out_of_bounds := by
  unfold usb_blaster_send_rest
  rw [if_neg hrest]
  refine Faults.bind (Faults.forUpto (k := 0) (fun _ _ => True) trivial (by omega) (fun _ _ _ h => by omega) ?_)
  intro buffer d _
  exact Faults.bind ⟨d, bit_of_error (by omega) d⟩

theorem send_last_fault {data : List Byte} {n : Nat} {read : Bool} (hn : 1 ≤ n) (hn' : n < 2 ^ 64)
    (hlen : 8 * data.length < n) : Faults (usb_blaster_send_last usb data n read) c .out_of_bounds := by
  unfold usb_blaster_send_last
  rw [size_sub_of_le hn hn']
  exact Faults.of_eq_bind (modify_apply _ c) (Faults.bind ⟨_, bit_of_error (by omega) _⟩)

/-- The bits end inside the bytes, in the rest or at the last bit. -/
theorem scan_chain_send_fault {board : Board} {e₀ e : BlasterEngine} (h : Linked board usb e₀ c e []) {data : List Byte}
    {n : Nat} {flip : Bool} (read : Bool) (hn : flip = true → 1 ≤ n) (hn' : n < 2 ^ 64)
    (hlen : 8 * data.length < n) (hroom : data.length ≤ RECV_BUFFER_SIZE) :
    Faults (usb_blaster_jtag_scan_chain_send usb data n flip read) c .out_of_bounds := by
  have hbulk : bulk_bits n flip = if flip then n - 1 else n := bulk_bits_of_pos flip (by omega) hn'
  have hempty : (c.dev.recv_buffer_len == 0) = true := by
    rw [h.len]
    rfl
  unfold usb_blaster_jtag_scan_chain_send
  refine Faults.of_eq_bind (get_apply c) (Faults.of_eq_bind (assert_ok hempty c) ?_)
  by_cases hbytes : data.length < bulk_bits n flip / 8
  · exact (packets_fault h data _ 0 _ read hbytes (Nat.zero_le _) (Nat.le_refl _) (by simpa using hroom)).bind
  have hbits : bulk_bits n flip / 8 = data.length := by
    rw [hbulk] at hbytes ⊢
    split at hbytes <;> split <;> omega
  refine Returns.bind_faults (packets_spec h data _ 0 _ read (by omega) (Nat.zero_le _) (Nat.le_refl _)
    (by simp only [List.length_nil]; omega)) ?_
  rintro _ d ⟨rfl, -⟩
  by_cases hrest : bulk_bits n flip % 8 = 0
  · have hnone : usb_blaster_send_rest usb data (bulk_bits n flip) read d = .ok true d := by
      rw [usb_blaster_send_rest, if_pos hrest]
      rfl
    refine Faults.of_eq_bind hnone ?_
    cases flip with
    | false =>
      rw [hbulk] at hbytes hrest
      simp only [Bool.false_eq_true, if_false] at hbytes hrest
      omega
    | true => exact send_last_fault (hn rfl) hn' hlen
  · exact Faults.bind (send_rest_fault (Nat.le_of_eq hbits.symm) hrest)

/-- A scan of no bits has 2 ^ 61 - 1 bytes. -/
theorem scan_chain_send_none {board : Board} {e₀ e : BlasterEngine} (h : Linked board usb e₀ c e []) {data : List Byte}
    (read : Bool) (hroom : data.length ≤ RECV_BUFFER_SIZE) :
    Faults (usb_blaster_jtag_scan_chain_send usb data 0 true read) c .out_of_bounds := by
  have hbulk : bulk_bits 0 true / 8 = 2 ^ 61 - 1 := by decide
  have hempty : (c.dev.recv_buffer_len == 0) = true := by
    rw [h.len]
    rfl
  have hbig : RECV_BUFFER_SIZE = 4096 := rfl
  unfold usb_blaster_jtag_scan_chain_send
  refine Faults.of_eq_bind (get_apply c) (Faults.of_eq_bind (assert_ok hempty c) (Faults.bind ?_))
  rw [hbulk]
  exact packets_fault h data _ 0 _ read (by omega) (Nat.zero_le _) (Nat.le_refl _) (by simpa using hroom)

/-! ## Answers that `recv_buffer` does not hold -/

section

variable {board : Board} {e₀ e : BlasterEngine} {held : List Byte}

theorem exchange_overflows {data rs : List Byte} {ps : List Pins} (h : Linked board usb e₀ c e held)
    (hclocks : Clocks board e (blasterFeed board e data) ps rs) {trans : Nat} (hrs : rs.length = trans)
    (hover : RECV_BUFFER_SIZE < held.length + trans) :
    Faults (usb_blaster_exchange usb data true trans) c .out_of_bounds := by
  unfold usb_blaster_exchange
  refine Returns.bind_faults (write_spec h data) ?_
  rintro _ _ ⟨rfl, p, rfl, hp⟩
  have hwait : usb.waiting p = rs := by
    rw [Usb.waiting, h.respond, hp.delivered, blasterFeed_append, h.fed, hp.taken, h.taken, hclocks.resp, List.drop_left]
  show Faults (usb_blaster_read usb trans) (withPort c p) .out_of_bounds
  unfold usb_blaster_read
  refine Returns.bind_faults (Returns.focus (ftdi_read_retry_delivers h.delivers trans p (by rw [hwait, hrs]))) ?_
  rintro _ _ ⟨q, -, rfl⟩
  refine Faults.of_eq_bind (get_apply _) ?_
  have hsize := h.size
  have hlen := h.len
  rw [Faults, if_neg (by show ¬ c.dev.recv_buffer_len + trans ≤ c.dev.recv_buffer.length; omega)]
  exact ⟨_, rfl⟩

/-- The answer to the bits behind the whole bytes does not fit. -/
theorem scan_chain_send_overflows (h : Linked board usb e₀ c e []) (data : List Byte) {n : Nat} (hn : 1 ≤ n)
    (hn' : n < 2 ^ 64) (hlen : n ≤ 8 * data.length) (hbytes : n ≤ 8 * RECV_BUFFER_SIZE)
    (hover : ¬ AnswerFits n true) :
    Faults (usb_blaster_jtag_scan_chain_send usb data n true true) c .out_of_bounds := by
  have hbulk : bulk_bits n true = n - 1 := bulk_bits_of_pos true hn hn'
  have hempty : (c.dev.recv_buffer_len == 0) = true := by
    rw [h.len]
    rfl
  simp only [AnswerFits, if_true] at hover
  unfold usb_blaster_jtag_scan_chain_send
  rw [hbulk]
  refine Faults.of_eq_bind (get_apply c) (Faults.of_eq_bind (assert_ok hempty c) ?_)
  refine Returns.bind_faults (packets_spec h data _ 0 _ true (by omega) (Nat.zero_le _) (Nat.le_refl _)
    (by simp only [List.length_nil]; omega)) ?_
  rintro _ d ⟨rfl, -, e₁, rs₁, hd, hpart₁⟩
  have hrs₁ : rs₁.length = (n - 1) / 8 := by
    rw [hpart₁.yes rfl, packBits_length]
    simp [heldPins]
    omega
  rw [List.nil_append] at hd
  by_cases hrest : RECV_BUFFER_SIZE < (n - 1) / 8 + (n - 1) % 8
  · refine Faults.bind ?_
    obtain ⟨rs, hpart⟩ := restBytes_part board data ((n - 1) / 8 * 8) ((n - 1) % 8) true e₁ hd.idle
    have hrs : rs.length = (n - 1) % 8 := by
      have hbits := congrArg List.length (hpart.yes rfl)
      simpa [dataPins] using hbits
    rw [Faults, send_rest_eq true (by omega) (by omega)]
    exact exchange_overflows hd hpart.clocks hrs (by omega)
  · refine Returns.bind_faults (send_rest_spec hd data (n - 1) true (by omega) (by omega)) ?_
    rintro _ f ⟨rfl, -, e₂, rs₂, hf, hpart₂⟩
    have hrs₂ : rs₂.length = (n - 1) % 8 := by
      have hbits := congrArg List.length (hpart₂.yes rfl)
      simpa [dataPins] using hbits
    show Faults (usb_blaster_send_last usb data n true) f .out_of_bounds
    rw [Faults, send_last_eq true hn hn' hlen]
    have hf' : Linked board usb e₀ { f with state := next_state f.state true } e₂ (rs₁ ++ rs₂) := hf.of_dev rfl
    obtain ⟨rs, hthree, -, -, hyes⟩ := lastWrite_clocks board data n true e₂ hf.idle
    have hrs : rs.length = 1 := by
      obtain ⟨b, rfl, -⟩ := hyes rfl
      rfl
    exact exchange_overflows hf' hthree hrs (by rw [List.length_append]; omega)

end

/-! ## Receiving -/

theorem set_bit_ends {out : List Byte} {i : Nat} (b : Bool) (h : i < 8 * out.length) :
    Ends (set_bit out i b) c F fun r d => d = c ∧ r.length = out.length :=
  ends_ite (fun _ => or_bit_ends h true c) fun _ => ends_pure ⟨rfl, rfl⟩

theorem recv_rest_ends {buffer out : List Byte} {bulk : Nat} (hbuf : bulk / 8 + bulk % 8 ≤ buffer.length)
    (hlen : bulk ≤ 8 * out.length) :
    Ends (usb_blaster_recv_rest buffer out bulk) c F fun r d => d = c ∧ r.length = out.length := by
  refine Ends.forUpto (fun _ (r : List Byte) d => d = c ∧ r.length = out.length) ⟨rfl, rfl⟩ ?_
  rintro i r _ hi ⟨rfl, hr⟩
  refine Ends.bind (index_ends (by omega) _) ?_
  rintro b _ ⟨rfl, -⟩
  exact (set_bit_ends _ (by omega)).mono fun _ _ h => ⟨h.1, h.2.trans hr⟩

theorem recv_last_ends {buffer out : List Byte} {n offset : Nat} (hn : 1 ≤ n) (hn' : n < 2 ^ 64)
    (hbuf : offset < buffer.length) (hlen : n ≤ 8 * out.length) :
    Ends (usb_blaster_recv_last buffer out n offset) c F fun r d => d = c ∧ r.length = out.length := by
  unfold usb_blaster_recv_last
  rw [size_sub_of_le hn hn']
  refine Ends.bind (index_ends hbuf c) ?_
  rintro b _ ⟨rfl, -⟩
  exact set_bit_ends _ (by omega)

theorem recv_done_ends {out : List Byte} {size : Nat} (offset : Nat) (hF : F .assert_failed) (hout : out.length = size)
    (h : c.dev.recv_buffer.length = RECV_BUFFER_SIZE) :
    Ends (do
      assert (offset == c.dev.recv_buffer_len)
      modify fun c => { c with dev := { c.dev with recv_buffer_len := 0 } }
      pure (true, out)) c F fun r d => r.2.length = size ∧ d.dev.recv_buffer.length = RECV_BUFFER_SIZE := by
  unfold assert
  exact Ends.bind (P := fun _ d => d = c) (ends_ite (fun _ => ends_pure rfl) fun _ => ends_throw hF) fun _ d hd =>
    Ends.modify_bind (ends_pure ⟨hout, by rw [hd]; exact h⟩)

theorem scan_chain_recv_ends {out : List Byte} {n : Nat} {flip : Bool} (hF : F .assert_failed)
    (hn : flip = true → 1 ≤ n) (hn' : n < 2 ^ 64) (hlen : n ≤ 8 * out.length)
    (hfits : answerBytes n flip ≤ RECV_BUFFER_SIZE) (h : c.dev.recv_buffer.length = RECV_BUFFER_SIZE) :
    Ends (usb_blaster_jtag_scan_chain_recv out n flip) c F fun r d =>
      r.2.length = out.length ∧ d.dev.recv_buffer.length = RECV_BUFFER_SIZE := by
  have hbulk := bulk_bits_le hn hn'
  unfold answerBytes at hfits
  refine Ends.bind (memset_zero_ends (by omega) c) ?_
  rintro out₁ _ ⟨rfl, h₁⟩
  refine Ends.get_bind (Ends.bind (bytes_at_ends (by omega) _) ?_)
  rintro bytes _ ⟨rfl, hbytes⟩
  refine Ends.bind (memcpy_ends (by omega) _) ?_
  rintro out₂ _ ⟨rfl, h₂⟩
  refine Ends.bind (recv_rest_ends (by omega) (by omega)) ?_
  rintro out₃ _ ⟨rfl, h₃⟩
  have hout₃ := h₃.trans (h₂.trans h₁)
  refine ends_ite (fun hflip => ?_) fun _ => recv_done_ends _ hF hout₃ h
  rw [if_pos hflip] at hfits
  refine Ends.bind (recv_last_ends (hn hflip) hn' (by omega) (by omega)) ?_
  rintro out₄ _ ⟨rfl, h₄⟩
  exact recv_done_ends _ hF (h₄.trans hout₃) h

/-! ## The driver -/

def blasterBounded (usb : Usb) (fuel : Nat) : Bounded (usb_blaster_driver usb fuel) where
  Ok dev := dev.recv_buffer.length = RECV_BUFFER_SIZE
  Fits n flip := answerBytes n flip ≤ RECV_BUFFER_SIZE
  tms_seq {c} _ _ h hlen := (tms_seq_ends ⟨h, Nat.le_refl c.dev.recv_buffer_len⟩ hlen).mono fun _ _ h => h.size
  send h hn hn' hlen hfits := scan_chain_send_ends (by decide) hn hn' hlen hfits h
  recv h hn hn' hlen hfits := scan_chain_recv_ends (by decide) hn hn' hlen hfits h
  clock h := ends_pure h
  freq h := ends_pure h

/-- No call changes the size of `recv_buffer`. -/
theorem blaster_spares (usb : Usb) (fuel : Nat) :
    Spares (usb_blaster_driver usb fuel) fun dev => dev.recv_buffer.length := by
  have hport : ∀ {α : Type} (p : EStateM Fault Port α),
      Keeps (fun c : Jtag Blaster => c.dev.recv_buffer.length) (blaster_port p) := fun p => keeps_focus fun _ _ => rfl
  have hread : ∀ trans, Keeps (fun c : Jtag Blaster => c.dev.recv_buffer.length) (usb_blaster_read usb trans) := by
    intro trans
    refine (hport _).bind fun r s => Ensures.get_bind (ensures_ite (fun _ => ?_) fun _ => ensures_throw)
    refine Ensures.bind (memcpy_spec _ _ _ s) ?_
    rintro buf _ ⟨rfl, rfl, hfits⟩
    exact Ensures.set_bind (ensures_pure (splice_length _ _ _ hfits))
  have hexchange : ∀ buffer read trans,
      Keeps (fun c : Jtag Blaster => c.dev.recv_buffer.length) (usb_blaster_exchange usb buffer read trans) :=
    fun buffer read trans => (hport _).bind fun _ => keeps_ite (keeps_ite (hread _) (keeps_pure _)) (keeps_pure _)
  have hpackets : ∀ data len read fuel i,
      Keeps (fun c : Jtag Blaster => c.dev.recv_buffer.length) (usb_blaster_packets usb data len read fuel i) := by
    intro data len read fuel
    induction fuel with
    | zero => exact fun i => keeps_ite (keeps_throw _) (keeps_pure _)
    | succ fuel ih =>
      exact fun i => keeps_ite ((bytes_at_keeps _ _ _).bind fun _ => (hexchange _ _ _).bind fun _ =>
        keeps_ite (ih _) (keeps_pure _)) (keeps_pure _)
  have hrest : ∀ data bulk read,
      Keeps (fun c : Jtag Blaster => c.dev.recv_buffer.length) (usb_blaster_send_rest usb data bulk read) :=
    fun data bulk read => keeps_ite (keeps_pure _) ((keeps_forUpto fun i buffer =>
      (bit_of_keeps _ _).bind fun _ => keeps_pure _).bind fun _ => hexchange _ _ _)
  have hstate : Keeps (fun c : Jtag Blaster => c.dev.recv_buffer.length) (modify fun c =>
      { c with state := next_state c.state true } : BlasterProg Unit) := keeps_modify fun _ => rfl
  have hlast : ∀ data n read,
      Keeps (fun c : Jtag Blaster => c.dev.recv_buffer.length) (usb_blaster_send_last usb data n read) :=
    fun data n read => hstate.bind fun _ => (bit_of_keeps _ _).bind fun _ => hexchange _ _ _
  refine ⟨fun data n => ?_, fun data n flip read => ?_, fun out n flip => ?_⟩
  · exact (keeps_forUpto fun i r => (bit_of_keeps _ _).bind fun _ => keeps_pure _).bind fun _ => hport _
  · refine Keeps.get_bind fun c => (assert_keeps _).bind fun _ => (hpackets _ _ _ _ _).bind fun _ => ?_
    exact keeps_ite ((hrest _ _ _).bind fun _ => keeps_ite (keeps_ite (hlast _ _ _) (keeps_pure _)) (keeps_pure _))
      (keeps_pure _)
  · exact scan_chain_recv_keeps (fun _ => rfl) out n flip

end JtagRemote.Blaster
