import JtagRemote.Mpsse.Stream
import JtagRemote.Mpsse.Encode
import JtagRemote.Tap

/-!
# Each call of the mpsse driver appends its encoding

One spec for each function in `mpsse.cpp`, and one more for a port whose
transfers always succeed.
-/

namespace JtagRemote.Mpsse

variable {usb : Usb}

/-- A call that succeeds: it leaves the TAP state at `st`, and sends `ws`. -/
def Sends (c : Jtag Mpsse) (st : JtagState) (ws : List Coded) (r : Bool) (c' : Jtag Mpsse) : Prop :=
  r = true → c'.state = st ∧ Emits c c' (encode ws)

theorem encode_singleton (w : Coded) : encode [w] = w.1 := by simp [encode]

theorem encode_append (ws vs : List Coded) : encode (ws ++ vs) = encode ws ++ encode vs := by
  simp [encode]

theorem Sends.nothing (c : Jtag Mpsse) : Sends c c.state [] true c :=
  fun _ => ⟨rfl, Emits.refl c⟩

theorem Sends.trans {c d e : Jtag Mpsse} {st st' : JtagState} {ws vs : List Coded} {r : Bool}
    (h : Sends c st ws true d) (h' : Sends d st' vs r e) : Sends c st' (ws ++ vs) r e := by
  intro hr
  obtain ⟨-, hcd⟩ := h rfl
  obtain ⟨hst, hde⟩ := h' hr
  rw [encode_append]
  exact ⟨hst, hcd.trans hde⟩

/-! ## TMS sequences -/

theorem tms_byte_spec (data : List Byte) (n i : Nat) (c : Jtag Mpsse) :
    Ensures (mpsse_tms_byte usb data n i) c (Sends c c.state [tmsCode data n i]) := by
  unfold mpsse_tms_byte
  refine Ensures.bind (ensure_space_spec c 3).ensures ?_
  rintro r d ⟨hst, hd⟩
  cases r with
  | false => exact ensures_pure (by simp [Sends])
  | true =>
    refine (append_three_spec d _ _ (index data i) (data.getD i 0) ?_).mono ?_
    · intro d
      exact (index_spec data i d).mono fun _ _ h => ⟨h.1, h.2.1⟩
    · rintro r e ⟨hst', he⟩ hr
      refine ⟨hst'.trans hst, ?_⟩
      rw [encode_singleton]
      exact (hd rfl).1.trans (he hr)

theorem tms_seq_spec (data : List Byte) (n : Nat) (c : Jtag Mpsse) :
    Ensures (mpsse_jtag_tms_seq usb data n) c (Sends c c.state (tmsCodes data n)) := by
  unfold mpsse_jtag_tms_seq
  have hloop := Ensures.forWhile (n := (n + 7) / 8) (f := mpsse_tms_byte usb data n)
    (fun i d => Sends c c.state ((List.range i).map (tmsCode data n)) true d) (Sends.nothing c) ?_
  · exact hloop.mono fun r d h hr => h hr rfl
  · intro i d hi hd
    refine (tms_byte_spec data n i d).mono ?_
    rintro r e he rfl
    rw [(hd rfl).1] at he
    rw [List.range_succ, List.map_append]
    exact hd.trans he

theorem tms_byte_succeeds (h : usb.Delivers) (data : List Byte) (n i : Nat) (c : Jtag Mpsse)
    (hi : i < data.length) : Returns (mpsse_tms_byte usb data n i) c fun r _ => r = true := by
  unfold mpsse_tms_byte
  refine Returns.bind ((ensure_space_succeeds h c 3 (by decide)).and (ensure_space_spec c 3).ensures) ?_
  rintro r d ⟨rfl, -, hd⟩
  obtain ⟨-, hroom⟩ := hd rfl
  refine append_three_returns d _ _ (index data i) (by omega) ?_
  intro e
  exact ⟨_, e, index_ok hi e, rfl⟩

theorem tms_seq_succeeds (h : usb.Delivers) (data : List Byte) (n : Nat) (c : Jtag Mpsse)
    (hn : n ≤ 8 * data.length) :
    Returns (mpsse_jtag_tms_seq usb data n) c fun r d => r = true ∧ Sends c c.state (tmsCodes data n) r d := by
  refine Returns.and ?_ (tms_seq_spec data n c)
  unfold mpsse_jtag_tms_seq
  refine (Returns.forWhile (fun _ _ => True) trivial ?_).mono fun _ _ h => h.1
  intro i d hi _
  exact (tms_byte_succeeds h data n i d (by omega)).mono fun _ _ h => ⟨h, trivial⟩

/-! ## Scans -/

def readFlag (read : Bool) : Byte := if read then MPSSE_DO_READ else 0

theorem send_bytes_spec (data : List Byte) (len : Nat) (read : Bool) (c : Jtag Mpsse) :
    Ensures (mpsse_send_bytes usb data len (readFlag read)) c fun r d =>
      Sends c c.state (bytesCodes data len read) r d ∧
        (r = true → len ≤ data.length ∧ len < BUFFER_LENGTH) := by
  unfold mpsse_send_bytes bytesCodes
  split
  · rename_i h
    exact ensures_pure ⟨Sends.nothing c, fun _ => by simp [h, BUFFER_LENGTH]⟩
  · refine Ensures.bind (ensure_space_spec c (3 + len)).ensures ?_
    rintro r d ⟨hst, hd⟩
    cases r with
    | false => exact ensures_pure ⟨by simp [Sends], by simp⟩
    | true =>
      obtain ⟨hcd, hroom⟩ := hd rfl
      refine Ensures.bind (append_spec d [_]) ?_
      rintro _ e ⟨hs, he, -⟩
      refine Ensures.bind (append_spec e [_]) ?_
      rintro _ f ⟨hs', hf, -⟩
      refine Ensures.bind (append_spec f [_]) ?_
      rintro _ g ⟨hs'', hg, -⟩
      refine Ensures.bind (bytes_at_spec data 0 len g) ?_
      rintro _ _ ⟨rfl, rfl, hlen⟩
      refine Ensures.bind (append_spec _ _) ?_
      rintro _ k ⟨hs3, hk, -⟩
      refine ensures_pure ⟨fun _ => ⟨by rw [hs3, hs'', hs', hs, hst], ?_⟩, fun _ => ⟨by omega, by omega⟩⟩
      have hop : readFlag read ||| MPSSE_DO_WRITE ||| MPSSE_LSB ||| MPSSE_WRITE_NEG = bytesOp read := by
        cases read <;> rfl
      have h := (((hcd.trans he).trans hf).trans hg).trans hk
      rw [hop] at h
      rw [encode_singleton]
      exact h

theorem send_rest_spec (data : List Byte) (bulk : Nat) (read : Bool) (c : Jtag Mpsse) :
    Ensures (mpsse_send_rest usb data bulk (readFlag read)) c
      (Sends c c.state (restCodes data bulk read)) := by
  unfold mpsse_send_rest restCodes
  split
  · exact ensures_pure (Sends.nothing c)
  · refine Ensures.bind (ensure_space_spec c 3).ensures ?_
    rintro r d ⟨hst, hd⟩
    cases r with
    | false => exact ensures_pure (by simp [Sends])
    | true =>
      refine (append_three_spec d _ _ (index data (bulk / 8)) (data.getD (bulk / 8) 0) ?_).mono ?_
      · intro d
        exact (index_spec data (bulk / 8) d).mono fun _ _ h => ⟨h.1, h.2.1⟩
      · rintro r e ⟨hst', he⟩ hr
        have hop : readFlag read ||| MPSSE_DO_WRITE ||| MPSSE_LSB ||| MPSSE_WRITE_NEG ||| MPSSE_BITMODE =
            bitsOp read := by
          cases read <;> rfl
        have h := (hd rfl).1.trans (he hr)
        rw [hop] at h
        rw [encode_singleton]
        exact ⟨hst'.trans hst, h⟩

theorem send_last_spec (data : List Byte) (n : Nat) (read : Bool) (c : Jtag Mpsse) (hn : 1 ≤ n)
    (hn' : n < 2 ^ 64) :
    Ensures (mpsse_send_last usb data n (readFlag read)) c
      (Sends c (next_state c.state true) [lastCode data n read]) := by
  unfold mpsse_send_last
  apply Ensures.modify_bind
  rw [size_sub_of_le hn hn']
  refine Ensures.bind (bit_of_spec data (n - 1) _) ?_
  rintro bit _ ⟨rfl, rfl, -⟩
  refine Ensures.bind (ensure_space_spec _ 3).ensures ?_
  rintro r d ⟨hst, hd⟩
  cases r with
  | false => exact ensures_pure (by simp [Sends])
  | true =>
    refine (append_three_spec d _ _ (pure (lastByte (bitAt data (n - 1))))
      (lastByte (bitAt data (n - 1))) ?_).mono ?_
    · intro d
      exact ensures_pure ⟨rfl, rfl⟩
    · rintro r e ⟨hst', he⟩ hr
      have hop : readFlag read ||| MPSSE_WRITE_TMS ||| MPSSE_LSB ||| MPSSE_BITMODE ||| MPSSE_WRITE_NEG =
          tmsOp read := by
        cases read <;> rfl
      have hcd : Emits c d [] := ⟨(hd rfl).1.stream, (hd rfl).1.taken, (hd rfl).1.num_reads⟩
      have h := hcd.trans (he hr)
      rw [hop] at h
      rw [encode_singleton]
      exact ⟨hst'.trans hst, h⟩

theorem scan_chain_send_spec (data : List Byte) (n : Nat) (flip read : Bool) (c : Jtag Mpsse)
    (hn : 1 ≤ n) (hn' : n < 2 ^ 64) :
    Ensures (mpsse_jtag_scan_chain_send usb data n flip read) c fun r d =>
      Sends c (stateAfterScan c.state flip) (scanCodes data n flip read) r d ∧
        (r = true → (if flip then n - 1 else n) / 8 ≤ data.length ∧
          (if flip then n - 1 else n) / 8 < BUFFER_LENGTH) := by
  unfold mpsse_jtag_scan_chain_send scanCodes
  rw [bulk_bits_of_pos flip hn hn']
  generalize (if flip then n - 1 else n) = bulk
  refine Ensures.bind (send_bytes_spec data (bulk / 8) read c) ?_
  rintro r d ⟨hd, hlen⟩
  cases r with
  | false => exact ensures_pure ⟨by simp [Sends], by simp⟩
  | true =>
    refine Ensures.bind (send_rest_spec data bulk read d) ?_
    intro r e he
    rw [(hd rfl).1] at he
    cases r with
    | false => exact ensures_pure ⟨by simp [Sends], by simp⟩
    | true =>
      have hce := hd.trans he
      cases flip with
      | false =>
        refine ensures_pure ⟨?_, fun _ => hlen rfl⟩
        simpa [stateAfterScan] using hce
      | true =>
        refine (send_last_spec data n read e hn hn').mono ?_
        intro r f hf
        rw [(he rfl).1] at hf
        exact ⟨hce.trans hf, fun _ => hlen rfl⟩

theorem send_bytes_succeeds (h : usb.Delivers) (data : List Byte) (len : Nat) (flag : Byte)
    (c : Jtag Mpsse) (hlen : len ≤ data.length) (hroom : 3 + len < BUFFER_LENGTH) :
    Returns (mpsse_send_bytes usb data len flag) c fun r _ => r = true := by
  unfold mpsse_send_bytes
  split
  · exact returns_pure rfl
  · refine Returns.bind ((ensure_space_succeeds h c _ hroom).and (ensure_space_spec c _).ensures) ?_
    rintro r d ⟨rfl, -, hd⟩
    obtain ⟨-, hd⟩ := hd rfl
    refine Returns.bind (append_byte_returns d _ (by omega)) ?_
    intro _ e he
    refine Returns.bind (append_byte_returns e _ (by omega)) ?_
    intro _ f hf
    refine Returns.bind (append_byte_returns f _ (by omega)) ?_
    intro _ g hg
    refine Returns.of_eq_bind (bytes_at_ok (by simpa using hlen) g) ?_
    refine Returns.bind (append_returns g _ (by simp; omega)) ?_
    intro _ k _
    exact returns_pure rfl

theorem send_rest_succeeds (h : usb.Delivers) (data : List Byte) (bulk : Nat) (flag : Byte)
    (c : Jtag Mpsse) (hlen : bulk ≤ 8 * data.length) :
    Returns (mpsse_send_rest usb data bulk flag) c fun r _ => r = true := by
  unfold mpsse_send_rest
  split
  · exact returns_pure rfl
  · refine Returns.bind ((ensure_space_succeeds h c 3 (by decide)).and (ensure_space_spec c 3).ensures) ?_
    rintro r d ⟨rfl, -, hd⟩
    obtain ⟨-, hroom⟩ := hd rfl
    refine append_three_returns d _ _ (index data (bulk / 8)) (by omega) ?_
    intro e
    exact ⟨_, e, index_ok (by omega) e, rfl⟩

theorem send_last_succeeds (h : usb.Delivers) (data : List Byte) (n : Nat) (flag : Byte)
    (c : Jtag Mpsse) (hn : 1 ≤ n) (hn' : n < 2 ^ 64) (hlen : n ≤ 8 * data.length) :
    Returns (mpsse_send_last usb data n flag) c fun r _ => r = true := by
  unfold mpsse_send_last
  apply Returns.modify_bind
  rw [size_sub_of_le hn hn']
  refine Returns.of_eq_bind (bit_of_ok (by omega) _) ?_
  refine Returns.bind ((ensure_space_succeeds h _ 3 (by decide)).and (ensure_space_spec _ 3).ensures) ?_
  rintro r d ⟨rfl, -, hd⟩
  obtain ⟨-, hroom⟩ := hd rfl
  refine append_three_returns d _ _ (pure _) (by omega) ?_
  intro e
  exact returns_pure rfl

/-- A scan of any size that fits the buffer succeeds. -/
theorem scan_chain_send_succeeds (h : usb.Delivers) (data : List Byte) (n : Nat) (flip read : Bool)
    (c : Jtag Mpsse) (hn : 1 ≤ n) (hlen : n ≤ 8 * data.length)
    (hroom : 3 + (if flip then n - 1 else n) / 8 < BUFFER_LENGTH) (hn' : n < 2 ^ 64) :
    Returns (mpsse_jtag_scan_chain_send usb data n flip read) c fun r d =>
      r = true ∧ Sends c (stateAfterScan c.state flip) (scanCodes data n flip read) r d := by
  refine Returns.and ?_ ((scan_chain_send_spec data n flip read c hn hn').mono fun _ _ h => h.1)
  unfold mpsse_jtag_scan_chain_send
  rw [bulk_bits_of_pos flip hn hn']
  have hbulk : (if flip then n - 1 else n) ≤ 8 * data.length := by
    split <;> omega
  generalize (if flip then n - 1 else n) = bulk at hbulk hroom
  refine Returns.bind (send_bytes_succeeds h data (bulk / 8) _ c (by omega) hroom) ?_
  rintro _ d rfl
  refine Returns.bind (send_rest_succeeds h data bulk _ d hbulk) ?_
  rintro _ e rfl
  cases flip with
  | false => exact returns_pure rfl
  | true => exact send_last_succeeds h data n _ e hn hn' hlen

/-! ## The clock, and its frequency -/

/-- A write past the buffer, which is empty then. -/
theorem port_write_spec (data : List Byte) (c : Jtag Mpsse) (hc : c.dev.mpsse_buffer = []) :
    Returns (mpsse_port (ftdi_write_retry usb data)) c fun r d =>
      r = true → d.state = c.state ∧ Emits c d data ∧ d.dev.mpsse_buffer = [] := by
  refine Returns.mono (Returns.focus (ftdi_write_retry_spec usb data c.dev.port)) ?_
  rintro r _ ⟨p, ⟨l, hl, -, hall⟩, rfl⟩ hr
  refine ⟨rfl, ⟨?_, hl.taken, hl.num_reads⟩, hc⟩
  simp only [stream, hc, List.append_nil]
  rw [hl.delivered, hall hr]

theorem port_write_succeeds (h : usb.Delivers) (data : List Byte) (c : Jtag Mpsse) :
    Returns (mpsse_port (ftdi_write_retry usb data)) c fun r _ => r = true := by
  refine Returns.mono (Returns.focus (ftdi_write_retry_delivers h data c.dev.port)) ?_
  rintro r _ ⟨_, ⟨hr, -⟩, -⟩
  exact hr

theorem clock_bytes_spec (len : Nat) (c : Jtag Mpsse) (hc : c.dev.mpsse_buffer = []) :
    Returns (mpsse_clock_bytes usb len) c fun r d =>
      Sends c c.state (clockBytesCodes len) r d ∧ (r = true → d.dev.mpsse_buffer = []) := by
  unfold mpsse_clock_bytes clockBytesCodes
  split
  · exact returns_pure ⟨Sends.nothing c, fun _ => hc⟩
  · refine (port_write_spec _ c hc).mono ?_
    intro r d hd
    rw [Sends, encode_singleton]
    exact ⟨fun hr => ⟨(hd hr).1, (hd hr).2.1⟩, fun hr => (hd hr).2.2⟩

theorem clock_rest_spec (n : Nat) (c : Jtag Mpsse) (hc : c.dev.mpsse_buffer = []) :
    Returns (mpsse_clock_rest usb n) c (Sends c c.state (clockRestCodes n)) := by
  unfold mpsse_clock_rest clockRestCodes
  split
  · exact returns_pure (Sends.nothing c)
  · refine (port_write_spec _ c hc).mono ?_
    intro r d hd
    rw [Sends, encode_singleton]
    exact fun hr => ⟨(hd hr).1, (hd hr).2.1⟩

theorem clock_tck_spec (n : Nat) (c : Jtag Mpsse) :
    Returns (mpsse_jtag_clock_tck usb n) c (Sends c c.state (clockCodes n)) := by
  unfold mpsse_jtag_clock_tck clockCodes
  refine Returns.bind (flush_spec c) ?_
  rintro r d ⟨hst, hd⟩
  cases r with
  | false => exact returns_pure (by simp [Sends])
  | true =>
    obtain ⟨hcd, hbuf⟩ := hd rfl
    refine Returns.bind (clock_bytes_spec (n / 8) d hbuf) ?_
    rintro r e ⟨he, hbuf'⟩
    cases r with
    | false => exact returns_pure (by simp [Sends])
    | true =>
      refine (clock_rest_spec n e (hbuf' rfl)).mono ?_
      intro r f hf
      rw [(he rfl).1] at hf
      have hflush : Sends c d.state [] true d := fun _ => ⟨rfl, hcd⟩
      rw [← hst]
      exact hflush.trans (he.trans hf)

theorem clock_tck_succeeds (h : usb.Delivers) (n : Nat) (c : Jtag Mpsse) :
    Returns (mpsse_jtag_clock_tck usb n) c fun r d => r = true ∧ Sends c c.state (clockCodes n) r d := by
  refine Returns.and ?_ (clock_tck_spec n c).ensures
  unfold mpsse_jtag_clock_tck
  refine Returns.bind (flush_succeeds h c) ?_
  rintro _ d rfl
  have hbytes : Returns (mpsse_clock_bytes usb (n / 8)) d fun r _ => r = true := by
    unfold mpsse_clock_bytes
    split
    · exact returns_pure rfl
    · exact port_write_succeeds h _ d
  refine Returns.bind hbytes ?_
  rintro _ e rfl
  simp only [if_true, mpsse_clock_rest]
  split
  · exact returns_pure rfl
  · exact port_write_succeeds h _ e

theorem set_tck_freq_spec (freq : Nat) (c : Jtag Mpsse) :
    Ensures (mpsse_set_tck_freq usb freq) c (Sends c c.state (freqCodes freq)) := by
  unfold mpsse_set_tck_freq
  refine Ensures.bind (flush_spec c).ensures ?_
  rintro r d ⟨hst, hd⟩
  cases r with
  | false => exact ensures_pure (by simp [Sends])
  | true =>
    obtain ⟨hcd, hbuf⟩ := hd rfl
    simp only [if_true]
    split
    · exact ensures_throw
    · split
      · exact ensures_throw
      · refine (port_write_spec _ d hbuf).ensures.mono ?_
        intro r e he hr
        exact ⟨(he hr).1.trans hst, hcd.trans (he hr).2.1⟩

/-! ## The divisor -/

/-- The rounded-up quotient that the divisor is one less than. -/
def halfPeriods (freq_mhz : Nat) : Nat := (60 / 2 + freq_mhz - 1) / freq_mhz

theorem halfPeriods_pos {freq : Nat} (h : 1 ≤ freq) : 1 ≤ halfPeriods freq :=
  (Nat.one_le_div_iff (by omega)).mpr (by omega)

theorem halfPeriods_le {freq : Nat} (h : 1 ≤ freq) : halfPeriods freq ≤ 30 := by
  refine Nat.div_le_of_le_mul ?_
  have := Nat.mul_le_mul_right 29 h
  omega

theorem divisor_eq {freq : Nat} (h : 1 ≤ freq) (hle : freq ≤ 2 ^ 32) :
    mpsse_divisor freq = BitVec.ofNat 32 (halfPeriods freq - 1) := by
  have hpos := halfPeriods_pos h
  have hsmall := halfPeriods_le h
  unfold halfPeriods at hpos hsmall ⊢
  unfold mpsse_divisor
  rw [Nat.mod_eq_of_lt (by omega : 60 / 2 + freq - 1 < 2 ^ 64), size_sub_of_le hpos (by omega)]

/-- The frequency that is printed is not divided by zero. -/
theorem divisor_defined {freq : Nat} (h : 1 ≤ freq) (hle : freq ≤ 2 ^ 32) : ¬ (1 + mpsse_divisor freq) * 2 = 0 := by
  have hsmall := halfPeriods_le h
  rw [divisor_eq h hle]
  intro h0
  have := congrArg BitVec.toNat h0
  simp at this
  omega

end JtagRemote.Mpsse
