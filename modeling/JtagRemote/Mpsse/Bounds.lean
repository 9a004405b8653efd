import JtagRemote.Bounds
import JtagRemote.Mpsse.Calls
import JtagRemote.Mpsse.Mode

/-! # The accesses of the mpsse driver -/

namespace JtagRemote.Mpsse

variable {usb : Usb} {fuel freq : Nat} {F : Fault → Prop} {c : Jtag Mpsse}

/-! ## Commands -/

/-- Every command asks for the space that it takes. -/
theorem spaced_ends {n : Nat} {p : MpsseProg Bool}
    (hp : ∀ d, d.dev.mpsse_buffer.length + n ≤ BUFFER_LENGTH → Ends p d F fun _ _ => True) :
    Ends (do
      if ← mpsse_buffer_ensure_space usb n then p else pure false) c F fun _ _ => True := by
  refine Ends.bind (ensure_space_spec c n).ends ?_
  rintro r d ⟨-, hroom⟩
  exact ends_ite (fun hr => hp d (Nat.le_of_lt (hroom hr).2)) fun _ => ends_pure trivial

theorem append_three_ends (x y : Byte) {p : MpsseProg Byte} (hp : ∀ d, Returns p d fun _ d' => d' = d)
    (hroom : c.dev.mpsse_buffer.length + 3 ≤ BUFFER_LENGTH) :
    Ends (do
      mpsse_buffer_append_byte x
      mpsse_buffer_append_byte y
      let b ← p
      mpsse_buffer_append_byte b
      pure true) c F fun _ _ => True :=
  (append_three_returns c x y p hroom hp).ends.mono fun _ _ _ => trivial

theorem index_returns {l : List Byte} {i : Nat} (h : i < l.length) (d : Jtag Mpsse) :
    Returns (index l i : MpsseProg Byte) d fun _ d' => d' = d := ⟨_, d, index_ok h d, rfl⟩

theorem tms_seq_ends {data : List Byte} {n : Nat} (hlen : n ≤ 8 * data.length) :
    Ends (mpsse_jtag_tms_seq usb data n) c F fun _ _ => True := by
  refine Ends.forWhile (fun _ => True) trivial fun i d hi _ => ?_
  exact spaced_ends fun e he => append_three_ends _ _ (index_returns (by omega)) he

theorem send_bytes_ends {data : List Byte} {len : Nat} (flag : Byte) (hlen : len ≤ data.length) :
    Ends (mpsse_send_bytes usb data len flag) c F fun _ _ => True := by
  refine ends_ite (fun _ => ends_pure trivial) fun _ => spaced_ends fun d hd => ?_
  refine Ends.bind (append_byte_returns d _ (by omega)).ends fun _ e he => ?_
  refine Ends.bind (append_byte_returns e _ (by omega)).ends fun _ f hf => ?_
  refine Ends.bind (append_byte_returns f _ (by omega)).ends fun _ g hg => ?_
  refine Ends.bind (bytes_at_ends (by omega) g) ?_
  rintro bytes _ ⟨rfl, hbytes⟩
  refine Ends.bind (append_returns _ bytes (by omega)).ends ?_
  rintro _ h -
  exact ends_pure trivial

theorem send_rest_ends {data : List Byte} {bulk : Nat} (flag : Byte) (hlen : bulk ≤ 8 * data.length) :
    Ends (mpsse_send_rest usb data bulk flag) c F fun _ _ => True := by
  refine ends_ite (fun _ => ends_pure trivial) fun hrest => spaced_ends fun d hd => ?_
  exact append_three_ends _ _ (index_returns (by omega)) hd

theorem send_last_ends {data : List Byte} {n : Nat} (flag : Byte) (hn : 1 ≤ n) (hn' : n < 2 ^ 64)
    (hlen : n ≤ 8 * data.length) : Ends (mpsse_send_last usb data n flag) c F fun _ _ => True := by
  unfold mpsse_send_last
  rw [size_sub_of_le hn hn']
  refine Ends.modify_bind (Ends.bind (bit_of_ends (by omega) _) ?_)
  rintro bit d -
  refine spaced_ends fun e he => append_three_ends _ _ (p := pure _) (fun f => ?_) he
  exact returns_pure rfl

theorem scan_chain_send_ends {data : List Byte} {n : Nat} {flip : Bool} (read : Bool) (hn : flip = true → 1 ≤ n)
    (hn' : n < 2 ^ 64) (hlen : n ≤ 8 * data.length) :
    Ends (mpsse_jtag_scan_chain_send usb data n flip read) c F fun _ _ => True := by
  have hbulk := bulk_bits_le hn hn'
  refine Ends.bind (send_bytes_ends _ (by omega)) fun _ d _ => ends_ite (fun _ => ?_) fun _ => ends_pure trivial
  refine Ends.bind (send_rest_ends _ (by omega)) fun _ e _ => ends_ite (fun _ => ?_) fun _ => ends_pure trivial
  exact ends_ite (fun hflip => send_last_ends _ (hn hflip) hn' hlen) fun _ => ends_pure trivial

/-! ## Scans that the data ends before -/

theorem send_bytes_fault (h : usb.Delivers) {data : List Byte} {len : Nat} (flag : Byte)
    (hlen : data.length < len) (hroom : 3 + len < BUFFER_LENGTH) :
    Faults (mpsse_send_bytes usb data len flag) c .out_of_bounds := by
  unfold mpsse_send_bytes
  rw [if_neg (by omega)]
  refine Returns.bind_faults ((ensure_space_succeeds h c _ hroom).and (ensure_space_spec c _).ensures) ?_
  rintro r d ⟨rfl, -, hd⟩
  obtain ⟨-, hd⟩ := hd rfl
  refine Returns.bind_faults (append_byte_returns d _ (by omega)) fun _ e he => ?_
  refine Returns.bind_faults (append_byte_returns e _ (by omega)) fun _ f hf => ?_
  refine Returns.bind_faults (append_byte_returns f _ (by omega)) fun _ g hg => ?_
  exact Faults.bind ⟨g, bytes_at_error (by omega) g⟩

theorem send_rest_fault (h : usb.Delivers) {data : List Byte} {bulk : Nat} (flag : Byte)
    (hlen : data.length ≤ bulk / 8) (hrest : bulk % 8 ≠ 0) :
    Faults (mpsse_send_rest usb data bulk flag) c .out_of_bounds := by
  unfold mpsse_send_rest
  rw [if_neg hrest]
  refine Returns.bind_faults ((ensure_space_succeeds h c 3 (by decide)).and (ensure_space_spec c 3).ensures) ?_
  rintro r d ⟨rfl, -, hd⟩
  obtain ⟨-, hd⟩ := hd rfl
  refine Returns.bind_faults (append_byte_returns d _ (by omega)) fun _ e he => ?_
  refine Returns.bind_faults (append_byte_returns e _ (by omega)) fun _ f hf => ?_
  exact Faults.bind ⟨f, index_error (by omega) f⟩

theorem send_last_fault {data : List Byte} {n : Nat} (flag : Byte) (hn : 1 ≤ n) (hn' : n < 2 ^ 64)
    (hlen : 8 * data.length < n) : Faults (mpsse_send_last usb data n flag) c .out_of_bounds := by
  unfold mpsse_send_last
  rw [size_sub_of_le hn hn']
  refine Faults.of_eq_bind (modify_apply _ c) (Faults.bind ⟨_, bit_of_error (by omega) _⟩)

/-- The bits end inside the bytes, in the rest or at the last bit. -/
theorem scan_chain_send_fault (h : usb.Delivers) {data : List Byte} {n : Nat} {flip : Bool} (read : Bool)
    (hn : flip = true → 1 ≤ n) (hn' : n < 2 ^ 64) (hlen : 8 * data.length < n) (hfits : Fits n flip) :
    Faults (mpsse_jtag_scan_chain_send usb data n flip read) c .out_of_bounds := by
  unfold Fits at hfits
  unfold mpsse_jtag_scan_chain_send
  have hbulk : bulk_bits n flip = if flip then n - 1 else n := bulk_bits_of_pos flip (by omega) hn'
  by_cases hbytes : data.length < bulk_bits n flip / 8
  · exact (send_bytes_fault h _ hbytes hfits).bind
  refine Returns.bind_faults (send_bytes_succeeds h data _ _ c (by omega) hfits) ?_
  rintro _ d rfl
  by_cases hrest : bulk_bits n flip % 8 = 0
  · refine Returns.bind_faults (send_rest_succeeds h data _ _ d (by omega)) ?_
    rintro _ e rfl
    cases flip with
    | false =>
      rw [hbulk] at hbytes hrest
      simp only [Bool.false_eq_true, if_false] at hbytes hrest
      omega
    | true => exact send_last_fault _ (hn rfl) hn' hlen
  · refine Faults.bind (send_rest_fault h _ ?_ hrest)
    rw [hbulk]
    split <;> omega

/-! ## Answers -/

theorem port_ends {α : Type} {p : EStateM Fault Port α} {P : α → Port → Prop} {Q : α → Jtag Mpsse → Prop}
    (hp : Returns p c.dev.port P) (hPQ : ∀ a t d, P a t → Q a d) : Ends (mpsse_port p) c F Q := by
  obtain ⟨a, t, hrun, hP⟩ := hp
  have hport : mpsse_port p c = .ok a { c with dev := { c.dev with port := t } } := by
    rw [mpsse_port, focus, hrun]
  exact .of_ok hport (hPQ a t _ hP)

theorem read_data_ends (len : Nat) : Ends (mpsse_port (ftdi_read_data usb len)) c F fun r _ =>
    ∀ got, r = some got → got.length ≤ len := by
  refine port_ends (ftdi_read_data_spec len c.dev.port) ?_
  rintro r p d ⟨-, got, -, hlen, hr⟩
  rintro got' rfl
  rcases hr with ⟨h, -⟩ | h <;> cases h
  exact hlen

theorem read_loop_ends {len fuel offset : Nat} {out : List Byte} (hlen : len ≤ out.length) :
    Ends (mpsse_read_loop usb len fuel offset out) c InRange fun r _ => r.2.length = out.length := by
  induction fuel generalizing offset out c with
  | zero => exact ends_ite (fun _ => ends_throw (by decide)) fun _ => ends_pure rfl
  | succ fuel ih =>
    refine ends_ite (fun hmore => Ends.bind (read_data_ends _) fun r d hr => ?_) fun _ => ends_pure rfl
    cases r with
    | none => exact ends_pure rfl
    | some got =>
      have hgot := hr got rfl
      refine Ends.bind (memcpy_ends (by omega) d) ?_
      rintro out' _ ⟨rfl, hout⟩
      exact (ih (by omega)).mono fun _ _ h => h.trans hout

theorem last_loop_ends (fuel : Nat) : Ends (mpsse_last_loop usb fuel) c InRange fun _ _ => True := by
  induction fuel generalizing c with
  | zero => exact ends_throw (by decide)
  | succ fuel ih =>
    refine Ends.bind (read_data_ends 1) fun r d _ => ?_
    split
    · exact ends_pure trivial
    · exact ih

theorem flush_ends : Ends (mpsse_buffer_flush usb) c F fun _ _ => True :=
  (flush_spec c).ends.mono fun _ _ _ => trivial

theorem send_pending_ends : Ends (mpsse_send_pending usb) c F fun _ _ => True := by
  have hempty : mpsse_buffer_is_empty c = .ok (c.dev.mpsse_buffer.length == 0) c := rfl
  refine Ends.bind (.of_ok (Q := fun _ _ => True) hempty trivial) fun _ d _ => ends_ite (fun _ => ends_pure trivial) fun _ => ?_
  exact spaced_ends fun e he => Ends.bind (append_byte_returns e _ he).ends fun _ f _ => flush_ends

theorem align_rest_ends {out : List Byte} {bulk : Nat} (hlen : bulk ≤ 8 * out.length) :
    Ends (mpsse_align_rest out bulk) c F fun r _ => r.length = out.length := by
  refine ends_ite (fun _ => ends_pure rfl) fun hrest => Ends.bind (index_ends (by omega) c) ?_
  rintro b d -
  exact ends_pure (List.length_set ..)

theorem scan_chain_recv_ends {out : List Byte} {n : Nat} {flip : Bool} (hn : flip = true → 1 ≤ n) (hn' : n < 2 ^ 64)
    (hlen : n ≤ 8 * out.length) :
    Ends (mpsse_jtag_scan_chain_recv usb fuel out n flip) c InRange fun r _ => r.2.length = out.length := by
  have hbulk := bulk_bits_le hn hn'
  refine Ends.bind send_pending_ends fun _ d _ => ends_ite (fun _ => ?_) fun _ => ends_pure rfl
  have hbytes : (bulk_bits n flip + 7) % 2 ^ 64 / 8 ≤ out.length := by omega
  refine Ends.bind (memset_zero_ends hbytes d) ?_
  rintro out₁ _ ⟨rfl, h₁⟩
  refine Ends.bind (read_loop_ends (by omega)) fun r e hr => ends_ite (fun _ => ?_) fun _ => ends_pure (hr.trans h₁)
  refine Ends.bind (align_rest_ends (by omega)) fun out₂ f h₂ => ?_
  have hout := h₂.trans (hr.trans h₁)
  refine ends_ite (fun hflip => Ends.bind (last_loop_ends fuel) fun last g _ => ?_) fun _ => ends_pure hout
  rw [size_sub_of_le (hn hflip) hn']
  have := hn hflip
  refine Ends.bind (or_bit_ends (by omega) _ g) ?_
  rintro out₃ _ ⟨rfl, h₃⟩
  exact ends_pure (h₃.trans hout)

/-! ## The driver -/

theorem write_ends (data : List Byte) : Ends (mpsse_port (ftdi_write_retry usb data)) c F fun _ _ => True :=
  port_ends (ftdi_write_retry_spec usb data c.dev.port) fun _ _ _ _ => trivial

theorem clock_tck_ends (n : Nat) : Ends (mpsse_jtag_clock_tck usb n) c F fun _ _ => True := by
  refine Ends.bind flush_ends fun _ d _ => ends_ite (fun _ => ?_) fun _ => ends_pure trivial
  refine Ends.bind (P := fun _ _ => True) ?_ fun _ e _ => ends_ite (fun _ => ?_) fun _ => ends_pure trivial
  · exact ends_ite (fun _ => ends_pure trivial) fun _ => write_ends _
  · exact ends_ite (fun _ => ends_pure trivial) fun _ => write_ends _

theorem set_tck_freq_ends (f : Nat) : Ends (mpsse_set_tck_freq usb f) c Finishes fun _ _ => True := by
  have hdiv : Finishes .div_by_zero := by decide
  unfold mpsse_set_tck_freq
  refine Ends.bind flush_ends fun _ d _ => ends_ite (fun _ => ?_) fun _ => ends_pure trivial
  refine ends_ite (fun _ => ends_throw hdiv) fun _ => ?_
  generalize mpsse_divisor f = divisor
  exact ends_ite (fun _ => ends_throw hdiv) fun _ => write_ends _

/-- The driver has no array for its answers: they go into the caller's. -/
def mpsseBounded (usb : Usb) (fuel freq : Nat) : Bounded (mpsse_driver usb fuel freq) where
  Ok _ := True
  Fits _ _ := True
  tms_seq _ hlen := tms_seq_ends hlen
  send _ hn hn' hlen _ := scan_chain_send_ends _ hn hn' hlen
  recv _ hn hn' hlen _ := (scan_chain_recv_ends hn hn' hlen).mono fun _ _ h => ⟨h, trivial⟩
  clock _ := clock_tck_ends _
  freq _ := set_tck_freq_ends _

end JtagRemote.Mpsse
