import JtagRemote.Tap
import JtagRemote.Mpsse.Stream

/-!
# The bit mode of the MPSSE chip

Only the set-up and `mpsse_deinit` change the mode, and whatever else a call does, it transfers in the mode
that it finds.
-/

namespace JtagRemote

/-- The mode is as it was, and all transfers in between were made in it. -/
structure Port.InMode (p p' : Port) : Prop where
  bitmode : p'.bitmode = p.bitmode
  transfers : ∃ l, p'.transfers = p.transfers ++ l ∧ ∀ x ∈ l, x.1 = p.bitmode

theorem Port.InMode.refl (p : Port) : p.InMode p := ⟨rfl, [], (List.append_nil _).symm, by simp⟩

theorem Port.InMode.trans {p q r : Port} (h : p.InMode q) (h' : q.InMode r) : p.InMode r := by
  obtain ⟨l, hl, hmode⟩ := h.transfers
  obtain ⟨m, hm, hmode'⟩ := h'.transfers
  refine ⟨h'.bitmode.trans h.bitmode, l ++ m, ?_, ?_⟩
  · rw [hm, hl, List.append_assoc]
  · intro x hx
    rcases List.mem_append.mp hx with hx | hx
    · exact hmode x hx
    · exact (hmode' x hx).trans h.bitmode

instance : IsPreorder Port Port.InMode where
  refl := .refl
  trans _ _ _ := .trans

variable {usb : Usb}

/-! ## libftdi -/

theorem ftdi_write_data_in_mode (data : List Byte) : Within Port.InMode (ftdi_write_data usb data) := by
  unfold ftdi_write_data
  intro p
  cases hres : usb.write_result p.num_writes <;> simp only [bind_apply, get_apply, hres, set_apply, pure_apply, finalState]
  · exact ⟨rfl, [], (List.append_nil _).symm, by simp⟩
  · exact ⟨rfl, _, rfl, by simp⟩
  · exact ⟨rfl, _, rfl, by simp⟩

theorem ftdi_read_data_in_mode (len : Nat) : Within Port.InMode (ftdi_read_data usb len) := by
  unfold ftdi_read_data
  intro p
  cases hres : usb.read_result p.num_reads <;> simp only [bind_apply, get_apply, hres, set_apply, pure_apply, finalState] <;>
    exact ⟨rfl, [], (List.append_nil _).symm, by simp⟩

theorem ftdi_write_retry_in_mode (data : List Byte) : Within Port.InMode (ftdi_write_retry usb data) := by
  have hloop : ∀ retry offset, Within Port.InMode (ftdi_write_loop usb data retry offset) := by
    intro retry
    induction retry with
    | zero => exact fun _ => within_pure _
    | succ retry ih =>
      intro offset
      refine within_ite ((ftdi_write_data_in_mode _).bind fun r => ?_) (within_pure _)
      cases r with
      | none => exact within_pure _
      | some res => exact ih _
  exact hloop 100 0

/-! ## The driver -/

namespace Mpsse

/-- The calls transfer in the mode that they find. -/
def SameMode (c c' : Jtag Mpsse) : Prop := c.dev.port.InMode c'.dev.port

instance : IsPreorder (Jtag Mpsse) SameMode where
  refl c := .refl c.dev.port
  trans _ _ _ := .trans

theorem port_in_mode {α : Type} {p : EStateM Fault Port α} (h : Within Port.InMode p) :
    Within SameMode (mpsse_port p) := within_focus h fun _ _ ht => ht

theorem buffer_set_in_mode (l : List Byte) : Within SameMode (mpsse_buffer_set l) :=
  within_modify fun c => .refl c.dev.port

theorem flush_in_mode : Within SameMode (mpsse_buffer_flush usb) :=
  .get_bind fun _ => within_ite (within_pure _) <| (port_in_mode (ftdi_write_retry_in_mode _)).bind fun _ =>
    (buffer_set_in_mode _).bind fun _ => within_pure _

theorem ensure_space_in_mode (n : Nat) : Within SameMode (mpsse_buffer_ensure_space usb n) :=
  .get_bind fun _ => within_ite (within_pure _) (within_ite flush_in_mode (within_pure _))

theorem append_in_mode (l : List Byte) : Within SameMode (mpsse_buffer_append l) :=
  .get_bind fun _ => within_ite (buffer_set_in_mode _) (within_throw _)

/-- Every command asks for space, and then appends itself. -/
theorem spaced_in_mode {n : Nat} {p : MpsseProg Bool} (h : Within SameMode p) :
    Within SameMode (do
      if ← mpsse_buffer_ensure_space usb n then p else pure false) :=
  (ensure_space_in_mode n).bind fun _ => within_ite h (within_pure _)

theorem append_three_in_mode (x y : Byte) {p : MpsseProg Byte} (h : Within SameMode p) :
    Within SameMode (do
      mpsse_buffer_append_byte x
      mpsse_buffer_append_byte y
      let b ← p
      mpsse_buffer_append_byte b
      pure true) :=
  (append_in_mode _).bind fun _ => (append_in_mode _).bind fun _ => h.bind fun _ => (append_in_mode _).bind fun _ =>
    within_pure _

theorem tms_seq_in_mode (data : List Byte) (n : Nat) : Within SameMode (mpsse_jtag_tms_seq usb data n) :=
  within_forWhile fun _ => spaced_in_mode (append_three_in_mode _ _ (index_within data _))

theorem send_bytes_in_mode (data : List Byte) (len : Nat) (flag : Byte) :
    Within SameMode (mpsse_send_bytes usb data len flag) :=
  within_ite (within_pure _) <| spaced_in_mode <| (append_in_mode _).bind fun _ => (append_in_mode _).bind fun _ =>
    (append_in_mode _).bind fun _ => (bytes_at_within data _ _).bind fun _ => (append_in_mode _).bind fun _ =>
    within_pure _

theorem send_rest_in_mode (data : List Byte) (bulk : Nat) (flag : Byte) :
    Within SameMode (mpsse_send_rest usb data bulk flag) :=
  within_ite (within_pure _) (spaced_in_mode (append_three_in_mode _ _ (index_within data _)))

theorem send_last_in_mode (data : List Byte) (n : Nat) (flag : Byte) :
    Within SameMode (mpsse_send_last usb data n flag) := by
  have hstate : Within SameMode (modify fun c => { c with state := next_state c.state true } : MpsseProg Unit) :=
    within_modify fun c => .refl c.dev.port
  refine hstate.bind fun _ => (bit_of_within data _).bind fun bit => spaced_in_mode ?_
  exact (append_in_mode _).bind fun _ => (append_in_mode _).bind fun _ => (append_in_mode _).bind fun _ => within_pure _

theorem scan_chain_send_in_mode (data : List Byte) (n : Nat) (flip read : Bool) :
    Within SameMode (mpsse_jtag_scan_chain_send usb data n flip read) :=
  (send_bytes_in_mode _ _ _).bind fun _ => within_ite ((send_rest_in_mode _ _ _).bind fun _ =>
    within_ite (within_ite (send_last_in_mode _ _ _) (within_pure _)) (within_pure _)) (within_pure _)

theorem read_loop_in_mode (len fuel offset : Nat) (recv : List Byte) :
    Within SameMode (mpsse_read_loop usb len fuel offset recv) := by
  induction fuel generalizing offset recv with
  | zero => exact within_ite (within_throw _) (within_pure _)
  | succ fuel ih =>
    refine within_ite ((port_in_mode (ftdi_read_data_in_mode _)).bind fun r => ?_) (within_pure _)
    cases r with
    | none => exact within_pure _
    | some got => exact (memcpy_within _ _ _).bind fun _ => ih _ _

theorem last_loop_in_mode (fuel : Nat) : Within SameMode (mpsse_last_loop usb fuel) := by
  induction fuel with
  | zero => exact within_throw _
  | succ fuel ih =>
    refine (port_in_mode (ftdi_read_data_in_mode _)).bind fun r => ?_
    split
    · exact within_pure _
    · exact ih

theorem send_pending_in_mode : Within SameMode (mpsse_send_pending usb) := by
  have hempty : Within SameMode mpsse_buffer_is_empty := .get_bind fun _ => within_pure _
  exact hempty.bind fun _ => within_ite (within_pure _) <| spaced_in_mode <| (append_in_mode _).bind fun _ => flush_in_mode

theorem scan_chain_recv_in_mode (fuel : Nat) (recv : List Byte) (n : Nat) (flip : Bool) :
    Within SameMode (mpsse_jtag_scan_chain_recv usb fuel recv n flip) := by
  have halign : ∀ recv bulk, Within SameMode (mpsse_align_rest recv bulk) := fun recv bulk =>
    within_ite (within_pure _) ((index_within recv _).bind fun _ => within_pure _)
  have hlast : ∀ recv, Within SameMode (do
      let last_bit ← mpsse_last_loop usb fuel
      let recv ← or_bit recv (size_sub n 1) (last_bit.getLsbD 7)
      pure (true, recv)) := fun recv =>
    (last_loop_in_mode fuel).bind fun _ => (or_bit_within recv _ _).bind fun _ => within_pure _
  refine send_pending_in_mode.bind fun _ => within_ite ?_ (within_pure _)
  refine (memcpy_within _ _ _).bind fun recv => (read_loop_in_mode _ _ _ _).bind fun r => ?_
  exact within_ite ((halign _ _).bind fun recv => within_ite (hlast recv) (within_pure _)) (within_pure _)

/-- The set-up before the clock is set. -/
theorem set_tck_freq_in_mode (freq : Nat) : Within SameMode (mpsse_set_tck_freq usb freq) :=
  flush_in_mode.bind fun _ => within_ite (within_ite (within_throw _) (within_ite (within_throw _)
    (port_in_mode (ftdi_write_retry_in_mode _)))) (within_pure _)

/-! ## The calls of `common.cpp` -/

variable {fuel freq : Nat}

theorem count_bits_in_mode (n : Nat) : Within SameMode (count_bits n : MpsseProg Unit) :=
  within_modify fun c => .refl c.dev.port

theorem jtag_tms_seq_in_mode (data : List Byte) (n : Nat) :
    Within SameMode (jtag_tms_seq (mpsse_driver usb fuel freq) data n) := by
  have hset : ∀ st, Within SameMode (modify fun c => { c with state := st } : MpsseProg Unit) :=
    fun st => within_modify fun c => .refl c.dev.port
  refine (count_bits_in_mode n).bind fun _ => .get_bind fun c => ?_
  exact (within_forUpto fun i st => (bit_of_within data i).bind fun _ => within_pure _).bind fun st =>
    (hset st).bind fun _ => tms_seq_in_mode data n

theorem jtag_scan_chain_in_mode (data recv : List Byte) (n : Nat) (flip read : Bool) :
    Within SameMode (jtag_scan_chain (mpsse_driver usb fuel freq) data recv n flip read) := by
  have hsend : Within SameMode (jtag_scan_chain_send (mpsse_driver usb fuel freq) data n flip read) :=
    (count_bits_in_mode n).bind fun _ => scan_chain_send_in_mode _ _ _ _
  exact hsend.bind fun _ => within_ite (within_ite (scan_chain_recv_in_mode _ _ _ _) (within_pure _)) (within_pure _)

/-! ## What waits in the buffer -/

theorem flush_empties (c : Jtag Mpsse) : Ensures (mpsse_buffer_flush usb) c fun _ c' => c'.dev.mpsse_buffer = [] := by
  unfold mpsse_buffer_flush
  refine Ensures.get_bind (ensures_ite (fun h => ensures_pure (List.eq_nil_of_length_eq_zero h)) fun _ => ?_)
  exact Ensures.any_bind fun _ _ => Ensures.modify_bind (ensures_pure rfl)

/-- Space is only refused, but for a command that is too long, when a flush has failed. -/
theorem spaced_empties {n : Nat} {p : MpsseProg Bool} (hn : n < BUFFER_LENGTH)
    (hp : ∀ c, Ensures p c fun r _ => r = true) (c : Jtag Mpsse) :
    Ensures (do
      if ← mpsse_buffer_ensure_space usb n then p else pure false) c fun r c' =>
      r = false → c'.dev.mpsse_buffer = [] := by
  have hspace : Ensures (mpsse_buffer_ensure_space usb n) c fun r c' => r = false → c'.dev.mpsse_buffer = [] := by
    unfold mpsse_buffer_ensure_space
    refine Ensures.get_bind (ensures_ite (fun h => absurd hn (by omega)) fun _ => ensures_ite (fun _ => ?_) fun _ => ?_)
    · exact (flush_empties c).mono fun _ _ h _ => h
    · exact ensures_pure fun h => absurd h (by decide)
  refine Ensures.bind hspace ?_
  rintro r d hd
  refine ensures_ite (fun _ => (hp d).mono fun _ _ hr hf => ?_) fun hr => ensures_pure fun _ => hd (by simpa using hr)
  rw [hr] at hf
  cases hf

theorem append_three_true (x y : Byte) (p : MpsseProg Byte) (c : Jtag Mpsse) :
    Ensures (do
      mpsse_buffer_append_byte x
      mpsse_buffer_append_byte y
      let b ← p
      mpsse_buffer_append_byte b
      pure true) c fun r _ => r = true :=
  Ensures.any_bind fun _ _ => Ensures.any_bind fun _ _ => Ensures.any_bind fun _ _ => Ensures.any_bind fun _ _ =>
    ensures_pure rfl

/-- A part of a scan fails only with nothing left in the buffer. -/
theorem parts_empty {p q : MpsseProg Bool} (hp : ∀ c, Ensures p c fun r c' => r = false → c'.dev.mpsse_buffer = [])
    (hq : ∀ c, Ensures q c fun r c' => r = false → c'.dev.mpsse_buffer = []) (c : Jtag Mpsse) :
    Ensures (do
      if ← p then q else pure false) c fun r c' => r = false → c'.dev.mpsse_buffer = [] := by
  refine Ensures.bind (hp c) ?_
  rintro r d hd
  exact ensures_ite (fun _ => hq d) fun hr => ensures_pure fun _ => hd (by simpa using hr)

theorem done_empties (c : Jtag Mpsse) :
    Ensures (pure true : MpsseProg Bool) c fun r c' => r = false → c'.dev.mpsse_buffer = [] :=
  ensures_pure fun h => absurd h (by decide)

/-- The whole bytes of a scan have room in the buffer. -/
def Fits (n : Nat) (flip : Bool) : Prop := 3 + bulk_bits n flip / 8 < BUFFER_LENGTH

instance (n : Nat) (flip : Bool) : Decidable (Fits n flip) := inferInstanceAs (Decidable (_ < _))

theorem scan_chain_send_empties (data : List Byte) {n : Nat} {flip : Bool} (read : Bool) (hfits : Fits n flip)
    (c : Jtag Mpsse) : Ensures (mpsse_jtag_scan_chain_send usb data n flip read) c fun r c' =>
      r = false → c'.dev.mpsse_buffer = [] := by
  have hshort : 3 < BUFFER_LENGTH := by decide
  refine parts_empty (fun c => ?_) (parts_empty (fun c => ?_) fun c => ?_) c
  · refine ensures_ite (fun _ => done_empties c) fun _ => spaced_empties hfits (fun d => ?_) c
    exact Ensures.any_bind fun _ _ => Ensures.any_bind fun _ _ => Ensures.any_bind fun _ _ =>
      Ensures.any_bind fun _ _ => Ensures.any_bind fun _ _ => ensures_pure rfl
  · exact ensures_ite (fun _ => done_empties c) fun _ => spaced_empties hshort (append_three_true _ _ _) c
  · refine ensures_ite (fun _ => Ensures.modify_bind (Ensures.any_bind fun bit d => ?_)) fun _ => done_empties c
    refine spaced_empties hshort (fun e => ?_) d
    exact Ensures.any_bind fun _ _ => Ensures.any_bind fun _ _ => Ensures.any_bind fun _ _ => ensures_pure rfl

/-- A scan that has no room at all does nothing. -/
theorem scan_chain_send_refused (data : List Byte) {n : Nat} {flip : Bool} (read : Bool) (hfits : ¬ Fits n flip)
    (c : Jtag Mpsse) : mpsse_jtag_scan_chain_send usb data n flip read c = .ok false c := by
  unfold Fits at hfits
  have hbig : BUFFER_LENGTH = 8192 := rfl
  have hspace : mpsse_buffer_ensure_space usb (3 + bulk_bits n flip / 8) c = .ok false c := by
    unfold mpsse_buffer_ensure_space
    rw [bind_of_ok (get_apply c), if_pos (by omega)]
    rfl
  have hbytes : mpsse_send_bytes usb data (bulk_bits n flip / 8) (if read then MPSSE_DO_READ else 0) c = .ok false c := by
    unfold mpsse_send_bytes
    rw [if_neg (by omega), bind_of_ok hspace]
    rfl
  unfold mpsse_jtag_scan_chain_send
  rw [bind_of_ok hbytes]
  rfl

theorem jtag_scan_chain_refused {n : Nat} {flip : Bool} (hfits : ¬ Fits n flip) (data recv : List Byte) (c : Jtag Mpsse) :
    jtag_scan_chain (mpsse_driver usb fuel freq) data recv n flip true c = .ok (false, recv) (withCount c n) := by
  have hrun : jtag_scan_chain_send (mpsse_driver usb fuel freq) data n flip true c = .ok false (withCount c n) :=
    scan_chain_send_refused data true hfits (withCount c n)
  rw [jtag_scan_chain, bind_of_ok hrun]
  rfl

theorem send_pending_empties (c : Jtag Mpsse) :
    Ensures (mpsse_send_pending usb) c fun _ c' => c'.dev.mpsse_buffer = [] := by
  unfold mpsse_send_pending
  have hempty : mpsse_buffer_is_empty c = .ok (c.dev.mpsse_buffer.length == 0) c := rfl
  refine Ensures.of_eq_bind hempty (ensures_ite (fun h => ensures_pure (by simpa using h)) fun _ => ?_)
  intro r d hd
  obtain ⟨ok, e, hspace, hrest⟩ := bind_eq_ok.mp hd
  cases ok with
  | true =>
    obtain ⟨_, f, -, hflush⟩ := bind_eq_ok.mp hrest
    exact flush_empties f r d hflush
  | false =>
    have hspaced : (do
        if ← mpsse_buffer_ensure_space usb 1 then pure true else pure false : MpsseProg Bool) c = .ok false e :=
      bind_eq_ok.mpr ⟨false, e, hspace, rfl⟩
    cases hrest
    exact spaced_empties (n := 1) (by decide) (fun _ => ensures_pure rfl) c false _ hspaced rfl

/-- The part of the driver that the reads leave alone. -/
def waits (c : Jtag Mpsse) : List Byte := c.dev.mpsse_buffer

/-- Once the pending commands are sent, a receiving call leaves alone what its reads do. -/
theorem scan_chain_recv_keeps {τ : Type} {part : Jtag Mpsse → τ} {ok : Bool} {c d : Jtag Mpsse}
    (hport : ∀ len, Keeps part (mpsse_port (ftdi_read_data usb len))) (hsend : mpsse_send_pending usb c = .ok ok d)
    (fuel : Nat) (recv : List Byte) (n : Nat) (flip : Bool) :
    Ensures (mpsse_jtag_scan_chain_recv usb fuel recv n flip) c fun _ e => part e = part d := by
  have hread : ∀ len fuel offset recv, Keeps part (mpsse_read_loop usb len fuel offset recv) := by
    intro len fuel
    induction fuel with
    | zero => exact fun _ _ => keeps_ite (keeps_throw _) (keeps_pure _)
    | succ fuel ih =>
      intro offset recv
      refine keeps_ite ((hport _).bind fun r => ?_) (keeps_pure _)
      cases r with
      | none => exact keeps_pure _
      | some got => exact (memcpy_keeps _ _ _).bind fun _ => ih _ _
  have hlast : ∀ fuel, Keeps part (mpsse_last_loop usb fuel) := by
    intro fuel
    induction fuel with
    | zero => exact keeps_throw _
    | succ fuel ih =>
      refine (hport _).bind fun r => ?_
      split
      · exact keeps_pure _
      · exact ih
  have halign : ∀ recv bulk, Keeps part (mpsse_align_rest recv bulk) := fun recv bulk =>
    keeps_ite (keeps_pure _) ((index_keeps recv _).bind fun _ => keeps_pure _)
  have hend : ∀ recv, Keeps part (do
      let last_bit ← mpsse_last_loop usb fuel
      let recv ← or_bit recv (size_sub n 1) (last_bit.getLsbD 7)
      pure (true, recv)) := fun recv => (hlast fuel).bind fun _ => (or_bit_keeps recv _ _).bind fun _ => keeps_pure _
  refine Ensures.of_eq_bind hsend (ensures_ite (fun _ => ?_) fun _ => ensures_pure rfl)
  refine Keeps.bind (memcpy_keeps _ _ _) (fun recv => (hread _ _ _ _).bind fun r => ?_) d
  exact keeps_ite ((halign _ _).bind fun recv => keeps_ite (hend recv) (keeps_pure _)) (keeps_pure _)

theorem scan_chain_recv_empties (fuel : Nat) (recv : List Byte) (n : Nat) (flip : Bool) (c : Jtag Mpsse) :
    Ensures (mpsse_jtag_scan_chain_recv usb fuel recv n flip) c fun _ c' => c'.dev.mpsse_buffer = [] := by
  intro r e hrun
  obtain ⟨ok, d, hsend, -⟩ := bind_eq_ok.mp hrun
  have hport : ∀ len, Keeps waits (mpsse_port (ftdi_read_data usb len)) := fun len => keeps_focus fun _ _ => rfl
  have hkeeps : waits e = waits d := scan_chain_recv_keeps hport hsend fuel recv n flip r e hrun
  exact hkeeps.trans (send_pending_empties c ok d hsend)

theorem set_tck_freq_empties (freq : Nat) (c : Jtag Mpsse) :
    Ensures (mpsse_set_tck_freq usb freq) c fun r c' => r = true → c'.dev.mpsse_buffer = [] := by
  unfold mpsse_set_tck_freq
  refine Ensures.bind (flush_empties c) ?_
  rintro ok d hd
  have hwrite : ∀ l, Keeps waits (mpsse_port (ftdi_write_retry usb l)) := fun l => keeps_focus fun _ _ => rfl
  refine ensures_ite (fun _ => ensures_ite (fun _ => ensures_throw) fun _ => ensures_ite (fun _ => ensures_throw) fun _ => ?_)
    fun _ => ensures_pure fun _ => hd
  exact (hwrite _ d).mono fun _ e he _ => he.trans hd

/-- A read scan leaves nothing in the buffer. -/
theorem jtag_scan_chain_empties (data recv : List Byte) {n : Nat} {flip : Bool} (hfits : Fits n flip) (c : Jtag Mpsse) :
    Ensures (jtag_scan_chain (mpsse_driver usb fuel freq) data recv n flip true) c fun _ c' =>
      c'.dev.mpsse_buffer = [] := by
  have hsend : Ensures (jtag_scan_chain_send (mpsse_driver usb fuel freq) data n flip true) c fun r c' =>
      r = false → c'.dev.mpsse_buffer = [] := Ensures.any_bind fun _ d => scan_chain_send_empties data true hfits d
  refine Ensures.bind hsend ?_
  rintro r d hd
  refine ensures_ite (fun _ => ?_) fun hr => ensures_pure (hd (by simpa using hr))
  exact scan_chain_recv_empties fuel recv n flip d

end Mpsse

end JtagRemote
