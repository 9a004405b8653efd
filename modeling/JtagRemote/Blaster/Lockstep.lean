import JtagRemote.Alike
import JtagRemote.Ports
import JtagRemote.Blaster.Exchanges

/-!
# Two USB Blaster drivers side by side

What `recv_buffer` holds behind its first `recv_buffer_len` bytes makes no difference: on ports on which
the device goes on alike, every scan does the same in both.
-/

namespace JtagRemote.Blaster

/-- The same, but for what `recv_buffer` holds behind its answers. -/
structure Abreast (w : Wire) (c c' : Jtag Blaster) : Prop where
  state : c'.state = c.state
  len : c'.dev.recv_buffer_len = c.dev.recv_buffer_len
  size : c'.dev.recv_buffer.length = c.dev.recv_buffer.length
  held : c'.dev.recv_buffer.take c.dev.recv_buffer_len = c.dev.recv_buffer.take c.dev.recv_buffer_len
  port : w.Same c.dev.port c'.dev.port

/-- What the device was sent. -/
def Watched (w : Wire) (c c' : Jtag Blaster) : Prop := w.Seen c.dev.port c'.dev.port

def InStep (w : Wire) (c c' : Jtag Blaster) : Prop := Abreast w c c' ∧ w.Open c.dev.port

/-- Or nothing was asked of the driver yet. -/
def Starting (w : Wire) (c c' : Jtag Blaster) : Prop := Abreast w c c' ∧ (w.Open c.dev.port ∨ w.Ready c.dev.port)

variable {w : Wire} {c c' : Jtag Blaster}

theorem InStep.watched : ∀ c c', InStep w c c' → Watched w c c' := fun _ _ h => h.1.port.seen

/-- The program keeps the drivers in step. -/
def Steps (w : Wire) {α : Type} (p : BlasterProg α) : Prop := Twins (Watched w) (InStep w) (InStep w) p

/-! ## The port -/

theorem port_twins {α : Type} {x : EStateM Fault Port α} {P : Port → Prop}
    (hx : Twins w.Seen (fun p p' => w.Same p p' ∧ P p) w.Going x) :
    Twins (Watched w) (fun c c' => Abreast w c c' ∧ P c.dev.port) (InStep w) (blaster_port x) := by
  refine twins_focus hx (fun _ _ h => ⟨h.1.port, h.2⟩) ?_ fun _ _ _ _ _ hseen => hseen
  rintro c c' p p' ⟨h, -⟩ ⟨hp, hopen⟩
  exact ⟨⟨h.state, h.len, h.size, h.held, hp⟩, hopen⟩

theorem read_step (trans : Nat) : Steps w (usb_blaster_read w.usb trans) := by
  intro c c' h
  have hgot : Ensures (blaster_port (ftdi_read_retry w.usb trans)) c fun r _ =>
      r.2.length ≤ trans ∧ (r.1 = true → r.2.length = trans) := by
    refine Ensures.mono (Ensures.focus (ftdi_read_retry_spec trans c.dev.port).ensures) ?_
    rintro r _ ⟨p, ⟨-, hr⟩, -⟩
    exact hr
  unfold usb_blaster_read
  refine (port_twins (read_retry_twins open_byWrites trans) c c' h).bind ?_
  rintro ⟨ok, got⟩ d d' hrun ⟨hd, hopen⟩
  obtain ⟨hle, hall⟩ := hgot _ _ hrun
  simp only at hle hall
  dsimp only
  rw [bind_of_ok (get_apply d), bind_of_ok (get_apply d'), hd.len, hd.size]
  split
  · have hfits : d.dev.recv_buffer_len + got.length ≤ d.dev.recv_buffer.length := by omega
    have hfits' : d.dev.recv_buffer_len + got.length ≤ d'.dev.recv_buffer.length := by
      rw [hd.size]
      exact hfits
    rw [bind_of_ok (memcpy_ok hfits d), bind_of_ok (memcpy_ok hfits' d')]
    refine .ok ⟨⟨hd.state, rfl, ?_, ?_, hd.port⟩, hopen⟩
    · exact (splice_length _ _ _ hfits').trans (hd.size.trans (splice_length _ _ _ hfits).symm)
    · have hk : (d.dev.recv_buffer_len + if ok = true then trans else 0) ≤ d.dev.recv_buffer_len + got.length := by
        split
        · rw [hall (by assumption)]
        · omega
      show (splice d'.dev.recv_buffer d.dev.recv_buffer_len got).take _ =
        (splice d.dev.recv_buffer d.dev.recv_buffer_len got).take _
      rw [splice_take (by omega) hk, splice_take (by omega) hk, hd.held]
  · exact .error hd.port.seen

/-! ## Scans -/

theorem exchange_step (buffer : List Byte) (read : Bool) (trans : Nat) :
    Steps w (usb_blaster_exchange w.usb buffer read trans) :=
  (port_twins (write_retry_twins buffer)).bind fun _ => twins_ite
    (fun _ => twins_ite (fun _ => read_step trans) fun _ => twins_pure _) fun _ => twins_pure _

theorem packets_step (data : List Byte) (len : Nat) (read : Bool) (fuel i : Nat) :
    Steps w (usb_blaster_packets w.usb data len read fuel i) := by
  induction fuel generalizing i with
  | zero => exact twins_ite (fun _ => twins_throw InStep.watched _) fun _ => twins_pure _
  | succ fuel ih =>
    refine twins_ite (fun _ => ?_) fun _ => twins_pure _
    refine (bytes_at_twins InStep.watched _ _ _).bind fun bytes => (exchange_step _ _ _).bind fun ok => ?_
    exact twins_ite (fun _ => ih _) fun _ => twins_pure _

theorem send_rest_step (data : List Byte) (bulk : Nat) (read : Bool) :
    Steps w (usb_blaster_send_rest w.usb data bulk read) := by
  refine twins_ite (fun _ => twins_pure _) fun _ => ?_
  refine (twins_forUpto fun i buffer => ?_).bind fun buffer => exchange_step _ _ _
  exact (bit_of_twins InStep.watched _ _).bind fun bit => twins_pure _

theorem send_last_step (data : List Byte) (n : Nat) (read : Bool) :
    Steps w (usb_blaster_send_last w.usb data n read) := by
  refine (twins_modify fun c c' h => ?_).bind fun _ => (bit_of_twins InStep.watched _ _).bind fun bit =>
    exchange_step _ _ _
  exact ⟨⟨congrArg (next_state · true) h.1.state, h.1.len, h.1.size, h.1.held, h.1.port⟩, h.2⟩

theorem scan_chain_send_step (data : List Byte) (n : Nat) (flip read : Bool) :
    Steps w (usb_blaster_jtag_scan_chain_send w.usb data n flip read) := by
  refine Twins.get_bind fun c c' h => ?_
  rw [h.1.len]
  refine Twins.bind (assert_twins InStep.watched _) (fun _ => ?_) c c' h
  refine (packets_step _ _ _ _ _).bind fun ok => twins_ite (fun _ => ?_) fun _ => twins_pure _
  refine (send_rest_step _ _ _).bind fun ok => twins_ite (fun _ => ?_) fun _ => twins_pure _
  exact twins_ite (fun _ => send_last_step _ _ _) fun _ => twins_pure _

/-! ## Reading back -/

/-- Two buffers that begin the same. -/
theorem index_same {l l' : List Byte} {k i : Nat} (htake : l'.take k = l.take k) (h : i < k) :
    (index l' i : BlasterProg Byte) = index l i := by
  have hget : l'[i]? = l[i]? := by
    have hi := congrArg (fun m => m[i]?) htake
    simpa [List.getElem?_take_of_lt h] using hi
  rw [index, index, hget]

theorem bytes_at_same {l l' : List Byte} {k len : Nat} (hlen : l'.length = l.length) (htake : l'.take k = l.take k)
    (h : len ≤ k) : (bytes_at l' 0 len : BlasterProg (List Byte)) = bytes_at l 0 len := by
  have hsame := congrArg (List.take len) htake
  rw [List.take_take, List.take_take, Nat.min_eq_left h] at hsame
  rw [bytes_at, bytes_at, hlen, List.drop_zero, List.drop_zero, hsame]

theorem set_bit_step (out : List Byte) (i : Nat) (b : Bool) : Steps w (set_bit out i b) :=
  twins_ite (fun _ => or_bit_twins InStep.watched _ _ _) fun _ => twins_pure _

theorem index_bit_step (l out : List Byte) (i j : Nat) : Steps w (do
    let last_bit ← index l i
    set_bit out j (last_bit.getLsbD 0)) :=
  (index_twins InStep.watched _ _).bind fun _ => set_bit_step _ _ _

/-- The end of a receive. -/
theorem recv_done_step (out : List Byte) (offset len : Nat) : Steps w (do
    assert (offset == len)
    modify fun c => { c with dev := { c.dev with recv_buffer_len := 0 } }
    pure (true, out)) := by
  refine (assert_twins InStep.watched _).bind fun _ => (twins_modify fun c c' h => ?_).bind fun _ => twins_pure _
  exact ⟨⟨h.1.state, rfl, h.1.size, by rw [List.take_zero, List.take_zero], h.1.port⟩, h.2⟩

/-- A receive takes no byte from behind the answer. -/
theorem scan_chain_recv_step {n : Nat} {flip : Bool} (h : InStep w c c')
    (hlen : c.dev.recv_buffer_len = answerBytes n flip) (out : List Byte) :
    Agree (Watched w) (InStep w) (usb_blaster_jtag_scan_chain_recv out n flip c)
      (usb_blaster_jtag_scan_chain_recv out n flip c') := by
  unfold answerBytes at hlen
  refine Agree.bind (memcpy_twins InStep.watched _ _ _ c c' h) ?_
  rintro out₁ d d' hrun hd
  obtain ⟨rfl, -⟩ := memcpy_spec _ _ _ c _ _ hrun
  have hheld := hd.1.held
  rw [bind_of_ok (get_apply d), bind_of_ok (get_apply d')]
  have hbytes : (bytes_at d'.dev.recv_buffer 0 (bulk_bits n flip / 8) : BlasterProg (List Byte)) =
      bytes_at d.dev.recv_buffer 0 (bulk_bits n flip / 8) := bytes_at_same hd.1.size hheld (by omega)
  have hrest : ∀ out, usb_blaster_recv_rest d'.dev.recv_buffer out (bulk_bits n flip) =
      usb_blaster_recv_rest d.dev.recv_buffer out (bulk_bits n flip) := by
    intro out
    refine forUpto_congr fun i out hi => ?_
    have hindex : (index d'.dev.recv_buffer (bulk_bits n flip / 8 + i) : BlasterProg Byte) =
        index d.dev.recv_buffer (bulk_bits n flip / 8 + i) := index_same hheld (by omega)
    rw [hindex]
  have hlast : flip = true → ∀ out, usb_blaster_recv_last d'.dev.recv_buffer out n
      (bulk_bits n flip / 8 + bulk_bits n flip % 8) =
        usb_blaster_recv_last d.dev.recv_buffer out n (bulk_bits n flip / 8 + bulk_bits n flip % 8) := by
    intro hflip out
    rw [if_pos hflip] at hlen
    have hindex : (index d'.dev.recv_buffer (bulk_bits n flip / 8 + bulk_bits n flip % 8) : BlasterProg Byte) =
        index d.dev.recv_buffer (bulk_bits n flip / 8 + bulk_bits n flip % 8) := index_same hheld (by omega)
    rw [usb_blaster_recv_last, hindex]
    rfl
  refine Agree.bind (R := InStep w) ?_ ?_
  · rw [hbytes]
    exact bytes_at_twins InStep.watched _ _ _ _ _ hd
  rintro bytes k k' - hk
  refine Agree.bind (memcpy_twins InStep.watched _ _ _ k k' hk) ?_
  rintro out₂ k k' - hk
  refine Agree.bind (R := InStep w) ?_ ?_
  · rw [hrest]
    exact twins_forUpto (fun i r => index_bit_step _ _ _ _) _ _ hk
  rintro out₃ k k' - hk
  rw [hd.1.len]
  cases flip with
  | false => exact recv_done_step _ _ _ _ _ hk
  | true =>
    refine Agree.bind (R := InStep w) ?_ fun out₄ k k' _ hk => recv_done_step _ _ _ _ _ hk
    rw [hlast rfl]
    exact index_bit_step _ _ _ _ _ _ hk

/-! ## The driver -/

theorem count_step (n : Nat) : Steps w (count_bits n) :=
  count_bits_twins (fun _ _ h => h.1.state)
    (fun _ _ _ _ _ h => ⟨⟨rfl, h.1.len, h.1.size, h.1.held, h.1.port⟩, h.2⟩) n

/-- A scan starts from an empty buffer, or its assert fails. -/
theorem scan_chain_step (fuel : Nat) (data recv : List Byte) (n : Nat) (flip read : Bool) :
    Steps w (jtag_scan_chain (usb_blaster_driver w.usb fuel) data recv n flip read) := by
  intro c c' h
  have hsend : Agree (Watched w) (InStep w) (jtag_scan_chain_send (usb_blaster_driver w.usb fuel) data n flip read c)
      (jtag_scan_chain_send (usb_blaster_driver w.usb fuel) data n flip read c') :=
    ((count_step n).bind fun _ => scan_chain_send_step data n flip read) c c' h
  refine hsend.bind fun ok d d' hrun hd => ?_
  cases ok with
  | false => exact .ok hd
  | true =>
    cases read with
    | false => exact .ok hd
    | true =>
      have hempty : c.dev.recv_buffer_len = 0 := by
        by_contra hne
        have hassert : (assert (c.dev.recv_buffer_len == 0) : BlasterProg Unit) (withCount c n) =
            .error .assert_failed (withCount c n) := by
          rw [assert, if_neg (by simpa using hne)]
          rfl
        have hfails : usb_blaster_jtag_scan_chain_send w.usb data n flip true (withCount c n) =
            .error .assert_failed (withCount c n) :=
          (bind_of_ok (get_apply _)).trans (bind_of_error hassert)
        have hrun' : usb_blaster_jtag_scan_chain_send w.usb data n flip true (withCount c n) = .ok true d := hrun
        rw [hfails] at hrun'
        cases hrun'
      have hall := ((scan_chain_send_appends (c := withCount c n) hempty data n flip).ensures _ _ hrun).all rfl
      rw [if_pos rfl, scanExchanges_total, show (withCount c n).dev.recv_buffer_len = 0 from hempty, Nat.zero_add] at hall
      exact scan_chain_recv_step hd hall recv

theorem tms_seq_step (data : List Byte) (n : Nat) : Steps w (usb_blaster_jtag_tms_seq w.usb data n) :=
  (twins_forUpto fun _ _ => (bit_of_twins InStep.watched _ _).bind fun _ => twins_pure _).bind fun _ =>
    port_twins (write_retry_twins _)

/-- The first call of all; its first byte brings TCK low. -/
theorem first_step (hfirst : w.first 0x2E) :
    Twins (Watched w) (Starting w) (InStep w) (usb_blaster_jtag_tms_seq w.usb [0x1F] 5) := by
  rintro c c' ⟨h, hopen | hready⟩
  · exact tms_seq_step _ _ c c' ⟨h, hopen⟩
  · have hwrite : ∀ d : Jtag Blaster, usb_blaster_jtag_tms_seq w.usb [0x1F] 5 d = blaster_port (ftdi_write_retry w.usb
        [0x2E, 0x2F, 0x2E, 0x2F, 0x2E, 0x2F, 0x2E, 0x2F, 0x2E, 0x2F, 0x2E]) d := fun _ => rfl
    rw [hwrite, hwrite]
    refine port_twins (first_write_twins (by simp) ?_) c c' ⟨h, hready⟩
    rintro b hb
    cases hb
    exact hfirst

theorem blaster_alike (hfirst : w.first 0x2E) (fuel : Nat) :
    Alike (usb_blaster_driver w.usb fuel) (Watched w) (Starting w) (InStep w) where
  weaken h := ⟨h.1, .inl h.2⟩
  seen h := h.1.port.seen
  state h := h.1.state
  globals₀ _ _ _ h := ⟨⟨rfl, h.1.len, h.1.size, h.1.held, h.1.port⟩, h.2⟩
  globals _ _ _ h := ⟨⟨rfl, h.1.len, h.1.size, h.1.held, h.1.port⟩, h.2⟩
  first := first_step hfirst
  tms_seq data n := tms_seq_step data n
  send data n flip := scan_chain_send_step data n flip false
  scan data recv n flip read := scan_chain_step fuel data recv n flip read

end JtagRemote.Blaster
