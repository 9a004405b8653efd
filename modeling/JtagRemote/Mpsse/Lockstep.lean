import JtagRemote.Alike
import JtagRemote.Ports
import JtagRemote.Code.Mpsse

/-!
# Two mpsse drivers side by side

With the same commands waiting, and ports on which the device goes on alike, every call of the
driver does the same in both.
-/

namespace JtagRemote.Mpsse

/-- The same waits to be sent, to a device that goes on alike. -/
structure Abreast (w : Wire) (c c' : Jtag Mpsse) : Prop where
  state : c'.state = c.state
  buffer : c'.dev.mpsse_buffer = c.dev.mpsse_buffer
  port : w.Same c.dev.port c'.dev.port

/-- Anything may go out, or what goes out next is a TMS command. -/
def Led (w : Wire) (c : Jtag Mpsse) : Prop :=
  w.Open c.dev.port ∨ c.dev.mpsse_buffer.head? = some 0x4B ∧ w.Ready c.dev.port

/-- What the device was sent. -/
def Watched (w : Wire) (c c' : Jtag Mpsse) : Prop := w.Seen c.dev.port c'.dev.port

def InStep (w : Wire) (c c' : Jtag Mpsse) : Prop := Abreast w c c' ∧ Led w c

/-- Or nothing was asked of the driver yet. -/
def Starting (w : Wire) (c c' : Jtag Mpsse) : Prop :=
  Abreast w c c' ∧ (Led w c ∨ c.dev.mpsse_buffer = [] ∧ w.Ready c.dev.port)

variable {w : Wire} {c c' : Jtag Mpsse}

theorem InStep.watched : ∀ c c', InStep w c c' → Watched w c c' := fun _ _ h => h.1.port.seen

/-- The program keeps the drivers in step. -/
def Steps (w : Wire) {α : Type} (p : MpsseProg α) : Prop := Twins (Watched w) (InStep w) (InStep w) p

/-! ## The port -/

theorem port_agree {α : Type} {x : EStateM Fault Port α} {P Q : Port → Prop}
    (hx : Twins w.Seen (fun p p' => w.Same p p' ∧ P p) (fun p p' => w.Same p p' ∧ Q p) x) (h : Abreast w c c')
    (hP : P c.dev.port) : Agree (Watched w)
      (fun d d' => Abreast w d d' ∧ Q d.dev.port ∧ d.dev.mpsse_buffer = c.dev.mpsse_buffer) (mpsse_port x c)
      (mpsse_port x c') := by
  have hfocus : Twins (Watched w) (fun d d' => d = c ∧ d' = c')
      (fun d d' => Abreast w d d' ∧ Q d.dev.port ∧ d.dev.mpsse_buffer = c.dev.mpsse_buffer) (mpsse_port x) := by
    refine twins_focus hx ?_ ?_ fun _ _ _ _ _ hseen => hseen
    · rintro d d' ⟨rfl, rfl⟩
      exact ⟨h.port, hP⟩
    · rintro d d' p p' ⟨rfl, rfl⟩ ⟨hp, hq⟩
      exact ⟨⟨h.state, h.buffer, hp⟩, hq, rfl⟩
  exact hfocus c c' ⟨rfl, rfl⟩

theorem read_data_step (len : Nat) : Steps w (mpsse_port (ftdi_read_data w.usb len)) := by
  rintro c c' ⟨h, hopen | ⟨hhead, hready⟩⟩
  · exact (port_agree (read_data_twins open_byWrites len) h hopen).mono (fun _ _ he => he)
      fun d d' hd => ⟨hd.1, .inl hd.2.1⟩
  · refine (port_agree (read_data_twins ready_byWrites len) h hready).mono (fun _ _ he => he) fun d d' hd => ?_
    refine ⟨hd.1, .inr ⟨?_, hd.2.1⟩⟩
    rw [hd.2.2]
    exact hhead

/-! ## The buffer -/

section

variable (hfirst : w.first 0x4B)

include hfirst

theorem buffer_flush_step : Steps w (mpsse_buffer_flush w.usb) := by
  refine Twins.get_bind fun c c' h => ?_
  rw [h.1.buffer]
  split
  · exact .ok h
  · rename_i hne
    have hwrite : Agree (Watched w) (fun d d' => Abreast w d d' ∧ w.Open d.dev.port ∧
        d.dev.mpsse_buffer = c.dev.mpsse_buffer) (mpsse_port (ftdi_write_retry w.usb c.dev.mpsse_buffer) c)
        (mpsse_port (ftdi_write_retry w.usb c.dev.mpsse_buffer) c') := by
      rcases h.2 with hopen | ⟨hhead, hready⟩
      · exact port_agree (write_retry_twins _) h.1 hopen
      · refine port_agree (first_write_twins ?_ ?_) h.1 hready
        · rintro hnil
          exact hne (congrArg List.length hnil)
        · rw [hhead]
          rintro b hb
          cases hb
          exact hfirst
    refine Agree.bind hwrite fun ok d d' _ hd => ?_
    exact .ok ⟨⟨hd.1.state, rfl, hd.1.port⟩, .inl hd.2.1⟩

theorem buffer_ensure_space_step (n : Nat) : Steps w (mpsse_buffer_ensure_space w.usb n) := by
  refine Twins.get_bind fun c c' h => ?_
  rw [h.1.buffer]
  exact twins_ite (fun _ => twins_pure _) (fun _ => twins_ite (fun _ => buffer_flush_step hfirst) fun _ => twins_pure _) c c' h

omit hfirst

theorem buffer_append_step (data : List Byte) : Steps w (mpsse_buffer_append data) := by
  refine Twins.get_bind fun c c' h => ?_
  rw [h.1.buffer]
  split
  · refine .ok ⟨⟨h.1.state, rfl, h.1.port⟩, h.2.imp_right fun ⟨hhead, hready⟩ => ⟨?_, hready⟩⟩
    show (c.dev.mpsse_buffer ++ data).head? = some 0x4B
    rw [List.head?_append, hhead]
    rfl
  · exact .error (InStep.watched c c' h)

theorem append_byte_step (b : Byte) : Steps w (mpsse_buffer_append_byte b) := buffer_append_step [b]

/-- The last two bytes of a command, the second of which is read from an array. -/
theorem operands_step (a : Byte) (data : List Byte) (i : Nat) : Steps w (do
    mpsse_buffer_append_byte a
    let b ← index data i
    mpsse_buffer_append_byte b
    pure true) :=
  (append_byte_step a).bind fun _ => (index_twins InStep.watched _ _).bind fun b => (append_byte_step b).bind fun _ =>
    twins_pure _

/-! ## TMS sequences -/

include hfirst

theorem tms_byte_step (data : List Byte) (n i : Nat) : Steps w (mpsse_tms_byte w.usb data n i) :=
  (buffer_ensure_space_step hfirst _).bind fun _ => twins_ite
    (fun _ => (append_byte_step _).bind fun _ => operands_step _ data i) fun _ => twins_pure _

theorem tms_seq_step (data : List Byte) (n : Nat) : Steps w (mpsse_jtag_tms_seq w.usb data n) :=
  twins_forWhile fun i => tms_byte_step hfirst data n i

/-- The first command of all. -/
theorem first_step : Twins (Watched w) (Starting w) (InStep w) (mpsse_jtag_tms_seq w.usb [0x1F] 5) := by
  rintro c c' ⟨h, hled | ⟨hnil, hready⟩⟩
  · exact tms_seq_step hfirst _ _ c c' ⟨h, hled⟩
  · have hspace : ∀ d : Jtag Mpsse, d.dev.mpsse_buffer = [] → mpsse_buffer_ensure_space w.usb 3 d = .ok true d := by
      intro d hd
      simp only [mpsse_buffer_ensure_space, bind_of_ok (get_apply d), hd]
      rfl
    have happend : ∀ d : Jtag Mpsse, d.dev.mpsse_buffer = [] → mpsse_buffer_append_byte 0x4B d =
        .ok () { d with dev := { d.dev with mpsse_buffer := [0x4B] } } := by
      intro d hd
      simp only [mpsse_buffer_append_byte, mpsse_buffer_append, bind_of_ok (get_apply d), hd]
      rfl
    have hnil' : c'.dev.mpsse_buffer = [] := h.buffer.trans hnil
    show Agree _ _ (mpsse_tms_byte w.usb [0x1F] 5 0 c) (mpsse_tms_byte w.usb [0x1F] 5 0 c')
    unfold mpsse_tms_byte
    rw [bind_of_ok (hspace c hnil), bind_of_ok (hspace c' hnil')]
    show Agree _ _ ((do
        mpsse_buffer_append_byte 0x4B
        mpsse_buffer_append_byte _
        let b ← index [0x1F] 0
        mpsse_buffer_append_byte b
        pure true) c) ((do
        mpsse_buffer_append_byte 0x4B
        mpsse_buffer_append_byte _
        let b ← index [0x1F] 0
        mpsse_buffer_append_byte b
        pure true) c')
    rw [bind_of_ok (happend c hnil), bind_of_ok (happend c' hnil')]
    exact operands_step _ _ _ _ _ ⟨⟨h.state, rfl, h.port⟩, .inr ⟨rfl, hready⟩⟩

/-! ## Scans -/

theorem scan_chain_send_step (data : List Byte) (n : Nat) (flip read : Bool) :
    Steps w (mpsse_jtag_scan_chain_send w.usb data n flip read) := by
  have hbytes : ∀ len flag, Steps w (mpsse_send_bytes w.usb data len flag) := fun len flag =>
    twins_ite (fun _ => twins_pure _) fun _ => (buffer_ensure_space_step hfirst _).bind fun _ => twins_ite
      (fun _ => (append_byte_step _).bind fun _ => (append_byte_step _).bind fun _ => (append_byte_step _).bind fun _ =>
        (bytes_at_twins InStep.watched _ _ _).bind fun _ => (buffer_append_step _).bind fun _ => twins_pure _)
      fun _ => twins_pure _
  have hrest : ∀ bulk flag, Steps w (mpsse_send_rest w.usb data bulk flag) := fun bulk flag =>
    twins_ite (fun _ => twins_pure _) fun _ => (buffer_ensure_space_step hfirst _).bind fun _ => twins_ite
      (fun _ => (append_byte_step _).bind fun _ => operands_step _ data _) fun _ => twins_pure _
  have hlast : ∀ flag, Steps w (mpsse_send_last w.usb data n flag) := by
    intro flag
    refine (twins_modify fun c c' h => ?_).bind fun _ => (bit_of_twins InStep.watched _ _).bind fun bit =>
      (buffer_ensure_space_step hfirst _).bind fun _ => twins_ite (fun _ => (append_byte_step _).bind fun _ =>
        (append_byte_step _).bind fun _ => (append_byte_step _).bind fun _ => twins_pure _) fun _ => twins_pure _
    exact ⟨⟨congrArg (next_state · true) h.1.state, h.1.buffer, h.1.port⟩, h.2⟩
  exact (hbytes _ _).bind fun _ => twins_ite (fun _ => (hrest _ _).bind fun _ => twins_ite
    (fun _ => twins_ite (fun _ => hlast _) fun _ => twins_pure _) fun _ => twins_pure _) fun _ => twins_pure _

omit hfirst

theorem read_loop_step (len fuel offset : Nat) (recv : List Byte) :
    Steps w (mpsse_read_loop w.usb len fuel offset recv) := by
  induction fuel generalizing offset recv with
  | zero => exact twins_ite (fun _ => twins_throw InStep.watched _) fun _ => twins_pure _
  | succ fuel ih =>
    refine twins_ite (fun _ => (read_data_step _).bind fun got => ?_) fun _ => twins_pure _
    cases got with
    | none => exact twins_pure _
    | some got => exact (memcpy_twins InStep.watched _ _ _).bind fun recv => ih _ recv

theorem last_loop_step (fuel : Nat) : Steps w (mpsse_last_loop w.usb fuel) := by
  induction fuel with
  | zero => exact twins_throw InStep.watched _
  | succ fuel ih =>
    refine (read_data_step 1).bind fun got => ?_
    match got with
    | none => exact ih
    | some [] => exact ih
    | some [b] => exact twins_pure b
    | some (_ :: _ :: _) => exact ih

include hfirst

theorem scan_chain_recv_step (fuel : Nat) (recv : List Byte) (n : Nat) (flip : Bool) :
    Steps w (mpsse_jtag_scan_chain_recv w.usb fuel recv n flip) := by
  have hpending : Steps w (mpsse_send_pending w.usb) := by
    have hempty : Steps w mpsse_buffer_is_empty := by
      refine Twins.get_bind fun c c' h => ?_
      rw [h.1.buffer]
      exact .ok h
    exact hempty.bind fun _ => twins_ite (fun _ => twins_pure _) fun _ => (buffer_ensure_space_step hfirst 1).bind fun _ =>
      twins_ite (fun _ => (append_byte_step _).bind fun _ => buffer_flush_step hfirst) fun _ => twins_pure _
  have halign : ∀ recv bulk, Steps w (mpsse_align_rest recv bulk) := fun recv bulk =>
    twins_ite (fun _ => twins_pure _) fun _ => (index_twins InStep.watched _ _).bind fun _ => twins_pure _
  refine hpending.bind fun _ => twins_ite (fun _ => ?_) fun _ => twins_pure _
  refine (memcpy_twins InStep.watched _ _ _).bind fun recv => (read_loop_step _ _ _ _).bind fun r => ?_
  refine twins_ite (fun _ => (halign _ _).bind fun recv => twins_ite (fun _ => ?_) fun _ => twins_pure _) fun _ =>
    twins_pure _
  exact (last_loop_step _).bind fun b => (or_bit_twins InStep.watched _ _ _).bind fun recv => twins_pure _

/-! ## The driver -/

theorem mpsse_alike (fuel freq : Nat) :
    Alike (mpsse_driver w.usb fuel freq) (Watched w) (Starting w) (InStep w) where
  weaken h := ⟨h.1, .inl h.2⟩
  seen h := h.1.port.seen
  state h := h.1.state
  globals₀ _ _ _ h := ⟨⟨rfl, h.1.buffer, h.1.port⟩, h.2⟩
  globals _ _ _ h := ⟨⟨rfl, h.1.buffer, h.1.port⟩, h.2⟩
  first := first_step hfirst
  tms_seq data n := tms_seq_step hfirst data n
  send data n flip := scan_chain_send_step hfirst data n flip false
  scan data recv n flip read := by
    have hcount : Steps w (count_bits n) :=
      count_bits_twins (fun _ _ h => h.1.state) (fun _ _ _ _ _ h => ⟨⟨rfl, h.1.buffer, h.1.port⟩, h.2⟩) n
    have hsend : Steps w (jtag_scan_chain_send (mpsse_driver w.usb fuel freq) data n flip read) :=
      hcount.bind fun _ => scan_chain_send_step hfirst data n flip read
    exact hsend.bind fun _ => twins_ite (fun _ => twins_ite (fun _ => scan_chain_recv_step hfirst fuel recv n flip)
      fun _ => twins_pure _) fun _ => twins_pure _

end

end JtagRemote.Mpsse
