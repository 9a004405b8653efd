import JtagRemote.Drivers
import JtagRemote.Mpsse.Bounds
import JtagRemote.Blaster.Bounds
import JtagRemote.Jtagd.Queue

/-!
# The accesses of the handlers

The counts of ACCESS_DR_2, the size of a body and the list of devices come from the
client and from the board, and reach arrays of fixed size. A message whose counts fit
makes no access out of range, in whatever state the messages before it left the server.
-/

namespace JtagRemote.Jtagd

open JtagState

variable {δ : Type} {d : driver δ} {s : Jtagd δ}

/-! ## The send side -/

/-- The send buffer is as long as it is declared, and a response begins where one byte can count. -/
structure Roomy (s : Jtagd δ) : Prop where
  room : s.send_buffer.length = BUFFER_SIZE
  last : s.last_response < 256

/-- The program stays in the send buffer. -/
def Confined {α : Type} (p : JtagdProg δ α) : Prop := ∀ s, Roomy s → Ends p s InRange fun _ t => Roomy t

theorem Confined.bind {α β : Type} {p : JtagdProg δ α} {f : α → JtagdProg δ β} (hp : Confined p)
    (hf : ∀ a, Confined (f a)) : Confined (p >>= f) := fun s hs => Ends.bind (hp s hs) fun a t ht => hf a t ht

theorem assert_confined (b : Bool) : Confined (assert b : JtagdProg δ Unit) := by
  intro s hs
  unfold JtagRemote.assert
  exact ends_ite (fun _ => ends_pure hs) fun _ => ends_throw (by decide)

theorem assert_room_confined (n : Nat) : Confined (assert_room n : JtagdProg δ Unit) :=
  fun s hs => Ends.get_bind (assert_confined _ s hs)

theorem append_bytes_ends {data : List Byte} (hs : Roomy s) (hfits : s.send_buffer_size.toNat + data.length ≤ BUFFER_SIZE) :
    Ends (append_bytes data) s InRange fun _ t => Roomy t := by
  unfold append_bytes
  refine Ends.get_bind (Ends.bind (memcpy_ends (by rw [hs.room]; exact hfits) s) ?_)
  rintro buf _ ⟨rfl, hbuf⟩
  exact Ends.set_bind (ends_pure ⟨hbuf.trans hs.room, hs.last⟩)

/-- The counter has one byte, so there is room for as much again. -/
theorem append_bytes_confined {data : List Byte} (hdata : data.length ≤ 256) :
    Confined (append_bytes data : JtagdProg δ Unit) := by
  intro s hs
  have hsize := s.send_buffer_size.isLt
  have hbuffer : BUFFER_SIZE = 4096 := rfl
  exact append_bytes_ends hs (by omega)

theorem add_int_confined (value : BitVec 32) : Confined (add_int value : JtagdProg δ Unit) :=
  (assert_room_confined 4).bind fun _ => append_bytes_confined (by simp [be32])

theorem add_response_confined (resp : Byte) : Confined (add_response resp : JtagdProg δ Unit) := by
  intro s hs
  have hsize := s.send_buffer_size.isLt
  have hfour : Confined (do append_bytes [resp]; append_bytes [0]; append_bytes [0]; append_bytes [0] :
      JtagdProg δ Unit) :=
    (append_bytes_confined (by simp)).bind fun _ => (append_bytes_confined (by simp)).bind fun _ =>
      (append_bytes_confined (by simp)).bind fun _ => append_bytes_confined (by simp)
  unfold add_response
  refine Ends.get_bind (Ends.bind (assert_confined _ s hs) fun _ t ht => ?_)
  refine Ends.bind (assert_room_confined 4 t ht) fun _ u _ => Ends.set_bind (hfour _ ⟨hs.room, ?_⟩)
  show ((s.send_buffer_size.toNat : Nat) : Int) < 256
  omega

theorem end_response_confined : Confined (end_response : JtagdProg δ Unit) := by
  intro s hs
  have hlast := hs.last
  have hbuffer : BUFFER_SIZE = 4096 := rfl
  unfold end_response
  refine Ends.get_bind (Ends.bind (assert_confined _ s hs) fun _ t ht => ?_)
  refine Ends.bind (memcpy_ends (by rw [hs.room, List.length_cons, List.length_singleton]; omega) t) ?_
  rintro buf _ ⟨rfl, hbuf⟩
  exact Ends.set_bind (ends_pure ⟨hbuf.trans hs.room, (by decide : (-1 : Int) < 256)⟩)

theorem respond_confined (resp : Byte) : Confined (respond resp : JtagdProg δ Unit) :=
  (add_response_confined resp).bind fun _ => end_response_confined

theorem do_send_ends (hs : Roomy s) (mux : BitVec 16) :
    Ends (do_send mux) s InRange fun _ t => Roomy t ∧ t.send_buffer_size = 2 := by
  have hbuffer : BUFFER_SIZE = 4096 := rfl
  have hfill : Ends (fill_header mux) s InRange fun _ t => Roomy t := by
    unfold fill_header
    refine Ends.get_bind (Ends.bind (memcpy_ends ?_ s) ?_)
    · rw [hs.room, List.length_cons, List.length_singleton]
      omega
    · rintro buf _ ⟨rfl, hbuf⟩
      exact ⟨hbuf.trans hs.room, hs.last⟩
  have hwrite : ∀ bytes (k : Sock), Ends (write_full bytes) k InRange fun _ _ => True := by
    intro bytes k
    unfold write_full
    exact Ends.get_bind (ends_ite (fun _ => Ends.set_bind (ends_pure trivial)) fun _ => ends_pure trivial)
  unfold do_send
  refine Ends.bind hfill fun _ t ht => Ends.get_bind ?_
  have hsize := t.send_buffer_size.isLt
  refine Ends.bind (bytes_at_ends (by rw [ht.room]; omega) t) ?_
  rintro bytes _ ⟨rfl, -⟩
  refine Ends.bind (Ends.focus (hwrite bytes _)) ?_
  rintro ok _ ⟨k, -, rfl⟩
  exact ⟨⟨ht.room, ht.last⟩, rfl⟩

theorem do_send_confined (mux : BitVec 16) : Confined (do_send mux : JtagdProg δ Unit) :=
  fun _ hs => (do_send_ends hs mux).mono fun _ _ h => h.1

/-! ## OPEN_DEVICE and ACCESS_IR_2 -/

theorem OPEN_DEVICE_ends (hs : Roomy s) (hknown : s.devices ≠ []) :
    Ends OPEN_DEVICE s InRange fun _ t => Roomy t := by
  unfold OPEN_DEVICE
  refine Ends.bind ((add_response_confined 0 s hs).and (add_response_only 0 s).ensures) ?_
  rintro _ t ⟨ht, hsame⟩
  refine Ends.get_bind ?_
  rw [hsame.devices]
  cases hdevices : s.devices with
  | nil => exact absurd hdevices hknown
  | cons id ids => exact (add_int_confined id).bind (fun _ => end_response_confined) t ht

/-- The send side does not notice what happens on the board. -/
theorem jtagd_jtag_ends {α : Type} {p : EStateM Fault (Jtag δ) α} {P : α → Jtag δ → Prop} (hs : Roomy s)
    (hp : Ends p s.jtag InRange P) :
    Ends (jtagd_jtag p) s InRange fun a t => P a t.jtag ∧ Roomy t := by
  refine (Ends.focus hp).mono ?_
  rintro a _ ⟨c, hc, rfl⟩
  exact ⟨hc, hs.room, hs.last⟩

/-- Without a way, the move stops at its assertion. -/
theorem seq_to_ends (B : Bounded d) {c : Jtag δ} (hok : B.Ok c.dev) (dst : JtagState) :
    Ends (jtag_tms_seq_to d dst) c InRange fun _ c' => B.Ok c'.dev ∧ tabulated c.state dst = true := by
  refine Ends.get_bind ?_
  rcases get_tms_seq_cases c.state dst c with ⟨hyes, tms, n, hrun, hn, -⟩ | ⟨-, hrun⟩
  · refine Ends.bind (.of_ok (Q := fun r c' => r = (tms, n) ∧ c' = c) hrun ⟨rfl, rfl⟩) ?_
    rintro _ c ⟨rfl, rfl⟩
    refine ends_ite (fun _ => ?_) fun _ => ends_pure ⟨hok, hyes⟩
    have hseq := @Bounded.jtag_tms_seq_ends _ _ B _ [tms] n hok (by simpa using hn)
    exact (hseq.weaken fun _ => Finishes.in_range).mono fun _ c' h => ⟨h, hyes⟩
  · rw [Ends, bind_of_error hrun]
    exact (by decide : InRange .no_tms_seq)

theorem ACCESS_IR_2_ends (B : Bounded d) (hs : Roomy s) (hok : B.Ok s.jtag.dev) (hfits : B.Fits 10 true)
    {body : List Byte} (hlen : 16 ≤ body.length) : Ends (ACCESS_IR_2 d body) s InRange fun _ t => Roomy t := by
  unfold ACCESS_IR_2
  refine Ends.bind (index_ends (by omega) s) ?_
  rintro i0 _ ⟨rfl, -⟩
  refine Ends.bind (index_ends (by omega) _) ?_
  rintro i1 _ ⟨rfl, -⟩
  refine Ends.bind (index_ends (by omega) _) ?_
  rintro i2 _ ⟨rfl, -⟩
  refine Ends.bind (index_ends (by omega) _) ?_
  rintro i3 s ⟨rfl, -⟩
  refine Ends.bind (jtagd_jtag_ends hs (seq_to_ends B hok ShiftIR)) ?_
  rintro _ t ⟨⟨hok', -⟩, ht⟩
  have hscan := @Bounded.jtag_scan_chain_ends _ _ B t.jtag [i0, i1, i2, i3] (List.replicate 4 0) 10 true true hok'
    (by decide) (by decide) (by simp) (by decide) fun _ => hfits
  refine Ends.bind (jtagd_jtag_ends ht hscan) ?_
  rintro ⟨_, read_back⟩ u ⟨-, hu⟩
  have hrest : Confined (do
      add_response 0
      add_int (BitVec.ofNat 32 (le32 read_back))
      end_response
      do_send 0 : JtagdProg δ Unit) :=
    (add_response_confined 0).bind fun _ => (add_int_confined _).bind fun _ => end_response_confined.bind fun _ =>
      do_send_confined 0
  exact hrest u hu

/-! ## ACCESS_DR_2 -/

/-- ACCESS_DR_2 up to the data that it gives back: the bytes of the scan, and how many bits are asked for. -/
def ACCESS_DR_2_scan (adapter : driver δ) (body : List Byte) : JtagdProg δ (Option (List Byte × Nat)) := do
  let length_dr ← body_int body 12
  let write_length ← body_int body 20
  let read_length ← body_int body 28
  let (ok, send) ← pop_fifo (List.replicate BUFFER_SIZE 0) (write_length / 8)
  if ok then
    let _ ← jtagd_jtag (jtag_tms_seq_to adapter ShiftDR)
    let (_, recv) ← jtagd_jtag
      (jtag_scan_chain adapter send (List.replicate BUFFER_SIZE 0) length_dr true true)
    respond 0
    do_send 0
    pure (some (recv, read_length))
  else pure none

/-- The data that ACCESS_DR_2 gives back. -/
def ACCESS_DR_2_reply (recv : List Byte) (read_length : Nat) : JtagdProg δ Bool :=
  if read_length > 0 then do
    add_array recv ((read_length + 7) % 2 ^ 32 / 8)
    do_send 4
    pure true
  else pure true

theorem ACCESS_DR_2_eq (body : List Byte) : ACCESS_DR_2 d body = (do
    match ← ACCESS_DR_2_scan d body with
    | some (recv, read_length) => ACCESS_DR_2_reply recv read_length
    | none => pure false) := by
  unfold ACCESS_DR_2 ACCESS_DR_2_scan ACCESS_DR_2_reply
  simp only [bind_assoc]
  refine bind_congr fun _ => bind_congr fun _ => bind_congr fun _ => bind_congr fun r => ?_
  cases r.1 <;> simp [bind_assoc]

theorem body_int_ends {body : List Byte} {off : Nat} (h : off + 4 ≤ body.length) (s : Jtagd δ) :
    Ends (body_int body off) s InRange fun n t => t = s ∧ n = intAt body off :=
  .of_ok (body_int_ok h s) ⟨rfl, rfl⟩

theorem pop_fifo_ends {n : Nat} (s : Jtagd δ)
    (h : n ≤ (s.fifos FIFO_MIN).length → s.fifos FIFO_MIN ≠ [] ∧ n ≤ BUFFER_SIZE) :
    Ends (pop_fifo (List.replicate BUFFER_SIZE 0) n) s InRange fun r t => t = { s with fifos := t.fifos } ∧
      r.2.length = BUFFER_SIZE ∧ (r.1 = true → n ≤ (s.fifos FIFO_MIN).length) := by
  unfold pop_fifo
  refine Ends.get_bind (ends_ite (fun hdata => ?_) fun _ => ends_pure ⟨rfl, List.length_replicate, by simp⟩)
  obtain ⟨hsome, hroom⟩ := h hdata
  refine Ends.bind (first_element_ends (List.length_pos_iff.mpr hsome) s) ?_
  rintro _ s rfl
  refine Ends.bind (memcpy_ends ?_ s) ?_
  · rw [List.length_take, List.length_replicate]
    omega
  · rintro buffer _ ⟨rfl, hbuffer⟩
    exact Ends.set_bind (ends_pure ⟨rfl, hbuffer.trans List.length_replicate, fun _ => hdata⟩)

/-- The driver can scan these numbers of bits between arrays of `BUFFER_SIZE` bytes. -/
def Carries (B : Bounded d) (takes : Nat → Prop) : Prop :=
  ∀ (n : Nat) (c : Jtag δ) (send : List Byte), n < 2 ^ 32 → takes n → B.Ok c.dev → send.length = BUFFER_SIZE →
    Ends (jtag_scan_chain d send (List.replicate BUFFER_SIZE 0) n true true) c InRange
      fun r _ => r.2.length = BUFFER_SIZE

/-- The data of the FIFO is there, and the TAP can be moved: the scan begins. -/
structure Scanning (s : Jtagd δ) (body : List Byte) : Prop where
  data : intAt body 20 / 8 ≤ (s.fifos FIFO_MIN).length
  way : tabulated s.jtag.state ShiftDR = true

/-- The counts of an ACCESS_DR_2 fit, when the driver takes scans of these numbers of bits. -/
structure DrFits (takes : Nat → Prop) (s : Jtagd δ) (body : List Byte) : Prop where
  long : 32 ≤ body.length
  /-- Also where nothing is popped, the address of the first entry is taken. -/
  some : intAt body 20 / 8 ≤ (s.fifos FIFO_MIN).length → s.fifos FIFO_MIN ≠ []
  room : intAt body 20 / 8 ≤ (s.fifos FIFO_MIN).length → intAt body 20 / 8 ≤ BUFFER_SIZE
  bits : Scanning s body → takes (intAt body 12)
  reply : Scanning s body → intAt body 28 = 0 ∨ readBytes body + 2 ≤ BUFFER_SIZE

theorem ACCESS_DR_2_scan_ends {B : Bounded d} {takes : Nat → Prop} {body : List Byte} (hcarries : Carries B takes)
    (hs : Roomy s) (hok : B.Ok s.jtag.dev) (h : DrFits takes s body) : Ends (ACCESS_DR_2_scan d body) s InRange fun r t => ∀ recv read_length,
      r = some (recv, read_length) → Roomy t ∧ t.send_buffer_size = 2 ∧ recv.length = BUFFER_SIZE ∧
        read_length = intAt body 28 ∧ Scanning s body := by
  have hlen := h.long
  unfold ACCESS_DR_2_scan
  refine Ends.bind (body_int_ends (by omega) s) ?_
  rintro _ _ ⟨rfl, rfl⟩
  refine Ends.bind (body_int_ends (by omega) _) ?_
  rintro _ _ ⟨rfl, rfl⟩
  refine Ends.bind (body_int_ends (by omega) _) ?_
  rintro _ s ⟨rfl, rfl⟩
  refine Ends.bind (pop_fifo_ends s fun hdata => ⟨h.some hdata, h.room hdata⟩) ?_
  rintro ⟨ok, send⟩ u ⟨hu, hsend, hdata⟩
  refine ends_ite (fun hpop => ?_) fun _ => ends_pure (by simp)
  have hroomy : Roomy u := by
    rw [hu]
    exact ⟨hs.room, hs.last⟩
  have hjtag : u.jtag = s.jtag := by rw [hu]
  rw [← hjtag] at hok
  refine Ends.bind (jtagd_jtag_ends hroomy (seq_to_ends B hok ShiftDR)) ?_
  rintro _ v ⟨⟨hok', hway⟩, hv⟩
  rw [hjtag] at hway
  have hscanning : Scanning s body := ⟨hdata hpop, hway⟩
  refine Ends.bind (jtagd_jtag_ends hv (hcarries _ v.jtag send (le32_lt _) (h.bits hscanning) hok' hsend)) ?_
  rintro ⟨_, recv⟩ w ⟨hrecv, hw⟩
  refine Ends.bind (respond_confined 0 w hw) fun _ x hx => Ends.bind (do_send_ends hx 0) ?_
  rintro _ t ⟨ht, hsize⟩
  refine ends_pure ?_
  rintro _ _ ⟨⟩
  exact ⟨ht, hsize, hrecv, rfl, hscanning⟩

theorem ACCESS_DR_2_reply_ends {recv : List Byte} {read_length : Nat} (hs : Roomy s) (hsize : s.send_buffer_size = 2)
    (hrecv : recv.length = BUFFER_SIZE)
    (hfits : read_length = 0 ∨ (read_length + 7) % 2 ^ 32 / 8 + 2 ≤ BUFFER_SIZE) :
    Ends (ACCESS_DR_2_reply recv read_length) s InRange fun _ _ => True := by
  unfold ACCESS_DR_2_reply
  refine ends_ite (fun hpos => ?_) fun _ => ends_pure trivial
  have hbytes := hfits.resolve_left (by omega)
  refine Ends.bind (P := fun _ t => Roomy t) ?_ fun _ t ht => Ends.bind (do_send_ends ht 4) fun _ u _ => ends_pure trivial
  unfold add_array
  refine Ends.bind (P := fun _ t => t = s) ?_ ?_
  · unfold assert_room JtagRemote.assert
    exact Ends.get_bind (ends_ite (fun _ => ends_pure rfl) fun _ => ends_throw (by decide))
  · rintro _ _ rfl
    refine Ends.bind (bytes_at_ends (by omega) _) ?_
    rintro bytes t ⟨rfl, hlen⟩
    refine append_bytes_ends hs ?_
    rw [hsize, hlen]
    exact Nat.add_comm _ _ ▸ hbytes

/-! ## One message -/

/-- The three handlers stay in their arrays, and the data that ACCESS_DR_2 gives back finds room. -/
structure InRangeAt (d : driver δ) (junk : Nat → Byte) (s : Jtagd δ) (msg : Message) : Prop where
  accesses : msg.command = 0xA8 ∨ msg.command = 0xC6 ∨ msg.command = 0xC8 →
    ¬ Faults (handle_message d junk msg) s .out_of_bounds
  capacity : msg.command = 0xC8 → ∀ recv read_length t,
    ACCESS_DR_2_scan d msg.body s = .ok (some (recv, read_length)) t → read_length > 0 →
      t.send_buffer_size.toNat + (read_length + 7) % 2 ^ 32 / 8 ≤ BUFFER_SIZE

/-- What the message asks for is there, and fits. -/
structure Fitting (takes : Nat → Prop) (s : Jtagd δ) (msg : Message) : Prop where
  open_device : msg.command = 0xA8 → s.devices ≠ []
  access_ir : msg.command = 0xC6 → 16 ≤ msg.body.length
  access_dr : msg.command = 0xC8 → DrFits takes s msg.body

theorem in_range_at {B : Bounded d} {takes : Nat → Prop} (hcarries : Carries B takes) (hten : B.Fits 10 true)
    (junk : Nat → Byte) {msg : Message} (hs : Roomy s) (hok : B.Ok s.jtag.dev) (h : Fitting takes s msg) : InRangeAt d junk s msg := by
  have hnot : ¬ InRange .out_of_bounds := fun hne => hne rfl
  refine ⟨?_, fun hC8 recv read_length t hrun hpos => ?_⟩
  · rintro (hA8 | hC6 | hC8)
    · rw [handle_OPEN_DEVICE hA8]
      have hrun := OPEN_DEVICE_ends hs (h.open_device hA8)
      exact (Ends.bind (Q := fun _ _ => True) hrun fun _ _ _ => ends_pure trivial).not_faults hnot
    · rw [handle_ACCESS_IR_2 hC6]
      have hrun := ACCESS_IR_2_ends B hs hok hten (h.access_ir hC6)
      exact (Ends.bind (Q := fun _ _ => True) hrun fun _ _ _ => ends_pure trivial).not_faults hnot
    · rw [handle_ACCESS_DR_2 hC8, ACCESS_DR_2_eq]
      have hfits := h.access_dr hC8
      have hrun : Ends (do
          match ← ACCESS_DR_2_scan d msg.body with
          | some (recv, read_length) => ACCESS_DR_2_reply recv read_length
          | none => pure false) s InRange fun _ _ => True := by
        refine Ends.bind (ACCESS_DR_2_scan_ends hcarries hs hok hfits) ?_
        rintro (_ | ⟨recv, read_length⟩) t ht
        · exact ends_pure trivial
        · obtain ⟨hroomy, hsize, hrecv, rfl, hscanning⟩ := ht recv read_length rfl
          exact ACCESS_DR_2_reply_ends hroomy hsize hrecv (hfits.reply hscanning)
      exact hrun.not_faults hnot
  · have hfits := h.access_dr hC8
    obtain ⟨-, hsize, -, rfl, hscanning⟩ :=
      (ACCESS_DR_2_scan_ends hcarries hs hok hfits).ensures _ t hrun recv read_length rfl
    have hreply : readBytes msg.body + 2 ≤ BUFFER_SIZE := (hfits.reply hscanning).resolve_left (by omega)
    rw [hsize, Nat.add_comm]
    exact hreply

/-! ## Whole runs -/

section

variable {ν : Type} {part : δ → ν}

theorem SendOnly.spares {α : Type} {p : JtagdProg δ α} (h : SendOnly p) : Keeps (fun s => part s.jtag.dev) p :=
  fun s => (h s).ensures.mono fun _ _ ht => congrArg (fun c => part c.dev) ht.jtag

theorem jtagd_jtag_spares {α : Type} {p : EStateM Fault (Jtag δ) α} (h : Keeps (fun c => part c.dev) p) :
    Keeps (fun s => part s.jtag.dev) (jtagd_jtag p) := h.focus fun _ _ => rfl

theorem pop_fifo_spares (buffer : List Byte) (n : Nat) :
    Keeps (fun s : Jtagd δ => part s.jtag.dev) (pop_fifo buffer n) :=
  fun s => (pop_fifo_spec buffer n s).mono fun _ _ ht => by rw [ht]

theorem body_int_spares (body : List Byte) (off : Nat) :
    Keeps (fun s : Jtagd δ => part s.jtag.dev) (body_int body off) :=
  (bytes_at_keeps _ _ _).bind fun _ => keeps_pure _

theorem handle_message_spares (h : Spares d part) (junk : Nat → Byte) (msg : Message) :
    Keeps (fun s => part s.jtag.dev) (handle_message d junk msg) := by
  have hseq := fun dst => jtagd_jtag_spares (h.jtag_tms_seq_to dst)
  have hscan := fun data out n => jtagd_jtag_spares (h.jtag_scan_chain data out n true true)
  by_cases hA5 : msg.command = 0xA5
  · rw [handle_READ_CHAIN hA5]
    have hset : ∀ devices, Keeps (fun s : Jtagd δ => part s.jtag.dev) (modify fun s => { s with devices := devices } :
        JtagdProg δ Unit) := fun _ => keeps_modify fun _ => rfl
    have hrun : Keeps (fun s => part s.jtag.dev) (READ_CHAIN d junk) :=
      (jtagd_jtag_spares (h.jtag_probe_devices junk)).bind fun _ => (hset _).bind fun _ =>
        (add_response_only _).spares.bind fun _ => (add_int_only _).spares.bind fun _ =>
        (add_int_only _).spares.bind fun _ => (add_int_only _).spares.bind fun _ => end_response_only.spares.bind fun _ =>
        (do_send_only _).spares.bind fun _ => (forM_only add_device_only _).spares.bind fun _ => (do_send_only _).spares
    exact hrun.bind fun _ => keeps_pure _
  by_cases hC6 : msg.command = 0xC6
  · rw [handle_ACCESS_IR_2 hC6]
    have hrun : Keeps (fun s => part s.jtag.dev) (ACCESS_IR_2 d msg.body) :=
      (index_keeps _ _).bind fun _ => (index_keeps _ _).bind fun _ => (index_keeps _ _).bind fun _ =>
        (index_keeps _ _).bind fun _ => (hseq _).bind fun _ => (hscan _ _ _).bind fun _ =>
        (add_response_only _).spares.bind fun _ => (add_int_only _).spares.bind fun _ =>
        end_response_only.spares.bind fun _ => (do_send_only _).spares
    exact hrun.bind fun _ => keeps_pure _
  by_cases hC8 : msg.command = 0xC8
  · rw [handle_ACCESS_DR_2 hC8]
    exact (body_int_spares _ _).bind fun _ => (body_int_spares _ _).bind fun _ => (body_int_spares _ _).bind fun _ =>
      (pop_fifo_spares _ _).bind fun _ => keeps_ite ((hseq _).bind fun _ => (hscan _ _ _).bind fun _ =>
        (respond_only _).spares.bind fun _ => (do_send_only _).spares.bind fun _ =>
        keeps_ite ((add_array_only _ _).spares.bind fun _ => (do_send_only _).spares.bind fun _ => keeps_pure _)
          (keeps_pure _)) (keeps_pure _)
  by_cases hCA : msg.command = 0xCA
  · rw [handle_RUN_TEST_IDLE hCA]
    have hrun : Keeps (fun s => part s.jtag.dev) (RUN_TEST_IDLE d) :=
      (hseq _).bind fun _ => (respond_only _).spares.bind fun _ => (do_send_only _).spares
    exact hrun.bind fun _ => keeps_pure _
  · exact fun s => (handle_message_only ⟨hA5, hC6, hC8, hCA⟩ s).ensures.mono fun _ _ ht =>
      congrArg (fun c => part c.dev) ht.2.jtag

theorem handle_messages_spares (h : Spares d part) (junk : Nat → Byte) :
    Keeps (fun s => part s.jtag.dev) (handle_messages d junk) := by
  have hpop : Keeps (fun s : Jtagd δ => part s.jtag.dev) (modify fun s => { s with messages := s.messages.tail } :
      JtagdProg δ Unit) := keeps_modify fun _ => rfl
  have hloop : ∀ fuel, Keeps (fun s => part s.jtag.dev) (message_loop d junk fuel) := by
    intro fuel
    induction fuel with
    | zero => exact keeps_pure _
    | succ fuel ih =>
      unfold message_loop
      refine Keeps.get_bind fun s => ?_
      cases s.messages with
      | nil => exact keeps_pure _
      | cons msg rest =>
        exact (handle_message_spares h junk msg).bind fun _ => keeps_ite (hpop.bind fun _ => ih) (keeps_pure _)
  unfold handle_messages
  exact Keeps.get_bind fun s => (hloop _).bind fun _ => Keeps.get_bind fun t =>
    keeps_ite (do_send_only _).spares (keeps_pure _)

theorem packet_loop_spares (fuel : Nat) : Keeps (fun s : Jtagd δ => part s.jtag.dev) (packet_loop fuel) := by
  intro s
  refine (packet_loop_took fuel s).ensures.mono ?_
  rintro _ t ⟨new, ht⟩
  rw [ht.rest]

theorem step_spares (h : Spares d part) (i : Input) : Keeps (fun s => part s.jtag.dev) (step d i) := by
  have hsock : ∀ {α : Type} (p : EStateM Fault Sock α), Keeps (fun s : Jtagd δ => part s.jtag.dev) (jtagd_sock p) :=
    fun p => keeps_focus fun _ _ => rfl
  have hsize : Keeps (fun s : Jtagd δ => part s.jtag.dev) (modify fun s => { s with send_buffer_size := 2 } :
      JtagdProg δ Unit) := keeps_modify fun _ => rfl
  have hclear : Keeps (fun s : Jtagd δ => part s.jtag.dev) (modify fun s => { s with messages := [] } :
      JtagdProg δ Unit) := keeps_modify fun _ => rfl
  refine hsize.bind fun _ => Keeps.get_bind fun s => keeps_ite ((hsock _).bind fun _ => keeps_ite ?_ (keeps_pure _)) ?_
  · exact (packet_loop_spares _).bind fun _ => handle_messages_spares h i.junk
  · exact hclear.bind fun _ => (hsock _).bind fun _ => keeps_ite hello_only.spares (keeps_pure _)

end

/-- In the tick with the input `i`, the server comes to handle `msg` in the state `u`. -/
structure Comes (d : driver δ) (c : Jtag δ) (i : Input) (u : Jtagd δ) (msg : Message) : Prop where
  run : ∃ s q new ms, Reaches (step d) (bootJtagd c) s ∧ Queues i s q new ∧ Runs d i.junk q ms u
  head : u.messages.head? = some msg

theorem Runs.closed {junk : Nat → Byte} {q u : Jtagd δ} {ms : List Message} (h : Runs d junk q ms u)
    {base cur : List Byte} {fs : List Frame} (hbuf : Buffered base fs cur q) (hlast : q.last_response = -1) :
    u.last_response = -1 ∧ u.send_buffer.length = BUFFER_SIZE := by
  induction h generalizing fs cur with
  | nil s => exact ⟨hlast, hbuf.room⟩
  | next hmsgs hrun _ ih =>
    obtain ⟨o, -, -, hans⟩ := (handle_message_spec hbuf _ _ _ hrun).2 rfl
    exact ih (hans.buffered.of_eq rfl rfl rfl) hans.closed

theorem Runs.spares {ν : Type} {part : δ → ν} (hd : Spares d part) {junk : Nat → Byte} {q u : Jtagd δ}
    {ms : List Message} (h : Runs d junk q ms u) : part u.jtag.dev = part q.jtag.dev := by
  induction h with
  | nil s => rfl
  | next hmsgs hrun _ ih =>
    have hstep := handle_message_spares hd junk _ _ _ _ hrun
    exact ih.trans hstep

theorem Comes.roomy {c : Jtag δ} {i : Input} {u : Jtagd δ} {msg : Message} (h : Comes d c i u msg) : Roomy u := by
  obtain ⟨s, q, new, ms, hreach, hqueues, hruns⟩ := h.run
  have hready := reaches_ready hreach
  have hq : q.last_response = -1 := by
    obtain ⟨r, hread, hloop⟩ := hqueues.packets
    obtain ⟨hr, -⟩ := jtagd_read_spec i.net.recv { s with send_buffer_size := 2 } true r hread
    obtain ⟨new', htook⟩ := (packet_loop_took _ r).ensures () q hloop
    rw [htook.rest, hr]
    exact hready.closed
  obtain ⟨hlast, hroom⟩ := hruns.closed (hqueues.buffered hready) hq
  exact ⟨hroom, by rw [hlast]; decide⟩

theorem Comes.spares {ν : Type} {part : δ → ν} (hd : Spares d part) {c : Jtag δ} {i : Input} {u : Jtagd δ}
    {msg : Message} (h : Comes d c i u msg) : part u.jtag.dev = part c.dev := by
  obtain ⟨s, q, new, ms, hreach, hqueues, hruns⟩ := h.run
  have hs : part s.jtag.dev = part c.dev :=
    hreach.invariant (P := fun s => part s.jtag.dev = part c.dev) rfl fun i t ht =>
      (step_spares hd i t).mono fun _ _ hu => hu.trans ht
  obtain ⟨r, hread, hloop⟩ := hqueues.packets
  obtain ⟨hr, -⟩ := jtagd_read_spec i.net.recv { s with send_buffer_size := 2 } true r hread
  have hq : part q.jtag.dev = part r.jtag.dev := packet_loop_spares _ _ _ _ hloop
  rw [hruns.spares hd, hq, hr]
  exact hs

/-! ## Either driver -/

/-- The arrays of the driver are as long as they are declared. -/
def Declared : (kind : DriverKind) → kind.Dev → Prop
  | .mpsse, _ => True
  | .usb_blaster, dev => dev.recv_buffer.length = Blaster.RECV_BUFFER_SIZE

/-- The mpsse driver refuses a scan that does not fit its own buffer, and then touches nothing. The answer to
one of the usb_blaster driver has to fit `recv_buffer`. -/
def ScanFits (n : Nat) : DriverKind → Prop
  | .mpsse => n ≤ 8 * BUFFER_SIZE ∨ 8 * (BUFFER_LENGTH - 3) < n
  | .usb_blaster => 1 ≤ n ∧ (n - 1) / 8 + (n - 1) % 8 + 1 ≤ Blaster.RECV_BUFFER_SIZE

theorem mpsse_carries (usb : Usb) (fuel freq : Nat) :
    Carries (Mpsse.mpsseBounded usb fuel freq) fun n => ScanFits n .mpsse := by
  intro n c send hlt htakes hok hsend
  have hsize : BUFFER_SIZE = 4096 := rfl
  have hlarge : BUFFER_LENGTH = 8192 := rfl
  have hout : (List.replicate BUFFER_SIZE (0 : Byte)).length = BUFFER_SIZE := List.length_replicate
  by_cases hfits : Mpsse.Fits n true
  · have hpos : 1 ≤ n := by
      rcases Nat.eq_zero_or_pos n with rfl | hpos
      · exact absurd hfits (by decide)
      · exact hpos
    have hn : n ≤ 8 * BUFFER_SIZE := by
      rw [Mpsse.Fits, bulk_bits_of_pos true hpos (by omega), if_pos rfl] at hfits
      unfold ScanFits at htakes
      omega
    refine ((Mpsse.mpsseBounded usb fuel freq).jtag_scan_chain_ends hok (fun _ => hpos) (by omega) (by omega)
      (by omega) fun _ => trivial).mono ?_
    rintro r c' ⟨hr, -⟩
    exact hr.trans hout
  · exact .of_ok (Mpsse.jtag_scan_chain_refused hfits send _ c) hout

theorem blaster_carries (usb : Usb) (fuel : Nat) :
    Carries (Blaster.blasterBounded usb fuel) fun n => ScanFits n .usb_blaster := by
  rintro n c send hlt ⟨hpos, hfits⟩ hok hsend
  have hsize : BUFFER_SIZE = 4096 := rfl
  have hroom : Blaster.RECV_BUFFER_SIZE = 4096 := rfl
  have hout : (List.replicate BUFFER_SIZE (0 : Byte)).length = BUFFER_SIZE := List.length_replicate
  have hanswer : Blaster.answerBytes n true ≤ Blaster.RECV_BUFFER_SIZE := by
    rw [Blaster.answerBytes, bulk_bits_of_pos true hpos (by omega)]
    exact hfits
  refine ((Blaster.blasterBounded usb fuel).jtag_scan_chain_ends hok (fun _ => hpos) (by omega) (by omega)
    (by omega) fun _ => hanswer).mono ?_
  rintro r c' ⟨hr, -⟩
  exact hr.trans hout

/-- Whatever messages came before, and whatever the device answered: a message whose counts fit makes no
access out of range. -/
theorem handlers_in_range {kind : DriverKind} {usb : Usb} {fuel freq : Nat} {c : Jtag kind.Dev}
    (hc : Declared kind c.dev) {i : Input} {u : Jtagd kind.Dev} {msg : Message}
    (hcomes : Comes (kind.driver usb fuel freq) c i u msg) (hfits : Fitting (fun n => ScanFits n kind) u msg) :
    InRangeAt (kind.driver usb fuel freq) i.junk u msg := by
  cases kind with
  | mpsse => exact in_range_at (mpsse_carries usb fuel freq) trivial i.junk hcomes.roomy trivial hfits
  | usb_blaster =>
    have hok : u.jtag.dev.recv_buffer.length = Blaster.RECV_BUFFER_SIZE :=
      (hcomes.spares (Blaster.blaster_spares usb fuel)).trans hc
    exact in_range_at (blaster_carries usb fuel) (by decide : Blaster.answerBytes 10 true ≤ Blaster.RECV_BUFFER_SIZE)
      i.junk hcomes.roomy hok hfits

/-- A client comes. -/
def letIn : Input := ⟨fun _ => 0, ⟨.failed, true⟩⟩

/-- A client that sends these bytes. -/
def bringing (data : List Byte) : Input := ⟨fun _ => 0, ⟨deliver data, false⟩⟩

/-- The first message of the first client. -/
theorem Comes.first {c : Jtag δ} {data : List Byte} {s r q : Jtagd δ} {msg : Message}
    (hs : step d letIn (bootJtagd c) = .ok () s) (hfd : s.sock.client_fd ≥ 0)
    (hread : jtagd_sock (read_socket (deliver data)) { s with send_buffer_size := 2 } = .ok true r)
    (hloop : packet_loop (BUFFER_SIZE + 1) r = .ok () q) (hmsgs : q.messages = s.messages ++ [msg])
    (hempty : s.messages = []) : Comes d c (bringing data) q msg := by
  refine ⟨⟨s, q, [msg], [], .tick (.refl _) hs, ⟨hfd, ⟨r, hread, hloop⟩, hmsgs⟩, .nil q⟩, ?_⟩
  rw [hmsgs, hempty]
  rfl

def bootBlaster : Jtag DriverKind.usb_blaster.Dev := { idleBlaster with state := TestLogicReset }

def bootDriver : driver DriverKind.usb_blaster.Dev :=
  DriverKind.usb_blaster.driver (blasterUsb Mpsse.blinkBoard idleBlasterEngine) 0 0

def helloDone : Jtagd DriverKind.usb_blaster.Dev := finalState (step bootDriver letIn (bootJtagd bootBlaster))

def readDone (data : List Byte) : Jtagd DriverKind.usb_blaster.Dev :=
  finalState (jtagd_sock (read_socket (deliver data)) { helloDone with send_buffer_size := 2 })

def packetsDone (data : List Byte) : Jtagd DriverKind.usb_blaster.Dev :=
  finalState (packet_loop (BUFFER_SIZE + 1) (readDone data))

theorem helloDone_runs : step bootDriver letIn (bootJtagd bootBlaster) = .ok () helloDone :=
  of_returned (by decide +kernel)

/-- ACCESS_DR_2, of 8 bits, with nothing from the FIFO, which a packet before it fills. -/
def scanByte : List Byte :=
  [0x40, 0x00, 0xFF, 0x00, 0x23, 0xC8, 0x00, 0x00, 0x24] ++ List.replicate 15 0 ++ [8] ++ List.replicate 15 0 ++ [8]

theorem scan_byte_comes : Comes bootDriver bootBlaster (bringing scanByte) (packetsDone scanByte)
    ⟨0xC8, scanByte.drop 9⟩ :=
  .first helloDone_runs (by decide +kernel) (of_answer (by decide +kernel)) (of_returned (by decide +kernel))
    (by decide +kernel) (by decide +kernel)

theorem handlers_in_range_byte : Comes bootDriver bootBlaster (bringing scanByte) (packetsDone scanByte)
      ⟨0xC8, scanByte.drop 9⟩ ∧
    InRangeAt bootDriver (fun _ => 0) (packetsDone scanByte) ⟨0xC8, scanByte.drop 9⟩ := by
  have hdeclared : Declared .usb_blaster bootBlaster.dev := List.length_replicate
  have htakes : ScanFits 8 .usb_blaster := ⟨by decide, by decide⟩
  refine ⟨scan_byte_comes, handlers_in_range hdeclared scan_byte_comes ⟨fun h => ?_, fun h => ?_, fun _ => ?_⟩⟩
  · exact absurd h (by decide)
  · exact absurd h (by decide)
  · exact ⟨by decide, fun _ => by decide +kernel, fun _ => by decide, fun _ => htakes, fun _ => .inr (by decide)⟩

/-- OPEN_DEVICE. -/
def openDevice : List Byte := [0x00, 0x03, 0xA8, 0x00, 0x00, 0x04]

/-- The first message of all opens a device: the list of devices is still empty. -/
theorem open_device_before_chain : Comes bootDriver bootBlaster (bringing openDevice) (packetsDone openDevice) ⟨0xA8, []⟩ ∧
    ¬ InRangeAt bootDriver (fun _ => 0) (packetsDone openDevice) ⟨0xA8, []⟩ := by
  have hcomes : Comes bootDriver bootBlaster (bringing openDevice) (packetsDone openDevice) ⟨0xA8, []⟩ :=
    .first helloDone_runs (by decide +kernel) (of_answer (by decide +kernel)) (of_returned (by decide +kernel))
      (by decide +kernel) (by decide +kernel)
  refine ⟨hcomes, fun h => h.accesses (.inl rfl) ⟨_, of_stopped ?_⟩⟩
  decide +kernel

end JtagRemote.Jtagd
