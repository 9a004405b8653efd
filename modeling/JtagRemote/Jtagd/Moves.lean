import JtagRemote.Jtagd.Framing
import JtagRemote.Jtagd.Handlers

/-!
# The moves of the TAP

A message asks for a state of the TAP by name, and `jtag_get_tms_seq` has a way
there from some states only. Where the TAP is depends on the messages before.
-/

namespace JtagRemote.Jtagd

open JtagState

variable {δ : Type} {board : Board} {d : driver δ}

/-! ## What answering leaves alone -/

/-- Only the send side changed. -/
structure SendSame (s t : Jtagd δ) : Prop where
  rest : t = { s with
    sock := { s.sock with written := t.sock.written }
    send_buffer := t.send_buffer
    send_buffer_size := t.send_buffer_size
    last_response := t.last_response }

theorem SendSame.refl (s : Jtagd δ) : SendSame s s := ⟨rfl⟩

theorem SendSame.trans {s t u : Jtagd δ} (h : SendSame s t) (h' : SendSame t u) : SendSame s u := by
  refine ⟨?_⟩
  rw [h'.rest, h.rest]

theorem SendSame.jtag {s t : Jtagd δ} (h : SendSame s t) : t.jtag = s.jtag := by rw [h.rest]

theorem SendSame.messages {s t : Jtagd δ} (h : SendSame s t) : t.messages = s.messages := by rw [h.rest]

theorem SendSame.fifos {s t : Jtagd δ} (h : SendSame s t) : t.fifos = s.fifos := by rw [h.rest]

theorem SendSame.devices {s t : Jtagd δ} (h : SendSame s t) : t.devices = s.devices := by rw [h.rest]

def SendOnly {α : Type} (p : JtagdProg δ α) : Prop :=
  ∀ s, Guards p s .no_tms_seq fun _ t => SendSame s t

theorem SendOnly.bind {α β : Type} {p : JtagdProg δ α} {f : α → JtagdProg δ β} (hp : SendOnly p)
    (hf : ∀ a, SendOnly (f a)) : SendOnly (p >>= f) := by
  intro s
  refine Guards.bind (hp s) fun a t ht => ?_
  exact (hf a t).mono fun _ u hu => ht.trans hu

theorem sendOnly_pure {α : Type} (a : α) : SendOnly (pure a : JtagdProg δ α) := fun s => guards_pure (.refl s)

theorem sendOnly_get {α : Type} {f : Jtagd δ → JtagdProg δ α} (hf : ∀ s, Guards (f s) s .no_tms_seq
    fun _ t => SendSame s t) : SendOnly (get >>= f) := fun s => Guards.get_bind (hf s)

theorem append_bytes_only (data : List Byte) : SendOnly (append_bytes data : JtagdProg δ Unit) := by
  unfold append_bytes
  refine sendOnly_get fun s => Guards.bind (memcpy_guards _ _ _ s) ?_
  rintro buf _ ⟨rfl, -, -⟩
  exact Guards.set_bind (guards_pure ⟨rfl⟩)

theorem assert_only (b : Bool) : SendOnly (assert b : JtagdProg δ Unit) := fun s =>
  (assert_guards b s).mono fun _ _ h => h ▸ .refl s

theorem assert_room_only (n : Nat) : SendOnly (assert_room n : JtagdProg δ Unit) := by
  unfold assert_room
  exact sendOnly_get fun s => assert_only _ s

theorem add_int_only (value : BitVec 32) : SendOnly (add_int value : JtagdProg δ Unit) :=
  (assert_room_only 4).bind fun _ => append_bytes_only _

theorem add_string_only (data : List Byte) : SendOnly (add_string data : JtagdProg δ Unit) :=
  (assert_only _).bind fun _ => (assert_room_only _).bind fun _ => (append_bytes_only _).bind fun _ =>
    append_bytes_only _

theorem add_array_only (data : List Byte) (len : Nat) : SendOnly (add_array data len : JtagdProg δ Unit) := by
  refine (assert_room_only len).bind fun _ s => Guards.bind (bytes_at_guards _ _ _ s) ?_
  rintro bytes _ ⟨rfl, rfl, -⟩
  exact append_bytes_only _ _

theorem add_response_only (resp : Byte) : SendOnly (add_response resp : JtagdProg δ Unit) := by
  unfold add_response
  refine sendOnly_get fun s => ?_
  refine Guards.bind (assert_only _ s) fun _ s₁ h₁ => ?_
  refine Guards.bind (assert_room_only _ s₁) fun _ s₂ h₂ => Guards.set_bind ?_
  have hone : SendSame s { s with last_response := (s.send_buffer_size.toNat : Int) } := ⟨rfl⟩
  have hfour : SendOnly (do append_bytes [resp]; append_bytes [0]; append_bytes [0]; append_bytes [0] :
      JtagdProg δ Unit) :=
    (append_bytes_only _).bind fun _ => (append_bytes_only _).bind fun _ => (append_bytes_only _).bind fun _ =>
      append_bytes_only _
  exact (hfour _).mono fun _ t ht => hone.trans ht

theorem end_response_only : SendOnly (end_response : JtagdProg δ Unit) := by
  unfold end_response
  refine sendOnly_get fun s => Guards.bind (assert_guards _ s) ?_
  rintro _ _ rfl
  refine Guards.bind (memcpy_guards _ _ _ _) ?_
  rintro buf _ ⟨rfl, -, -⟩
  exact Guards.set_bind (guards_pure ⟨rfl⟩)

theorem fill_header_only (mux : BitVec 16) : SendOnly (fill_header mux : JtagdProg δ Unit) := by
  unfold fill_header
  refine sendOnly_get fun s => Guards.bind (memcpy_guards _ _ _ s) ?_
  rintro buf _ ⟨rfl, -, -⟩
  exact guards_modify ⟨rfl⟩

theorem write_full_guards (data : List Byte) (k : Sock) :
    Guards (write_full data) k .no_tms_seq fun _ k' => k' = { k with written := k'.written } := by
  unfold write_full
  refine Guards.get_bind (guards_ite (fun _ => ?_) fun _ => guards_pure rfl)
  exact Guards.set_bind (guards_pure rfl)

theorem do_send_only (mux : BitVec 16) : SendOnly (do_send mux : JtagdProg δ Unit) := by
  refine (fill_header_only mux).bind fun _ => sendOnly_get fun s => ?_
  refine Guards.bind (bytes_at_guards _ _ _ s) ?_
  rintro bytes _ ⟨rfl, rfl, -⟩
  refine Guards.bind (Guards.focus (write_full_guards _ _)) ?_
  rintro ok _ ⟨k, hk, rfl⟩
  refine guards_modify ⟨?_⟩
  rw [hk]

theorem respond_only (resp : Byte) : SendOnly (respond resp : JtagdProg δ Unit) :=
  (add_response_only resp).bind fun _ => end_response_only

theorem forM_only {α : Type} {f : α → JtagdProg δ Unit} (hf : ∀ a, SendOnly (f a)) (l : List α) :
    SendOnly (l.forM f) := by
  induction l with
  | nil => exact sendOnly_pure _
  | cons a l ih => exact (hf a).bind fun _ => ih

theorem add_device_only (device_id : BitVec 32) : SendOnly (add_device device_id : JtagdProg δ Unit) :=
  (add_int_only _).bind fun _ => (add_int_only _).bind fun _ => (add_int_only _).bind fun _ =>
    (add_int_only _).bind fun _ => (add_int_only _).bind fun _ => add_string_only _

theorem GET_HARDWARE_only : SendOnly (GET_HARDWARE : JtagdProg δ Unit) :=
  (add_response_only _).bind fun _ => (add_int_only _).bind fun _ => (add_int_only _).bind fun _ =>
    end_response_only.bind fun _ => (do_send_only _).bind fun _ => (add_int_only _).bind fun _ =>
    (add_string_only _).bind fun _ => (add_string_only _).bind fun _ => (add_int_only _).bind fun _ =>
    (add_string_only _).bind fun _ => (add_int_only _).bind fun _ => do_send_only _

theorem GET_VERSION_INFO_only : SendOnly (GET_VERSION_INFO : JtagdProg δ Unit) :=
  (add_response_only _).bind fun _ => (add_string_only _).bind fun _ => (add_int_only _).bind fun _ =>
    (add_string_only _).bind fun _ => end_response_only

theorem GET_DEFINED_DEVICES_only : SendOnly (GET_DEFINED_DEVICES : JtagdProg δ Unit) :=
  (add_response_only _).bind fun _ => (add_int_only _).bind fun _ => (add_int_only _).bind fun _ =>
    (add_int_only _).bind fun _ => end_response_only

theorem OPEN_DEVICE_only : SendOnly (OPEN_DEVICE : JtagdProg δ Unit) := by
  refine (add_response_only _).bind fun _ => sendOnly_get fun s => ?_
  cases s.devices with
  | nil => exact Guards.bind (guards_throw (by decide)) fun _ t (ht : t = s) => by subst ht; exact end_response_only t
  | cons id ids => exact (add_int_only _).bind (fun _ => end_response_only) s

theorem GET_PARAMETER_only : SendOnly (GET_PARAMETER : JtagdProg δ Unit) :=
  (add_response_only _).bind fun _ => (add_int_only _).bind fun _ => end_response_only

theorem LOCK_DEVICE_only : SendOnly (LOCK_DEVICE : JtagdProg δ Unit) :=
  (respond_only _).bind fun _ => do_send_only _

theorem USE_PROTOCOL_VERSION_only : SendOnly (USE_PROTOCOL_VERSION : JtagdProg δ Unit) :=
  (add_response_only _).bind fun _ => (add_int_only _).bind fun _ => end_response_only

/-! ## The messages that move the TAP -/

/-- A message that moves the TAP; a probe may find devices or not, and the driver may take the bits of ACCESS_DR_2
or refuse them. -/
inductive Move where
  | probe (found : Bool)
  | ir
  | dr (taken : Bool)
  | idle
  deriving DecidableEq

/-- The state that the message asks for. -/
def Move.target : Move → Option JtagState
  | .probe _ => none
  | .ir => some ShiftIR
  | .dr _ => some ShiftDR
  | .idle => some RunTestIdle

/-- The state that the message leaves. -/
def Move.leaves : Move → JtagState
  | .probe found => if found then TestLogicReset else Exit1DR
  | .ir => Exit1IR
  | .dr taken => if taken then Exit1DR else ShiftDR
  | .idle => RunTestIdle

/-- The table has the move that the message asks for. -/
def Move.Supported (st : JtagState) (m : Move) : Prop := ∀ dst, m.target = some dst → tabulated st dst = true

/-- The moves of a message that is done, with a driver that refuses scans of these numbers of bits. -/
def Outcome.moves (refuses : Nat → Bool) (o : Outcome) : List Move :=
  if o.msg.command = 0xA5 then [.probe !o.devices.isEmpty]
  else if o.msg.command = 0xC6 then [.ir]
  else if o.msg.command = 0xC8 then [.dr !refuses (intAt o.msg.body 12)]
  else if o.msg.command = 0xCA then [.idle]
  else []

/-- The data of the message is there. -/
structure Supplied (s : Jtagd δ) (body : List Byte) : Prop where
  long : 32 ≤ body.length
  some : s.fifos FIFO_MIN ≠ []
  data : intAt body 20 / 8 ≤ (s.fifos FIFO_MIN).length
  room : intAt body 20 / 8 ≤ BUFFER_SIZE

theorem supplied_iff {s : Jtagd δ} {body : List Byte} : Supplied s body ↔ 32 ≤ body.length ∧ s.fifos FIFO_MIN ≠ [] ∧
    intAt body 20 / 8 ≤ (s.fifos FIFO_MIN).length ∧ intAt body 20 / 8 ≤ BUFFER_SIZE :=
  ⟨fun h => ⟨h.long, h.some, h.data, h.room⟩, fun h => ⟨h.1, h.2.1, h.2.2.1, h.2.2.2⟩⟩

instance (s : Jtagd δ) (body : List Byte) : Decidable (Supplied s body) := decidable_of_iff' _ supplied_iff

/-- The move that a message asks for first, if its body is long enough, and its data is there. -/
def asks (refuses : Nat → Bool) (s : Jtagd δ) (msg : Message) : List Move :=
  if msg.command = 0xC6 ∧ 16 ≤ msg.body.length then [.ir]
  else if msg.command = 0xC8 ∧ Supplied s msg.body then [.dr !refuses (intAt msg.body 12)]
  else if msg.command = 0xCA then [.idle]
  else []

section

variable {A : HandlerAdapter board d} {log : List Cycle} {s : Jtagd δ}

/-- A move comes first, and then the rest; without a way, it stops. -/
theorem move_guards (hd : Still A log s.jtag) {dst : JtagState} {α : Type} {f : Bool → JtagdProg δ α} {Q : α → Jtagd δ → Prop}
    (hway : tabulated s.jtag.state dst = true)
    (hf : ∀ r c, c.state = dst → Still A log c → Guards (f r) { s with jtag := c } .no_tms_seq Q) :
    Guards (do let r ← jtagd_jtag (jtag_tms_seq_to d dst); f r) s .no_tms_seq Q := by
  refine Guards.bind (Guards.focus (hd.seq_to hway)) ?_
  rintro r _ ⟨c, ⟨hc, hstill⟩, rfl⟩
  exact hf r c hc hstill

theorem move_faults (d : driver δ) {dst : JtagState} {α : Type} {f : Bool → JtagdProg δ α}
    (hno : tabulated s.jtag.state dst = false) :
    Faults (do let r ← jtagd_jtag (jtag_tms_seq_to d dst); f r) s .no_tms_seq := by
  refine Faults.bind (Faults.focus ?_)
  rcases get_tms_seq_cases s.jtag.state dst s.jtag with ⟨hyes, -⟩ | ⟨-, hrun⟩
  · rw [hyes] at hno
    cases hno
  · unfold jtag_tms_seq_to
    rw [Faults, bind_of_ok (get_apply _)]
    exact Faults.bind ⟨_, hrun⟩

theorem READ_CHAIN_moves (hd : Still A log s.jtag) (junk : Nat → Byte) :
    Guards (READ_CHAIN d junk) s .no_tms_seq fun _ t => ∃ devices c,
      jtag_probe_devices d junk s.jtag = .ok devices c ∧ t.messages = s.messages ∧ t.fifos = s.fifos ∧
      t.jtag.state = (Move.probe !devices.isEmpty).leaves ∧ Still A log t.jtag := by
  unfold READ_CHAIN
  have hprobe : Guards (jtag_probe_devices d junk) s.jtag .no_tms_seq fun devices c =>
      (c.state = (if devices = [] then Exit1DR else TestLogicReset) ∧ Still A log c) ∧
        jtag_probe_devices d junk s.jtag = .ok devices c :=
    ⟨(hd.probe junk).ensures.and fun _ _ h => h, (hd.probe junk).avoids⟩
  refine Guards.bind (Guards.focus hprobe) ?_
  rintro devices _ ⟨c, ⟨⟨hc, hstill⟩, hrun⟩, rfl⟩
  refine Guards.modify_bind ?_
  have hrest : SendOnly (do
      add_response 0
      add_int 1
      add_int (BitVec.ofNat 32 devices.length)
      add_int (BitVec.ofNat 32 (devices.length * (4 + 4 + 4 + 4 + 4 + 1 + DEVICE_NAME.length)))
      end_response
      do_send 0
      devices.forM add_device
      do_send 4 : JtagdProg δ Unit) :=
    (add_response_only _).bind fun _ => (add_int_only _).bind fun _ => (add_int_only _).bind fun _ =>
      (add_int_only _).bind fun _ => end_response_only.bind fun _ => (do_send_only _).bind fun _ =>
      (forM_only add_device_only _).bind fun _ => do_send_only _
  refine (hrest _).mono fun _ t ht => ⟨devices, c, hrun, ht.messages, ht.fifos, ?_⟩
  rw [ht.jtag]
  refine ⟨?_, hstill⟩
  rw [hc]
  cases devices <;> rfl

theorem ACCESS_IR_2_moves (hd : Still A log s.jtag) {body : List Byte}
    (hway : 16 ≤ body.length → tabulated s.jtag.state ShiftIR = true) :
    Guards (ACCESS_IR_2 d body) s .no_tms_seq fun _ t => t.messages = s.messages ∧ t.fifos = s.fifos ∧
      tabulated s.jtag.state ShiftIR = true ∧ t.jtag.state = Exit1IR ∧ Still A log t.jtag := by
  unfold ACCESS_IR_2
  refine Guards.bind (index_guards _ _ s) ?_
  rintro _ _ ⟨rfl, -, hlen⟩
  refine Guards.bind (index_guards _ _ _) ?_
  rintro _ _ ⟨rfl, -, -⟩
  refine Guards.bind (index_guards _ _ _) ?_
  rintro _ _ ⟨rfl, -, -⟩
  refine Guards.bind (index_guards _ _ _) ?_
  rintro _ s ⟨rfl, -, -⟩
  refine move_guards hd (hway hlen) fun _ c hc hstill => ?_
  refine Guards.bind (Guards.focus (hstill.scan_ir hc rfl)) ?_
  rintro ⟨_, read_back⟩ _ ⟨c', hc', rfl⟩
  have hrest : SendOnly (do
      add_response 0
      add_int (BitVec.ofNat 32 (le32 read_back))
      end_response
      do_send 0 : JtagdProg δ Unit) :=
    (add_response_only _).bind fun _ => (add_int_only _).bind fun _ => end_response_only.bind fun _ =>
      do_send_only _
  refine (hrest _).mono fun _ t ht => ⟨ht.messages, ht.fifos, hway hlen, ?_⟩
  rw [ht.jtag]
  exact hc'

/-- Without a way to ShiftIR, the message stops. -/
theorem ACCESS_IR_2_stops {body : List Byte} (hlen : 16 ≤ body.length)
    (hno : tabulated s.jtag.state ShiftIR = false) : Faults (ACCESS_IR_2 d body) s .no_tms_seq := by
  unfold ACCESS_IR_2
  rw [Faults, bind_of_ok (index_ok (by omega) s), bind_of_ok (index_ok (by omega) s),
    bind_of_ok (index_ok (by omega) s), bind_of_ok (index_ok (by omega) s)]
  exact move_faults d hno

theorem RUN_TEST_IDLE_moves (hd : Still A log s.jtag) (hway : tabulated s.jtag.state RunTestIdle = true) :
    Guards (RUN_TEST_IDLE d) s .no_tms_seq fun _ t =>
      t.messages = s.messages ∧ t.fifos = s.fifos ∧ t.jtag.state = RunTestIdle ∧ Still A log t.jtag := by
  unfold RUN_TEST_IDLE
  refine move_guards hd hway fun _ c hc hstill => ?_
  have hrest : SendOnly (do respond 0; do_send 0 : JtagdProg δ Unit) :=
    (respond_only _).bind fun _ => do_send_only _
  refine (hrest _).mono fun _ t ht => ⟨ht.messages, ht.fifos, ?_⟩
  rw [ht.jtag]
  exact ⟨hc, hstill⟩

theorem RUN_TEST_IDLE_stops (hno : tabulated s.jtag.state RunTestIdle = false) :
    Faults (RUN_TEST_IDLE d) s .no_tms_seq := by
  unfold RUN_TEST_IDLE
  exact move_faults d hno

theorem body_int_guards (body : List Byte) (off : Nat) (s : Jtagd δ) :
    Guards (body_int body off) s .no_tms_seq fun n t => t = s ∧ n = intAt body off ∧ off + 4 ≤ body.length := by
  unfold body_int
  refine Guards.bind (bytes_at_guards _ _ _ s) ?_
  rintro _ _ ⟨rfl, rfl, hlen⟩
  exact guards_pure ⟨rfl, rfl, hlen⟩

theorem pop_fifo_guards (buffer : List Byte) (n : Nat) (s : Jtagd δ) :
    Guards (pop_fifo buffer n) s .no_tms_seq fun r t => t = { s with fifos := t.fifos } ∧
      r.2.length = buffer.length ∧ (r.1 = true → 0 < (s.fifos FIFO_MIN).length ∧ n ≤ (s.fifos FIFO_MIN).length ∧ n ≤ buffer.length) ∧
      (r.1 = false → t = s ∧ ¬ n ≤ (s.fifos FIFO_MIN).length) := by
  unfold pop_fifo
  refine Guards.get_bind ?_
  dsimp only
  refine guards_ite (fun hdata => ?_) fun hshort => guards_pure ⟨rfl, rfl, by simp, fun _ => ⟨rfl, hshort⟩⟩
  refine Guards.bind (first_element_guards _ s) ?_
  rintro _ s ⟨rfl, hsome⟩
  refine Guards.bind (memcpy_guards _ _ _ s) ?_
  rintro _ s ⟨rfl, rfl, hroom⟩
  refine Guards.set_bind (guards_pure ⟨rfl, splice_length _ _ _ hroom, fun _ => ⟨hsome, hdata, ?_⟩, by simp⟩)
  have hbytes : n ≤ ((s.fifos FIFO_MIN).flatMap le_bytes).length := by
    rw [List.length_flatMap]
    simp [le_bytes]
    omega
  rw [List.length_take, Nat.min_eq_left hbytes] at hroom
  omega

theorem ACCESS_DR_2_moves (hd : Still A log s.jtag) {body : List Byte}
    (hway : Supplied s body → tabulated s.jtag.state ShiftDR = true) :
    Guards (ACCESS_DR_2 d body) s .no_tms_seq fun ok t => t.messages = s.messages ∧
      (ok = true → tabulated s.jtag.state ShiftDR = true ∧
        t.jtag.state = (Move.dr !A.Refuses (intAt body 12)).leaves ∧ Still A log t.jtag) ∧
      (ok = false → t = s ∧ ¬ Supplied s body) := by
  unfold ACCESS_DR_2
  refine Guards.bind (body_int_guards _ _ s) ?_
  rintro _ _ ⟨rfl, rfl, -⟩
  refine Guards.bind (body_int_guards _ _ _) ?_
  rintro _ _ ⟨rfl, rfl, -⟩
  refine Guards.bind (body_int_guards _ _ _) ?_
  rintro _ s ⟨rfl, rfl, hlen⟩
  refine Guards.bind (pop_fifo_guards _ _ s) ?_
  rintro ⟨ok, send⟩ u ⟨hu, hsend, hsome, hshort⟩
  have hjtag : u.jtag = s.jtag := by rw [hu]
  have hmsgs : u.messages = s.messages := by rw [hu]
  refine guards_ite (fun hok => ?_) fun hno => guards_pure ⟨hmsgs, by simp, fun _ => ?_⟩
  rotate_left
  · obtain ⟨rfl, hdata⟩ := hshort (by simpa using hno)
    exact ⟨rfl, fun h => hdata h.data⟩
  obtain ⟨hfifo, hdata, hroom⟩ := hsome hok
  rw [List.length_replicate] at hroom
  have htab := hway ⟨hlen, List.length_pos_iff.mp hfifo, hdata, hroom⟩
  rw [← hjtag] at hd
  refine move_guards hd (hjtag ▸ htab) fun _ c hc hstill => ?_
  refine Guards.bind (Guards.focus (hstill.scan_dr hc (hsend.trans List.length_replicate) (le32_lt _))) ?_
  rintro ⟨_, recv⟩ _ ⟨c', ⟨hc', hstill'⟩, rfl⟩
  have hdone : ∀ t, SendSame { u with jtag := c' } t → t.messages = s.messages ∧
      (true = true → tabulated s.jtag.state ShiftDR = true ∧
        t.jtag.state = (Move.dr !A.Refuses (intAt body 12)).leaves ∧ Still A log t.jtag) ∧
      (true = false → t = s ∧ ¬ Supplied s body) := by
    intro t ht
    refine ⟨ht.messages.trans hmsgs, fun _ => ⟨htab, ?_⟩, by simp⟩
    rw [ht.jtag]
    refine ⟨hc'.trans ?_, hstill'⟩
    cases A.Refuses (intAt body 12) <;> rfl
  refine Guards.bind (respond_only 0 _) fun _ t₁ h₁ => ?_
  refine Guards.bind (do_send_only 0 t₁) fun _ t₂ h₂ => ?_
  refine guards_ite (fun _ => ?_) fun _ => guards_pure (hdone t₂ (h₁.trans h₂))
  refine Guards.bind (add_array_only _ _ t₂) fun _ t₃ h₃ => ?_
  refine Guards.bind (do_send_only 4 t₃) fun _ t₄ h₄ => ?_
  exact guards_pure (hdone t₄ (((h₁.trans h₂).trans h₃).trans h₄))

theorem body_int_ok {body : List Byte} {off : Nat} (h : off + 4 ≤ body.length) (s : Jtagd δ) :
    body_int body off s = .ok (intAt body off) s := by
  unfold body_int
  rw [bind_of_ok (bytes_at_ok h s)]
  rfl

/-- A pop that has its data, and room for it. -/
theorem pop_fifo_returns {n : Nat} (hsome : s.fifos FIFO_MIN ≠ []) (h : n ≤ (s.fifos FIFO_MIN).length)
    (hroom : n ≤ BUFFER_SIZE) :
    ∃ send t, pop_fifo (List.replicate BUFFER_SIZE 0) n s = .ok (true, send) t := by
  unfold pop_fifo
  rw [bind_of_ok (get_apply s)]
  simp only [if_pos h]
  rw [bind_of_ok (first_element_ok (List.length_pos_iff.mpr hsome) s), bind_of_ok (memcpy_ok (by rw [List.length_take, List.length_replicate]; omega) s)]
  exact ⟨_, _, rfl⟩

/-- Without a way to ShiftDR, the message stops, once its data is there. -/
theorem ACCESS_DR_2_stops {body : List Byte} (h : Supplied s body)
    (hno : tabulated s.jtag.state ShiftDR = false) : Faults (ACCESS_DR_2 d body) s .no_tms_seq := by
  obtain ⟨hlen, hsome, hdata, hroom⟩ := h
  obtain ⟨send, u, hpop⟩ := pop_fifo_returns hsome hdata hroom
  have hu : u = { s with fifos := u.fifos } := pop_fifo_spec _ _ _ _ _ hpop
  have hjtag : u.jtag = s.jtag := by rw [hu]
  rw [← hjtag] at hno
  unfold ACCESS_DR_2
  rw [Faults, bind_of_ok (body_int_ok (by omega) s), bind_of_ok (body_int_ok (by omega) s),
    bind_of_ok (body_int_ok (by omega) s), bind_of_ok hpop]
  exact move_faults d hno

/-! ## One message -/

/-- Where the TAP is after some moves. -/
def after (st : JtagState) (ms : List Move) : JtagState := ms.foldl (fun _ m => m.leaves) st

/-- Each move finds a way. -/
def InTurn (st : JtagState) : List Move → Prop
  | [] => True
  | m :: ms => m.Supported st ∧ InTurn m.leaves ms

theorem inTurn_append {st : JtagState} {ms ms' : List Move} :
    InTurn st (ms ++ ms') ↔ InTurn st ms ∧ InTurn (after st ms) ms' := by
  induction ms generalizing st with
  | nil => simp [InTurn, after]
  | cons m ms ih =>
    rw [List.cons_append, InTurn, InTurn, ih, and_assoc]
    rfl

theorem after_append (st : JtagState) (ms ms' : List Move) :
    after st (ms ++ ms') = after (after st ms) ms' := List.foldl_append

/-- A message that is done had a way, and left the TAP where its moves lead; one that waits left all
as it was. -/
structure Moved (A : HandlerAdapter board d) (log : List Cycle) (junk : Nat → Byte) (msg : Message) (s : Jtagd δ)
    (ok : Bool) (t : Jtagd δ) : Prop where
  messages : t.messages = s.messages
  fifos : msg.command ≠ 0xC8 → t.fifos = s.fifos
  still : Still A log t.jtag
  done : ok = true → ∀ o, o.msg = msg → Gives d junk s o →
    InTurn s.jtag.state (o.moves A.Refuses) ∧ t.jtag.state = after s.jtag.state (o.moves A.Refuses)
  waits : ok = false → t = s ∧ asks A.Refuses s msg = []

theorem handle_READ_CHAIN {junk : Nat → Byte} {msg : Message} (h : msg.command = 0xA5) :
    handle_message d junk msg = (do READ_CHAIN d junk; pure true) := by
  rw [handle_message, h]
  rfl

theorem handle_OPEN_DEVICE {junk : Nat → Byte} {msg : Message} (h : msg.command = 0xA8) :
    handle_message d junk msg = (do OPEN_DEVICE; pure true) := by
  rw [handle_message, h]
  rfl

theorem handle_ACCESS_IR_2 {junk : Nat → Byte} {msg : Message} (h : msg.command = 0xC6) :
    handle_message d junk msg = (do ACCESS_IR_2 d msg.body; pure true) := by
  rw [handle_message, h]
  rfl

theorem handle_ACCESS_DR_2 {junk : Nat → Byte} {msg : Message} (h : msg.command = 0xC8) :
    handle_message d junk msg = ACCESS_DR_2 d msg.body := by
  rw [handle_message, h]
  rfl

theorem handle_RUN_TEST_IDLE {junk : Nat → Byte} {msg : Message} (h : msg.command = 0xCA) :
    handle_message d junk msg = (do RUN_TEST_IDLE d; pure true) := by
  rw [handle_message, h]
  rfl

/-- A message that does not move the TAP is answered, and that is all. -/
theorem handle_message_only {junk : Nat → Byte} {msg : Message}
    (hmoves : msg.command ≠ 0xA5 ∧ msg.command ≠ 0xC6 ∧ msg.command ≠ 0xC8 ∧ msg.command ≠ 0xCA) (s : Jtagd δ) :
    Guards (handle_message d junk msg) s .no_tms_seq fun ok t => ok = true ∧ SendSame s t := by
  obtain ⟨hA5, hC6, hC8, hCA⟩ := hmoves
  have hdone : ∀ {p : JtagdProg δ Unit}, SendOnly p →
      Guards (do p; pure true) s .no_tms_seq fun ok t => ok = true ∧ SendSame s t := fun hp =>
    Guards.bind (hp s) fun _ _ ht => guards_pure ⟨rfl, ht⟩
  unfold handle_message
  refine guards_ite (fun _ => hdone GET_HARDWARE_only) fun _ => ?_
  refine guards_ite (fun _ => hdone GET_VERSION_INFO_only) fun _ => ?_
  refine guards_ite (fun _ => hdone GET_DEFINED_DEVICES_only) fun _ => ?_
  refine guards_ite (fun _ => hdone (respond_only 0)) fun _ => ?_
  refine guards_ite (fun _ => hdone (respond_only 0)) fun _ => ?_
  refine guards_ite (fun hc => absurd hc hA5) fun _ => ?_
  refine guards_ite (fun _ => hdone OPEN_DEVICE_only) fun _ => ?_
  refine guards_ite (fun _ => hdone (respond_only 0)) fun _ => ?_
  refine guards_ite (fun _ => hdone GET_PARAMETER_only) fun _ => ?_
  refine guards_ite (fun _ => hdone (respond_only 0)) fun _ => ?_
  refine guards_ite (fun _ => hdone LOCK_DEVICE_only) fun _ => ?_
  refine guards_ite (fun _ => hdone (respond_only 0)) fun _ => ?_
  refine guards_ite (fun hc => absurd hc hC6) fun _ => ?_
  refine guards_ite (fun hc => absurd hc hC8) fun _ => ?_
  refine guards_ite (fun hc => absurd hc hCA) fun _ => ?_
  exact guards_ite (fun _ => hdone USE_PROTOCOL_VERSION_only) fun _ => hdone (respond_only 126)

theorem moved_one (m : Move) {junk : Nat → Byte} {msg : Message} {t : Jtagd δ} {dst : JtagState}
    (hmoves : ∀ o : Outcome, o.msg = msg → o.moves A.Refuses = [m]) (htarget : m.target = some dst)
    (hmsgs : t.messages = s.messages) (hfifos : msg.command ≠ 0xC8 → t.fifos = s.fifos)
    (hway : tabulated s.jtag.state dst = true)
    (hstate : t.jtag.state = m.leaves ∧ Still A log t.jtag) : Moved A log junk msg s true t := by
  refine ⟨hmsgs, hfifos, hstate.2, ?_, by simp⟩
  intro _ o ho _
  rw [hmoves o ho]
  refine ⟨⟨?_, trivial⟩, hstate.1⟩
  intro dst' hdst'
  rw [htarget] at hdst'
  cases hdst'
  exact hway

theorem handle_message_moves (hd : Still A log s.jtag) (junk : Nat → Byte) (msg : Message)
    (hway : ∀ m ∈ asks A.Refuses s msg, m.Supported s.jtag.state) :
    Guards (handle_message d junk msg) s .no_tms_seq (Moved A log junk msg s) := by
  by_cases hA5 : msg.command = 0xA5
  · rw [handle_READ_CHAIN hA5]
    refine Guards.bind (READ_CHAIN_moves hd junk) ?_
    rintro _ t ⟨devices, c, hrun, hmsgs, hfifos, hstate, hstill⟩
    refine guards_pure ⟨hmsgs, fun _ => hfifos, hstill, ?_, by simp⟩
    rintro - o rfl hgives
    obtain ⟨c', hrun'⟩ := hgives.probe hA5
    rw [hrun] at hrun'
    cases hrun'
    have hmoves : o.moves A.Refuses = [.probe !o.devices.isEmpty] := by rw [Outcome.moves, if_pos hA5]
    rw [hmoves]
    exact ⟨⟨by simp [Move.Supported, Move.target], trivial⟩, hstate⟩
  by_cases hC6 : msg.command = 0xC6
  · rw [handle_ACCESS_IR_2 hC6]
    have hasks : 16 ≤ msg.body.length → tabulated s.jtag.state ShiftIR = true := by
      intro hlen
      refine hway .ir ?_ ShiftIR rfl
      rw [asks, if_pos ⟨hC6, hlen⟩]
      exact List.mem_cons_self
    refine Guards.bind (ACCESS_IR_2_moves hd hasks) ?_
    rintro _ t ⟨hmsgs, hfifos, htab, hstate⟩
    exact guards_pure (moved_one .ir (by rintro o rfl; simp [Outcome.moves, hC6]) rfl hmsgs (fun _ => hfifos) htab hstate)
  by_cases hC8 : msg.command = 0xC8
  · rw [handle_ACCESS_DR_2 hC8]
    have hasks : Supplied s msg.body → tabulated s.jtag.state ShiftDR = true := by
      intro h
      refine hway (.dr !A.Refuses (intAt msg.body 12)) ?_ ShiftDR rfl
      rw [asks, if_neg (by simp [hC8]), if_pos ⟨hC8, h⟩]
      exact List.mem_cons_self
    refine (ACCESS_DR_2_moves hd hasks).mono ?_
    rintro ok t ⟨hmsgs, hdone, hwaits⟩
    cases ok with
    | true =>
      obtain ⟨htab, hstate⟩ := hdone rfl
      exact moved_one _ (by rintro o rfl; simp [Outcome.moves, hC8]) rfl hmsgs (fun h => absurd hC8 h) htab hstate
    | false =>
      obtain ⟨rfl, hnot⟩ := hwaits rfl
      refine ⟨rfl, fun _ => rfl, hd, by simp, fun _ => ⟨rfl, ?_⟩⟩
      rw [asks, if_neg (by simp [hC8]), if_neg fun h => hnot h.2, if_neg (by simp [hC8])]
  by_cases hCA : msg.command = 0xCA
  · rw [handle_RUN_TEST_IDLE hCA]
    have hasks : tabulated s.jtag.state RunTestIdle = true := by
      refine hway .idle ?_ RunTestIdle rfl
      rw [asks, if_neg (by simp [hCA]), if_neg (by simp [hCA]), if_pos hCA]
      exact List.mem_cons_self
    refine Guards.bind (RUN_TEST_IDLE_moves hd hasks) ?_
    rintro _ t ⟨hmsgs, hfifos, hstate⟩
    exact guards_pure (moved_one .idle (by rintro o rfl; simp [Outcome.moves, hCA]) rfl hmsgs (fun _ => hfifos) hasks hstate)
  · refine (handle_message_only ⟨hA5, hC6, hC8, hCA⟩ s).mono ?_
    rintro _ t ⟨rfl, ht⟩
    refine ⟨ht.messages, fun _ => ht.fifos, ht.jtag ▸ hd, ?_, by simp⟩
    rintro - o rfl -
    have hnone : o.moves A.Refuses = [] := by simp only [Outcome.moves, hA5, hC6, hC8, hCA, if_false]
    rw [hnone, ht.jtag]
    exact ⟨trivial, rfl⟩

theorem unsupported {m : Move} (dst : JtagState) {st : JtagState} (hno : ¬ m.Supported st)
    (htarget : m.target = some dst) : tabulated st dst = false := by
  by_contra hyes
  refine hno fun dst' hdst' => ?_
  rw [htarget] at hdst'
  cases hdst'
  simpa using hyes

/-- A message that asks for a move without a way stops. -/
theorem handle_message_stops {refuses : Nat → Bool} {junk : Nat → Byte} {msg : Message} {m : Move}
    (hm : m ∈ asks refuses s msg) (hno : ¬ m.Supported s.jtag.state) : Faults (handle_message d junk msg) s .no_tms_seq := by
  unfold asks at hm
  split at hm
  · rename_i hc
    obtain rfl := List.mem_singleton.mp hm
    rw [handle_ACCESS_IR_2 hc.1]
    exact Faults.bind (ACCESS_IR_2_stops hc.2 (unsupported ShiftIR hno rfl))
  · split at hm
    · rename_i hc
      obtain rfl := List.mem_singleton.mp hm
      rw [handle_ACCESS_DR_2 hc.1]
      exact ACCESS_DR_2_stops hc.2 (unsupported ShiftDR hno rfl)
    · split at hm
      · rename_i hc
        obtain rfl := List.mem_singleton.mp hm
        rw [handle_RUN_TEST_IDLE hc]
        exact Faults.bind (RUN_TEST_IDLE_stops (unsupported RunTestIdle hno rfl))
      · cases hm

end

end JtagRemote.Jtagd
