import JtagRemote.Alike
import JtagRemote.Jtagd.Queue

/-!
# Two servers side by side

Two servers that differ in what earlier clients left behind: bytes in the buffers that are
not in use, FIFOs that nobody reads, the devices that an earlier probe found. What they do
for a message is the same.
-/

namespace JtagRemote.Jtagd

variable {δ : Type}

/-! ## What is compared -/

/-- How the two adapters are compared before and after the first probe, what each server had written before, and
whether the FIFOs are the same, or are at least both empty or both not. -/
structure Base (δ : Type) where
  seen : Jtag δ → Jtag δ → Prop
  before : Jtag δ → Jtag δ → Prop
  after : Jtag δ → Jtag δ → Prop
  weaken {c c' : Jtag δ} : after c c' → before c c'
  sees {c c' : Jtag δ} : before c c' → seen c c'
  bytes : List Byte
  bytes' : List Byte
  shared : Prop
  level : Prop

/-- The same bytes were written since. -/
def Told (b : Base δ) (k k' : Sock) : Prop := ∃ ws, k.written = b.bytes ++ ws ∧ k'.written = b.bytes' ++ ws

/-- The connections are in step, and the receive buffers hold the same below `own`. -/
structure SockPeers (b : Base δ) (own : Nat) (k k' : Sock) : Prop where
  ok : k.Ok
  size : k'.buffer.length = BUFFER_SIZE
  client : k'.client_fd = k.client_fd
  start : k'.buffer_begin = k.buffer_begin
  stop : k'.buffer_end = k.buffer_end
  alive : k'.alive = k.alive
  held : ∀ i, i < own → k'.buffer[i]? = k.buffer[i]?
  told : Told b k k'

/-- What a client can see of the two servers is the same. -/
def Seen (b : Base δ) (s s' : Jtagd δ) : Prop :=
  b.seen s.jtag s'.jtag ∧ Told b s.sock s'.sock

/-- The servers are in step. Until the chain was probed the devices are not `known`, and may differ. -/
structure Peers (b : Base δ) (own : Nat) (known : Prop) (s s' : Jtagd δ) : Prop where
  jtag : b.before s.jtag s'.jtag
  probed : known → b.after s.jtag s'.jtag
  sock : SockPeers b own s.sock s'.sock
  room : s.send_buffer.length = BUFFER_SIZE
  room' : s'.send_buffer.length = BUFFER_SIZE
  size : s'.send_buffer_size = s.send_buffer_size
  pending : ∀ i, 2 ≤ i → i < s.send_buffer_size.toNat → s'.send_buffer[i]? = s.send_buffer[i]?
  last : s'.last_response = s.last_response
  devices : known → s'.devices = s.devices
  messages : s'.messages = s.messages
  fifo : b.shared → s'.fifos FIFO_MIN = s.fifos FIFO_MIN
  level : b.level → (s'.fifos FIFO_MIN = [] ↔ s.fifos FIFO_MIN = [])

variable {b : Base δ} {own : Nat} {known : Prop}

theorem Peers.seen : ∀ s s' : Jtagd δ, Peers b own known s s' → Seen b s s' :=
  fun _ _ h => ⟨b.sees h.jtag, h.sock.told⟩

/-- The program keeps the servers in step. -/
def InStep (b : Base δ) (own : Nat) (known : Prop) {α : Type} (p : JtagdProg δ α) : Prop :=
  Twins (Seen b) (Peers b own known) (Peers b own known) p

/-! ## The send buffer -/

theorem append_bytes_step (data : List Byte) : InStep b own known (append_bytes data) := by
  refine Twins.get_bind fun s s' h => ?_
  rw [h.size]
  by_cases hfits : s.send_buffer_size.toNat + data.length ≤ BUFFER_SIZE
  · have hfits₁ : s.send_buffer_size.toNat + data.length ≤ s.send_buffer.length := by rwa [h.room]
    have hfits₂ : s.send_buffer_size.toNat + data.length ≤ s'.send_buffer.length := by rwa [h.room']
    rw [bind_of_ok (memcpy_ok hfits₁ s), bind_of_ok (memcpy_ok hfits₂ s')]
    refine .ok { h with
      room := ?_
      room' := ?_
      size := rfl
      pending := ?_ }
    · show (splice _ _ _).length = BUFFER_SIZE
      rw [splice_length _ _ _ hfits₁, h.room]
    · show (splice _ _ _).length = BUFFER_SIZE
      rw [splice_length _ _ _ hfits₂, h.room']
    · intro i hi hlt
      -- the counter may wrap, but what it counts was appended in both
      have hcount : (s.send_buffer_size + BitVec.ofNat 8 data.length).toNat ≤
          s.send_buffer_size.toNat + data.length := by
        rw [BitVec.toNat_add, BitVec.toNat_ofNat]
        have := Nat.mod_le data.length (2 ^ 8)
        exact Nat.le_trans (Nat.mod_le _ _) (by omega)
      show (splice _ _ _)[i]? = (splice _ _ _)[i]?
      rw [getElem?_splice hfits₁, getElem?_splice hfits₂]
      have hlt' : i < (s.send_buffer_size + BitVec.ofNat 8 data.length).toNat := hlt
      split
      · rfl
      · exact h.pending i hi (by omega)
  · rw [bind_of_error (memcpy_error (by rwa [h.room]) s), bind_of_error (memcpy_error (by rwa [h.room']) s')]
    exact .error (Peers.seen s s' h)

theorem assert_room_step {R : Jtagd δ → Jtagd δ → Prop} (hR : ∀ s s', R s s' → Peers b own known s s') (n : Nat) :
    Twins (Seen b) R R (assert_room n) := by
  refine Twins.get_bind fun s s' h => ?_
  rw [(hR s s' h).size]
  exact assert_twins (fun s s' h => Peers.seen s s' (hR s s' h)) _ s s' h

theorem add_int_step (value : BitVec 32) : InStep b own known (add_int value) :=
  (assert_room_step (fun _ _ h => h) _).bind fun _ => append_bytes_step _

theorem add_string_step (data : List Byte) : InStep b own known (add_string data) :=
  (assert_twins Peers.seen _).bind fun _ => (assert_room_step (fun _ _ h => h) _).bind fun _ =>
    (append_bytes_step _).bind fun _ => append_bytes_step _

theorem add_array_step (data : List Byte) (len : Nat) : InStep b own known (add_array data len) :=
  (assert_room_step (fun _ _ h => h) _).bind fun _ => (bytes_at_twins Peers.seen _ _ _).bind fun _ =>
    append_bytes_step _

/-- Two states that the run has not left yet. -/
theorem at_peers {s s' : Jtagd δ} (h : Peers b own known s s') :
    ∀ t t', t = s ∧ t' = s' → Peers b own known t t' := by
  rintro t t' ⟨rfl, rfl⟩
  exact h

theorem add_response_step (resp : Byte) : InStep b own known (add_response resp) := by
  refine Twins.get_bind fun s s' h => ?_
  have hhere := at_peers h
  rw [h.last]
  refine Agree.bind (assert_twins (R := fun t t' => t = s ∧ t' = s')
    (fun t t' ht => Peers.seen t t' (hhere t t' ht)) _ s s' ⟨rfl, rfl⟩) ?_
  rintro _ s s' - ⟨rfl, rfl⟩
  refine Agree.bind (assert_room_step (R := fun t t' => t = s ∧ t' = s') hhere 4 s s' ⟨rfl, rfl⟩) ?_
  rintro _ s s' - ⟨rfl, rfl⟩
  have hfour : InStep b own known (do append_bytes [resp]; append_bytes [0]; append_bytes [0]; append_bytes [0] :
      JtagdProg δ Unit) :=
    (append_bytes_step _).bind fun _ => (append_bytes_step _).bind fun _ => (append_bytes_step _).bind fun _ =>
      append_bytes_step _
  have hset : Peers b own known { s with last_response := s.send_buffer_size.toNat }
      { s' with last_response := s'.send_buffer_size.toNat } := { h with last := by rw [h.size] }
  exact hfour _ _ hset

theorem end_response_step : InStep b own known (end_response : JtagdProg δ Unit) := by
  refine Twins.get_bind fun s s' h => ?_
  have hhere := at_peers h
  rw [h.last, h.size]
  refine Agree.bind (assert_twins (R := fun t t' => t = s ∧ t' = s')
    (fun t t' ht => Peers.seen t t' (hhere t t' ht)) _ s s' ⟨rfl, rfl⟩) ?_
  rintro _ s s' - ⟨rfl, rfl⟩
  dsimp only
  generalize [((BitVec.ofInt 16 ((s.send_buffer_size.toNat : Int) - s.last_response)) >>> 8).setWidth 8,
    ((BitVec.ofInt 16 ((s.send_buffer_size.toNat : Int) - s.last_response)).setWidth 8 : Byte)] = data
  by_cases hfits : s.last_response.toNat + 2 + data.length ≤ BUFFER_SIZE
  · have hfits₁ : s.last_response.toNat + 2 + data.length ≤ s.send_buffer.length := by rwa [h.room]
    have hfits₂ : s.last_response.toNat + 2 + data.length ≤ s'.send_buffer.length := by rwa [h.room']
    rw [bind_of_ok (memcpy_ok hfits₁ s), bind_of_ok (memcpy_ok hfits₂ s')]
    refine .ok { h with
      room := ?_
      room' := ?_
      size := rfl
      pending := ?_
      last := rfl }
    · show (splice _ _ _).length = BUFFER_SIZE
      rw [splice_length _ _ _ hfits₁, h.room]
    · show (splice _ _ _).length = BUFFER_SIZE
      rw [splice_length _ _ _ hfits₂, h.room']
    · intro i hi hlt
      show (splice _ _ _)[i]? = (splice _ _ _)[i]?
      rw [getElem?_splice hfits₁, getElem?_splice hfits₂]
      split
      · rfl
      · exact h.pending i hi hlt
  · rw [bind_of_error (memcpy_error (by rwa [h.room]) s), bind_of_error (memcpy_error (by rwa [h.room']) s')]
    exact .error (Peers.seen s s' h)

/-- With its header, all of the frame is the same. -/
structure Headed (b : Base δ) (own : Nat) (known : Prop) (s s' : Jtagd δ) : Prop where
  peers : Peers b own known s s'
  frame : ∀ i, i < s.send_buffer_size.toNat → s'.send_buffer[i]? = s.send_buffer[i]?

theorem fill_header_step (mux : BitVec 16) :
    Twins (Seen b) (Peers b own known) (Headed b own known) (fill_header mux) := by
  refine Twins.get_bind fun s s' h => ?_
  rw [h.size]
  generalize compute_header (BitVec.ofInt 16 ((s.send_buffer_size.toNat : Int) - 2)) mux = header
  have hfits₁ : 0 + [((header >>> 8).setWidth 8 : Byte), header.setWidth 8].length ≤ s.send_buffer.length := by
    rw [h.room]
    exact Nat.le_of_ble_eq_true rfl
  have hfits₂ : 0 + [((header >>> 8).setWidth 8 : Byte), header.setWidth 8].length ≤ s'.send_buffer.length := by
    rw [h.room']
    exact Nat.le_of_ble_eq_true rfl
  rw [bind_of_ok (memcpy_ok hfits₁ s), bind_of_ok (memcpy_ok hfits₂ s')]
  have hframe : ∀ i, i < s.send_buffer_size.toNat →
      (splice s'.send_buffer 0 [((header >>> 8).setWidth 8 : Byte), header.setWidth 8])[i]? =
        (splice s.send_buffer 0 [((header >>> 8).setWidth 8 : Byte), header.setWidth 8])[i]? := by
    intro i hlt
    rw [getElem?_splice hfits₁, getElem?_splice hfits₂]
    split
    · rfl
    · rename_i hout
      simp only [List.length_cons, List.length_nil] at hout
      exact h.pending i (by omega) hlt
  refine .ok ⟨{ h with
    room := ?_
    room' := ?_
    size := rfl
    pending := fun i _ hlt => hframe i hlt }, hframe⟩
  · show (splice _ _ _).length = BUFFER_SIZE
    rw [splice_length _ _ _ hfits₁, h.room]
  · show (splice _ _ _).length = BUFFER_SIZE
    rw [splice_length _ _ _ hfits₂, h.room']

theorem write_full_step (data : List Byte) :
    Twins (Told b) (SockPeers b own) (SockPeers b own) (write_full data) := by
  refine Twins.get_bind fun k k' h => ?_
  rw [h.alive]
  split
  · obtain ⟨ws, hws, hws'⟩ := h.told
    refine .ok { h with
      ok := ⟨h.ok.size, h.ok.order, h.ok.bound⟩
      alive := rfl
      told := ⟨ws ++ data, ?_, ?_⟩ }
    · show k.written ++ data = _
      rw [hws, List.append_assoc]
    · show k'.written ++ data = _
      rw [hws', List.append_assoc]
  · exact .ok h

/-- What is done to the connection leaves the rest in step. -/
theorem jtagd_sock_agree {α : Type} {p : EStateM Fault Sock α} {own' : Nat} {s s' : Jtagd δ}
    (h : Peers b own known s s') (hp : Agree (Told b) (SockPeers b own') (p s.sock) (p s'.sock)) :
    Agree (Seen b) (Peers b own' known) (jtagd_sock p s) (jtagd_sock p s') := by
  have hrun : Twins (Told b) (fun k k' => k = s.sock ∧ k' = s'.sock) (SockPeers b own') p := by
    rintro _ _ ⟨rfl, rfl⟩
    exact hp
  have hfocus : Twins (Seen b) (fun t t' => t = s ∧ t' = s') (Peers b own' known) (jtagd_sock p) := by
    refine twins_focus hrun ?_ ?_ ?_
    · rintro t t' ⟨rfl, rfl⟩
      exact ⟨rfl, rfl⟩
    · rintro t t' k k' ⟨rfl, rfl⟩ hk
      exact { h with sock := hk }
    · rintro t t' k k' ⟨rfl, rfl⟩ hk
      exact ⟨b.sees h.jtag, hk⟩
  exact hfocus s s' ⟨rfl, rfl⟩

theorem jtagd_sock_step {α : Type} {p : EStateM Fault Sock α} {own' : Nat}
    (hp : Twins (Told b) (SockPeers b own) (SockPeers b own') p) :
    Twins (Seen b) (Peers b own known) (Peers b own' known) (jtagd_sock p) :=
  fun _ _ h => jtagd_sock_agree h (hp _ _ h.sock)

theorem do_send_step (mux : BitVec 16) : InStep b own known (do_send mux : JtagdProg δ Unit) := by
  refine Twins.bind (fill_header_step mux) fun _ => Twins.get_bind fun s s' h => ?_
  have hbytes : (s'.send_buffer.drop 0).take s'.send_buffer_size.toNat =
      (s.send_buffer.drop 0).take s.send_buffer_size.toNat := by
    rw [h.peers.size, List.drop_zero, List.drop_zero]
    refine List.ext_getElem? fun i => ?_
    rw [List.getElem?_take, List.getElem?_take]
    split
    · exact h.frame i (by assumption)
    · rfl
  have hlt := s.send_buffer_size.isLt
  have hbuffer : BUFFER_SIZE = 4096 := rfl
  rw [bind_of_ok (bytes_at_ok (by rw [h.peers.room]; omega) s),
    bind_of_ok (bytes_at_ok (by rw [h.peers.room', h.peers.size]; omega) s'), hbytes]
  refine Twins.bind (jtagd_sock_step (write_full_step _)) (fun _ => ?_) s s' h.peers
  exact twins_modify fun t t' ht => { ht with
    size := rfl
    pending := fun i hi hlt => absurd (Nat.lt_of_lt_of_le hlt hi) (Nat.lt_irrefl i) }

/-! ## The handlers -/

theorem jtagd_jtag_step {α : Type} {p : EStateM Fault (Jtag δ) α} (hp : Mirrored b.seen b.after p) :
    InStep b own True (jtagd_jtag p) :=
  twins_focus hp (fun _ _ h => h.probed trivial) (fun _ _ _ _ h ht => { h with jtag := b.weaken ht, probed := fun _ => ht })
    (fun _ _ _ _ h ht => ⟨ht, h.sock.told⟩)

theorem pop_fifo_step (buffer : List Byte) {n : Nat} (hn : b.shared ∨ n = 0 ∧ b.level) :
    InStep b own known (pop_fifo buffer n : JtagdProg δ _) := by
  refine Twins.get_bind fun s s' h => ?_
  have hleft : ∀ (f : Nat → List (BitVec 32)) l, Function.update f FIFO_MIN l FIFO_MIN = l :=
    fun f l => Function.update_self _ _ _
  by_cases hshared : b.shared
  · have hfifo := h.fifo hshared
    simp only [hfifo]
    split
    · by_cases hsome : 0 < (s.fifos FIFO_MIN).length
      · rw [bind_of_ok (first_element_ok hsome s), bind_of_ok (first_element_ok hsome s')]
        by_cases hfits : 0 + (((s.fifos FIFO_MIN).flatMap le_bytes).take n).length ≤ buffer.length
        · rw [bind_of_ok (memcpy_ok hfits s), bind_of_ok (memcpy_ok hfits s')]
          have hsame := (hleft s'.fifos ((s.fifos FIFO_MIN).drop n)).trans (hleft s.fifos _).symm
          exact .ok { h with
            fifo := fun _ => hsame
            level := fun _ => Eq.congr_left hsame }
        · rw [bind_of_error (memcpy_error hfits s), bind_of_error (memcpy_error hfits s')]
          exact .error (Peers.seen s s' h)
      · rw [bind_of_error (first_element_error hsome s), bind_of_error (first_element_error hsome s')]
        exact .error (Peers.seen s s' h)
    · exact .ok h
  · -- what is not the same is not copied either, but the first entry has to be there
    obtain ⟨rfl, hlevel⟩ := hn.resolve_left hshared
    have hnone : 0 + ([] : List Byte).length ≤ buffer.length := Nat.zero_le _
    have hiff := h.level hlevel
    simp only [Nat.zero_le, if_true, List.take_zero]
    by_cases hempty : s.fifos FIFO_MIN = []
    · rw [bind_of_error (first_element_error (by rw [hempty]; decide) s),
        bind_of_error (first_element_error (by rw [hiff.mpr hempty]; decide) s')]
      exact .error (Peers.seen s s' h)
    · have hempty' : s'.fifos FIFO_MIN ≠ [] := fun hno => hempty (hiff.mp hno)
      rw [bind_of_ok (first_element_ok (List.length_pos_iff.mpr hempty) s),
        bind_of_ok (first_element_ok (List.length_pos_iff.mpr hempty') s'),
        bind_of_ok (memcpy_ok hnone s), bind_of_ok (memcpy_ok hnone s')]
      refine .ok { h with
        fifo := fun hyes => absurd hyes hshared
        level := fun _ => ?_ }
      show Function.update s'.fifos FIFO_MIN _ FIFO_MIN = [] ↔ Function.update s.fifos FIFO_MIN _ FIFO_MIN = []
      rwa [hleft, hleft, List.drop_zero, List.drop_zero]

theorem body_int_step (body : List Byte) (off : Nat) : InStep b own known (body_int body off) :=
  (bytes_at_twins Peers.seen _ _ _).bind fun _ => twins_pure _

theorem respond_step (resp : Byte) : InStep b own known (respond resp) :=
  (add_response_step _).bind fun _ => end_response_step

theorem add_device_step (device_id : BitVec 32) : InStep b own known (add_device device_id) :=
  (add_int_step _).bind fun _ => (add_int_step _).bind fun _ => (add_int_step _).bind fun _ =>
    (add_int_step _).bind fun _ => (add_int_step _).bind fun _ => add_string_step _

theorem GET_HARDWARE_step : InStep b own known (GET_HARDWARE : JtagdProg δ Unit) :=
  (add_response_step _).bind fun _ => (add_int_step _).bind fun _ => (add_int_step _).bind fun _ =>
    end_response_step.bind fun _ => (do_send_step _).bind fun _ => (add_int_step _).bind fun _ =>
    (add_string_step _).bind fun _ => (add_string_step _).bind fun _ => (add_int_step _).bind fun _ =>
    (add_string_step _).bind fun _ => (add_int_step _).bind fun _ => do_send_step _

theorem GET_VERSION_INFO_step : InStep b own known (GET_VERSION_INFO : JtagdProg δ Unit) :=
  (add_response_step _).bind fun _ => (add_string_step _).bind fun _ => (add_int_step _).bind fun _ =>
    (add_string_step _).bind fun _ => end_response_step

theorem GET_DEFINED_DEVICES_step : InStep b own known (GET_DEFINED_DEVICES : JtagdProg δ Unit) :=
  (add_response_step _).bind fun _ => (add_int_step _).bind fun _ => (add_int_step _).bind fun _ =>
    (add_int_step _).bind fun _ => end_response_step

theorem OPEN_DEVICE_step (hknown : known) : InStep b own known (OPEN_DEVICE : JtagdProg δ Unit) := by
  refine (add_response_step _).bind fun _ => Twins.get_bind fun s s' h => ?_
  rw [h.devices hknown]
  cases s.devices with
  | nil =>
    refine Twins.bind (twins_throw Peers.seen .out_of_bounds) (fun _ => end_response_step) s s' h
  | cons id ids => exact Twins.bind (add_int_step id) (fun _ => end_response_step) s s' h

theorem GET_PARAMETER_step : InStep b own known (GET_PARAMETER : JtagdProg δ Unit) :=
  (add_response_step _).bind fun _ => (add_int_step _).bind fun _ => end_response_step

theorem LOCK_DEVICE_step : InStep b own known (LOCK_DEVICE : JtagdProg δ Unit) :=
  (respond_step _).bind fun _ => do_send_step _

theorem USE_PROTOCOL_VERSION_step : InStep b own known (USE_PROTOCOL_VERSION : JtagdProg δ Unit) :=
  (add_response_step _).bind fun _ => (add_int_step _).bind fun _ => end_response_step

/-- The message asks for bytes of the FIFO. -/
def takes (msg : Message) : Bool := decide (msg.command = 0xC8) && decide (intAt msg.body 20 / 8 ≠ 0)

/-- What the FIFOs hold makes no difference to the message. -/
def Indifferent (b : Base δ) (msg : Message) : Prop :=
  b.shared ∨ takes msg = false ∧ (msg.command = 0xC8 → b.level)

section

variable {d : driver δ} (A : Alike d b.seen b.before b.after)

include A

/-- From then on both servers know the same devices. -/
theorem READ_CHAIN_step (junk : Nat → Byte) :
    Twins (Seen b) (Peers b own known) (Peers b own True) (READ_CHAIN d junk) := by
  have hprobe : Twins (Seen b) (Peers b own known) (fun s s' => Peers b own known s s' ∧ b.after s.jtag s'.jtag)
      (jtagd_jtag (jtag_probe_devices d junk)) :=
    twins_focus (jtag_probe_devices_twins A junk) (fun _ _ h => h.jtag)
      (fun _ _ _ _ h ht => ⟨{ h with jtag := b.weaken ht, probed := fun _ => ht }, ht⟩)
      (fun _ _ _ _ h ht => ⟨ht, h.sock.told⟩)
  refine hprobe.bind fun devices => ?_
  have hset : Twins (Seen b) (fun s s' => Peers b own known s s' ∧ b.after s.jtag s'.jtag) (Peers b own True)
      (modify fun s => { s with devices := devices } : JtagdProg δ Unit) :=
    twins_modify fun s s' h => { h.1 with probed := fun _ => h.2, devices := fun _ => rfl }
  have hrest : InStep b own True (do
      add_response 0
      add_int 1
      add_int (BitVec.ofNat 32 devices.length)
      add_int (BitVec.ofNat 32 (devices.length * (4 + 4 + 4 + 4 + 4 + 1 + DEVICE_NAME.length)))
      end_response
      do_send 0
      devices.forM add_device
      do_send 4 : JtagdProg δ Unit) :=
    (add_response_step _).bind fun _ => (add_int_step _).bind fun _ => (add_int_step _).bind fun _ =>
      (add_int_step _).bind fun _ => end_response_step.bind fun _ => (do_send_step _).bind fun _ =>
      (twins_forM add_device_step).bind fun _ => do_send_step _
  exact hset.bind fun _ => hrest

theorem ACCESS_IR_2_step (body : List Byte) : InStep b own True (ACCESS_IR_2 d body) := by
  unfold ACCESS_IR_2
  refine (index_twins Peers.seen _ _).bind fun _ => (index_twins Peers.seen _ _).bind fun _ =>
    (index_twins Peers.seen _ _).bind fun _ => (index_twins Peers.seen _ _).bind fun _ => ?_
  refine (jtagd_jtag_step (jtag_tms_seq_to_twins A _)).bind fun _ => ?_
  refine (jtagd_jtag_step (A.scan _ _ _ _ _)).bind fun r => ?_
  exact (add_response_step _).bind fun _ => (add_int_step _).bind fun _ => end_response_step.bind fun _ =>
    do_send_step _

theorem ACCESS_DR_2_step {body : List Byte} (hbody : b.shared ∨ intAt body 20 / 8 = 0 ∧ b.level) :
    InStep b own True (ACCESS_DR_2 d body) := by
  unfold ACCESS_DR_2
  refine (body_int_step _ _).bind fun _ => fun s s' h => ?_
  refine Agree.bind (body_int_step _ _ s s' h) ?_
  intro write_length t t' hwrite ht
  obtain ⟨-, rfl⟩ := body_int_spec body 20 s _ t hwrite
  refine Twins.bind (body_int_step _ _) (fun read => (pop_fifo_step _ hbody).bind fun popped =>
    twins_ite (fun _ => ?_) fun _ => twins_pure _) t t' ht
  refine (jtagd_jtag_step (jtag_tms_seq_to_twins A _)).bind fun _ => ?_
  refine (jtagd_jtag_step (A.scan _ _ _ _ _)).bind fun r => ?_
  refine (respond_step 0).bind fun _ => (do_send_step 0).bind fun _ => twins_ite (fun _ => ?_) fun _ => twins_pure _
  exact (add_array_step _ _).bind fun _ => (do_send_step 4).bind fun _ => twins_pure _

theorem RUN_TEST_IDLE_step : InStep b own True (RUN_TEST_IDLE d) :=
  (jtagd_jtag_step (jtag_tms_seq_to_twins A _)).bind fun _ => (respond_step 0).bind fun _ => do_send_step 0

/-- Two servers that know the same devices do the same for a message. -/
theorem handle_message_step (junk : Nat → Byte) {msg : Message} (hmsg : Indifferent b msg) :
    InStep b own True (handle_message d junk msg) := by
  have hdone : ∀ {p : JtagdProg δ Unit}, InStep b own True p → InStep b own True (do p; pure true) :=
    fun hp => hp.bind fun _ => twins_pure _
  unfold handle_message
  refine twins_ite (fun _ => hdone GET_HARDWARE_step) fun _ => ?_
  refine twins_ite (fun _ => hdone GET_VERSION_INFO_step) fun _ => ?_
  refine twins_ite (fun _ => hdone GET_DEFINED_DEVICES_step) fun _ => ?_
  refine twins_ite (fun _ => hdone (respond_step _)) fun _ => ?_
  refine twins_ite (fun _ => hdone (respond_step _)) fun _ => ?_
  refine twins_ite (fun _ => hdone (READ_CHAIN_step A junk)) fun _ => ?_
  refine twins_ite (fun _ => hdone (OPEN_DEVICE_step trivial)) fun _ => ?_
  refine twins_ite (fun _ => hdone (respond_step _)) fun _ => ?_
  refine twins_ite (fun _ => hdone GET_PARAMETER_step) fun _ => ?_
  refine twins_ite (fun _ => hdone (respond_step _)) fun _ => ?_
  refine twins_ite (fun _ => hdone LOCK_DEVICE_step) fun _ => ?_
  refine twins_ite (fun _ => hdone (respond_step _)) fun _ => ?_
  refine twins_ite (fun _ => hdone (ACCESS_IR_2_step A _)) fun _ => ?_
  refine twins_ite (fun hC8 => ACCESS_DR_2_step A (hmsg.imp_right fun h => ⟨?_, h.2 hC8⟩)) fun _ => ?_
  · simpa [takes, hC8] using h.1
  refine twins_ite (fun _ => hdone (RUN_TEST_IDLE_step A)) fun _ => ?_
  exact twins_ite (fun _ => hdone USE_PROTOCOL_VERSION_step) fun _ => hdone (respond_step _)

/-! ## The queue -/

omit A in
/-- A round of the loop, when the handler agrees and the rest of the queue does. -/
theorem message_round_step {junk : Nat → Byte} {fuel : Nat} {msg : Message} {rest : List Message}
    {s s' : Jtagd δ} (h : Peers b own known s s') (hmessages : s.messages = msg :: rest)
    (hhead : Agree (Seen b) (Peers b own True) (handle_message d junk msg s) (handle_message d junk msg s'))
    (hrest : ∀ t t', Peers b own True t t' → t.messages = rest →
      Agree (Seen b) (Peers b own True) (message_loop d junk fuel t) (message_loop d junk fuel t')) :
    Agree (Seen b) (Peers b own True) (message_loop d junk (fuel + 1) s) (message_loop d junk (fuel + 1) s') := by
  rw [message_loop, bind_of_ok (get_apply s), bind_of_ok (get_apply s'), h.messages, hmessages]
  refine Agree.bind hhead ?_
  intro ok t t' hrun ht
  cases ok with
  | false => exact .ok ht
  | true =>
    refine hrest _ _ { ht with messages := congrArg List.tail ht.messages } ?_
    show t.messages.tail = rest
    rw [messages_of_windowOf (handle_message_aside d junk msg s true t hrun), hmessages]
    rfl

theorem message_loop_step (junk : Nat → Byte) (fuel : Nat) {s s' : Jtagd δ} (h : Peers b own True s s')
    (hmsgs : ∀ msg ∈ s.messages, Indifferent b msg) :
    Agree (Seen b) (Peers b own True) (message_loop d junk fuel s) (message_loop d junk fuel s') := by
  induction fuel generalizing s s' with
  | zero => exact .ok h
  | succ fuel ih =>
    cases hmessages : s.messages with
    | nil =>
      rw [message_loop, bind_of_ok (get_apply s), bind_of_ok (get_apply s'), h.messages, hmessages]
      exact .ok h
    | cons msg rest =>
      rw [hmessages] at hmsgs
      have hmsg := hmsgs msg (List.mem_cons_self ..)
      refine message_round_step h hmessages (handle_message_step A junk hmsg s s' h) fun t t' ht hleft => ?_
      refine ih ht fun m hm => ?_
      rw [hleft] at hm
      exact hmsgs m (List.mem_cons_of_mem _ hm)

end

end JtagRemote.Jtagd
