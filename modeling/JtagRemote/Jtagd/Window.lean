import JtagRemote.Jtagd.Turns

/-!
# The window of the jtagd server

The packet loop takes whole packets off the window, and what is done for the
messages leaves the window alone.
-/

namespace JtagRemote.Jtagd

variable {δ : Type} {s : Jtagd δ}

/-! ## Off the window -/

theorem parse_messages_sock (stop fuel p : Nat) (s : Jtagd δ) :
    Ensures (parse_messages stop fuel p) s fun _ t => t.sock = s.sock := by
  induction fuel generalizing p s with
  | zero =>
    unfold parse_messages
    exact ensures_ite (fun _ => ensures_throw) fun _ => ensures_pure rfl
  | succ fuel ih =>
    unfold parse_messages
    refine ensures_ite (fun _ => ?_) fun _ => ensures_pure rfl
    refine Ensures.get_bind (Ensures.bind (index_spec _ _ s) ?_)
    rintro command _ ⟨rfl, -, -⟩
    refine Ensures.bind (index_spec _ _ _) ?_
    rintro hi _ ⟨rfl, -, -⟩
    refine Ensures.bind (index_spec _ _ _) ?_
    rintro lo _ ⟨rfl, -, -⟩
    refine Ensures.bind (bytes_at_spec _ _ _ _) ?_
    rintro bytes s ⟨rfl, -, -⟩
    exact ensures_ite (fun _ => ensures_pure rfl) fun _ => Ensures.set_bind (ih _ _)

theorem handle_packet_sock (mux length : Nat) (s : Jtagd δ) :
    Ensures (handle_packet mux length) s fun _ t => t.sock = s.sock := by
  unfold handle_packet
  refine Ensures.get_bind (ensures_ite (fun _ => parse_messages_sock _ _ _ s) fun _ => ?_)
  exact ensures_ite (fun _ => ensures_modify rfl) fun _ => ensures_pure rfl

/-- The loop takes all whole packets. -/
theorem packet_loop_splits (h : s.sock.Ok) (fuel : Nat) :
    Ensures (packet_loop fuel) s fun _ t => t.sock.Ok ∧
      ∃ us, packets.Splits s.sock.window us t.sock.window := by
  induction fuel generalizing s with
  | zero => exact ensures_throw
  | succ fuel ih =>
    cases hn : packetLen s.sock.window with
    | none =>
      intro _ t ht
      rw [packet_loop_stop h hn] at ht
      cases ht
      exact ⟨h, [], .stop hn⟩
    | some n =>
      obtain ⟨hlen, hle, hround⟩ := @packet_loop_round _ _ fuel h _ hn
      rw [Ensures, hround]
      refine Ensures.bind (handle_packet_sock _ _ _) fun _ t ht => ?_
      refine Ensures.modify_bind ?_
      have hsock : ({ t.sock with buffer_begin := t.sock.buffer_begin + lengthOf s.sock.window } : Sock) =
          s.sock.consume n := by
        rw [ht, hlen]
        show ({ s.sock with buffer_begin := s.sock.buffer_begin + 2 + _ } : Sock) = _
        rw [Nat.add_assoc]
        rfl
      have hok : (s.sock.consume n).Ok := h.consume hle
      rw [← hsock] at hok
      refine (ih (s := { t with sock := { t.sock with
        buffer_begin := t.sock.buffer_begin + lengthOf s.sock.window } }) hok).mono ?_
      rintro _ u ⟨hu, us, hsplits⟩
      refine ⟨hu, s.sock.window.take n :: us, .unit hn ?_⟩
      simp only at hsplits
      rwa [hsock, Sock.window_consume] at hsplits

/-- A window that is one packet is taken as a whole. -/
theorem packet_loop_takes (h : s.sock.Ok) {u : List Byte} (hu : packets.next u = some u.length)
    (hwin : s.sock.window = u) (fuel : Nat) :
    Ensures (packet_loop fuel) s fun _ t => t.sock.Ok ∧ t.sock.window = [] := by
  refine (packet_loop_splits h fuel).mono ?_
  rintro _ t ⟨hok, us, hsplits⟩
  rw [hwin] at hsplits
  exact ⟨hok, (hsplits.unique (.whole hu)).2⟩

/-! ## Aside of the window -/

/-- The window and the queue, whatever was written. -/
def windowOf (s : Jtagd δ) : Sock × List Message := ({ s.sock with written := [] }, s.messages)

theorem sock_of_windowOf {t : Jtagd δ} (h : windowOf t = windowOf s) :
    t.sock = { s.sock with written := t.sock.written } := by
  have hsock := congrArg (fun k : Sock × List Message => { k.1 with written := t.sock.written }) h
  exact hsock

theorem messages_of_windowOf {t : Jtagd δ} (h : windowOf t = windowOf s) : t.messages = s.messages :=
  congrArg Prod.snd h

def Aside {α : Type} (p : JtagdProg δ α) : Prop := Keeps windowOf p

theorem SendOnly.aside {α : Type} {p : JtagdProg δ α} (h : SendOnly p) : Aside p := by
  refine fun s => (h s).ensures.mono fun _ t ht => ?_
  rw [ht.rest]
  rfl

theorem jtagd_jtag_aside {α : Type} (p : EStateM Fault (Jtag δ) α) : Aside (jtagd_jtag p) := keeps_focus fun _ _ => rfl

theorem body_int_aside (body : List Byte) (off : Nat) : Aside (body_int body off : JtagdProg δ Nat) :=
  (bytes_at_keeps _ _ _).bind fun _ => keeps_pure _

theorem pop_fifo_aside (buffer : List Byte) (n : Nat) : Aside (pop_fifo buffer n : JtagdProg δ (Bool × List Byte)) := by
  unfold pop_fifo
  intro s
  refine Ensures.get_bind (ensures_ite (fun _ => ?_) fun _ => ensures_pure rfl)
  refine Ensures.bind (first_element_spec _ s) ?_
  rintro _ s ⟨rfl, -⟩
  refine Ensures.bind (memcpy_spec _ _ _ s) ?_
  rintro _ s ⟨rfl, -, -⟩
  exact Ensures.set_bind (ensures_pure rfl)

section

variable (d : driver δ)

theorem READ_CHAIN_aside (junk : Nat → Byte) : Aside (READ_CHAIN d junk) := by
  refine (jtagd_jtag_aside _).bind fun devices => ?_
  have hrest : SendOnly (do
      add_response 0
      add_int 1
      add_int (BitVec.ofNat 32 devices.length)
      add_int (BitVec.ofNat 32 (devices.length * (4 + 4 + 4 + 4 + 4 + 1 + DEVICE_NAME.length)))
      end_response
      do_send 0
      devices.forM add_device
      do_send 4 : JtagdProg δ Unit) :=
    (add_response_only _).bind fun _ => (add_int_only _).bind fun _ => (add_int_only _).bind fun _ =>
      (add_int_only _).bind fun _ => end_response_only.bind fun _ => (do_send_only _).bind fun _ =>
      (forM_only add_device_only _).bind fun _ => do_send_only _
  have hset : Aside (modify fun s => { s with devices := devices } : JtagdProg δ Unit) := keeps_modify fun _ => rfl
  exact hset.bind fun _ => hrest.aside

theorem ACCESS_IR_2_aside (body : List Byte) : Aside (ACCESS_IR_2 d body) := by
  unfold ACCESS_IR_2
  refine (index_keeps _ _).bind fun _ => (index_keeps _ _).bind fun _ => (index_keeps _ _).bind fun _ =>
    (index_keeps _ _).bind fun _ => (jtagd_jtag_aside _).bind fun _ => (jtagd_jtag_aside _).bind fun r => ?_
  have hrest : SendOnly (do
      add_response 0
      add_int (BitVec.ofNat 32 (le32 r.2))
      end_response
      do_send 0 : JtagdProg δ Unit) :=
    (add_response_only _).bind fun _ => (add_int_only _).bind fun _ => end_response_only.bind fun _ => do_send_only _
  exact hrest.aside

theorem ACCESS_DR_2_aside (body : List Byte) : Aside (ACCESS_DR_2 d body) := by
  unfold ACCESS_DR_2
  refine (body_int_aside _ _).bind fun _ => (body_int_aside _ _).bind fun _ => (body_int_aside _ _).bind fun read =>
    (pop_fifo_aside _ _).bind fun popped => keeps_ite ?_ (keeps_pure _)
  refine (jtagd_jtag_aside _).bind fun _ => (jtagd_jtag_aside _).bind fun r => ?_
  refine (respond_only 0).aside.bind fun _ => (do_send_only 0).aside.bind fun _ => keeps_ite ?_ (keeps_pure _)
  exact (add_array_only _ _).aside.bind fun _ => (do_send_only 4).aside.bind fun _ => keeps_pure _

theorem RUN_TEST_IDLE_aside : Aside (RUN_TEST_IDLE d) :=
  (jtagd_jtag_aside _).bind fun _ => (respond_only 0).aside.bind fun _ => (do_send_only 0).aside

theorem handle_message_aside (junk : Nat → Byte) (msg : Message) : Aside (handle_message d junk msg) := by
  have hdone : ∀ {p : JtagdProg δ Unit}, Aside p → Aside (do p; pure true) := fun hp => hp.bind fun _ => keeps_pure _
  unfold handle_message
  refine keeps_ite (hdone GET_HARDWARE_only.aside) ?_
  refine keeps_ite (hdone GET_VERSION_INFO_only.aside) ?_
  refine keeps_ite (hdone GET_DEFINED_DEVICES_only.aside) ?_
  refine keeps_ite (hdone (respond_only _).aside) ?_
  refine keeps_ite (hdone (respond_only _).aside) ?_
  refine keeps_ite (hdone (READ_CHAIN_aside d junk)) ?_
  refine keeps_ite (hdone OPEN_DEVICE_only.aside) ?_
  refine keeps_ite (hdone (respond_only _).aside) ?_
  refine keeps_ite (hdone GET_PARAMETER_only.aside) ?_
  refine keeps_ite (hdone (respond_only _).aside) ?_
  refine keeps_ite (hdone LOCK_DEVICE_only.aside) ?_
  refine keeps_ite (hdone (respond_only _).aside) ?_
  refine keeps_ite (hdone (ACCESS_IR_2_aside d _)) ?_
  refine keeps_ite (ACCESS_DR_2_aside d _) ?_
  refine keeps_ite (hdone (RUN_TEST_IDLE_aside d)) ?_
  exact keeps_ite (hdone USE_PROTOCOL_VERSION_only.aside) (hdone (respond_only _).aside)

/-- The queue gets shorter, and the window stays. -/
theorem handle_messages_sock (junk : Nat → Byte) (s : Jtagd δ) :
    Ensures (handle_messages d junk) s fun _ t => t.sock = { s.sock with written := t.sock.written } := by
  have hloop : ∀ (fuel : Nat) (s : Jtagd δ), Ensures (message_loop d junk fuel) s fun _ t =>
      t.sock = { s.sock with written := t.sock.written } := by
    intro fuel
    induction fuel with
    | zero => exact fun s => ensures_pure rfl
    | succ fuel ih =>
      intro s
      unfold message_loop
      refine Ensures.get_bind ?_
      split
      · exact ensures_pure rfl
      · refine Ensures.bind (handle_message_aside d junk _ s) fun ok t ht => ?_
        refine ensures_ite (fun _ => Ensures.modify_bind ?_) fun _ => ensures_pure (sock_of_windowOf ht)
        refine (ih _).mono fun _ u hu => ?_
        rw [hu]
        exact congrArg (fun k : Sock => { k with written := u.sock.written }) (sock_of_windowOf ht)
  unfold handle_messages
  refine Ensures.get_bind (Ensures.bind (hloop _ s) fun _ t ht => Ensures.get_bind ?_)
  refine ensures_ite (fun _ => ?_) fun _ => ensures_pure ht
  refine ((do_send_only 0).aside t).mono fun _ u hu => ?_
  rw [sock_of_windowOf hu]
  exact congrArg (fun k : Sock => { k with written := u.sock.written }) ht

end

end JtagRemote.Jtagd
