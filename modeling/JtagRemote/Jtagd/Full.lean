import JtagRemote.Stream
import JtagRemote.Jtagd.Window
import JtagRemote.Jtagd.Blocks

/-!
# Packets that the window cannot hold

The header of a packet needs room in the window too. A packet that is longer than the
window is never complete, and then the server neither reads nor consumes.
-/

namespace JtagRemote.Jtagd

variable {δ : Type} {s : Jtagd δ}

/-! ## Two kinds of ticks -/

theorem tick_connected {d : driver δ} {junk : Nat → Byte} {net : Net} (h : s.sock.client_fd ≥ 0) :
    jtag_jtagd_tick d junk net s = (do
      if ← jtagd_sock (read_socket net.recv) then
        packet_loop (BUFFER_SIZE + 1)
        handle_messages d junk
      else pure ()) { s with send_buffer_size := 2 } := by
  unfold jtag_jtagd_tick
  rw [bind_of_ok (modify_apply _ s), bind_of_ok (get_apply _)]
  exact congrFun (if_pos h) _

theorem tick_alone {d : driver δ} {junk : Nat → Byte} {net : Net} (h : ¬ s.sock.client_fd ≥ 0) :
    jtag_jtagd_tick d junk net s = (do
      if ← jtagd_sock (try_accept net.accept) then hello else pure ())
      { s with send_buffer_size := 2, messages := [] } := by
  unfold jtag_jtagd_tick
  rw [bind_of_ok (modify_apply _ s), bind_of_ok (get_apply _)]
  refine (congrFun (if_neg h) _).trans ?_
  rw [bind_of_ok (modify_apply _ _)]

theorem jtagd_sock_spec {α : Type} {p : EStateM Fault Sock α} {P : α → Sock → Prop} (hp : Ensures p s.sock P) :
    Ensures (jtagd_sock p) s fun a t => ∃ k, P a k ∧ t = { s with sock := k } := hp.focus

theorem jtagd_sock_ok {α : Type} {p : EStateM Fault Sock α} {a : α} {k : Sock} (hp : p s.sock = .ok a k) :
    jtagd_sock p s = .ok a { s with sock := k } := by
  unfold jtagd_sock focus
  rw [hp]

/-! ## The hello -/

/-- The program returns, and the buffer keeps its size. -/
def Adds (p : JtagdProg δ Unit) : Prop := ∀ s, s.send_buffer.length = BUFFER_SIZE →
  Returns p s fun _ t => t.send_buffer.length = BUFFER_SIZE

theorem Adds.bind {p q : JtagdProg δ Unit} (hp : Adds p) (hq : Adds q) : Adds (p >>= fun _ => q) :=
  fun s h => Returns.bind (hp s h) fun _ t ht => hq t ht

/-- The counter has one byte, and the buffer has more than it can count. -/
theorem append_bytes_adds {data : List Byte} (hdata : data.length ≤ 256) :
    Adds (append_bytes data : JtagdProg δ Unit) := by
  intro s h
  have hsize := s.send_buffer_size.isLt
  have hbuffer : BUFFER_SIZE = 4096 := rfl
  have hfits : s.send_buffer_size.toNat + data.length ≤ s.send_buffer.length := by omega
  unfold append_bytes
  refine Returns.get_bind (Returns.of_eq_bind (memcpy_ok hfits s) (returns_modify ?_))
  show (splice _ _ _).length = BUFFER_SIZE
  rw [splice_length _ _ _ hfits, h]

theorem assert_room_adds {n : Nat} (hn : n ≤ 256) : Adds (assert_room n : JtagdProg δ Unit) := by
  intro s h
  have hsize := s.send_buffer_size.isLt
  have hbuffer : BUFFER_SIZE = 4096 := rfl
  unfold assert_room
  refine Returns.get_bind ⟨⟨⟩, s, assert_ok ?_ s, h⟩
  rw [decide_eq_true_eq]
  omega

theorem add_int_adds (value : BitVec 32) : Adds (add_int value : JtagdProg δ Unit) :=
  (assert_room_adds (by decide)).bind (append_bytes_adds (by simp [be32]))

theorem add_string_adds {data : List Byte} (hdata : data.length ≤ 0xff) :
    Adds (add_string data : JtagdProg δ Unit) := by
  intro s h
  unfold add_string
  refine Returns.of_eq_bind (assert_ok (by rw [decide_eq_true_eq]; exact hdata) s) ?_
  exact (assert_room_adds (by omega)).bind
    ((append_bytes_adds (by simp)).bind (append_bytes_adds (by omega))) s h

theorem do_send_adds (mux : BitVec 16) : Adds (do_send mux : JtagdProg δ Unit) := by
  intro s h
  have hsize := s.send_buffer_size.isLt
  have hbuffer : BUFFER_SIZE = 4096 := rfl
  have hheader : ∀ header : BitVec 16,
      0 + [((header >>> 8).setWidth 8 : Byte), header.setWidth 8].length ≤ s.send_buffer.length := by
    intro header
    rw [h]
    exact Nat.le_of_ble_eq_true rfl
  have hfill : Returns (fill_header mux) s fun _ t =>
      t.send_buffer.length = BUFFER_SIZE ∧ t.send_buffer_size = s.send_buffer_size := by
    unfold fill_header
    refine Returns.get_bind (Returns.of_eq_bind (memcpy_ok (hheader _) s) (returns_modify ⟨?_, rfl⟩))
    show (splice _ _ _).length = BUFFER_SIZE
    rw [splice_length _ _ _ (hheader _), h]
  unfold do_send
  refine Returns.bind hfill ?_
  rintro _ t ⟨hlen, hcount⟩
  refine Returns.get_bind (Returns.of_eq_bind (bytes_at_ok (by rw [hcount]; omega) t) ?_)
  have hwrite : ∀ bytes, ∃ ok k, write_full bytes t.sock = .ok ok k := by
    intro bytes
    unfold write_full
    rw [bind_of_ok (get_apply _)]
    split
    · exact ⟨_, _, rfl⟩
    · exact ⟨_, _, rfl⟩
  obtain ⟨ok, k, hk⟩ := hwrite ((t.send_buffer.drop 0).take t.send_buffer_size.toNat)
  exact Returns.of_eq_bind (jtagd_sock_ok hk) (returns_modify hlen)

theorem hello_adds : Adds (hello : JtagdProg δ Unit) :=
  (add_string_adds (by decide)).bind ((add_int_adds 13).bind ((add_int_adds 0).bind (do_send_adds 0)))

/-! ## The server from its start -/

def bootJtagd (c : Jtag δ) : Jtagd δ := { freshJtagd c with sock := bootSock, send_buffer_size := 0 }

/-- What comes from outside during a tick. -/
structure Input where
  junk : Nat → Byte
  net : Net

def step (d : driver δ) (i : Input) : JtagdProg δ Unit := jtag_jtagd_tick d i.junk i.net

theorem step_ok (d : driver δ) (i : Input) (h : s.sock.Ok) : Ensures (step d i) s fun _ t => t.sock.Ok := by
  unfold step
  by_cases hfd : s.sock.client_fd ≥ 0
  · rw [Ensures, tick_connected hfd]
    refine Ensures.bind (jtagd_sock_spec (h.read_socket_ok i.net.recv).ensures) ?_
    rintro r _ ⟨k, ⟨hk, -⟩, rfl⟩
    refine ensures_ite (fun _ => ?_) fun _ => ensures_pure hk
    refine Ensures.bind (packet_loop_splits (s := { s with send_buffer_size := 2, sock := k }) hk _) ?_
    rintro _ t ⟨ht, -⟩
    exact (handle_messages_sock d i.junk t).mono fun _ u hu => ht.of_written hu
  · rw [Ensures, tick_alone hfd]
    have haccept : Ensures (try_accept i.net.accept) s.sock fun _ k => k.Ok := by
      unfold try_accept
      refine ensures_ite (fun _ => Ensures.modify_bind (ensures_pure ?_)) fun _ => ensures_pure h
      exact ⟨h.size, h.order, h.bound⟩
    refine Ensures.bind (jtagd_sock_spec haccept) ?_
    rintro r _ ⟨k, hk, rfl⟩
    refine ensures_ite (fun _ => ?_) fun _ => ensures_pure hk
    exact (hello_only.aside _).mono fun _ u hu => hk.of_written (sock_of_windowOf hu)

theorem reaches_ok {d : driver δ} {c : Jtag δ} (h : Reaches (step d) (bootJtagd c) s) : s.sock.Ok :=
  h.invariant bootSock_ok fun i _ ht => step_ok d i ht

/-! ## Stuck -/

/-- The window is full with the beginning of the unit `u`, and nothing is consumed. -/
structure Stuck (s : Jtagd δ) (u : List Byte) : Prop where
  clogged : s.sock.Clogged u
  waits : ∃ t, packet_loop (BUFFER_SIZE + 1) s = .ok () t ∧ t.sock = s.sock

/-- A packet whose length the header can tell. -/
structure Legal where
  frame : Frame
  pos : 1 ≤ frame.body.length
  le : frame.body.length ≤ 4096
  mux : frame.mux.toNat < 16

def Legal.bytes (p : Legal) : List Byte := p.frame.bytes

theorem Legal.next (p : Legal) : packets.next p.bytes = some p.bytes.length :=
  Frame.next_bytes p.pos p.le p.mux

/-- What a packet is for: its messages are queued, or the FIFO of its mux gets entries. -/
structure Taken (f : Frame) (s q : Jtagd δ) : Prop where
  window : q.sock.window = []
  messages : f.mux = 0 → ∀ ms : List Message, f.body = ms.flatMap encodeMessage → q.messages = s.messages ++ ms
  fifo : 4 ≤ f.mux.toNat → ∃ n w, 0 < n ∧ q.fifos f.mux.toNat = s.fifos f.mux.toNat ++ List.replicate n w

/-- A tick in which a client sends these bytes. -/
def receives (d : driver δ) (junk : Nat → Byte) (piece : List Byte) : JtagdProg δ Unit := step d ⟨junk, ⟨deliver piece, false⟩⟩

/-- The bytes come in, the packet is there as a whole, and the tick takes it and goes on to the queue. A block has to
be made of messages for that; what stands in it otherwise, the tick leaves nothing of it if it returns. -/
structure TakesPacket (d : driver δ) (junk : Nat → Byte) (p : Legal) (piece : List Byte) (s : Jtagd δ) : Prop where
  whole : ∃ k, read_socket (deliver piece) s.sock = .ok true k ∧ k.window = p.bytes
  taken : (p.frame.mux = 0 → ∃ ms : List Message, p.frame.body = ms.flatMap encodeMessage) →
    ∃ q, Taken p.frame s q ∧ receives d junk piece s = handle_messages d junk q
  gone : ∀ t, receives d junk piece s = .ok () t → t.sock.window = []

/-- The server never gets stuck in a packet of this size, and handles it once all of it came in, if nothing else is
pending. -/
structure Processed (d : driver δ) (c : Jtag δ) {n : Nat} (cut : Cut n) : Prop where
  never_stuck : ∀ (p : Legal) s, p.bytes.length = n → Reaches (step d) (bootJtagd c) s → ¬ Stuck s p.bytes
  handled : ∀ (p : Legal) junk s, p.bytes.length = n → Reaches (step d) (bootJtagd c) s → s.sock.client_fd ≥ 0 →
    s.sock.window = [] →
    InPieces (fun piece s t => receives d junk piece s = .ok () t) (TakesPacket d junk p) (cut.pieces p.bytes) s

variable {d : driver δ} {c : Jtag δ}

theorem not_stuck (h : s.sock.Ok) (p : Legal) (hfits : p.bytes.length ≤ BUFFER_SIZE) : ¬ Stuck s p.bytes := by
  intro hs
  obtain ⟨hwin, hne⟩ := hs.clogged.whole h hfits
  obtain ⟨t, hrun, hsock⟩ := hs.waits
  have hempty := (packet_loop_takes h p.next hwin _ () t hrun).2
  rw [hsock] at hempty
  exact hne hempty

/-- The messages of a short block have a length that the header can tell. -/
theorem block_lengths {ms : List Message} (h : (ms.flatMap encodeMessage).length ≤ 4096) :
    ∀ m ∈ ms, m.body.length < 65532 := by
  intro m hm
  have hsub : (encodeMessage m).length ≤ (ms.flatMap encodeMessage).length :=
    (List.sublist_flatten_of_mem (List.mem_map_of_mem hm)).length_le
  have hlen : (encodeMessage m).length = 4 + m.body.length := response_length m.command m.body
  omega

theorem handle_packet_takes {f : Frame} {before after : List Byte} (hle : f.body.length ≤ 4096)
    (hbuf : s.sock.buffer = before ++ f.body ++ after) (hstart : s.sock.buffer_begin = before.length)
    (hpos : 0 < before.length) (hblock : f.mux = 0 → ∃ ms : List Message, f.body = ms.flatMap encodeMessage) :
    ∃ t, handle_packet f.mux.toNat f.body.length s = .ok () t ∧ t.sock = s.sock ∧
      (f.mux = 0 → ∀ ms : List Message, f.body = ms.flatMap encodeMessage → t.messages = s.messages ++ ms) ∧
      (4 ≤ f.mux.toNat → ∃ n w, 0 < n ∧ t.fifos f.mux.toNat = s.fifos f.mux.toNat ++ List.replicate n w) := by
  have hparse : ∀ ms : List Message, f.body = ms.flatMap encodeMessage →
      handle_packet 0 f.body.length s = .ok () { s with messages := s.messages ++ ms } := by
    intro ms hms
    have hparses := parses_bytes (block_lengths (hms ▸ hle) : ∀ m ∈ ms, m.body.length < 65532)
    rw [← hms] at hparses
    exact hparses.packet hbuf hstart
  by_cases hzero : f.mux = 0
  · obtain ⟨ms, hms⟩ := hblock hzero
    refine ⟨{ s with messages := s.messages ++ ms }, ?_, rfl, fun _ ms' hms' => ?_, fun hfour => ?_⟩
    · rw [hzero]
      exact hparse ms hms
    · have hsame := (hparse ms hms).symm.trans (hparse ms' hms')
      rw [EStateM.Result.ok.injEq] at hsame
      exact congrArg Jtagd.messages hsame.2
    · rw [hzero] at hfour
      exact absurd hfour (by decide)
  · have hmux : f.mux.toNat ≠ 0 := fun h => hzero (BitVec.eq_of_toNat_eq h)
    unfold handle_packet
    rw [bind_of_ok (get_apply s)]
    by_cases hfour : f.mux.toNat ≥ 4
    · refine ⟨_, (congrFun (if_neg hmux) s).trans (congrFun (if_pos hfour) s), rfl, fun h => absurd h hzero, fun _ => ?_⟩
      refine ⟨s.sock.buffer_begin, BitVec.ofNat 32 (s.sock.buffer_begin + f.body.length), by rw [hstart]; exact hpos, ?_⟩
      exact Function.update_self _ _ s.fifos
    · refine ⟨s, (congrFun (if_neg hmux) s).trans (congrFun (if_neg hfour) s), rfl, fun h => absurd h hzero, fun h => absurd h hfour⟩

/-- The window is the packet, and the loop takes it. -/
theorem packet_taken (h : s.sock.Ok) (p : Legal) (hwin : s.sock.window = p.bytes)
    (hblock : p.frame.mux = 0 → ∃ ms : List Message, p.frame.body = ms.flatMap encodeMessage) (fuel : Nat) :
    ∃ q, packet_loop (fuel + 2) s = .ok () q ∧ Taken p.frame s q := by
  have hn : packetLen s.sock.window = some p.bytes.length := by
    rw [hwin]
    exact p.next
  have hmux : muxOf s.sock.window = p.frame.mux.toNat := by
    rw [hwin]
    exact Frame.muxOf_bytes p.pos p.le p.mux
  have hlength : lengthOf s.sock.window = p.frame.body.length := by
    rw [hwin]
    exact Frame.lengthOf_bytes p.pos p.le p.mux
  obtain ⟨hlen, -, hround⟩ := @packet_loop_round _ _ (fuel + 1) h _ hn
  rw [hmux, hlength] at hround
  rw [hlength] at hlen
  have hsize := h.size
  have hbound := h.bound
  have hwlen := h.window_length
  rw [hwin] at hwlen
  have hdrop : (s.sock.window).drop 2 = p.frame.body := by
    rw [hwin]
    rfl
  have hbody : (s.sock.buffer.take s.sock.buffer_end).drop (s.sock.buffer_begin + 2) = p.frame.body := by
    rw [← List.drop_drop]
    exact hdrop
  have hbefore : ((s.sock.buffer.take s.sock.buffer_end).take (s.sock.buffer_begin + 2)).length =
      s.sock.buffer_begin + 2 := by
    rw [List.length_take, List.length_take]
    omega
  have hbuf : s.sock.buffer = (s.sock.buffer.take s.sock.buffer_end).take (s.sock.buffer_begin + 2) ++ p.frame.body ++
      s.sock.buffer.drop s.sock.buffer_end := by
    rw [← hbody, List.take_append_drop, List.take_append_drop]
  have hok : (s.sock.consume p.bytes.length).Ok := h.consume (by rw [hwin])
  have hnone : packetLen (s.sock.consume p.bytes.length).window = none := by
    rw [Sock.window_consume, hwin, List.drop_length]
    rfl
  obtain ⟨t, hrun, hsock, hmessages, hfifo⟩ := @handle_packet_takes _ { s with sock := s.sock.consume 2 } p.frame _ _
    p.le hbuf hbefore.symm (by rw [hbefore]; omega) hblock
  have hconsume : ({ t.sock with buffer_begin := t.sock.buffer_begin + p.frame.body.length } : Sock) =
      s.sock.consume p.bytes.length := by
    rw [hsock, hlen]
    show ({ s.sock with buffer_begin := s.sock.buffer_begin + 2 + _ } : Sock) = _
    rw [Nat.add_assoc]
    rfl
  refine ⟨{ t with sock := s.sock.consume p.bytes.length }, ?_, ?_, hmessages, hfifo⟩
  · rw [hround, bind_of_ok hrun, jtagd_consume, bind_of_ok (modify_apply _ t), hconsume]
    exact packet_loop_stop (s := { t with sock := s.sock.consume p.bytes.length }) hok hnone
  · show (s.sock.consume p.bytes.length).window = []
    rw [Sock.window_consume, hwin, List.drop_length]

theorem step_takes (h : s.sock.Ok) (p : Legal) {i : Input} {k : Sock} {t : Jtagd δ}
    (hfd : s.sock.client_fd ≥ 0) (hread : read_socket i.net.recv s.sock = .ok true k) (hwin : k.window = p.bytes)
    (hrun : step d i s = .ok () t) : t.sock.window = [] := by
  have hk : k.Ok := ((h.read_socket_ok i.net.recv).ensures true k hread).1
  have hstep : Ensures (step d i) s fun _ t => t.sock.window = [] := by
    rw [step, Ensures, tick_connected hfd]
    refine Ensures.of_eq_bind (jtagd_sock_ok (s := { s with send_buffer_size := 2 }) hread) ?_
    refine Ensures.bind (packet_loop_takes (s := { s with send_buffer_size := 2, sock := k }) hk p.next hwin _) ?_
    rintro _ t ⟨-, ht⟩
    refine (handle_messages_sock d i.junk t).mono fun _ u hu => ?_
    rw [hu]
    exact ht
  exact hstep () t hrun

/-- In one piece, the packet is handled. -/
theorem handled_whole (h : s.sock.Ok) (p : Legal) (hfits : p.bytes.length ≤ BUFFER_SIZE) (hfd : s.sock.client_fd ≥ 0)
    (hempty : s.sock.window = []) (junk : Nat → Byte) : TakesPacket d junk p p.bytes s := by
  obtain ⟨k, hread, hwin⟩ := h.read_empty hempty (deliver_open p.bytes)
  rw [bytes_deliver, List.take_of_length_le hfits] at hwin
  have hk : k.Ok := (h.read_adds hread).1
  refine ⟨⟨k, hread, hwin⟩, fun hblock => ?_, fun t hrun => step_takes h p hfd hread hwin hrun⟩
  obtain ⟨q, hloop, htaken⟩ := packet_taken (s := { s with send_buffer_size := 2, sock := k }) hk p hwin hblock (BUFFER_SIZE - 1)
  refine ⟨q, ⟨htaken.window, htaken.messages, htaken.fifo⟩, ?_⟩
  rw [receives, step, tick_connected hfd]
  refine (bind_of_ok (jtagd_sock_ok (s := { s with send_buffer_size := 2 }) hread)).trans ?_
  exact bind_of_ok hloop

/-- A tick adds what comes in to the window, at most. -/
theorem step_window (h : s.sock.Ok) {junk : Nat → Byte} {piece : List Byte} {t : Jtagd δ}
    (hrun : receives d junk piece s = .ok () t) : t.sock.Ok ∧ t.sock.window.length ≤ s.sock.window.length + piece.length := by
  refine ⟨step_ok d _ h () t hrun, ?_⟩
  rw [receives, step] at hrun
  by_cases hfd : s.sock.client_fd ≥ 0
  · rw [tick_connected hfd] at hrun
    obtain ⟨r, k, hread, -⟩ := h.read_socket_ok (deliver piece)
    rw [bind_of_ok (jtagd_sock_ok (s := { s with send_buffer_size := 2 }) hread)] at hrun
    cases r with
    | false => exact absurd (((h.read_socket_ok (deliver piece)).ensures false k hread).2.2.2.2 rfl) (deliver_open piece)
    | true =>
      obtain ⟨hk, -, hgrows⟩ := h.read_adds hread
      rw [Sock.arrived, bytes_deliver, List.length_take] at hgrows
      have hserves : Ensures (do packet_loop (BUFFER_SIZE + 1); handle_messages d junk : JtagdProg δ Unit)
          { s with send_buffer_size := 2, sock := k } fun _ t => t.sock.window.length ≤ k.window.length := by
        refine Ensures.bind (packet_loop_splits (s := { s with send_buffer_size := 2, sock := k }) hk _) ?_
        rintro _ q ⟨-, us, hsplits⟩
        have hflat := congrArg List.length hsplits.flatten
        rw [List.length_append] at hflat
        have hle : q.sock.window.length ≤ k.window.length := by
          show _ ≤ (({ s with send_buffer_size := 2, sock := k } : Jtagd δ).sock.window).length
          omega
        refine (handle_messages_sock d junk q).mono fun _ u hu => ?_
        rw [hu]
        exact hle
      have hle := hserves () t hrun
      omega
  · rw [tick_alone hfd] at hrun
    cases hrun
    exact Nat.le_add_right _ _

/-- A packet of the same size whose first byte does not come again. -/
theorem Legal.headed (p : Legal) : ∃ (p' : Legal) (a : Byte) (l : List Byte), p'.bytes = a :: l ∧ a ∉ l ∧
    p'.bytes.length = p.bytes.length := by
  have hpos := p.pos
  have hle := p.le
  obtain ⟨mux, hmux, hdiffers⟩ : ∃ mux : BitVec 16, mux.toNat < 16 ∧
      mux.toNat * 16 + (p.frame.body.length - 1) / 256 ≠ (p.frame.body.length - 1) % 256 := by
    by_cases h : 4 * 16 + (p.frame.body.length - 1) / 256 = (p.frame.body.length - 1) % 256
    · refine ⟨5, by decide, ?_⟩
      have hfive : (5 : BitVec 16).toNat = 5 := rfl
      omega
    · exact ⟨4, by decide, h⟩
  have hheader := header_toNat hpos hle hmux
  let header := compute_header (BitVec.ofNat 16 p.frame.body.length) mux
  let a : Byte := (header >>> 8).setWidth 8
  have ha : a.toNat = mux.toNat * 16 + (p.frame.body.length - 1) / 256 := by
    show ((header >>> 8).setWidth 8).toNat = _
    rw [BitVec.toNat_setWidth, BitVec.toNat_ushiftRight, Nat.shiftRight_eq_div_pow, hheader]
    omega
  have hlow : (header.setWidth 8 : Byte).toNat = (p.frame.body.length - 1) % 256 := by
    rw [BitVec.toNat_setWidth, hheader]
    omega
  refine ⟨⟨⟨mux, List.replicate p.frame.body.length (a + 1)⟩, by simpa using hpos, by simpa using hle, hmux⟩,
    a, (header.setWidth 8 : Byte) :: List.replicate p.frame.body.length (a + 1), ?_, ?_, ?_⟩
  · simp [Legal.bytes, Frame.bytes, a, header]
  · rw [List.mem_cons, not_or]
    refine ⟨fun h => ?_, fun h => ?_⟩
    · rw [h, hlow] at ha
      exact hdiffers ha.symm
    · have hsucc := (List.mem_replicate.mp h).2
      simp at hsucc
  · simp [Legal.bytes, Frame.bytes]

/-! ## How it gets stuck -/

/-- A client is there, and has not sent anything. -/
structure Waiting (s : Jtagd δ) : Prop where
  sock : s.sock.Ok
  connected : s.sock.client_fd ≥ 0
  empty : s.sock.window = []
  messages : s.messages = []

/-- A client is let in. -/
theorem accepts (hfd : ¬ s.sock.client_fd ≥ 0) (hbuffer : s.send_buffer.length = BUFFER_SIZE) (junk : Nat → Byte)
    (recv : Recv) : ∃ t, step d ⟨junk, ⟨recv, true⟩⟩ s = .ok () t ∧ t.messages = [] ∧
      t.sock = { s.sock with client_fd := 4, alive := true, written := t.sock.written } := by
  have haccept : try_accept true s.sock = .ok true { s.sock with client_fd := 4, alive := true } := rfl
  have hreturns : Returns (hello : JtagdProg δ Unit) { s with
      send_buffer_size := 2
      messages := []
      sock := { s.sock with client_fd := 4, alive := true } } fun _ t => t.send_buffer.length = BUFFER_SIZE :=
    hello_adds _ hbuffer
  obtain ⟨_, t, hhello, -, haside⟩ := hreturns.and (hello_only.aside _)
  refine ⟨t, ?_, messages_of_windowOf haside, sock_of_windowOf haside⟩
  rw [step, tick_alone hfd]
  exact (bind_of_ok (jtagd_sock_ok (s := { s with send_buffer_size := 2, messages := [] }) haccept)).trans hhello

theorem waiting_reached (d : driver δ) (c : Jtag δ) : ∃ s, Reaches (step d) (bootJtagd c) s ∧ Waiting s := by
  have halone : ¬ (bootJtagd c).sock.client_fd ≥ 0 := Int.not_le.mpr (by decide : (-1 : Int) < 0)
  obtain ⟨t, hrun, hmessages, hsock⟩ := accepts (d := d) halone List.length_replicate (fun _ => 0) .failed
  have hwindow : bootSock.window = [] := rfl
  refine ⟨t, .tick (.refl _) hrun, ⟨?_, ?_, ?_, hmessages⟩⟩
  · rw [hsock]
    exact ⟨bootSock_ok.size, bootSock_ok.order, bootSock_ok.bound⟩
  · rw [hsock]
    exact (by decide : (4 : Int) ≥ 0)
  · rw [hsock]
    exact hwindow

/-- With nothing complete and nothing queued, a tick does nothing. -/
theorem step_waits {i : Input} {k : Sock} (hfd : s.sock.client_fd ≥ 0)
    (hread : read_socket i.net.recv s.sock = .ok true k) (hk : k.Ok) (hnone : packets.next k.window = none)
    (hmessages : s.messages = []) : step d i s = .ok () { s with send_buffer_size := 2, sock := k } := by
  have hloop := @packet_loop_stop _ { s with send_buffer_size := 2, sock := k } BUFFER_SIZE hk hnone
  rw [step, tick_connected hfd]
  refine (bind_of_ok (jtagd_sock_ok (s := { s with send_buffer_size := 2 }) hread)).trans ?_
  refine (bind_of_ok hloop).trans ?_
  unfold handle_messages
  rw [bind_of_ok (get_apply _)]
  show (message_loop d i.junk s.messages.length >>= _) _ = _
  rw [hmessages]
  rfl

/-- The next read fills the window, and no packet in it is complete. -/
theorem stuck_reached (d : driver δ) (c : Jtag δ) (p : Legal) (hlong : BUFFER_SIZE < p.bytes.length) :
    ∃ s, Reaches (step d) (bootJtagd c) s ∧ Stuck s p.bytes ∧ ∀ t, Reaches (step d) s t → t.sock = s.sock := by
  obtain ⟨s, hreach, hs⟩ := waiting_reached d c
  obtain ⟨k, hread, hk, hfd, hstart, hfull, hwin⟩ := hs.sock.read_fills hs.empty hlong
  have hnone : packets.next k.window = none := by
    rw [hwin]
    exact Framer.next_take p.next hlong
  have hrun := step_waits (d := d) (i := ⟨fun _ => 0, ⟨deliver p.bytes, false⟩⟩) hs.connected hread hk hnone hs.messages
  have hclogged : k.Clogged p.bytes := by
    refine ⟨by rw [hfd]; exact hs.connected, hstart, hfull, ?_⟩
    rw [hwin]
    exact List.take_prefix _ _
  have hloop : packet_loop (BUFFER_SIZE + 1) ({ s with send_buffer_size := 2, sock := k } : Jtagd δ) =
      .ok () { s with send_buffer_size := 2, sock := k } :=
    packet_loop_stop (s := { s with send_buffer_size := 2, sock := k }) hk hnone
  refine ⟨_, .tick hreach hrun, ⟨hclogged, _, hloop, rfl⟩, fun t hlater => ?_⟩
  have hstays : t.sock = k ∧ t.messages = [] := by
    refine hlater.invariant (P := fun t => t.sock = k ∧ t.messages = []) ⟨rfl, hs.messages⟩ ?_
    rintro i t ⟨rfl, hmessages⟩ _ u hu
    rw [step_waits hclogged.connected (hclogged.unread i.net.recv) hk hnone hmessages] at hu
    cases hu
    exact ⟨rfl, hmessages⟩
  exact hstays.1

theorem processed_iff (d : driver δ) (c : Jtag δ) (p : Legal) (cut : Cut p.bytes.length) :
    Processed d c cut ↔ p.bytes.length ≤ BUFFER_SIZE ∧ cut.parts.length = 1 := by
  constructor
  · intro h
    refine ⟨?_, ?_⟩
    · by_contra hlong
      obtain ⟨s, hreach, hstuck, -⟩ := stuck_reached d c p (by omega)
      exact h.never_stuck p s rfl hreach hstuck
    · obtain ⟨p', a, l, hbytes, hnot, hlen⟩ := p.headed
      obtain ⟨s, hreach, hs⟩ := waiting_reached d c
      have hhandles := h.handled p' (fun _ => 0) s hlen hreach hs.connected hs.empty
      have hflat : (cut.pieces p'.bytes).flatten = p'.bytes := cut.flatten_pieces hlen
      obtain ⟨front, last, hpieces, hlast⟩ := hhandles.last Jtagd.sock
        (fun piece s hs => hs.whole) (fun piece s t hok hrun => step_window hok hrun) hs.sock
        (by rw [hs.empty, hflat, List.length_nil, Nat.zero_add])
      rw [hbytes] at hpieces hlast hlen
      exact cut.alone hlen hnot hpieces hlast
  · rintro ⟨hfits, hone⟩
    refine ⟨fun p' s hlen hreach => not_stuck (reaches_ok hreach) p' (hlen.trans_le hfits), ?_⟩
    intro p' junk s hlen hreach hfd hempty
    rw [cut.whole hone hlen]
    exact handled_whole (reaches_ok hreach) p' (hlen.trans_le hfits) hfd hempty junk

end JtagRemote.Jtagd
