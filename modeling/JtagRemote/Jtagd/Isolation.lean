import JtagRemote.Jtagd.Peers

/-!
# Sessions and what earlier ones left behind

A new client cannot tell what earlier clients did, as long as the FIFO is left the same and the
server does not look at bytes of the receive buffer that this client did not send.
-/

namespace JtagRemote.Jtagd

variable {δ : Type} {b : Base δ} {own : Nat} {known : Prop}

/-! ## The bytes of this client -/

/-- Up to where the receive buffer holds bytes of this client, after a read. -/
def ownAfter (own : Nat) (k : Sock) (recv : Recv) : Nat :=
  max own ((make_room k).buffer_begin + (k.arrived recv).length)

/-- The messages from `p` on lie below `own`. -/
def parse_below (own stop : Nat) (buffer : List Byte) : Nat → Nat → Bool
  | 0, _ => true
  | fuel + 1, p =>
    if p < stop then
      let header_len := (buffer.getD (p + 2) 0 ++ buffer.getD (p + 3) 0 : BitVec 16).toNat
      decide (p + 4 ≤ own) && (decide (p + header_len ≤ own) &&
        (decide (header_len < 4) || parse_below own stop buffer fuel (p + header_len)))
    else true

/-- The messages of the packets of the window lie below `own`. -/
def packets_below (own : Nat) : Nat → Sock → Bool
  | 0, _ => true
  | fuel + 1, k =>
    match packetLen k.window with
    | none => true
    | some n =>
      (decide (muxOf k.window ≠ 0) ||
        parse_below own (k.buffer_begin + n) k.buffer (lengthOf k.window) (k.buffer_begin + 2)) &&
      packets_below own fuel (k.consume n)

/-! ## Packets -/

theorem SockPeers.window {k k' : Sock} (h : SockPeers b own k k') (hown : k.buffer_end ≤ own) :
    k'.window = k.window := by
  rw [Sock.window, Sock.window, h.start, h.stop]
  congr 1
  refine List.ext_getElem? fun i => ?_
  rw [List.getElem?_take, List.getElem?_take]
  split
  · exact h.held i (by omega)
  · rfl

theorem SockPeers.ok' {k k' : Sock} (h : SockPeers b own k k') : k'.Ok := by
  refine ⟨h.size, ?_, ?_⟩
  · rw [h.start, h.stop]
    exact h.ok.order
  · rw [h.stop]
    exact h.ok.bound

/-- Bytes that both buffers hold. -/
theorem SockPeers.bytes {k k' : Sock} (h : SockPeers b own k k') {off len : Nat} (hbelow : off + len ≤ own) :
    (k'.buffer.drop off).take len = (k.buffer.drop off).take len := by
  refine List.ext_getElem? fun i => ?_
  rw [List.getElem?_take, List.getElem?_take]
  split
  · rw [List.getElem?_drop, List.getElem?_drop]
    exact h.held (off + i) (by omega)
  · rfl

theorem index_held {s s' : Jtagd δ} (h : Peers b own known s s') {i : Nat} (hi : i < own) :
    Agree (Seen b) (fun t t' => t = s ∧ t' = s') ((index s.sock.buffer i : JtagdProg δ Byte) s)
      ((index s'.sock.buffer i : JtagdProg δ Byte) s') := by
  unfold index
  rw [h.sock.held i hi]
  cases s.sock.buffer[i]? with
  | none => exact .error (Peers.seen s s' h)
  | some x => exact .ok ⟨rfl, rfl⟩

theorem index_getD (l : List Byte) (i : Nat) (s : Jtagd δ) :
    Ensures (index l i) s fun x _ => x = l.getD i 0 := (index_spec l i s).mono fun _ _ h => h.2.1

theorem parse_messages_step {stop fuel p : Nat} {s s' : Jtagd δ} (h : Peers b own known s s')
    (hbelow : parse_below own stop s.sock.buffer fuel p = true) :
    Agree (Seen b) (Peers b own known) (parse_messages stop fuel p s) (parse_messages stop fuel p s') := by
  induction fuel generalizing p s s' with
  | zero =>
    unfold parse_messages
    split
    · exact .error (Peers.seen s s' h)
    · exact .ok h
  | succ fuel ih =>
    unfold parse_messages
    unfold parse_below at hbelow
    by_cases hlt : p < stop
    · rw [if_pos hlt] at hbelow ⊢
      simp only [Bool.and_eq_true, decide_eq_true_eq, Bool.or_eq_true] at hbelow
      obtain ⟨hheader, hbody, hrest⟩ := hbelow
      rw [bind_of_ok (get_apply s), bind_of_ok (get_apply s')]
      refine Agree.bind (index_held h (by omega)) ?_
      rintro command s s' - ⟨rfl, rfl⟩
      refine Agree.bind (index_held h (by omega)) ?_
      rintro hi s s' hhi ⟨rfl, rfl⟩
      refine Agree.bind (index_held h (by omega)) ?_
      rintro lo s s' hlo ⟨rfl, rfl⟩
      obtain rfl := index_getD _ _ _ _ _ hhi
      obtain rfl := index_getD _ _ _ _ _ hlo
      generalize (s.sock.buffer.getD (p + 2) 0 ++ s.sock.buffer.getD (p + 3) 0 : BitVec 16).toNat = len at hbody hrest ⊢
      have hbytes : Agree (Seen b) (fun t t' => t = s ∧ t' = s')
          ((bytes_at s.sock.buffer p len : JtagdProg δ (List Byte)) s)
          ((bytes_at s'.sock.buffer p len : JtagdProg δ (List Byte)) s') := by
        unfold bytes_at
        rw [h.sock.ok.size, h.sock.size, h.sock.bytes hbody]
        split
        · exact .ok ⟨rfl, rfl⟩
        · exact .error (Peers.seen s s' h)
      refine Agree.bind hbytes ?_
      rintro bytes s s' - ⟨rfl, rfl⟩
      split
      · exact .ok h
      · rename_i hlen
        have hset : Peers b own known { s with messages := s.messages ++ [⟨command, bytes.drop 4⟩] }
            { s' with messages := s'.messages ++ [⟨command, bytes.drop 4⟩] } :=
          { h with messages := by rw [h.messages] }
        exact ih hset (hrest.resolve_left hlen)
    · rw [if_neg hlt]
      exact .ok h

theorem push_fifo_step (mux start length : Nat) : InStep b own known (push_fifo mux start length) := by
  refine twins_modify fun s s' h => ?_
  obtain ⟨ws, hws⟩ : ∃ ws, ∀ f : Nat → List (BitVec 32),
      Function.update f mux (f mux ++ List.replicate start (BitVec.ofNat 32 (start + length))) FIFO_MIN =
        f FIFO_MIN ++ ws := by
    by_cases hmux : mux = FIFO_MIN
    · subst hmux
      exact ⟨_, fun f => Function.update_self _ _ f⟩
    · exact ⟨[], fun f => by rw [Function.update_of_ne (Ne.symm hmux), List.append_nil]⟩
  refine { h with fifo := fun hshared => ?_, level := fun hlevel => ?_ }
  · show Function.update s'.fifos mux _ FIFO_MIN = Function.update s.fifos mux _ FIFO_MIN
    rw [hws, hws, h.fifo hshared]
  · show Function.update s'.fifos mux _ FIFO_MIN = [] ↔ Function.update s.fifos mux _ FIFO_MIN = []
    rw [hws, hws, List.append_eq_nil_iff, List.append_eq_nil_iff, h.level hlevel]

theorem handle_packet_step {mux length : Nat} {s s' : Jtagd δ} (h : Peers b own known s s')
    (hbelow : mux = 0 →
      parse_below own (s.sock.buffer_begin + length) s.sock.buffer length s.sock.buffer_begin = true) :
    Agree (Seen b) (Peers b own known) (handle_packet mux length s) (handle_packet mux length s') := by
  unfold handle_packet
  rw [bind_of_ok (get_apply s), bind_of_ok (get_apply s'), h.sock.start]
  split
  · rename_i hmux
    exact parse_messages_step h (hbelow hmux)
  · split
    · exact push_fifo_step _ _ _ s s' h
    · exact .ok h

theorem SockPeers.consume {k k' : Sock} (h : SockPeers b own k k') {n : Nat} (hn : n ≤ k.window.length) :
    SockPeers b own (k.consume n) (k'.consume n) :=
  { h with
    ok := h.ok.consume hn
    start := congrArg (· + n) h.start }

theorem packet_loop_step {fuel : Nat} {s s' : Jtagd δ} (h : Peers b own known s s')
    (hown : s.sock.buffer_end ≤ own) (hbelow : packets_below own fuel s.sock = true) :
    Agree (Seen b) (fun t t' => Peers b own known t t' ∧ t.sock.buffer_end ≤ own) (packet_loop fuel s)
      (packet_loop fuel s') := by
  induction fuel generalizing s s' with
  | zero => exact .error (Peers.seen s s' h)
  | succ fuel ih =>
    have hwin := h.sock.window hown
    unfold packets_below at hbelow
    cases hn : packetLen s.sock.window with
    | none =>
      rw [packet_loop_stop h.sock.ok hn, packet_loop_stop h.sock.ok' (by rw [hwin, hn])]
      exact .ok ⟨h, hown⟩
    | some n =>
      rw [hn] at hbelow
      simp only [Bool.and_eq_true, Bool.or_eq_true, decide_eq_true_eq] at hbelow
      obtain ⟨hlen, hle, hround⟩ := @packet_loop_round _ _ fuel h.sock.ok _ hn
      obtain ⟨-, -, hround'⟩ := @packet_loop_round _ _ fuel h.sock.ok' n (by rw [hwin, hn])
      rw [hround, hround', hwin]
      have htwo : Peers b own known { s with sock := s.sock.consume 2 } { s' with sock := s'.sock.consume 2 } :=
        { h with sock := h.sock.consume (by omega) }
      refine Agree.bind (handle_packet_step htwo fun hmux => ?_) ?_
      · have := hbelow.1.resolve_left (by simp [hmux])
        rwa [hlen, ← Nat.add_assoc] at this
      · rintro _ t t' hrun ht
        have hsock : t.sock = s.sock.consume 2 := handle_packet_sock _ _ _ _ _ hrun
        have hconsume : Peers b own known { t with sock := t.sock.consume (lengthOf s.sock.window) }
            { t' with sock := t'.sock.consume (lengthOf s.sock.window) } := by
          refine { ht with sock := ht.sock.consume ?_ }
          rw [hsock, Sock.window_consume, List.length_drop]
          omega
        have hboth : t.sock.consume (lengthOf s.sock.window) = s.sock.consume n := by
          rw [hsock, hlen, Sock.consume, Sock.consume, Sock.consume, Nat.add_assoc]
        have hnext : (t.sock.consume (lengthOf s.sock.window)).buffer_end ≤ own ∧
            packets_below own fuel (t.sock.consume (lengthOf s.sock.window)) = true := by
          rw [hboth]
          exact ⟨hown, hbelow.2⟩
        exact ih hconsume hnext.1 hnext.2

/-! ## The connection -/

theorem make_room_step {k k' : Sock} (h : SockPeers b own k k') (hown : k.buffer_end ≤ own) :
    SockPeers b own (make_room k) (make_room k') ∧ (make_room k).buffer_end ≤ own := by
  obtain ⟨hok, -⟩ := h.ok.make_room_ok
  have horder := h.ok.order
  have hsize := h.ok.size
  have hsize' := h.size
  have hfits : 0 + ((k.buffer.drop k.buffer_begin).take (k.buffer_end - k.buffer_begin)).length ≤ BUFFER_SIZE := by
    have := h.ok.bound
    rw [List.length_take, List.length_drop]
    omega
  have hmoved := @SockPeers.bytes _ _ _ _ _ h k.buffer_begin (k.buffer_end - k.buffer_begin) (by omega)
  unfold make_room at hok ⊢
  rw [h.start, h.stop, hmoved]
  by_cases hfull : k.buffer_begin > 0 ∧ k.buffer_end = BUFFER_SIZE
  · rw [if_pos hfull] at hok
    rw [if_pos hfull, if_pos hfull]
    refine ⟨{ h with ok := hok, size := ?_, start := rfl, stop := rfl, held := ?_ }, ?_⟩
    · show (splice _ _ _).length = BUFFER_SIZE
      rw [splice_length _ _ _ (by omega), hsize']
    · intro i hi
      show (splice _ _ _)[i]? = (splice _ _ _)[i]?
      rw [getElem?_splice (by omega), getElem?_splice (by omega)]
      split
      · rfl
      · exact h.held i hi
    · show k.buffer_end - k.buffer_begin ≤ own
      omega
  · rw [if_neg hfull] at hok
    rw [if_neg hfull, if_neg hfull]
    by_cases hempty : k.buffer_begin = k.buffer_end
    · rw [if_pos hempty] at hok
      rw [if_pos hempty, if_pos hempty]
      exact ⟨{ h with ok := hok, start := rfl, stop := rfl }, Nat.zero_le _⟩
    · rw [if_neg hempty, if_neg hempty]
      exact ⟨h, hown⟩

theorem read_socket_step {k k' : Sock} (h : SockPeers b own k k') (hown : k.buffer_end ≤ own) (recv : Recv) :
    Agree (Told b) (SockPeers b (ownAfter own k recv)) (read_socket recv k) (read_socket recv k') := by
  obtain ⟨hroom, hend⟩ := make_room_step h hown
  have horder := hroom.ok.order
  have hbound := hroom.ok.bound
  have hsame : k.arrived recv = [] → ownAfter own k recv = own := by
    intro hnone
    rw [ownAfter, hnone, List.length_nil, Nat.add_zero, Nat.max_eq_left (by omega)]
  unfold read_socket
  rw [bind_of_ok (modify_apply _ k), bind_of_ok (modify_apply _ k'), bind_of_ok (get_apply _),
    bind_of_ok (get_apply _), hroom.stop]
  by_cases hspace : (make_room k).buffer_end < BUFFER_SIZE
  · rw [if_pos hspace, if_pos hspace]
    cases recv with
    | closed =>
      rw [hsame (by simp [Sock.arrived, Recv.bytes])]
      exact .ok { hroom with
        ok := ⟨hroom.ok.size, Nat.le_refl 0, Nat.zero_le _⟩
        client := rfl
        start := rfl
        stop := rfl }
    | failed =>
      rw [hsame (by simp [Sock.arrived, Recv.bytes])]
      exact .ok hroom
    | data first rest =>
      have hgot : ((first :: rest).take (BUFFER_SIZE - (make_room k).buffer_end)).length ≤
          BUFFER_SIZE - (make_room k).buffer_end := List.length_take_le _ _
      have hlen : ownAfter own k (.data first rest) = max own ((make_room k).buffer_begin +
          ((first :: rest).take (BUFFER_SIZE - (make_room k).buffer_end)).length) := rfl
      obtain ⟨hreceived, -⟩ := hroom.ok.received hgot
      rw [hlen]
      simp only [hroom.start]
      generalize (first :: rest).take (BUFFER_SIZE - (make_room k).buffer_end) = got at hgot hreceived
      have hfits : (make_room k).buffer_begin + got.length ≤ (make_room k).buffer.length := by
        rw [hroom.ok.size]
        omega
      have hfits' : (make_room k).buffer_begin + got.length ≤ (make_room k').buffer.length := by
        rw [hroom.size]
        omega
      rw [bind_of_ok (memcpy_ok hfits _), bind_of_ok (memcpy_ok hfits' _)]
      refine .ok { hroom with
        ok := hreceived
        size := ?_
        start := rfl
        stop := rfl
        held := ?_ }
      · show (splice _ _ _).length = BUFFER_SIZE
        rw [splice_length _ _ _ hfits', hroom.size]
      · intro i hi
        show (splice _ _ _)[i]? = (splice _ _ _)[i]?
        rw [getElem?_splice hfits, getElem?_splice hfits']
        split
        · rfl
        · exact hroom.held i (by omega)
  · have hnone : k.arrived recv = [] := by
      rw [Sock.arrived, Sock.space, Nat.sub_eq_zero_of_le (by omega), List.take_zero]
    rw [if_neg hspace, if_neg hspace, hsame hnone]
    exact .ok hroom

theorem hello_step : InStep b own known (hello : JtagdProg δ Unit) :=
  (add_string_step _).bind fun _ => (add_int_step _).bind fun _ => (add_int_step _).bind fun _ => do_send_step _

end JtagRemote.Jtagd
