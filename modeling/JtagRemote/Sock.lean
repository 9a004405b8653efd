import JtagRemote.Arrays

/-!
# The socket window

The bytes of the client that are not consumed yet lie in the buffer from
`buffer_begin` to `buffer_end`.
-/

namespace JtagRemote

/-- A read that brings these bytes. -/
def deliver : List Byte → Recv
  | [] => .failed
  | first :: rest => .data first rest

/-- The bytes of an answer. -/
def Recv.bytes : Recv → List Byte
  | .data first rest => first :: rest
  | .closed => []
  | .failed => []

theorem bytes_deliver (l : List Byte) : (deliver l).bytes = l := by cases l <;> rfl

theorem deliver_open (l : List Byte) : deliver l ≠ .closed := by cases l <;> simp [deliver]

namespace Sock

def window (s : Sock) : List Byte := (s.buffer.take s.buffer_end).drop s.buffer_begin

structure Ok (s : Sock) : Prop where
  size : s.buffer.length = BUFFER_SIZE
  order : s.buffer_begin ≤ s.buffer_end
  bound : s.buffer_end ≤ BUFFER_SIZE

/-- `buffer_begin += n`. -/
def consume (s : Sock) (n : Nat) : Sock := { s with buffer_begin := s.buffer_begin + n }

variable {s : Sock}

theorem Ok.window_length (h : s.Ok) : s.window.length = s.buffer_end - s.buffer_begin := by
  have := h.size
  have := h.bound
  simp only [window, List.length_drop, List.length_take]
  omega

theorem window_consume (s : Sock) (n : Nat) : (s.consume n).window = s.window.drop n := by
  rw [window, window, List.drop_drop]
  rfl

theorem Ok.consume (h : s.Ok) {n : Nat} (hn : n ≤ s.window.length) : (s.consume n).Ok := by
  rw [h.window_length] at hn
  have := h.order
  refine ⟨h.size, ?_, h.bound⟩
  show s.buffer_begin + n ≤ s.buffer_end
  omega

/-- What the code reads at `buffer_begin + off`. -/
theorem drop_take_eq (h : s.Ok) {off len : Nat} (hlen : off + len ≤ s.window.length) :
    (s.buffer.drop (s.buffer_begin + off)).take len = (s.window.drop off).take len := by
  rw [h.window_length] at hlen
  rw [window, List.drop_drop, List.drop_take, List.take_take]
  congr 1
  omega

theorem Ok.bytes_at_window {σ : Type} (h : s.Ok) {off len : Nat} (hlen : off + len ≤ s.window.length) (t : σ) :
    (bytes_at s.buffer (s.buffer_begin + off) len : EStateM Fault σ (List Byte)) t =
      .ok ((s.window.drop off).take len) t := by
  rw [bytes_at_ok, drop_take_eq h hlen]
  rw [h.window_length] at hlen
  have := h.size
  have := h.bound
  have := h.order
  omega

theorem Ok.index_window {σ : Type} (h : s.Ok) {off : Nat} (hoff : off < s.window.length) (t : σ) :
    (index s.buffer (s.buffer_begin + off) : EStateM Fault σ Byte) t = .ok (s.window.getD off 0) t := by
  have hsize := h.size
  have hbound := h.bound
  have hlen := h.window_length
  rw [index_ok (by omega), window, List.getD_eq_getElem?_getD, List.getD_eq_getElem?_getD,
    List.getElem?_drop, List.getElem?_take, if_pos (by omega)]

/-! ## Making room -/

theorem Ok.make_room_ok (h : s.Ok) : (make_room s).Ok ∧ (make_room s).window = s.window := by
  have hsize := h.size
  have hbound := h.bound
  have horder := h.order
  unfold make_room
  split
  · rename_i hfull
    have hlen : ((s.buffer.drop s.buffer_begin).take (s.buffer_end - s.buffer_begin)).length =
        s.buffer_end - s.buffer_begin := by
      simp only [List.length_take, List.length_drop]
      omega
    refine ⟨⟨?_, Nat.zero_le _, ?_⟩, ?_⟩
    · show (splice _ _ _).length = BUFFER_SIZE
      rw [splice_length _ _ _ (by rw [hlen]; omega), hsize]
    · show s.buffer_end - s.buffer_begin ≤ BUFFER_SIZE
      omega
    · show (List.take (s.buffer_end - s.buffer_begin) (splice _ 0 _)).drop 0 = s.window
      rw [List.drop_zero, window, List.drop_take]
      exact (congrArg (fun n => List.take n _) hlen.symm).trans (take_splice_zero _ _)
  · split
    · rename_i hempty
      refine ⟨⟨hsize, Nat.le_refl 0, Nat.zero_le _⟩, ?_⟩
      rw [window, window, hempty, List.drop_eq_nil_of_le (by simp)]
      simp
    · exact ⟨h, rfl⟩

/-! ## Reading -/

/-- The window after `got` came in. The bytes go to its start, not to its end. -/
theorem Ok.received (h : s.Ok) {got : List Byte} (hgot : got.length ≤ BUFFER_SIZE - s.buffer_end) :
    let t := { s with
      buffer := splice s.buffer s.buffer_begin got
      buffer_end := s.buffer_end + got.length }
    t.Ok ∧ t.window = got ++ (s.buffer.drop (s.buffer_begin + got.length)).take s.window.length := by
  have hsize := h.size
  have hbound := h.bound
  have horder := h.order
  refine ⟨⟨?_, ?_, ?_⟩, ?_⟩
  · show (splice _ _ _).length = BUFFER_SIZE
    rw [splice_length _ _ _ (by omega), hsize]
  · show s.buffer_begin ≤ s.buffer_end + got.length
    omega
  · show s.buffer_end + got.length ≤ BUFFER_SIZE
    omega
  · have htake : (s.buffer.take s.buffer_begin).length = s.buffer_begin := by
      rw [List.length_take]
      omega
    have hrest : s.buffer_end + got.length - s.buffer_begin - got.length = s.window.length := by
      rw [h.window_length]
      omega
    show (List.take (s.buffer_end + got.length) (splice _ _ _)).drop s.buffer_begin = _
    rw [List.drop_take, splice, List.append_assoc, List.drop_left' htake, List.take_append,
      hrest, List.take_of_length_le (by omega)]

/-- What a read asks for. -/
def space (s : Sock) : Nat := BUFFER_SIZE - (make_room s).buffer_end

/-- The bytes that a read takes from the connection: as many as there is room for. -/
def arrived (s : Sock) (recv : Recv) : List Byte := recv.bytes.take s.space

/-- The window after a read. -/
def windowAfter (s : Sock) (recv : Recv) : List Byte :=
  s.arrived recv ++
    ((make_room s).buffer.drop ((make_room s).buffer_begin + (s.arrived recv).length)).take s.window.length

theorem Ok.windowAfter_nil (h : s.Ok) {recv : Recv} (hnone : s.arrived recv = []) :
    s.windowAfter recv = s.window := by
  obtain ⟨hok, hwin⟩ := h.make_room_ok
  have : ((make_room s).buffer.drop ((make_room s).buffer_begin + 0)).take s.window.length =
      ((make_room s).window.drop 0).take s.window.length := drop_take_eq hok (by rw [hwin]; omega)
  rw [windowAfter, hnone, List.nil_append, List.length_nil, this, hwin, List.drop_zero, List.take_length]

/-- What `read_socket` does: unless the client hangs up, the window is still in order. -/
theorem Ok.read_socket_ok (h : s.Ok) (recv : Recv) :
    Returns (read_socket recv) s fun r t => t.Ok ∧ t.alive = s.alive ∧ t.written = s.written ∧
      (r = true → t.client_fd = s.client_fd ∧ t.window = s.windowAfter recv) ∧
      (r = false → recv = .closed) := by
  obtain ⟨hok, hwin⟩ := h.make_room_ok
  have hkeep : (make_room s).alive = s.alive ∧ (make_room s).written = s.written ∧
      (make_room s).client_fd = s.client_fd := by
    unfold make_room
    split
    · exact ⟨rfl, rfl, rfl⟩
    · split <;> exact ⟨rfl, rfl, rfl⟩
  obtain ⟨halive, hwritten, hfd⟩ := hkeep
  have hsame : s.arrived recv = [] → (make_room s).client_fd = s.client_fd ∧
      (make_room s).window = s.windowAfter recv :=
    fun hnone => ⟨hfd, by rw [hwin, h.windowAfter_nil hnone]⟩
  unfold read_socket
  refine Returns.modify_bind (Returns.get_bind ?_)
  split
  · cases recv with
    | closed =>
      refine Returns.set_bind (returns_pure ⟨⟨hok.size, Nat.le_refl 0, Nat.zero_le _⟩, halive, hwritten, ?_, ?_⟩)
      · exact fun h => absurd h (by decide)
      · exact fun _ => rfl
    | failed =>
      refine returns_pure ⟨hok, halive, hwritten, fun _ => hsame (by simp [arrived, Recv.bytes]), ?_⟩
      exact fun h => absurd h (by decide)
    | data first rest =>
      have hgot : (s.arrived (.data first rest)).length ≤ BUFFER_SIZE - (make_room s).buffer_end :=
        List.length_take_le _ _
      have hsize := hok.size
      have horder := hok.order
      obtain ⟨hreceived, hwindow⟩ := hok.received hgot
      have hfits : (make_room s).buffer_begin + (s.arrived (.data first rest)).length ≤
          (make_room s).buffer.length := by omega
      refine Returns.of_eq_bind (memcpy_ok hfits _) ?_
      refine Returns.set_bind (returns_pure ⟨hreceived, halive, hwritten, fun _ => ⟨hfd, ?_⟩, ?_⟩)
      · rw [windowAfter, ← hwin]
        exact hwindow
      · exact fun h => absurd h (by decide)
  · rename_i hfull
    have hnone : s.arrived recv = [] := by
      rw [arrived, space, Nat.sub_eq_zero_of_le (by omega), List.take_zero]
    refine returns_pure ⟨hok, halive, hwritten, fun _ => hsame hnone, ?_⟩
    exact fun h => absurd h (by decide)

/-- An empty window makes room for all. -/
theorem Ok.empty_room (h : s.Ok) (hempty : s.window = []) : (make_room s).buffer_end = 0 := by
  have horder := h.order
  have hlen := h.window_length
  rw [hempty, List.length_nil] at hlen
  unfold make_room
  split
  · simp only
    omega
  · rw [if_pos (by omega)]

/-- Into an empty window, the bytes come as they are. -/
theorem Ok.read_empty (h : s.Ok) (hempty : s.window = []) {recv : Recv} (hopen : recv ≠ .closed) :
    ∃ t, read_socket recv s = .ok true t ∧ t.window = recv.bytes.take BUFFER_SIZE := by
  obtain ⟨r, t, hrun, -, -, -, htrue, hfalse⟩ := h.read_socket_ok recv
  cases r with
  | false => exact absurd (hfalse rfl) hopen
  | true =>
    refine ⟨t, hrun, ?_⟩
    rw [(htrue rfl).2, windowAfter, hempty, List.length_nil, List.take_zero, List.append_nil, arrived, space,
      h.empty_room hempty]
    rfl

/-- The client hangs up while the window is empty. -/
theorem Ok.read_closed (h : s.Ok) (hempty : s.window = []) :
    ∃ t, read_socket .closed s = .ok false t ∧ t.Ok ∧ t.written = s.written ∧ t.client_fd = -1 ∧ t.window = [] := by
  obtain ⟨_, t, hrun, hok, -, hwritten, -⟩ := h.read_socket_ok .closed
  have hroom : (make_room s).buffer_end < BUFFER_SIZE := by
    rw [h.empty_room hempty]
    decide
  have hclosed : read_socket .closed s =
      .ok false { make_room s with client_fd := -1, buffer_begin := 0, buffer_end := 0 } := by
    unfold read_socket
    rw [bind_of_ok (modify_apply make_room s), bind_of_ok (get_apply _)]
    exact congrFun (if_pos hroom) _
  rw [hclosed] at hrun
  cases hrun
  exact ⟨_, hclosed, hok, hwritten, rfl, by simp [window]⟩

/-- A unit that is longer than the window fills it. -/
theorem Ok.read_fills (h : s.Ok) (hempty : s.window = []) {u : List Byte} (hlong : BUFFER_SIZE < u.length) :
    ∃ t, read_socket (deliver u) s = .ok true t ∧ t.Ok ∧ t.client_fd = s.client_fd ∧ t.buffer_begin = 0 ∧
      t.buffer_end = BUFFER_SIZE ∧ t.window = u.take BUFFER_SIZE := by
  obtain ⟨t, hrun, hwin⟩ := h.read_empty hempty (deliver_open u)
  obtain ⟨hok, -, -, htrue, -⟩ := (h.read_socket_ok (deliver u)).ensures true t hrun
  rw [bytes_deliver] at hwin
  have hlen : t.window.length = BUFFER_SIZE := by
    rw [hwin, List.length_take]
    omega
  have hwlen := hok.window_length
  have horder := hok.order
  have hbound := hok.bound
  exact ⟨t, hrun, hok, (htrue rfl).1, by omega, by omega, hwin⟩

/-- The window is full, and what is pending begins the unit `u`. -/
structure Clogged (s : Sock) (u : List Byte) : Prop where
  connected : s.client_fd ≥ 0
  start : s.buffer_begin = 0
  full : s.buffer_end = BUFFER_SIZE
  pending : s.window <+: u

/-- A unit that fits is pending as a whole. -/
theorem Clogged.whole {u : List Byte} (hc : s.Clogged u) (h : s.Ok) (hfits : u.length ≤ BUFFER_SIZE) :
    s.window = u ∧ s.window ≠ [] := by
  have hlen := h.window_length
  rw [hc.start, hc.full, Nat.sub_zero] at hlen
  refine ⟨hc.pending.eq_of_length_le (by omega), ?_⟩
  intro hnil
  rw [hnil, List.length_nil] at hlen
  exact absurd hlen (by decide)

/-- No read is made, so not even a client that hangs up is noticed. -/
theorem Clogged.unread {u : List Byte} (hc : s.Clogged u) (recv : Recv) : read_socket recv s = .ok true s := by
  have hstart := hc.start
  have hfull := hc.full
  have hbuffer : BUFFER_SIZE = 4096 := rfl
  have hroom : make_room s = s := by
    unfold make_room
    rw [if_neg (by omega), if_neg (by omega)]
  unfold read_socket
  rw [bind_of_ok (modify_apply _ _), hroom, bind_of_ok (get_apply _), if_neg (by omega)]
  rfl

/-! ## Writing -/

theorem Ok.of_written {t : Sock} (h : s.Ok) (heq : t = { s with written := t.written }) : t.Ok := by
  rw [heq]
  exact ⟨h.size, h.order, h.bound⟩

theorem write_full_ok (h : s.alive = true) (data : List Byte) :
    write_full data s = .ok true { s with written := s.written ++ data } := by
  unfold write_full
  rw [bind_of_ok (get_apply s), if_pos h]
  rfl

end Sock

end JtagRemote
