import JtagRemote.Jtagd.Packets
import Mathlib.Data.List.Forall2

/-!
# The send buffer

`send_buffer_size` counts in one byte. As long as a frame has 253 bytes at most, the
buffer holds it and what is sent is the frame; a longer one is cut when it is sent.
-/

namespace JtagRemote.Jtagd

variable {δ : Type}

/-! ## Frames -/

/-- The frame has a body, and the counter can count it. -/
def Frame.Short (f : Frame) : Prop := 1 ≤ f.body.length ∧ f.body.length ≤ 253

/-- The bytes that are sent for a frame, as the counter has them. -/
def Frame.cost (f : Frame) : Nat := (2 + f.body.length) % 256

/-- The two bytes of a header. -/
def header_bytes (header : BitVec 16) : List Byte := [(header >>> 8).setWidth 8, header.setWidth 8]

/-- The header, as `fill_header` computes it from the counter. -/
def Frame.header (f : Frame) : BitVec 16 := compute_header (BitVec.ofInt 16 ((f.cost : Int) - 2)) f.mux

/-- What is sent for a frame: as long as the counter says, and the frame itself if the counter is right. -/
structure Frame.Sends (f : Frame) (sent : List Byte) : Prop where
  length : sent.length = f.cost
  headed : ∃ rest, sent = (header_bytes f.header ++ rest).take f.cost
  exact_ : f.body.length ≤ 253 → sent = f.bytes

/-- What the frames sent since `base`. -/
structure Sent (base : List Byte) (fs : List Frame) (written : List Byte) : Prop where
  pieces : ∃ sents, List.Forall₂ Frame.Sends fs sents ∧ written = base ++ sents.flatten

/-- What was written since `base`: the frames, if none is too long. -/
structure Wrote (base : List Byte) (fs : List Frame) (written : List Byte) : Prop where
  grows : ∃ new, written = base ++ new ∧ new.length ≤ (fs.map Frame.cost).sum ∧
    ((∀ f ∈ fs, f.body.length ≤ 253) → new = fs.flatMap Frame.bytes)

theorem Sent.refl (base : List Byte) : Sent base [] base := ⟨[], .nil, (List.append_nil base).symm⟩

theorem Sent.send {base written sent : List Byte} {fs : List Frame} {f : Frame} (h : Sent base fs written)
    (hsends : f.Sends sent) : Sent base (fs ++ [f]) (written ++ sent) := by
  obtain ⟨sents, hall, rfl⟩ := h.pieces
  refine ⟨sents ++ [sent], List.rel_append hall (.cons hsends .nil), ?_⟩
  rw [List.flatten_append, List.append_assoc]
  simp

theorem Sent.wrote {base written : List Byte} {fs : List Frame} (h : Sent base fs written) :
    Wrote base fs written := by
  obtain ⟨sents, hall, rfl⟩ := h.pieces
  refine ⟨⟨_, rfl, ?_⟩⟩
  clear h
  induction hall with
  | nil => exact ⟨Nat.le_refl 0, fun _ => rfl⟩
  | @cons f sent fs sents hsends _ ih =>
    obtain ⟨hlen, hexact⟩ := ih
    have hcost := hsends.length
    simp only [List.flatten_cons, List.length_append, List.map_cons, List.sum_cons]
    refine ⟨by omega, fun hshort => ?_⟩
    rw [List.forall_mem_cons] at hshort
    rw [hsends.exact_ hshort.1, hexact hshort.2, List.flatMap_cons]

/-- The buffer holds `cur`, and `fs` went out. -/
structure Buffered (base : List Byte) (fs : List Frame) (cur : List Byte) (s : Jtagd δ) : Prop where
  size : s.send_buffer_size = BitVec.ofNat 8 (2 + cur.length)
  room : s.send_buffer.length = BUFFER_SIZE
  alive : s.sock.alive = true
  sent : Sent base fs s.sock.written
  holds : cur.length ≤ 253 → ∃ a b rest, s.send_buffer = [a, b] ++ (cur ++ rest)

/-- Only the send buffer changed. -/
structure Quietly (s t : Jtagd δ) : Prop where
  same : t = { s with send_buffer := t.send_buffer, send_buffer_size := t.send_buffer_size }

theorem Quietly.refl (s : Jtagd δ) : Quietly s s := ⟨rfl⟩

theorem Quietly.trans {s t u : Jtagd δ} (h : Quietly s t) (h' : Quietly t u) : Quietly s u := by
  refine ⟨?_⟩
  rw [h'.same, h.same]

theorem Quietly.last_response {s t : Jtagd δ} (h : Quietly s t) : t.last_response = s.last_response := by
  rw [h.same]

theorem Quietly.messages {s t : Jtagd δ} (h : Quietly s t) : t.messages = s.messages := by
  rw [h.same]

variable {base : List Byte} {fs : List Frame} {cur : List Byte} {s : Jtagd δ}

theorem Buffered.wrote (h : Buffered base fs cur s) : Wrote base fs s.sock.written := h.sent.wrote

theorem Buffered.of_eq {t : Jtagd δ} (h : Buffered base fs cur s) (hbuf : t.send_buffer = s.send_buffer)
    (hsize : t.send_buffer_size = s.send_buffer_size) (hsock : t.sock = s.sock) :
    Buffered base fs cur t := by
  refine ⟨by rw [hsize, h.size], by rw [hbuf, h.room], by rw [hsock, h.alive], by rw [hsock]; exact h.sent, ?_⟩
  rw [hbuf]
  exact h.holds

theorem Buffered.size_toNat (h : Buffered base fs cur s) : s.send_buffer_size.toNat = (2 + cur.length) % 256 := by
  rw [h.size, BitVec.toNat_ofNat]

/-! ## Appending -/

/-- The program appends these bytes to the frame and does nothing else. -/
def Appends (p : JtagdProg δ Unit) (data : List Byte) : Prop :=
  ∀ base fs cur s, Buffered base fs cur s → Ensures p s fun _ t =>
    Buffered base fs (cur ++ data) t ∧ Quietly s t

theorem Appends.bind {p q : JtagdProg δ Unit} {data data' : List Byte} (hp : Appends p data)
    (hq : Appends q data') : Appends (p >>= fun _ => q) (data ++ data') := by
  intro base fs cur s h
  refine Ensures.bind (hp base fs cur s h) ?_
  rintro _ t ⟨ht, hquiet⟩
  refine (hq base fs _ t ht).mono ?_
  rintro _ u ⟨hu, hquiet'⟩
  rw [← List.append_assoc]
  exact ⟨hu, hquiet.trans hquiet'⟩

theorem append_bytes_appends (data : List Byte) : Appends (append_bytes data : JtagdProg δ Unit) data := by
  intro base fs cur s h
  unfold append_bytes
  refine Ensures.get_bind (Ensures.bind (memcpy_spec _ _ _ s) ?_)
  rintro buf t ⟨ht, rfl, hfits⟩
  rw [ht]
  refine Ensures.set_bind (ensures_pure ⟨⟨?_, ?_, h.alive, h.sent, ?_⟩, ⟨rfl⟩⟩)
  · show s.send_buffer_size + BitVec.ofNat 8 data.length = _
    rw [h.size, List.length_append, ← BitVec.ofNat_add, Nat.add_assoc]
  · show (splice _ _ _).length = BUFFER_SIZE
    rw [splice_length _ _ _ hfits, h.room]
  · intro hshort
    rw [List.length_append] at hshort
    obtain ⟨a, b, rest, hbuf⟩ := h.holds (by omega)
    have hsize : s.send_buffer_size.toNat = ([a, b] ++ cur).length := by
      rw [h.size_toNat, List.length_append, Nat.mod_eq_of_lt (by omega)]
      rfl
    have hroom : data.length ≤ rest.length := by
      have := congrArg List.length hbuf
      rw [hsize, hbuf] at hfits
      simp only [List.length_append] at hfits
      omega
    refine ⟨a, b, rest.drop data.length, ?_⟩
    show splice s.send_buffer s.send_buffer_size.toNat data = _
    have hsplit := splice_middle ([a, b] ++ cur) (rest.take data.length) data (rest.drop data.length)
      (by rw [List.length_take]; omega)
    rw [List.take_append_drop, List.append_assoc] at hsplit
    rw [hsize, hbuf, hsplit]
    simp only [List.append_assoc]

theorem assert_room_appends (n : Nat) : Appends (assert_room n : JtagdProg δ Unit) [] := by
  intro base fs cur s h
  unfold assert_room
  refine Ensures.get_bind ?_
  rw [List.append_nil]
  unfold JtagRemote.assert
  split
  · exact ensures_pure ⟨h, .refl s⟩
  · exact ensures_throw

theorem add_int_appends (value : BitVec 32) : Appends (add_int value : JtagdProg δ Unit) (be32 value) :=
  (assert_room_appends 4).bind (append_bytes_appends _)

/-- A string with its length in front. -/
def string_bytes (data : List Byte) : List Byte := [BitVec.ofNat 8 data.length] ++ data

theorem assert_appends (b : Bool) : Appends (assert b : JtagdProg δ Unit) [] := by
  intro base fs cur s h
  rw [List.append_nil]
  unfold JtagRemote.assert
  split
  · exact ensures_pure ⟨h, .refl s⟩
  · exact ensures_throw

theorem add_string_appends (data : List Byte) :
    Appends (add_string data : JtagdProg δ Unit) (string_bytes data) :=
  (assert_appends _).bind ((assert_room_appends _).bind
    ((append_bytes_appends _).bind (append_bytes_appends _)))

theorem add_array_appends (data : List Byte) (len : Nat) :
    Appends (add_array data len : JtagdProg δ Unit) (data.take len) := by
  refine (assert_room_appends len).bind ?_
  intro base fs cur s h
  refine Ensures.bind (bytes_at_spec _ _ _ s) ?_
  rintro bytes _ ⟨rfl, rfl, -⟩
  exact append_bytes_appends _ base fs cur _ h

theorem add_array_le (data : List Byte) (len : Nat) (s : Jtagd δ) :
    Ensures (add_array data len) s fun _ _ => len ≤ data.length := by
  unfold add_array
  refine Ensures.any_bind fun _ t => ?_
  refine Ensures.bind (bytes_at_spec _ _ _ t) ?_
  rintro _ _ ⟨-, -, hlen⟩
  exact fun _ _ _ => by omega

theorem forM_appends {α : Type} {f : α → JtagdProg δ Unit} {g : α → List Byte} (hf : ∀ a, Appends (f a) (g a))
    (l : List α) : Appends (l.forM f) (l.flatMap g) := by
  induction l with
  | nil =>
    intro base fs cur s h
    rw [List.flatMap_nil, List.append_nil]
    exact ensures_pure ⟨h, .refl s⟩
  | cons a l ih => exact (hf a).bind ih

/-! ## Responses -/

/-- A response with its header: the code, a zero, and the length of it all. -/
def response (resp : Byte) (args : List Byte) : List Byte :=
  let length : BitVec 16 := BitVec.ofNat 16 (4 + args.length)
  [resp, 0, (length >>> 8).setWidth 8, length.setWidth 8] ++ args

/-- In a response whose arguments are still to come, or are there up to `args`. -/
structure Responding (base : List Byte) (fs : List Frame) (cur : List Byte) (resp : Byte) (args : List Byte)
    (s t : Jtagd δ) : Prop where
  buffered : Buffered base fs (cur ++ ([resp, 0, 0, 0] ++ args)) t
  start : t.last_response = ((2 + cur.length) % 256 : Nat)
  rest : t = { s with
    send_buffer := t.send_buffer
    send_buffer_size := t.send_buffer_size
    last_response := t.last_response }

theorem add_response_spec (h : Buffered base fs cur s) (resp : Byte) :
    Ensures (add_response resp) s fun _ t => Responding base fs cur resp [] s t := by
  unfold add_response
  refine Ensures.get_bind (Ensures.bind (assert_appends _ base fs cur s h) ?_)
  rintro _ s₁ ⟨h₁, hquiet₁⟩
  refine Ensures.bind (assert_room_appends _ base fs _ s₁ h₁) ?_
  rintro _ s₂ ⟨h₂, hquiet₂⟩
  have h₃ : Buffered base fs cur { s with last_response := (s.send_buffer_size.toNat : Int) } :=
    h.of_eq rfl rfl rfl
  refine Ensures.set_bind ?_
  have hfour := (append_bytes_appends (δ := δ) [resp]).bind ((append_bytes_appends [0]).bind
    ((append_bytes_appends [0]).bind (append_bytes_appends [0])))
  refine (hfour base fs cur _ h₃).mono ?_
  rintro _ t ⟨ht, hquiet⟩
  refine ⟨?_, ?_, ?_⟩
  · rw [List.append_nil]
    exact ht
  · rw [hquiet.last_response]
    exact congrArg Nat.cast h.size_toNat
  · rw [hquiet.same]

theorem Responding.append {resp : Byte} {args data : List Byte} {t : Jtagd δ} {p : JtagdProg δ Unit}
    (h : Responding base fs cur resp args s t) (hp : Appends p data) :
    Ensures p t fun _ u => Responding base fs cur resp (args ++ data) s u := by
  refine (hp base fs _ t h.buffered).mono ?_
  rintro _ u ⟨hu, hquiet⟩
  refine ⟨?_, by rw [hquiet.last_response, h.start], ?_⟩
  · rw [List.append_assoc, List.append_assoc] at hu
    exact hu
  · rw [hquiet.same, h.rest]

/-- The response is complete. -/
structure Responded (base : List Byte) (fs : List Frame) (cur : List Byte) (s t : Jtagd δ) : Prop where
  buffered : Buffered base fs cur t
  closed : t.last_response = -1
  messages : t.messages = s.messages

theorem end_response_spec {resp : Byte} {args : List Byte} {t : Jtagd δ}
    (h : Responding base fs cur resp args s t) :
    Ensures end_response t fun _ u => Responded base fs (cur ++ response resp args) s u := by
  have hb := h.buffered
  have hlength : (response resp args).length = ([resp, 0, 0, 0] ++ args).length := rfl
  unfold end_response
  refine Ensures.get_bind (Ensures.bind (assert_appends _ base fs _ t hb) ?_)
  rintro _ t₁ ⟨h₁, hquiet₁⟩
  refine Ensures.bind (memcpy_spec _ _ _ t₁) ?_
  rintro buf _ ⟨rfl, rfl, hfits⟩
  refine Ensures.set_bind (ensures_pure ⟨⟨?_, ?_, hb.alive, hb.sent, ?_⟩, rfl, ?_⟩)
  · rw [List.length_append, hlength, ← List.length_append]
    exact hb.size
  · show (splice _ _ _).length = BUFFER_SIZE
    rw [splice_length _ _ _ hfits, hb.room]
  · intro hshort
    rw [List.length_append, hlength, ← List.length_append] at hshort
    obtain ⟨a, b, rest, hbuf⟩ := hb.holds hshort
    simp only [List.length_append, List.length_cons, List.length_nil] at hshort
    have hstart : t.last_response = (2 + cur.length : Nat) := by
      rw [h.start, Nat.mod_eq_of_lt (by omega)]
    have hsize : t.send_buffer_size.toNat = 2 + cur.length + (4 + args.length) := by
      rw [hb.size_toNat]
      simp only [List.length_append, List.length_cons, List.length_nil]
      omega
    have hlen : BitVec.ofInt 16 ((t.send_buffer_size.toNat : Int) - t.last_response) =
        BitVec.ofNat 16 (4 + args.length) := by
      rw [hsize, hstart, ← BitVec.ofInt_natCast]
      congr 1
      omega
    have hoff : t.last_response.toNat + 2 = ([a, b] ++ (cur ++ [resp, 0])).length := by
      rw [hstart]
      simp only [List.length_append, List.length_cons, List.length_nil]
      omega
    refine ⟨a, b, rest, ?_⟩
    show splice t.send_buffer _ _ = _
    rw [hlen, hoff]
    have hsplit := splice_middle ([a, b] ++ (cur ++ [resp, 0])) [0, 0]
      [((BitVec.ofNat 16 (4 + args.length)) >>> 8).setWidth 8, (BitVec.ofNat 16 (4 + args.length)).setWidth 8]
      (args ++ rest) rfl
    have hparts : t.send_buffer = [a, b] ++ (cur ++ [resp, 0]) ++ ([0, 0] ++ (args ++ rest)) := by
      rw [hbuf]
      simp
    rw [hparts, hsplit, response]
    simp
  · show t.messages = s.messages
    rw [h.rest]

/-! ## Sending -/

theorem fill_header_spec (mux : BitVec 16) (s : Jtagd δ) :
    Ensures (fill_header mux) s fun _ t => t = { s with
      send_buffer := splice s.send_buffer 0
        (header_bytes (compute_header (BitVec.ofInt 16 ((s.send_buffer_size.toNat : Int) - 2)) mux)) } := by
  unfold fill_header
  refine Ensures.get_bind (Ensures.bind (memcpy_spec _ _ _ s) ?_)
  rintro buf _ ⟨rfl, rfl, -⟩
  exact ensures_modify rfl

theorem sent_bytes (h : Buffered base fs cur s) (mux : BitVec 16) : Frame.Sends ⟨mux, cur⟩
    (((splice s.send_buffer 0 (header_bytes
      (compute_header (BitVec.ofInt 16 ((s.send_buffer_size.toNat : Int) - 2)) mux))).drop 0).take
      s.send_buffer_size.toNat) := by
  have hcost : s.send_buffer_size.toNat = Frame.cost ⟨mux, cur⟩ := h.size_toNat
  have hsplice : splice s.send_buffer 0 (header_bytes (Frame.header ⟨mux, cur⟩)) =
      header_bytes (Frame.header ⟨mux, cur⟩) ++ s.send_buffer.drop 2 := by
    simp [splice, header_bytes]
  rw [hcost, List.drop_zero]
  change Frame.Sends _ (List.take _ (splice s.send_buffer 0 (header_bytes (Frame.header ⟨mux, cur⟩))))
  rw [hsplice]
  refine ⟨?_, ⟨_, rfl⟩, ?_⟩
  · have hroom := h.room
    have hsize : BUFFER_SIZE = 4096 := rfl
    have hle : Frame.cost ⟨mux, cur⟩ < 256 := Nat.mod_lt _ (by decide)
    rw [List.length_take, List.length_append, List.length_drop]
    show min _ (2 + _) = _
    omega
  · intro hshort
    have hshort' : cur.length ≤ 253 := hshort
    obtain ⟨a, b, rest, hbuf⟩ := h.holds hshort
    have hexact : Frame.cost ⟨mux, cur⟩ = 2 + cur.length := Nat.mod_eq_of_lt (by omega)
    have hlen : BitVec.ofInt 16 (((2 + cur.length : Nat) : Int) - 2) = BitVec.ofNat 16 cur.length := by
      rw [← BitVec.ofInt_natCast]
      congr 1
      omega
    have hheader : Frame.header ⟨mux, cur⟩ = compute_header (BitVec.ofNat 16 cur.length) mux := by
      rw [Frame.header, hexact, hlen]
    have hframe : (header_bytes (Frame.header ⟨mux, cur⟩) ++ cur).length = 2 + cur.length := by
      rw [List.length_append]
      rfl
    rw [hexact, hbuf, List.drop_append_of_le_length (Nat.le_refl 2)]
    show List.take _ (_ ++ (cur ++ rest)) = _
    rw [← List.append_assoc, List.take_left' hframe, hheader]
    rfl

theorem jtagd_write_ok (s : Jtagd δ) (h : s.sock.alive = true) (data : List Byte) :
    jtagd_sock (write_full data) s =
      .ok true { s with sock := { s.sock with written := s.sock.written ++ data } } := by
  unfold jtagd_sock focus
  rw [Sock.write_full_ok h]

/-- The frame goes out, and a new one begins. -/
theorem do_send_spec (h : Buffered base fs cur s) (mux : BitVec 16) :
    Ensures (do_send mux) s fun _ t => Buffered base (fs ++ [⟨mux, cur⟩]) [] t ∧
      t.last_response = s.last_response ∧ t.messages = s.messages := by
  have hsends := sent_bytes h mux
  have hroom := h.room
  have hwrite := fun buf => jtagd_write_ok { s with send_buffer := buf } h.alive
  unfold do_send
  refine Ensures.bind (fill_header_spec mux s) ?_
  rintro _ t₁ ht₁
  refine Ensures.get_bind (Ensures.bind (bytes_at_spec _ _ _ _) ?_)
  rintro sent t₂ ⟨ht₂, rfl, hfits⟩
  rw [ht₂, ht₁]
  rw [ht₁] at hfits
  simp only at hfits ⊢
  refine Ensures.of_eq_bind (hwrite _ _) ?_
  refine ensures_modify ⟨⟨rfl, ?_, h.alive, h.sent.send hsends, ?_⟩, rfl, rfl⟩
  · show (splice _ _ _).length = BUFFER_SIZE
    rw [splice_length _ _ _ (by rw [hroom]; exact Nat.le_of_ble_eq_true rfl), hroom]
  · intro _
    exact ⟨_, _, s.send_buffer.drop 2, rfl⟩

end JtagRemote.Jtagd
