import JtagRemote.Jtagd.Framing

/-!
# Blocks of messages

A packet with mux 0 is a block of messages, each with its length in its header. The
parser goes from header to header, and stays in the block just if the headers do.
-/

namespace JtagRemote.Jtagd

variable {δ : Type} {s : Jtagd δ}

/-! ## The layout of a block -/

/-- A message has the layout of a response. -/
def encodeMessage (m : Message) : List Byte := response m.command m.body

/-- A header, with a length that is the length of it all. -/
def IsMessage (u : List Byte) : Prop := 4 ≤ u.length ∧ responseLength u = u.length

def messageOf (u : List Byte) : Message := ⟨u.getD 0 0, u.drop 4⟩

/-- The headers that the parser comes to lie in the block, and so do the lengths in them; one that is too
short for a header ends the block early. -/
inductive Chained : List Byte → Prop
  | done : Chained []
  | bad {w : List Byte} : 4 ≤ w.length → responseLength w < 4 → Chained w
  | message {w : List Byte} : 4 ≤ w.length → 4 ≤ responseLength w → responseLength w ≤ w.length →
      Chained (w.drop (responseLength w)) → Chained w

/-- What the parser should do with the body of a packet, wherever it is in the receive buffer. It reads nothing
else, so it does the same whatever stands around the body, and also when nothing does. -/
structure ParsesBlock (body : List Byte) : Prop where
  stays : ∃ (units : List (List Byte)) (rest : List Byte), body = units.flatten ++ rest ∧ (∀ u ∈ units, IsMessage u) ∧
    ∀ (δ : Type) (s : Jtagd δ) (before after : List Byte), s.sock.buffer = before ++ body ++ after →
      s.sock.buffer_begin = before.length →
      handle_packet 0 body.length s = .ok () { s with messages := s.messages ++ units.map messageOf }
  inverts : ∀ ms : List Message, (∀ m ∈ ms, m.body.length < 65532) → body = ms.flatMap encodeMessage →
    ∀ (δ : Type) (s : Jtagd δ) (before after : List Byte), s.sock.buffer = before ++ body ++ after →
      s.sock.buffer_begin = before.length →
      handle_packet 0 body.length s = .ok () { s with messages := s.messages ++ ms }

/-! ## One message -/

theorem getD_middle (before w after : List Byte) {i : Nat} (h : i < w.length) :
    (before ++ w ++ after).getD (before.length + i) 0 = w.getD i 0 := by
  rw [List.append_assoc, List.getD_append_right _ _ _ _ (Nat.le_add_right _ _), Nat.add_sub_cancel_left,
    List.getD_append _ _ _ _ h]

theorem take_middle (before w after : List Byte) {n : Nat} (h : n ≤ w.length) :
    ((before ++ w ++ after).drop before.length).take n = w.take n := by
  rw [List.append_assoc, List.drop_left, List.take_append_of_le_length h]

theorem responseLength_take {w : List Byte} (h : 4 ≤ responseLength w) :
    responseLength (w.take (responseLength w)) = responseLength w := by
  by_cases hlen : 4 ≤ w.length
  · have hfour : 4 ≤ (w.take (responseLength w)).length := by
      rw [List.length_take]
      omega
    have happend := responseLength_append hfour (w.drop (responseLength w))
    rw [List.take_append_drop] at happend
    exact happend.symm
  · rw [List.take_of_length_le (by omega)]

/-- A round: the header is read, with all that its length covers. -/
theorem parse_round {before w after : List Byte} (hbuf : s.sock.buffer = before ++ w ++ after) (hfour : 4 ≤ w.length)
    (hlen : responseLength w ≤ w.length) (fuel : Nat) :
    parse_messages (before.length + w.length) (fuel + 1) before.length s =
      if responseLength w < 4 then .ok () s
      else parse_messages (before.length + w.length) fuel (before.length + responseLength w)
        { s with messages := s.messages ++ [messageOf (w.take (responseLength w))] } := by
  have hsize : s.sock.buffer.length = before.length + w.length + after.length := by
    rw [hbuf, List.length_append, List.length_append]
  have hhead := getD_middle before w after (i := 0) (by omega)
  have hhi := getD_middle before w after (i := 2) (by omega)
  have hlo := getD_middle before w after (i := 3) (by omega)
  rw [← hbuf] at hhead hhi hlo
  rw [Nat.add_zero] at hhead
  rw [parse_messages, if_pos (by omega), bind_of_ok (get_apply s), bind_of_ok (index_ok (by omega) s),
    bind_of_ok (index_ok (by omega) s), bind_of_ok (index_ok (by omega) s), hhead, hhi, hlo]
  have hcount : (w.getD 2 0 ++ w.getD 3 0 : BitVec 16).toNat = responseLength w := rfl
  rw [hcount, bind_of_ok (bytes_at_ok (by omega) s)]
  have hbytes : (s.sock.buffer.drop before.length).take (responseLength w) = w.take (responseLength w) := by
    rw [hbuf, take_middle before w after hlen]
  rw [hbytes]
  split
  · rfl
  · rename_i hgood
    have hmsg : messageOf (w.take (responseLength w)) = ⟨w.getD 0 0, (w.take (responseLength w)).drop 4⟩ := by
      rw [messageOf, List.getD_eq_getElem?_getD, List.getElem?_take_of_lt (by omega), ← List.getD_eq_getElem?_getD]
    rw [hmsg]
    exact bind_of_ok (set_apply _ s)

/-! ## A whole block -/

theorem parse_end {p stop : Nat} (h : ¬ p < stop) (fuel : Nat) : parse_messages stop fuel p s = .ok () s := by
  cases fuel with
  | zero => rw [parse_messages, if_neg h]; rfl
  | succ fuel => rw [parse_messages, if_neg h]; rfl

/-- The run of the parser over `w`, which is all that is left of the block. -/
def Parses (w : List Byte) (ms : List Message) : Prop :=
  ∀ (δ : Type) (s : Jtagd δ) (before after : List Byte) (fuel : Nat), s.sock.buffer = before ++ w ++ after →
    w.length ≤ fuel →
    parse_messages (before.length + w.length) fuel before.length s = .ok () { s with messages := s.messages ++ ms }

theorem parses_nil : Parses [] [] := by
  intro δ s before after fuel _ _
  rw [parse_end (by simp), List.append_nil]

theorem parses_bad {w : List Byte} (hfour : 4 ≤ w.length) (hbad : responseLength w < 4) : Parses w [] := by
  intro δ s before after fuel hbuf hfuel
  obtain ⟨fuel, rfl⟩ : ∃ n, fuel = n + 1 := ⟨fuel - 1, by omega⟩
  rw [parse_round hbuf hfour (by omega), if_pos hbad, List.append_nil]

theorem Parses.message {w : List Byte} {ms : List Message} (hfour : 4 ≤ w.length) (hgood : 4 ≤ responseLength w)
    (hlen : responseLength w ≤ w.length) (h : Parses (w.drop (responseLength w)) ms) :
    Parses w (messageOf (w.take (responseLength w)) :: ms) := by
  intro δ s before after fuel hbuf hfuel
  obtain ⟨fuel, rfl⟩ : ∃ n, fuel = n + 1 := ⟨fuel - 1, by omega⟩
  have htake : (w.take (responseLength w)).length = responseLength w := by
    rw [List.length_take]
    omega
  have hdrop := List.length_drop (i := responseLength w) (l := w)
  have hrest := h δ { s with messages := s.messages ++ [messageOf (w.take (responseLength w))] }
    (before ++ w.take (responseLength w)) after fuel (by rw [hbuf, List.append_assoc before (w.take _), List.take_append_drop])
    (by omega)
  have hstop : (before ++ w.take (responseLength w)).length + (w.drop (responseLength w)).length =
      before.length + w.length := by
    rw [List.length_append, htake]
    omega
  rw [hstop, List.length_append, htake] at hrest
  rw [parse_round hbuf hfour hlen, if_neg (by omega), hrest, List.append_assoc]
  rfl

theorem Chained.parses {w : List Byte} (h : Chained w) : ∃ (units : List (List Byte)) (rest : List Byte),
    w = units.flatten ++ rest ∧ (∀ u ∈ units, IsMessage u) ∧ Parses w (units.map messageOf) := by
  induction h with
  | done => exact ⟨[], [], rfl, by simp, parses_nil⟩
  | @bad w hfour hbad => exact ⟨[], w, rfl, by simp, parses_bad hfour hbad⟩
  | @message w hfour hgood hlen _ ih =>
    obtain ⟨units, rest, hsplit, hunits, hparses⟩ := ih
    refine ⟨w.take (responseLength w) :: units, rest, ?_, ?_, hparses.message hfour hgood hlen⟩
    · rw [List.flatten_cons, List.append_assoc, ← hsplit, List.take_append_drop]
    · intro u hu
      rcases List.mem_cons.mp hu with rfl | hu
      · rw [IsMessage, responseLength_take hgood, List.length_take]
        omega
      · exact hunits u hu

/-! ## Good messages -/

theorem responseLength_bytes {m : Message} (h : m.body.length < 65532) (x : List Byte) :
    responseLength (encodeMessage m ++ x) = (encodeMessage m).length := by
  have hnext := next_response m.command h
  have hlen : (encodeMessage m).length = 4 + m.body.length := response_length m.command m.body
  change responseNext (encodeMessage m) = some (encodeMessage m).length at hnext
  unfold responseNext at hnext
  split at hnext
  · rw [responseLength_append (by omega)]
    exact Option.some.inj hnext
  · cases hnext

/-- What was put into a block comes out of it. -/
theorem parses_bytes {ms : List Message} (h : ∀ m ∈ ms, m.body.length < 65532) :
    Parses (ms.flatMap encodeMessage) ms := by
  induction ms with
  | nil => exact parses_nil
  | cons m ms ih =>
    have hm := h m List.mem_cons_self
    have hlen : (encodeMessage m).length = 4 + m.body.length := response_length m.command m.body
    have hcount := responseLength_bytes hm (ms.flatMap encodeMessage)
    have htail := ih fun m' hm' => h m' (List.mem_cons_of_mem m hm')
    rw [List.flatMap_cons]
    have hrest : Parses ((encodeMessage m ++ ms.flatMap encodeMessage).drop
        (responseLength (encodeMessage m ++ ms.flatMap encodeMessage))) ms := by
      rw [hcount, List.drop_left]
      exact htail
    have hall := hrest.message (by rw [List.length_append]; omega) (by omega) (by rw [List.length_append]; omega)
    rw [hcount, List.take_left] at hall
    exact hall

/-! ## Blocks that the parser leaves -/

/-- In a buffer that ends with the block, the parser returns only if the headers stay in it. -/
theorem parse_chained {stop fuel p : Nat} (hstop : stop = s.sock.buffer.length) :
    Ensures (parse_messages stop fuel p) s fun _ _ => Chained (s.sock.buffer.drop p) := by
  induction fuel generalizing p s with
  | zero =>
    unfold parse_messages
    refine ensures_ite (fun _ => ensures_throw) fun hend => ensures_pure ?_
    rw [List.drop_of_length_le (by omega)]
    exact .done
  | succ fuel ih =>
    unfold parse_messages
    refine ensures_ite (fun _ => ?_) fun hend => ensures_pure ?_
    rotate_left
    · rw [List.drop_of_length_le (by omega)]
      exact .done
    refine Ensures.get_bind (Ensures.bind (index_spec _ _ s) ?_)
    rintro command _ ⟨rfl, -, -⟩
    refine Ensures.bind (index_spec _ _ _) ?_
    rintro hi _ ⟨rfl, rfl, -⟩
    refine Ensures.bind (index_spec _ _ _) ?_
    rintro lo _ ⟨rfl, rfl, hlo⟩
    refine Ensures.bind (bytes_at_spec _ _ _ _) ?_
    rintro bytes s ⟨rfl, rfl, hfits⟩
    have hfour : 4 ≤ (s.sock.buffer.drop p).length := by
      rw [List.length_drop]
      omega
    have hcount : (s.sock.buffer.getD (p + 2) 0 ++ s.sock.buffer.getD (p + 3) 0 : BitVec 16).toNat =
        responseLength (s.sock.buffer.drop p) := by
      rw [responseLength, List.getD_eq_getElem?_getD, List.getD_eq_getElem?_getD, List.getD_eq_getElem?_getD,
        List.getD_eq_getElem?_getD, List.getElem?_drop, List.getElem?_drop]
    rw [hcount] at hfits ⊢
    refine ensures_ite (fun hbad => ensures_pure (.bad hfour hbad)) fun hgood => Ensures.set_bind ?_
    refine Ensures.mono (ih ?_) fun _ _ hrest => ?_
    · exact hstop
    refine .message hfour (by omega) (by rw [List.length_drop]; omega) ?_
    rw [List.drop_drop]
    exact hrest

theorem handle_packet_zero (n : Nat) :
    handle_packet 0 n s = parse_messages (s.sock.buffer_begin + n) n s.sock.buffer_begin s := by
  unfold handle_packet
  rw [bind_of_ok (get_apply s)]
  exact congrFun (if_pos rfl) s

/-- A server with these bytes in its receive buffer. -/
def holding (before rest : List Byte) : Jtagd Unit :=
  { freshJtagd (⟨.TestLogicReset, 0, ()⟩ : Jtag Unit) with
    sock := { bootSock with buffer := before ++ rest, buffer_begin := before.length } }

theorem chained_of_parses {body : List Byte} (h : ParsesBlock body) : Chained body := by
  obtain ⟨units, rest, -, -, hrun⟩ := h.stays
  have hall := hrun Unit (holding [] body) [] [] (List.append_nil _).symm rfl
  rw [handle_packet_zero] at hall
  exact parse_chained (s := holding [] body) (Nat.zero_add _) () _ hall

theorem Parses.packet {body : List Byte} {ms : List Message} (h : Parses body ms) {before after : List Byte}
    (hbuf : s.sock.buffer = before ++ body ++ after) (hstart : s.sock.buffer_begin = before.length) :
    handle_packet 0 body.length s = .ok () { s with messages := s.messages ++ ms } := by
  rw [handle_packet_zero, hstart]
  exact h δ s before after body.length hbuf (Nat.le_refl _)

/-- The parser stays in a block, and takes the messages out of it, just if the headers do not lead it out. -/
theorem parses_block_iff (body : List Byte) : ParsesBlock body ↔ Chained body := by
  constructor
  · exact chained_of_parses
  · intro h
    obtain ⟨units, rest, hsplit, hunits, hparses⟩ := h.parses
    refine ⟨⟨units, rest, hsplit, hunits, fun δ s before after => hparses.packet⟩, ?_⟩
    rintro ms hms rfl δ s before after hbuf hstart
    exact (parses_bytes hms).packet hbuf hstart

/-- The header says 8 bytes, and the block ends behind it. -/
def longHeader : List Byte := [0xA8, 0x00, 0x00, 0x08]

/-- What the message gets instead is what is behind the block in the receive buffer. -/
theorem length_is_trusted : ¬ ParsesBlock longHeader ∧
    ∀ stale : List Byte, stale.length = 4 → ∃ t,
      handle_packet 0 longHeader.length (holding [0x00, 0x03] (longHeader ++ stale)) = .ok () t ∧
      t.messages = [⟨0xA8, stale⟩] := by
  refine ⟨fun h => ?_, fun stale hstale => ?_⟩
  · cases chained_of_parses h with
    | bad _ hbad => exact absurd hbad (by decide)
    | message _ _ hlen _ => exact absurd hlen (by decide)
  · obtain ⟨a, b, c, d, rfl⟩ : ∃ a b c d, stale = [a, b, c, d] := by
      match stale, hstale with
      | [a, b, c, d], _ => exact ⟨a, b, c, d, rfl⟩
    exact ⟨_, rfl, rfl⟩

end JtagRemote.Jtagd
