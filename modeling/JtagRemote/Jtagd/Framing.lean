import JtagRemote.Jtagd.Messages
import JtagRemote.Tap

/-!
# What goes out is well framed

The bytes that a tick writes should be packets, and the bodies of the packets with
mux 0 should be the responses, one for each message.
-/

namespace JtagRemote.Jtagd

open JtagState

variable {δ : Type} {adapter : driver δ} {junk : Nat → Byte} {base : List Byte} {s : Jtagd δ}

/-! ## Responses -/

def responseLength (w : List Byte) : Nat := (w.getD 2 0 ++ w.getD 3 0 : BitVec 16).toNat

/-- The length is in the header, and counts it. -/
def responseNext (w : List Byte) : Option Nat :=
  if 4 ≤ w.length ∧ 4 ≤ responseLength w ∧ responseLength w ≤ w.length then some (responseLength w) else none

theorem responseLength_append {w : List Byte} (h : 4 ≤ w.length) (x : List Byte) :
    responseLength (w ++ x) = responseLength w := by
  rw [responseLength, List.getD_append _ _ _ _ (by omega), List.getD_append _ _ _ _ (by omega)]
  rfl

/-- The rule for the responses of a stream. -/
def responses : Framer Byte where
  next := responseNext
  pos := by
    intro w n h
    unfold responseNext at h
    split at h
    · cases h
      omega
    · cases h
  le := by
    intro w n h
    unfold responseNext at h
    split at h
    · rename_i hc
      cases h
      exact hc.2.2
    · cases h
  stable := by
    intro w n x h
    unfold responseNext at h ⊢
    split at h
    · rename_i hc
      have hle := (List.prefix_append w x).length_le
      rwa [responseLength_append hc.1, if_pos ⟨Nat.le_trans hc.1 hle, hc.2.1, Nat.le_trans hc.2.2 hle⟩]
    · cases h

theorem response_length (resp : Byte) (args : List Byte) :
    (response resp args).length = 4 + args.length := by
  rw [response, List.length_append]
  rfl

theorem next_response (resp : Byte) {args : List Byte} (h : args.length < 65532) :
    responses.next (response resp args) = some (response resp args).length := by
  have hlen : responseLength (response resp args) = 4 + args.length := by
    show ((BitVec.ofNat 16 (4 + args.length) >>> 8).setWidth 8 ++
      (BitVec.ofNat 16 (4 + args.length)).setWidth 8 : BitVec 16).toNat = _
    rw [header_split, BitVec.toNat_ofNat, Nat.mod_eq_of_lt (by omega)]
  show responseNext (response resp args) = _
  rw [responseNext, hlen, response_length, if_pos ⟨by omega, by omega, by omega⟩]

/-! ## How much a message sends -/

/-- The bytes of the arguments of a response. -/
def argsSize (command : Byte) : Nat :=
  if command = 0x83 then 14
  else if command = 0x84 ∨ command = 0xA5 then 12
  else if command = 0x80 then 8
  else if command = 0xA8 ∨ command = 0xAB ∨ command = 0xC6 ∨ command = 0xFE then 4
  else 0

/-- The bytes of the payload, if the message sends its response at once; `n` devices are known. -/
def payloadSizes (msg : Message) (n : Nat) : Option (List Nat) :=
  if msg.command = 0x80 then some [30]
  else if msg.command = 0xA5 then some [n * 28]
  else if msg.command = 0xC8 then some (if intAt msg.body 28 > 0 then [readBytes msg.body] else [])
  else if msg.command = 0xC1 ∨ msg.command = 0xC6 ∨ msg.command = 0xCA then some []
  else none

/-- Each frame of a batch has 1 to 253 bytes; `pending` bytes wait before it. -/
def Fits (pending : Nat) : List (Message × Nat) → Prop
  | [] => pending ≤ 253
  | (msg, n) :: batch =>
    match payloadSizes msg n with
    | none => Fits (pending + (4 + argsSize msg.command)) batch
    | some sizes => pending + (4 + argsSize msg.command) ≤ 253 ∧ (∀ k ∈ sizes, 1 ≤ k ∧ k ≤ 253) ∧ Fits 0 batch

def Outcome.size (o : Outcome) : Message × Nat := (o.msg, o.devices.length)

/-- The payloads of an answer. -/
def Flush.payloads : Flush → Option (List (List Byte))
  | .stays => none
  | .sent => some []
  | .payload data => some [data]

theorem device_bytes_length (devices : List (BitVec 32)) :
    (devices.flatMap device_bytes).length = devices.length * 28 := by
  induction devices with
  | nil => rfl
  | cons id ids ih =>
    rw [List.flatMap_cons, List.length_append, ih, List.length_cons, Nat.succ_mul, Nat.add_comm]
    rfl

theorem answer_sizes {o : Outcome} (h : Gives adapter junk s o) :
    (answer o).args.length = argsSize o.msg.command ∧
      (answer o).flush.payloads.map (·.map List.length) = payloadSizes o.msg o.devices.length := by
  obtain ⟨msg, devices, read⟩ := o
  have hread : msg.command = 0xC8 → readBytes msg.body ≤ read.length := fun hc => (h.dr hc).1
  have hdevices := device_bytes_length devices
  simp only
  by_cases h80 : msg.command = 0x80
  · simp only [answer, argsSize, payloadSizes, h80]
    exact ⟨rfl, rfl⟩
  by_cases h83 : msg.command = 0x83
  · simp only [answer, argsSize, payloadSizes, h83]
    exact ⟨rfl, rfl⟩
  by_cases h84 : msg.command = 0x84
  · simp only [answer, argsSize, payloadSizes, h84]
    exact ⟨rfl, rfl⟩
  by_cases hA5 : msg.command = 0xA5
  · simp only [answer, argsSize, payloadSizes, hA5]
    exact ⟨rfl, congrArg (fun n => some [n]) hdevices⟩
  by_cases hA8 : msg.command = 0xA8
  · simp only [answer, argsSize, payloadSizes, hA8]
    exact ⟨rfl, rfl⟩
  by_cases hAB : msg.command = 0xAB
  · simp only [answer, argsSize, payloadSizes, hAB]
    exact ⟨rfl, rfl⟩
  by_cases hC1 : msg.command = 0xC1
  · simp only [answer, argsSize, payloadSizes, hC1]
    exact ⟨rfl, rfl⟩
  by_cases hC6 : msg.command = 0xC6
  · simp only [answer, argsSize, payloadSizes, hC6]
    exact ⟨rfl, rfl⟩
  by_cases hC8 : msg.command = 0xC8
  · have htake : (read.take (readBytes msg.body)).length = readBytes msg.body := by
      rw [List.length_take, Nat.min_eq_left (hread hC8)]
    unfold answer argsSize payloadSizes
    simp only [hC8]
    refine ⟨rfl, ?_⟩
    by_cases hpos : intAt msg.body 28 > 0
    · simp [hpos, Flush.payloads, htake]
    · simp [hpos, Flush.payloads]
  by_cases hCA : msg.command = 0xCA
  · simp only [answer, argsSize, payloadSizes, hCA]
    exact ⟨rfl, rfl⟩
  by_cases hFE : msg.command = 0xFE
  · simp only [answer, argsSize, payloadSizes, hFE]
    exact ⟨rfl, rfl⟩
  · unfold answer argsSize payloadSizes
    simp only [if_neg h80, if_neg h83, if_neg hC8, h84, hA5, hA8, hAB, hC1, hC6, hCA, hFE, or_self, if_false]
    split <;> exact ⟨rfl, rfl⟩

/-- The outcomes of a run of the loop are what the board gives. -/
theorem Handles.gives {q u : Jtagd δ} {outs : List Outcome} (h : Handles adapter junk q outs u) :
    ∀ o ∈ outs, ∃ s, Gives adapter junk s o := by
  induction h with
  | empty _ => simp
  | waits _ _ => simp
  | @done s _ _ o _ _ _ _ hgives _ ih =>
    intro o' ho'
    rcases List.mem_cons.mp ho' with rfl | ho'
    · exact ⟨s, hgives⟩
    · exact ih o' ho'

theorem framesOf_cons (cur : List Byte) (o : Outcome) (outs : List Outcome) :
    framesOf cur (o :: outs) = match (answer o).flush.payloads with
      | none => framesOf (cur ++ (answer o).response) outs
      | some datas => ⟨0, cur ++ (answer o).response⟩ :: (datas.map (Frame.mk 4) ++ framesOf [] outs) := by
  rw [framesOf, Answer.frames, Answer.waiting]
  cases (answer o).flush <;> rfl

/-- The frames are short just if the sizes fit. -/
theorem short_iff_fits {outs : List Outcome} (h : ∀ o ∈ outs, ∃ s, Gives adapter junk s o) (cur : List Byte) :
    (∀ f ∈ framesOf cur outs, f.Short) ↔ Fits cur.length (outs.map Outcome.size) := by
  induction outs generalizing cur with
  | nil =>
    rw [framesOf, List.map_nil, Fits]
    split
    · rename_i hnil
      simp [hnil]
    · rename_i hne
      have hpos : 1 ≤ cur.length := List.length_pos_iff.mpr hne
      simp [Frame.Short, hpos]
  | cons o outs ih =>
    obtain ⟨s, hgives⟩ := h o List.mem_cons_self
    obtain ⟨hargs, hsizes⟩ := answer_sizes hgives
    have hlen : (cur ++ (answer o).response).length = cur.length + (4 + argsSize o.msg.command) := by
      rw [List.length_append, Answer.response, response_length, hargs]
    have htail := ih fun o' ho' => h o' (List.mem_cons_of_mem _ ho')
    rw [framesOf_cons, List.map_cons, Outcome.size, Fits, ← hsizes]
    cases (answer o).flush.payloads with
    | none =>
      simp only [Option.map_none]
      rw [htail, hlen]
    | some datas =>
      have hnil := htail []
      rw [List.length_nil] at hnil
      simp only [Option.map_some]
      rw [List.forall_mem_cons, List.forall_mem_append, hnil, Frame.Short, hlen]
      have hdatas : (∀ f ∈ datas.map (Frame.mk 4), f.Short) ↔ ∀ k ∈ datas.map List.length, 1 ≤ k ∧ k ≤ 253 := by
        simp [Frame.Short]
      rw [hdatas]
      have hpos : 1 ≤ cur.length + (4 + argsSize o.msg.command) := by omega
      simp [hpos]

theorem framesOf_mux (cur : List Byte) (outs : List Outcome) :
    ∀ f ∈ framesOf cur outs, f.mux = 0 ∨ f.mux = 4 := by
  induction outs generalizing cur with
  | nil =>
    rw [framesOf]
    split <;> simp
  | cons o outs ih =>
    rw [framesOf_cons]
    cases (answer o).flush.payloads with
    | none => exact ih _
    | some datas =>
      intro f hf
      rcases List.mem_cons.mp hf with rfl | hf
      · exact Or.inl rfl
      · rcases List.mem_append.mp hf with hf | hf
        · obtain ⟨data, -, rfl⟩ := List.mem_map.mp hf
          exact Or.inr rfl
        · exact ih [] f hf

/-- The bodies of the packets with mux 0. -/
def messageBytes (packets : List (Nat × List Byte)) : List Byte :=
  packets.flatMap fun p => if p.1 = 0 then p.2 else []

def Frame.content (f : Frame) : Nat × List Byte := (f.mux.toNat, f.body)

theorem messageBytes_framesOf (cur : List Byte) (outs : List Outcome) :
    messageBytes ((framesOf cur outs).map Frame.content) =
      cur ++ outs.flatMap fun o => (answer o).response := by
  induction outs generalizing cur with
  | nil =>
    rw [framesOf, List.flatMap_nil, List.append_nil]
    split
    · rename_i hnil
      rw [hnil]
      rfl
    · simp [messageBytes, Frame.content]
  | cons o outs ih =>
    rw [framesOf_cons, List.flatMap_cons]
    cases (answer o).flush.payloads with
    | none =>
      simp only
      rw [ih, List.append_assoc]
    | some datas =>
      have hnil := ih []
      have hdatas : messageBytes ((datas.map (Frame.mk 4)).map Frame.content) = [] := by
        simp [messageBytes, Frame.content]
      rw [messageBytes] at hnil hdatas ⊢
      simp only [List.map_cons, List.map_append, List.flatMap_cons, List.flatMap_append, hdatas, hnil]
      simp [Frame.content]

/-! ## The packets that are sent -/

/-- `new` is a row of packets, which hold what was appended, and the responses of `outs`. -/
def WellFramed (new : List Byte) (outs : List Outcome) : Prop :=
  ∃ us, packets.Splits new us [] ∧ us.map unpack = (framesOf [] outs).map Frame.content ∧
    responses.Splits (messageBytes (us.map unpack)) (outs.map fun o => (answer o).response) []

theorem splits_frames {fs : List Frame} (hshort : ∀ f ∈ fs, f.Short) (hmux : ∀ f ∈ fs, f.mux = 0 ∨ f.mux = 4) :
    packets.Splits (fs.flatMap Frame.bytes) (fs.map Frame.bytes) [] ∧
      (fs.map Frame.bytes).map unpack = fs.map Frame.content := by
  induction fs with
  | nil => exact ⟨.stop rfl, rfl⟩
  | cons f fs ih =>
    obtain ⟨hsplits, hunpack⟩ := ih (fun g hg => hshort g (List.mem_cons_of_mem _ hg)) fun g hg =>
      hmux g (List.mem_cons_of_mem _ hg)
    obtain ⟨hpos, hle⟩ := hshort f List.mem_cons_self
    have hlow : f.mux.toNat < 16 := by rcases hmux f List.mem_cons_self with h | h <;> rw [h] <;> decide
    have hle' : f.body.length ≤ 4096 := by omega
    refine ⟨?_, ?_⟩
    · rw [List.flatMap_cons, List.map_cons]
      exact hsplits.cons (Frame.next_bytes hpos hle' hlow)
    · rw [List.map_cons, List.map_cons, hunpack, List.map_cons, unpack, Frame.muxOf_bytes hpos hle' hlow]
      rfl

theorem splits_responses {outs : List Outcome} (h : ∀ o ∈ outs, ∃ s, Gives adapter junk s o) :
    responses.Splits (outs.flatMap fun o => (answer o).response) (outs.map fun o => (answer o).response) [] := by
  induction outs with
  | nil => exact .stop rfl
  | cons o outs ih =>
    obtain ⟨s, hgives⟩ := h o List.mem_cons_self
    have hargs : (answer o).args.length < 65532 := by
      rw [(answer_sizes hgives).1, argsSize]
      repeat' split
      all_goals omega
    rw [List.flatMap_cons, List.map_cons]
    exact (ih fun o' ho' => h o' (List.mem_cons_of_mem _ ho')).cons (next_response _ hargs)

theorem Frame.cost_le (f : Frame) : f.cost ≤ 2 + f.body.length := Nat.mod_le _ _

/-- No packet is empty. -/
theorem Splits_pos {w rest : List Byte} {us : List (List Byte)} (h : packets.Splits w us rest) :
    ∀ u ∈ us, 3 ≤ u.length := by
  induction h with
  | stop _ => simp
  | @unit w n us rest hn _ ih =>
    intro u hu
    rcases List.mem_cons.mp hu with rfl | hu
    · have hle := packets.le hn
      have hlen : n = 2 + lengthOf w := by
        unfold packets packetLen at hn
        simp only at hn
        split at hn
        · exact (Option.some.inj hn).symm
        · cases hn
      rw [List.length_take, Nat.min_eq_left hle, hlen, lengthOf]
      omega
    · exact ih u hu

/-- The counter can count a batch only if its frames are short. -/
theorem short_of_cost {us : List (List Byte)} {fs : List Frame} (heq : us.map unpack = fs.map Frame.content)
    (hpos : ∀ u ∈ us, 3 ≤ u.length) :
    (fs.map Frame.cost).sum ≤ us.flatten.length ∧
      (us.flatten.length ≤ (fs.map Frame.cost).sum → ∀ f ∈ fs, f.Short) := by
  induction us generalizing fs with
  | nil =>
    have hnil : fs = [] := List.map_eq_nil_iff.mp heq.symm
    simp [hnil]
  | cons u us ih =>
    cases fs with
    | nil => cases heq
    | cons f fs =>
      rw [List.map_cons, List.map_cons, List.cons.injEq] at heq
      obtain ⟨hle, hshort⟩ := ih heq.2 fun v hv => hpos v (List.mem_cons_of_mem _ hv)
      have hu := hpos u List.mem_cons_self
      have hbody : u.length = 2 + f.body.length := by
        have := congrArg (fun p => p.2.length) heq.1
        simp only [unpack, Frame.content, List.length_drop] at this
        omega
      have hcost := f.cost_le
      simp only [List.map_cons, List.sum_cons, List.flatten_cons, List.length_append]
      refine ⟨by omega, ?_⟩
      intro hall g hg
      rcases List.mem_cons.mp hg with rfl | hg
      · have hexact : g.cost = 2 + g.body.length := by omega
        unfold Frame.cost at hexact
        exact ⟨by omega, by omega⟩
      · exact hshort (by omega) g hg

/-- Each frame comes out as a packet just if the sizes fit. -/
theorem packets_iff {written : List Byte} {outs : List Outcome} (h : ∀ o ∈ outs, ∃ s, Gives adapter junk s o)
    (hwrote : Wrote base (framesOf [] outs) written) :
    (∃ new, written = base ++ new ∧
      ∃ us, packets.Splits new us [] ∧ us.map unpack = (framesOf [] outs).map Frame.content) ↔
        Fits 0 (outs.map Outcome.size) := by
  rw [← List.length_nil, ← short_iff_fits h]
  obtain ⟨new, rfl, hlen, hexact⟩ := hwrote.grows
  constructor
  · rintro ⟨new', heq, us, hsplits, hunpack⟩
    obtain rfl := List.append_cancel_left heq
    have hflat := hsplits.flatten
    rw [List.append_nil] at hflat
    rw [← hflat] at hlen
    exact (short_of_cost hunpack (Splits_pos hsplits)).2 hlen
  · intro hshort
    obtain ⟨hsplits, hunpack⟩ := splits_frames hshort (framesOf_mux [] outs)
    refine ⟨new, rfl, (framesOf [] outs).map Frame.bytes, ?_, hunpack⟩
    rw [hexact fun f hf => (hshort f hf).2]
    exact hsplits

/-- What was written is well framed just if the sizes fit. -/
theorem wellFramed_iff {written : List Byte} {outs : List Outcome} (h : ∀ o ∈ outs, ∃ s, Gives adapter junk s o)
    (hwrote : Wrote base (framesOf [] outs) written) :
    (∃ new, written = base ++ new ∧ WellFramed new outs) ↔ Fits 0 (outs.map Outcome.size) := by
  rw [← packets_iff h hwrote]
  constructor
  · rintro ⟨new, hnew, us, hsplits, hunpack, -⟩
    exact ⟨new, hnew, us, hsplits, hunpack⟩
  · rintro ⟨new, hnew, us, hsplits, hunpack⟩
    refine ⟨new, hnew, us, hsplits, hunpack, ?_⟩
    rw [hunpack, messageBytes_framesOf, List.nil_append]
    exact splits_responses h

/-! ## A tick -/

/-- The messages that a tick gets done, with their outcomes: none if the client hangs up. -/
inductive Batch (adapter : driver δ) (junk : Nat → Byte) (net : Net) (s : Jtagd δ) : List Outcome → Prop
  | closed {r : Jtagd δ} : jtagd_sock (read_socket net.recv) { s with send_buffer_size := 2 } = .ok false r →
      Batch adapter junk net s []
  | served {r q u : Jtagd δ} {outs : List Outcome} :
      jtagd_sock (read_socket net.recv) { s with send_buffer_size := 2 } = .ok true r →
      packet_loop (BUFFER_SIZE + 1) r = .ok () q → Handles adapter junk q outs u → Batch adapter junk net s outs

/-- A read leaves what was written alone. -/
theorem read_socket_keeps (recv : Recv) (k : Sock) :
    Ensures (read_socket recv) k fun _ k' => k'.alive = k.alive ∧ k'.written = k.written := by
  have hroom : (make_room k).alive = k.alive ∧ (make_room k).written = k.written := by
    unfold make_room
    split
    · exact ⟨rfl, rfl⟩
    · split <;> exact ⟨rfl, rfl⟩
  unfold read_socket
  refine Ensures.modify_bind (Ensures.get_bind ?_)
  refine ensures_ite (fun _ => ?_) fun _ => ensures_pure hroom
  cases recv with
  | closed => exact Ensures.set_bind (ensures_pure hroom)
  | failed => exact ensures_pure hroom
  | data first rest =>
    refine Ensures.bind (memcpy_spec _ _ _ _) ?_
    rintro _ _ ⟨rfl, -, -⟩
    exact Ensures.set_bind (ensures_pure hroom)

theorem jtagd_read_spec (recv : Recv) (s : Jtagd δ) :
    Ensures (jtagd_sock (read_socket recv)) s fun ok r => r = { s with sock := r.sock } ∧
      r.sock.alive = s.sock.alive ∧ r.sock.written = s.sock.written ∧ jtagd_sock (read_socket recv) s = .ok ok r := by
  have h : Ensures (jtagd_sock (read_socket recv)) s fun ok r =>
      jtagd_sock (read_socket recv) s = .ok ok r := fun _ _ h => h
  refine ((Ensures.focus (read_socket_keeps recv s.sock)).and h).mono ?_
  rintro ok _ ⟨⟨k, ⟨halive, hwritten⟩, rfl⟩, hrun⟩
  exact ⟨rfl, halive, hwritten, hrun⟩

/-- When the messages of a tick are taken up, nothing waits in the send buffer. -/
theorem tick_buffered {r q : Jtagd δ} {new : List Message} (halive : s.sock.alive = true)
    (hroom : s.send_buffer.length = BUFFER_SIZE) (hr : r = { s with send_buffer_size := 2, sock := r.sock })
    (hralive : r.sock.alive = s.sock.alive) (hrwritten : r.sock.written = s.sock.written) (htook : Took r q new) :
    Buffered s.sock.written [] [] q := by
  rw [htook.rest, hr]
  refine ⟨rfl, hroom, hralive.trans halive, ?_, ?_⟩
  · show Sent s.sock.written [] r.sock.written
    rw [hrwritten]
    exact .refl _
  · intro _
    match hsend : s.send_buffer, hroom with
    | a :: b :: rest, _ => exact ⟨a, b, rest, rfl⟩

/-- A tick of a client reads, and handles the messages that it queued, unless the client hung up. -/
theorem tick_serves {net : Net} (hfd : s.sock.client_fd ≥ 0) (halive : s.sock.alive = true)
    (hroom : s.send_buffer.length = BUFFER_SIZE) :
    Ensures (jtag_jtagd_tick adapter junk net) s fun _ t =>
      jtagd_sock (read_socket net.recv) { s with send_buffer_size := 2 } = .ok false t ∧
        t.sock.written = s.sock.written ∨
      ∃ r q, jtagd_sock (read_socket net.recv) { s with send_buffer_size := 2 } = .ok true r ∧
        packet_loop (BUFFER_SIZE + 1) r = .ok () q ∧ Buffered s.sock.written [] [] q ∧
        q.sock.written = s.sock.written ∧ handle_messages adapter junk q = .ok () t := by
  unfold jtag_jtagd_tick
  refine Ensures.modify_bind (Ensures.get_bind ?_)
  refine ensures_ite (fun _ => ?_) fun hnot => absurd hfd hnot
  refine Ensures.bind (jtagd_read_spec net.recv _) ?_
  rintro ok r ⟨hr, hralive, hrwritten, hread⟩
  cases ok with
  | false => exact ensures_pure (.inl ⟨hread, hrwritten⟩)
  | true =>
    have hrun : Ensures (packet_loop (BUFFER_SIZE + 1)) r fun _ q =>
        (∃ new, Took r q new) ∧ packet_loop (BUFFER_SIZE + 1) r = .ok () q :=
      (packet_loop_took _ r).ensures.and fun _ _ hrun => hrun
    refine Ensures.bind hrun ?_
    rintro _ q ⟨⟨new, htook⟩, hpackets⟩
    have hwritten : q.sock.written = s.sock.written := by
      rw [htook.rest]
      exact hrwritten
    intro _ t hhandle
    exact .inr ⟨r, q, hread, hpackets, tick_buffered halive hroom hr hralive hrwritten htook, hwritten, hhandle⟩

/-- What a tick writes to a client. -/
theorem tick_wrote {net : Net} (hfd : s.sock.client_fd ≥ 0) (halive : s.sock.alive = true)
    (hroom : s.send_buffer.length = BUFFER_SIZE) :
    Ensures (jtag_jtagd_tick adapter junk net) s fun _ t => ∃ outs, Batch adapter junk net s outs ∧
      Wrote s.sock.written (framesOf [] outs) t.sock.written := by
  refine (tick_serves hfd halive hroom).mono ?_
  rintro _ t (⟨hread, hwritten⟩ | ⟨r, q, hread, hpackets, hbuf, -, hhandle⟩)
  · refine ⟨[], .closed hread, ?_⟩
    rw [hwritten]
    exact (Sent.refl _).wrote
  · obtain ⟨outs, u, hhandles, -, hwrote⟩ := handle_messages_spec hbuf _ t hhandle
    exact ⟨outs, .served hread hpackets hhandles, hwrote⟩

theorem Batch.gives {net : Net} {outs : List Outcome} (h : Batch adapter junk net s outs) :
    ∀ o ∈ outs, ∃ q, Gives adapter junk q o := by
  cases h with
  | closed _ => simp
  | served _ _ hhandles => exact hhandles.gives

/-- What a tick writes is well framed just if each frame of its batch fits the counter. -/
theorem tick_framed_iff {net : Net} {t : Jtagd δ} (hfd : s.sock.client_fd ≥ 0) (halive : s.sock.alive = true)
    (hroom : s.send_buffer.length = BUFFER_SIZE) (hrun : jtag_jtagd_tick adapter junk net s = .ok () t) :
    ∃ outs, Batch adapter junk net s outs ∧
      ((∃ new, t.sock.written = s.sock.written ++ new ∧ WellFramed new outs) ↔
        Fits 0 (outs.map Outcome.size)) := by
  obtain ⟨outs, hbatch, hwrote⟩ := tick_wrote hfd halive hroom () t hrun
  exact ⟨outs, hbatch, wellFramed_iff hbatch.gives hwrote⟩

/-- A driver on a chain whose TDO stays low: the probe finds no device. -/
def lowDriver : driver Unit where
  init _ := pure true
  deinit := pure true
  set_tck_freq _ := pure true
  jtag_tms_seq _ _ := pure true
  jtag_scan_chain_send _ _ flip_tms _ := do
    modify fun c => { c with state := stateAfterScan c.state flip_tms }
    pure true
  jtag_scan_chain_recv recv _ _ := pure (true, List.replicate recv.length 0)
  jtag_clock_tck _ := pure true

/-- A client has just come. -/
def servingJtagd : Jtagd Unit :=
  let s := freshJtagd (⟨TestLogicReset, 0, ()⟩ : Jtag Unit)
  { s with sock := { s.sock with client_fd := 4, alive := true } }

def writtenBy (r : EStateM.Result Fault (Jtagd Unit) Unit) : Option (List Byte) :=
  match r with
  | .ok _ t => some t.sock.written
  | .error _ _ => none

theorem returns_of_writtenBy {r : EStateM.Result Fault (Jtagd Unit) Unit} {w : List Byte}
    (h : writtenBy r = some w) : ∃ t, r = .ok () t ∧ t.sock.written = w := by
  unfold writtenBy at h
  split at h
  · exact ⟨_, rfl, Option.some.inj h⟩
  · cases h

/-- The packet of one SET_PARAMETER message. -/
def setParameter : Net := ⟨deliver [0x00, 0x03, 0xAA, 0x00, 0x00, 0x04], false⟩

/-- The packet of one READ_CHAIN message. -/
def readChain : Net := ⟨deliver [0x00, 0x03, 0xA5, 0x00, 0x00, 0x04], false⟩

theorem tick_framed_iff_set_parameter : ∃ t, jtag_jtagd_tick lowDriver (fun _ => 0) setParameter servingJtagd =
      .ok () t ∧ t.sock.written = [0x00, 0x03, 0x00, 0x00, 0x00, 0x04] ∧
    ∃ outs, Batch lowDriver (fun _ => 0) setParameter servingJtagd outs ∧
      ((∃ new, t.sock.written = servingJtagd.sock.written ++ new ∧ WellFramed new outs) ↔
        Fits 0 (outs.map Outcome.size)) := by
  have hwritten : writtenBy (jtag_jtagd_tick lowDriver (fun _ => 0) setParameter servingJtagd) =
      some [0x00, 0x03, 0x00, 0x00, 0x00, 0x04] := by decide +kernel
  obtain ⟨t, hrun, hbytes⟩ := returns_of_writtenBy hwritten
  exact ⟨t, hrun, hbytes, tick_framed_iff (by decide) rfl List.length_replicate hrun⟩

/-- What goes out for an empty chain: the response, and the header of an empty body. -/
def emptyChain : List Byte :=
  [0x00, 0x0F, 0x00, 0x00, 0x00, 0x10, 0x00, 0x00, 0x00, 0x01, 0x00, 0x00, 0x00, 0x00, 0x00, 0x00, 0x00, 0x00] ++
    [0xFF, 0xFF]

/-- The header promises 4096 bytes that are not there. -/
theorem empty_chain_rest {us : List (List Byte)} : ¬ packets.Splits emptyChain us [] := by
  intro hsplits
  have hrest := Framer.Splits.cons (F := packets) (w := [0xFF, 0xFF])
    (u := [0x00, 0x0F, 0x00, 0x00, 0x00, 0x10, 0x00, 0x00, 0x00, 0x01, 0x00, 0x00, 0x00, 0x00, 0x00, 0x00,
      0x00, 0x00]) (by decide) (.stop (by decide))
  cases (hsplits.unique hrest).2

/-- With no device on the chain, the payload is empty, and its header says 4096 bytes. -/
theorem empty_chain_misframed : ∃ t outs, jtag_jtagd_tick lowDriver (fun _ => 0) readChain servingJtagd = .ok () t ∧
    Batch lowDriver (fun _ => 0) readChain servingJtagd outs ∧
    ¬ ∃ new, t.sock.written = servingJtagd.sock.written ++ new ∧ WellFramed new outs := by
  have hwritten : writtenBy (jtag_jtagd_tick lowDriver (fun _ => 0) readChain servingJtagd) =
      some emptyChain := by decide +kernel
  obtain ⟨t, hrun, hbytes⟩ := returns_of_writtenBy hwritten
  obtain ⟨outs, hbatch, -⟩ := tick_wrote (by decide) rfl List.length_replicate () t hrun
  refine ⟨t, outs, hrun, hbatch, ?_⟩
  rintro ⟨new, hnew, us, hsplits, -⟩
  rw [hbytes] at hnew
  obtain rfl : _ = new := hnew
  exact empty_chain_rest hsplits

end JtagRemote.Jtagd
