import JtagRemote.Jtagd.Framing

/-!
# The lengths that responses announce

GET_HARDWARE, GET_DEFINED_DEVICES and READ_CHAIN say how many bytes follow on the
FIFO of the client. It counts them from there to the next response.
-/

namespace JtagRemote.Jtagd

variable {δ : Type} {adapter : driver δ} {junk : Nat → Byte} {base : List Byte} {fs : List Frame} {cur : List Byte}
  {s t : Jtagd δ}

/-! ## What the client reads -/

/-- `fifo_len`, as the response to a command has it. -/
def announced (command : Byte) (resp : List Byte) : Option Nat :=
  if command = 0x80 then some (intAt resp 8)
  else if command = 0x84 ∨ command = 0xA5 then some (intAt resp 12)
  else none

/-- What one message writes keeps the length it announces: its bytes are packets with bodies, and either nothing is
announced and nothing goes out, or the response ends a packet of mux 0 and so many bytes of mux 4 are behind it. -/
def KeepsAnnounced (o : Outcome) (w : List Byte) : Prop :=
  ∃ us, packets.Splits w us [] ∧ (∀ p ∈ us.map unpack, p.2 ≠ []) ∧
    ∀ n, announced o.msg.command (answer o).response = some n → us = [] ∧ n = 0 ∨
      ∃ (before : List Byte) (datas : List (List Byte)), us.map unpack = (0, before ++ (answer o).response) :: datas.map (Prod.mk 4) ∧
        (datas.map List.length).sum = n

/-- The messages of a run of the loop, with what each of them writes. -/
inductive Writes (adapter : driver δ) (junk : Nat → Byte) : Jtagd δ → List (Outcome × List Byte) → Jtagd δ → Prop
  | empty {s : Jtagd δ} : s.messages = [] → Writes adapter junk s [] s
  | waits {s : Jtagd δ} {msg : Message} {rest : List Message} : s.messages = msg :: rest →
      handle_message adapter junk msg s = .ok false s → Writes adapter junk s [] s
  | done {s t u : Jtagd δ} {o : Outcome} {w : List Byte} {ps : List (Outcome × List Byte)} {rest : List Message} :
      s.messages = o.msg :: rest → handle_message adapter junk o.msg s = .ok true t → Gives adapter junk s o →
      t.sock.written = s.sock.written ++ w → Writes adapter junk { t with messages := rest } ps u →
      Writes adapter junk s ((o, w) :: ps) u

/-- The messages that a tick gets done, with what each of them writes: none if the client hangs up. -/
inductive Pieces (adapter : driver δ) (junk : Nat → Byte) (net : Net) (s : Jtagd δ) : List (Outcome × List Byte) → Prop
  | closed {r : Jtagd δ} : jtagd_sock (read_socket net.recv) { s with send_buffer_size := 2 } = .ok false r →
      Pieces adapter junk net s []
  | served {r q u : Jtagd δ} {ps : List (Outcome × List Byte)} :
      jtagd_sock (read_socket net.recv) { s with send_buffer_size := 2 } = .ok true r →
      packet_loop (BUFFER_SIZE + 1) r = .ok () q → Writes adapter junk q ps u → Pieces adapter junk net s ps

/-! ## When it goes well -/

/-- With so many bytes in the frame the counter does not stand at 1 or 2, where a header goes out and no body. -/
def Sendable (k : Nat) : Prop := k % 256 ≠ 255 ∧ k % 256 ≠ 0

/-- What is sent for a message, when `pending` bytes wait: the response of an announcement has to end before the
counter goes round, and its payload has to fit; of other frames only the counter matters. -/
def Announces (pending : Nat) (command : Byte) (sizes : List Nat) : Prop :=
  if command = 0x80 ∨ command = 0xA5 then
    pending % 256 + (4 + argsSize command) ≤ 253 ∧ ∀ k ∈ sizes, 1 ≤ k ∧ k ≤ 253
  else Sendable (pending + (4 + argsSize command)) ∧ ∀ k ∈ sizes, Sendable k

def Announceable (pending : Nat) : List (Message × Nat) → Prop
  | [] => True
  | (msg, n) :: batch =>
    match payloadSizes msg n with
    | none => Announceable (pending + (4 + argsSize msg.command)) batch
    | some sizes => Announces pending msg.command sizes ∧ Announceable 0 batch

/-! ## What the server announces -/

theorem le32_be32 (v : BitVec 32) : le32 (be32 v).reverse = v.toNat := le32_word v

theorem intAt_response (resp : Byte) (args : List Byte) (off : Nat) :
    intAt (response resp args) (4 + off) = intAt args off := by
  unfold intAt
  rw [Nat.add_comm]
  rfl

theorem intAt_be32 {before : List Byte} (v : BitVec 32) {off : Nat} (h : before.length = off) :
    intAt (before ++ be32 v) off = v.toNat := by
  have hlen : (be32 v).length = 4 := rfl
  rw [intAt, ← h, List.drop_left, ← hlen, List.take_length, le32_be32]

/-- The payload of an answer. -/
def Answer.payloads (a : Answer) : List (List Byte) := a.flush.payloads.getD []

theorem announced_eq {o : Outcome} (h : o.msg.command = 0xA5 → o.devices.length * 28 < 2 ^ 32) {n : Nat}
    (hn : announced o.msg.command (answer o).response = some n) :
    ((answer o).payloads.map List.length).sum = n := by
  by_cases h80 : o.msg.command = 0x80
  · rw [announced, if_pos h80] at hn
    cases hn
    simp only [answer, if_pos h80]
    decide
  by_cases h84 : o.msg.command = 0x84
  · have hanswer : answer o = ⟨0, be32 1 ++ be32 0 ++ be32 0, .stays⟩ := by
      simp only [answer, h84]
      rfl
    rw [announced, if_neg h80, if_pos (Or.inl h84), hanswer] at hn
    cases hn
    rw [hanswer]
    decide
  by_cases hA5 : o.msg.command = 0xA5
  · have hsize := h hA5
    have hanswer : answer o = ⟨0, be32 1 ++ be32 (BitVec.ofNat 32 o.devices.length) ++
        be32 (BitVec.ofNat 32 (o.devices.length * 28)), .payload (o.devices.flatMap device_bytes)⟩ := by
      simp only [answer, hA5]
      rfl
    have hlen : intAt (answer o).response 12 = o.devices.length * 28 := by
      rw [hanswer]
      have hoff : (be32 1 ++ be32 (BitVec.ofNat 32 o.devices.length)).length = 8 := rfl
      have hval := intAt_be32 (BitVec.ofNat 32 (o.devices.length * 28)) hoff
      rw [BitVec.toNat_ofNat, Nat.mod_eq_of_lt hsize] at hval
      exact (intAt_response 0 _ 8).trans hval
    have hpayloads : (answer o).payloads = [o.devices.flatMap device_bytes] := by
      rw [hanswer]
      rfl
    rw [announced, if_neg h80, if_pos (Or.inr hA5), hlen] at hn
    cases hn
    rw [hpayloads, List.map_cons, device_bytes_length]
    rfl
  · rw [announced, if_neg h80, if_neg fun h => h.elim h84 hA5] at hn
    cases hn

/-- The probe reads eight bits, and counts the devices up to the first one. -/
theorem probe_few (d : driver δ) (junk : Nat → Byte) (c : Jtag δ) :
    Ensures (jtag_probe_devices d junk) c fun found _ => found.length < MAX_TAPS := by
  have hnum : ∀ read : List Byte, ((List.range MAX_TAPS).find? (bitAt read)).getD 0 < MAX_TAPS := by
    intro read
    cases hfind : (List.range MAX_TAPS).find? (bitAt read) with
    | none => decide
    | some n => exact List.mem_range.mp (List.mem_of_find?_eq_some hfind)
  unfold jtag_probe_devices
  refine Ensures.any_bind fun _ c => ?_
  refine Ensures.any_bind fun _ c => ?_
  refine Ensures.any_bind fun _ c => ?_
  refine Ensures.any_bind fun _ c => ?_
  refine Ensures.any_bind fun _ c => ?_
  refine Ensures.any_bind fun r c => ?_
  refine ensures_ite (fun _ => ensures_pure (by decide)) fun _ => ?_
  refine Ensures.any_bind fun _ c => ?_
  refine Ensures.any_bind fun _ c => ?_
  refine Ensures.any_bind fun r' c => ?_
  refine Ensures.bind (Ensures.forUpto (fun i res _ => res.length = i) rfl fun i res t _ hres => ?_) ?_
  · refine Ensures.any_bind fun idcode u => ensures_pure ?_
    rw [List.length_append, hres]
    rfl
  · intro res t hres
    refine Ensures.any_bind fun _ c => ensures_pure ?_
    rw [hres]
    exact hnum r.2

theorem Gives.few {o : Outcome} (h : Gives adapter junk s o) (hcmd : o.msg.command = 0xA5) :
    o.devices.length * 28 < 2 ^ 32 := by
  obtain ⟨c, hprobe⟩ := h.probe hcmd
  have hfew : o.devices.length < 8 := probe_few adapter junk s.jtag _ c hprobe
  omega

/-- The board gives one outcome. -/
theorem Gives.answer_eq {o o' : Outcome} (h : Gives adapter junk s o) (h' : Gives adapter junk s o')
    (hmsg : o'.msg = o.msg) : answer o' = answer o := by
  obtain ⟨msg, devices, read⟩ := o
  obtain ⟨msg', devices', read'⟩ := o'
  obtain rfl : msg = msg' := hmsg.symm
  have hdevices : devices' = devices := by
    by_cases hA5 : msg.command = 0xA5
    · obtain ⟨c, hprobe⟩ := h.probe hA5
      obtain ⟨c', hprobe'⟩ := h'.probe hA5
      simp only at hprobe hprobe'
      rw [hprobe] at hprobe'
      cases hprobe'
      rfl
    · exact (h'.known hA5).trans (h.known hA5).symm
  rw [hdevices]
  by_cases hC6 : msg.command = 0xC6
  · have hread : read' = read := (h.ir hC6).unique (h'.ir hC6)
    rw [hread]
  by_cases hC8 : msg.command = 0xC8
  · obtain ⟨-, send, u, hpop, hscans⟩ := h.dr hC8
    obtain ⟨-, send', u', hpop', hscans'⟩ := h'.dr hC8
    simp only at hpop hpop' hscans hscans'
    rw [hpop] at hpop'
    cases hpop'
    have hread : read' = read := hscans.unique hscans'
    rw [hread]
  · simp only [answer, if_neg hC6, if_neg hC8]

/-! ## What is sent -/

theorem unpack_ne {w rest : List Byte} {us : List (List Byte)} (h : packets.Splits w us rest) :
    ∀ p ∈ us.map unpack, p.2 ≠ [] := by
  intro p hp hnil
  obtain ⟨u, hu, rfl⟩ := List.mem_map.mp hp
  have hpos := Splits_pos h u hu
  have hlen := congrArg List.length hnil
  rw [unpack, List.length_drop, List.length_nil] at hlen
  omega

theorem Frame.Sends.empty {f : Frame} {sent : List Byte} (h : f.Sends sent) (hcost : f.cost = 0) : sent = [] :=
  List.eq_nil_of_length_eq_zero (h.length.trans hcost)

/-- With a body behind it the header is right. -/
theorem Frame.Sends.packet {f : Frame} {sent : List Byte} (h : f.Sends sent) (hmux : f.mux.toNat < 16)
    (hcost : 3 ≤ f.cost) : packets.next sent = some sent.length ∧ unpack sent = (f.mux.toNat, sent.drop 2) := by
  obtain ⟨rest, hsent⟩ := h.headed
  have hlt : f.cost < 256 := Nat.mod_lt _ (by decide)
  obtain ⟨k, hk⟩ : ∃ k, f.cost = 2 + k := ⟨f.cost - 2, by omega⟩
  have hbody : (rest.take k).length = k := by
    have hlen := h.length
    rw [hsent, hk, List.length_take, List.length_append] at hlen
    have htwo : (header_bytes f.header).length = 2 := rfl
    rw [List.length_take]
    omega
  have hcounter : BitVec.ofInt 16 ((f.cost : Int) - 2) = BitVec.ofNat 16 (rest.take k).length := by
    rw [hbody, hk, ← BitVec.ofInt_natCast]
    congr 1
    omega
  have hbytes : sent = Frame.bytes ⟨f.mux, rest.take k⟩ := by
    rw [hsent, hk, Frame.header, hcounter, List.take_append]
    show List.take (2 + k) (header_bytes _) ++ List.take (2 + k - 2) rest = _
    rw [Nat.add_sub_cancel_left, List.take_of_length_le (Nat.le_add_right 2 k)]
    rfl
  have hpos : 1 ≤ (rest.take k).length := by omega
  have hle : (rest.take k).length ≤ 4096 := by omega
  constructor
  · rw [hbytes]
    exact Frame.next_bytes hpos hle hmux
  · have hmuxof : muxOf sent = f.mux.toNat := by
      rw [hbytes]
      exact Frame.muxOf_bytes hpos hle hmux
    rw [unpack, hmuxof]

theorem Frame.header_high {f : Frame} (hcost : f.cost = 1 ∨ f.cost = 2) : (f.header >>> 8).setWidth 8 = 0xFF#8 := by
  have hor : ∀ low : BitVec 16, (low >>> 8).setWidth 8 = 0xFF#8 → ((f.mux <<< 12 ||| low) >>> 8).setWidth 8 = 0xFF#8 := by
    intro low hlow
    rw [BitVec.ushiftRight_or_distrib, BitVec.setWidth_or, hlow]
    exact BitVec.or_allOnes
  rw [Frame.header, compute_header]
  rcases hcost with hcost | hcost
  · rw [hcost]
    exact hor _ (by decide)
  · rw [hcost]
    exact hor _ (by decide)

theorem lengthOf_high {w : List Byte} (h : w.getD 0 0 = 0xFF#8) : 3841 ≤ lengthOf w := by
  have hmask : (0xfff#16).toNat = 2 ^ 12 - 1 := rfl
  have hhigh : (0xFF#8).toNat = 255 := rfl
  have hlow := (w.getD 1 0).isLt
  rw [lengthOf, headerOf, h, BitVec.toNat_and, hmask, Nat.and_two_pow_sub_one_eq_mod, BitVec.toNat_append,
    ← Nat.shiftLeft_add_eq_or_of_lt hlow, Nat.shiftLeft_eq, hhigh]
  omega

/-- With no body behind it the header wants 3841 bytes or more. -/
theorem Frame.Sends.bad {f : Frame} {sent x : List Byte} (h : f.Sends sent) (hcost : f.cost = 1 ∨ f.cost = 2)
    (hx : x.length ≤ 3000) : packets.next (sent ++ x) = none ∧ sent ++ x ≠ [] := by
  have hlen := h.length
  obtain ⟨rest, hsent⟩ := h.headed
  obtain ⟨k, hk⟩ : ∃ k, f.cost = k + 1 := ⟨f.cost - 1, by omega⟩
  have hfirst : (sent ++ x).getD 0 0 = 0xFF#8 := by
    rw [hsent, hk]
    exact f.header_high hcost
  have hwants := lengthOf_high hfirst
  constructor
  · show packetLen _ = none
    rw [packetLen, if_neg]
    rw [List.length_append]
    omega
  · intro hnil
    rw [(List.append_eq_nil_iff.mp hnil).1, List.length_nil] at hlen
    omega

/-- The counter does not stand where only a header goes out. -/
def Frame.Sound (f : Frame) : Prop := f.cost ≠ 1 ∧ f.cost ≠ 2

/-- What a few frames send is a row of packets just if no counter is bad: then each frame that sends anything is one
of them. -/
theorem splits_sends {fs : List Frame} {sents : List (List Byte)} (h : List.Forall₂ Frame.Sends fs sents)
    (hmux : ∀ f ∈ fs, f.mux.toNat < 16) (hfew : fs.length ≤ 8) :
    ((∃ us, packets.Splits sents.flatten us []) ↔ ∀ f ∈ fs, f.Sound) ∧
      ((∀ f ∈ fs, f.Sound) → packets.Splits sents.flatten (sents.filter fun sent => sent ≠ []) []) := by
  induction h with
  | nil => exact ⟨⟨fun _ f hf => absurd hf List.not_mem_nil, fun _ => ⟨[], .stop rfl⟩⟩, fun _ => .stop rfl⟩
  | @cons f sent fs sents hsends hall ih =>
    rw [List.length_cons] at hfew
    obtain ⟨hiff, hsplits⟩ := ih (fun g hg => hmux g (List.mem_cons_of_mem _ hg)) (by omega)
    have hrest : sents.flatten.length ≤ 255 * fs.length := by
      clear ih hiff hsplits hmux hfew
      induction hall with
      | nil => exact Nat.zero_le _
      | @cons g sent' gs sents' hsends' _ ih' =>
        have hlen := hsends'.length
        have hlt : g.cost < 256 := Nat.mod_lt _ (by decide)
        rw [List.flatten_cons, List.length_append, List.length_cons]
        omega
    rw [List.flatten_cons, List.forall_mem_cons]
    by_cases hempty : f.cost = 0
    · have hsound : f.Sound := ⟨by omega, by omega⟩
      rw [hsends.empty hempty, List.nil_append, List.filter_cons_of_neg (by simp)]
      exact ⟨hiff.trans (and_iff_right hsound).symm, fun hs => hsplits hs.2⟩
    by_cases hbad : f.cost = 1 ∨ f.cost = 2
    · obtain ⟨hnone, hne⟩ := hsends.bad (x := sents.flatten) hbad (by omega)
      have hnot : ¬ f.Sound := fun hs => hbad.elim hs.1 hs.2
      refine ⟨⟨?_, fun hs => absurd hs.1 hnot⟩, fun hs => absurd hs.1 hnot⟩
      rintro ⟨us, hus⟩
      exact absurd (hus.of_none hnone).2.symm hne
    · have hsound : f.Sound := ⟨fun hc => hbad (.inl hc), fun hc => hbad (.inr hc)⟩
      obtain ⟨hnext, -⟩ := hsends.packet (hmux f List.mem_cons_self) (by omega)
      have hne : sent ≠ [] := by
        intro hnil
        have hlen := hsends.length
        rw [hnil, List.length_nil] at hlen
        omega
      rw [List.filter_cons_of_pos (by simpa using hne)]
      refine ⟨⟨?_, ?_⟩, fun hs => (hsplits hs.2).cons hnext⟩
      · rintro ⟨us, hus⟩
        obtain ⟨us', -, hus'⟩ := hus.tail rfl hnext
        exact ⟨hsound, hiff.mp ⟨us', hus'⟩⟩
      · rintro ⟨-, hs⟩
        obtain ⟨us, hus⟩ := hiff.mpr hs
        exact ⟨_, hus.cons hnext⟩

theorem sound_iff {mux : BitVec 16} {body : List Byte} : Frame.Sound ⟨mux, body⟩ ↔ Sendable body.length := by
  unfold Frame.Sound Frame.cost Sendable
  dsimp only
  omega

/-! ## One message -/

theorem frames_eq (a : Answer) (cur : List Byte) : a.frames cur = match a.flush.payloads with
    | none => []
    | some datas => ⟨0, cur ++ a.response⟩ :: datas.map (Frame.mk 4) := by
  unfold Answer.frames
  cases a.flush <;> rfl

theorem waiting_length (a : Answer) (cur : List Byte) : (a.waiting cur).length = match a.flush.payloads with
    | none => cur.length + a.response.length
    | some _ => 0 := by
  unfold Answer.waiting
  cases a.flush with
  | stays => exact List.length_append
  | sent => rfl
  | payload data => rfl

/-- What the buffer holds since the counter went round last is there, whatever it is. -/
theorem Buffered.lap (h : Buffered base fs cur s) (hlap : cur.length % 256 ≤ 253) :
    ∃ pre : List Byte, pre.length = cur.length % 256 ∧ Buffered s.sock.written [] pre s := by
  have hsize : BUFFER_SIZE = 4096 := rfl
  have hroom := h.room
  obtain ⟨a, b, rest, hbuf⟩ : ∃ a b rest, s.send_buffer = a :: b :: rest := by
    match hsend : s.send_buffer, hroom with
    | a :: b :: rest, _ => exact ⟨a, b, rest, rfl⟩
  have hrest : cur.length % 256 ≤ rest.length := by
    rw [hbuf, List.length_cons, List.length_cons] at hroom
    omega
  have hlen : (rest.take (cur.length % 256)).length = cur.length % 256 := by
    rw [List.length_take, Nat.min_eq_left hrest]
  refine ⟨rest.take (cur.length % 256), hlen, ?_, h.room, h.alive, .refl _, fun _ => ?_⟩
  · apply BitVec.eq_of_toNat_eq
    rw [h.size, hlen, BitVec.toNat_ofNat, BitVec.toNat_ofNat]
    omega
  · refine ⟨a, b, rest.drop (cur.length % 256), ?_⟩
    rw [List.take_append_drop, hbuf]
    rfl

theorem keeps_of_none {o : Outcome} {w : List Byte} (hnone : announced o.msg.command (answer o).response = none) :
    KeepsAnnounced o w ↔ ∃ us, packets.Splits w us [] := by
  constructor
  · rintro ⟨us, hus, -⟩
    exact ⟨us, hus⟩
  · rintro ⟨us, hus⟩
    refine ⟨us, hus, unpack_ne hus, fun n hn => ?_⟩
    rw [hnone] at hn
    cases hn

/-- What a frame sends comes out as nothing, or as a packet. -/
theorem Frame.Sends.cases {f : Frame} {sent : List Byte} (h : f.Sends sent) (hsound : f.Sound) (hmux : f.mux.toNat < 16) :
    f.cost = 0 ∧ sent = [] ∨
      sent ≠ [] ∧ unpack sent = (f.mux.toNat, sent.drop 2) ∧ (sent.drop 2).length + 2 = f.cost := by
  have hlen := h.length
  by_cases hempty : f.cost = 0
  · exact .inl ⟨hempty, h.empty hempty⟩
  · obtain ⟨hone, htwo⟩ := hsound
    refine .inr ⟨fun hnil => ?_, (h.packet hmux (by omega)).2, ?_⟩
    · rw [hnil, List.length_nil] at hlen
      omega
    · rw [List.length_drop]
      omega

/-- An announcement that is kept fits the counter, and its payload too. -/
theorem KeepsAnnounced.fits {o : Outcome} {data : List Byte} {sents : List (List Byte)}
    (hall : List.Forall₂ Frame.Sends [⟨0, cur ++ (answer o).response⟩, ⟨4, data⟩] sents)
    (hann : announced o.msg.command (answer o).response = some data.length) (h : KeepsAnnounced o sents.flatten) :
    cur.length % 256 + (answer o).response.length ≤ 253 ∧ 1 ≤ data.length ∧ data.length ≤ 253 := by
  obtain ⟨us, hus, -, hlens⟩ := h
  obtain ⟨hiff, hsplits⟩ := splits_sends hall (by simp) (Nat.le_of_ble_eq_true rfl)
  have hsound := hiff.mp ⟨us, hus⟩
  obtain ⟨rfl, -⟩ := hus.unique (hsplits hsound)
  rw [List.forall_mem_cons, List.forall_mem_singleton] at hsound
  obtain ⟨hsound, hsound'⟩ := hsound
  obtain ⟨sent, _, hsends, hrest, rfl⟩ := List.forall₂_cons_left_iff.mp hall
  obtain ⟨sent', _, hsends', hnil, rfl⟩ := List.forall₂_cons_left_iff.mp hrest
  obtain rfl := List.forall₂_nil_left_iff.mp hnil
  have hmux : (0 : BitVec 16).toNat < 16 := by decide
  have hmux' : (4 : BitVec 16).toNat < 16 := by decide
  have hpayload := hsends'.cases hsound' hmux'
  have hzero : data.length ≠ 0 := by
    intro hzero
    rw [sound_iff, hzero] at hsound'
    exact hsound'.2 rfl
  rcases hsends.cases hsound hmux with ⟨-, rfl⟩ | ⟨hne, hunpack, hlen⟩
  · rcases hlens _ hann with ⟨-, hnone⟩ | ⟨before, datas, heq, -⟩
    · exact absurd hnone hzero
    · rcases hpayload with ⟨-, rfl⟩ | ⟨hne', hunpack', -⟩
      · cases heq
      · rw [List.filter_cons_of_neg (by simp), List.filter_cons_of_pos (by simpa using hne'), List.filter_nil,
          List.map_cons, hunpack', List.cons.injEq, Prod.mk.injEq] at heq
        have hfour : (4 : BitVec 16).toNat ≠ 0 := by decide
        exact absurd heq.1.1 hfour
  · rw [List.filter_cons_of_pos (by simpa using hne)] at hlens
    rcases hlens _ hann with ⟨hnil, -⟩ | ⟨before, datas, heq, hsum⟩
    · cases hnil
    · rw [List.map_cons, hunpack, List.cons.injEq, Prod.mk.injEq] at heq
      obtain ⟨⟨-, hbody⟩, hdatas⟩ := heq
      have hresp : (sent.drop 2).length = before.length + (answer o).response.length := by
        rw [hbody, List.length_append]
      have hsize : (sent.drop 2).length + 2 = (2 + (cur ++ (answer o).response).length) % 256 := hlen
      rw [List.length_append] at hsize
      rcases hpayload with ⟨-, rfl⟩ | ⟨hne', hunpack', hlen'⟩
      · rw [List.filter_cons_of_neg (by simp), List.filter_nil, List.map_nil, eq_comm, List.map_eq_nil_iff] at hdatas
        rw [hdatas] at hsum
        exact absurd hsum.symm hzero
      · rw [List.filter_cons_of_pos (by simpa using hne'), List.filter_nil, List.map_singleton, hunpack', eq_comm,
          List.map_eq_singleton_iff] at hdatas
        obtain ⟨payload, rfl, hpayload⟩ := hdatas
        rw [Prod.mk.injEq] at hpayload
        rw [List.map_singleton, List.sum_singleton, hpayload.2] at hsum
        have hsize' : (sent'.drop 2).length + 2 = (2 + data.length) % 256 := hlen'
        omega

/-- An announcement that fits is kept. -/
theorem KeepsAnnounced.of_fits {o : Outcome} {pre data : List Byte} {sents : List (List Byte)}
    (hall : List.Forall₂ Frame.Sends [⟨0, pre ++ (answer o).response⟩, ⟨4, data⟩] sents)
    (hann : announced o.msg.command (answer o).response = some data.length)
    (hresp : (pre ++ (answer o).response).length ≤ 253) (hpos : 1 ≤ data.length) (hle : data.length ≤ 253) :
    KeepsAnnounced o sents.flatten := by
  have hne : 1 ≤ (pre ++ (answer o).response).length := by
    rw [List.length_append, Answer.response, response_length]
    omega
  have hshort : ∀ f ∈ [Frame.mk 0 (pre ++ (answer o).response), ⟨4, data⟩], f.Short := by
    rw [List.forall_mem_cons, List.forall_mem_singleton]
    exact ⟨⟨hne, hresp⟩, hpos, hle⟩
  obtain ⟨sent, _, hsends, hrest, rfl⟩ := List.forall₂_cons_left_iff.mp hall
  obtain ⟨sent', _, hsends', hnil, rfl⟩ := List.forall₂_cons_left_iff.mp hrest
  obtain rfl := List.forall₂_nil_left_iff.mp hnil
  rw [hsends.exact_ hresp, hsends'.exact_ hle]
  obtain ⟨hsplits, hunpack⟩ := splits_frames hshort (by simp)
  refine ⟨_, hsplits, unpack_ne hsplits, fun n hn => .inr ⟨pre, [data], hunpack, ?_⟩⟩
  rw [hann] at hn
  cases hn
  exact List.sum_singleton

theorem announced_payload {o : Outcome} (hgives : Gives adapter junk s o)
    (hcmd : o.msg.command = 0x80 ∨ o.msg.command = 0xA5) {datas : List (List Byte)}
    (hdatas : (answer o).flush.payloads = some datas) :
    ∃ data, datas = [data] ∧ announced o.msg.command (answer o).response = some data.length := by
  have hsome : ∃ n, announced o.msg.command (answer o).response = some n := by
    rcases hcmd with hcmd | hcmd
    · exact ⟨_, by rw [announced, if_pos hcmd]⟩
    · exact ⟨_, by rw [announced, if_neg (by rw [hcmd]; decide), if_pos (Or.inr hcmd)]⟩
  obtain ⟨n, hn⟩ := hsome
  have hsum := announced_eq hgives.few hn
  have hone : ∃ k, datas.map List.length = [k] := by
    have hsizes := (answer_sizes hgives).2
    rw [hdatas, payloadSizes] at hsizes
    rcases hcmd with hcmd | hcmd
    · rw [if_pos hcmd] at hsizes
      exact ⟨_, Option.some.inj hsizes⟩
    · rw [if_neg (by rw [hcmd]; decide), if_pos hcmd] at hsizes
      exact ⟨_, Option.some.inj hsizes⟩
  obtain ⟨k, hk⟩ := hone
  obtain ⟨data, rfl, rfl⟩ := List.map_eq_singleton_iff.mp hk
  refine ⟨data, rfl, ?_⟩
  rw [hn, ← hsum, Answer.payloads, hdatas]
  rfl

theorem message_kept_iff {o : Outcome} {w : List Byte} (hbuf : Buffered base fs cur s) (hgives : Gives adapter junk s o)
    (hrun : handle_message adapter junk o.msg s = .ok true t) (hw : t.sock.written = s.sock.written ++ w) :
    KeepsAnnounced o w ↔ ∀ sizes, payloadSizes o.msg o.devices.length = some sizes →
      Announces cur.length o.msg.command sizes := by
  have hpieces : ∀ pre, Buffered s.sock.written [] pre s →
      ∃ sents, List.Forall₂ Frame.Sends ((answer o).frames pre) sents ∧ w = sents.flatten := by
    intro pre hpre
    obtain ⟨o', hmsg, hgives', hans⟩ := (handle_message_spec hpre o.msg true t hrun).2 rfl
    rw [hgives.answer_eq hgives' hmsg] at hans
    obtain ⟨sents, hall, hwritten⟩ := hans.buffered.sent.pieces
    exact ⟨sents, hall, List.append_cancel_left (hw.symm.trans hwritten)⟩
  have hbase : Buffered s.sock.written [] cur s := ⟨hbuf.size, hbuf.room, hbuf.alive, .refl _, hbuf.holds⟩
  obtain ⟨sents, hall, rfl⟩ := hpieces cur hbase
  obtain ⟨hargs, hsizes⟩ := answer_sizes hgives
  have hresp : (answer o).response.length = 4 + argsSize o.msg.command := by
    rw [Answer.response, response_length, hargs]
  rw [← hsizes]
  rw [frames_eq] at hall
  cases hdatas : (answer o).flush.payloads with
  | none =>
    rw [hdatas] at hall
    obtain rfl := List.forall₂_nil_left_iff.mp hall
    refine iff_of_true ⟨[], .stop rfl, by simp, fun n hn => .inl ⟨rfl, ?_⟩⟩ (by simp)
    rw [← announced_eq hgives.few hn, Answer.payloads, hdatas]
    rfl
  | some datas =>
    rw [hdatas] at hall
    simp only [Option.map_some, Option.some.injEq, forall_eq']
    by_cases hcmd : o.msg.command = 0x80 ∨ o.msg.command = 0xA5
    · obtain ⟨data, rfl, hann⟩ := announced_payload hgives hcmd hdatas
      rw [Announces, if_pos hcmd, ← hresp, List.map_singleton, List.forall_mem_singleton]
      refine ⟨KeepsAnnounced.fits hall hann, ?_⟩
      rintro ⟨hfits, hpos, hle⟩
      obtain ⟨pre, hpre, hlap⟩ := hbuf.lap (by omega)
      obtain ⟨sents', hall', hw'⟩ := hpieces pre hlap
      rw [frames_eq, hdatas] at hall'
      rw [hw']
      refine KeepsAnnounced.of_fits hall' hann ?_ hpos hle
      rw [List.length_append, hpre]
      exact hfits
    · have h84 : o.msg.command ≠ 0x84 := by
        intro hcmd'
        rw [hdatas, payloadSizes, hcmd'] at hsizes
        cases hsizes
      have hnone : announced o.msg.command (answer o).response = none := by
        rw [announced, if_neg fun h => hcmd (.inl h), if_neg fun h => h.elim h84 fun h => hcmd (.inr h)]
      have hfew : datas.length ≤ 7 := by
        cases hflush : (answer o).flush <;> rw [hflush] at hdatas <;> cases hdatas
        · exact Nat.zero_le 7
        · exact Nat.le_of_ble_eq_true rfl
      rw [keeps_of_none hnone, (splits_sends hall (by simp) (by rw [List.length_cons, List.length_map]; omega)).1, Announces, if_neg hcmd, List.forall_mem_cons, sound_iff, List.length_append, hresp]
      simp [sound_iff]

/-! ## A batch -/

/-- The messages of a run keep their lengths just if each of them fits the counter. -/
theorem Handles.writes {u : Jtagd δ} {outs : List Outcome} (h : Handles adapter junk s outs u)
    (hbuf : Buffered base fs cur s) : ∃ ps, ps.map Prod.fst = outs ∧ Writes adapter junk s ps u ∧
      u.sock.written = s.sock.written ++ ps.flatMap Prod.snd ∧
      (∃ fs' cur', Buffered base fs' cur' u) ∧
      ((∀ p ∈ ps, KeepsAnnounced p.1 p.2) ↔ Announceable cur.length (ps.map fun p => p.1.size)) := by
  induction h generalizing fs cur with
  | empty hmsgs => exact ⟨[], rfl, .empty hmsgs, (List.append_nil _).symm, ⟨fs, cur, hbuf⟩, by simp [Announceable]⟩
  | waits hmsgs hrun =>
    exact ⟨[], rfl, .waits hmsgs hrun, (List.append_nil _).symm, ⟨fs, cur, hbuf⟩, by simp [Announceable]⟩
  | @done s t u o outs rest hmsgs hrun hgives _ ih =>
    obtain ⟨o', hmsg, hgives', hans⟩ := (handle_message_spec hbuf o.msg true t hrun).2 rfl
    rw [hgives.answer_eq hgives' hmsg] at hans
    have hbase : Buffered s.sock.written [] cur s := ⟨hbuf.size, hbuf.room, hbuf.alive, .refl _, hbuf.holds⟩
    obtain ⟨w, hw⟩ : ∃ w, t.sock.written = s.sock.written ++ w := by
      obtain ⟨o', -, -, hans'⟩ := (handle_message_spec hbase o.msg true t hrun).2 rfl
      obtain ⟨sents, -, hwritten⟩ := hans'.buffered.sent.pieces
      exact ⟨_, hwritten⟩
    obtain ⟨ps, rfl, hwrites, hwritten, hbuf', hiff⟩ :=
      ih (hans.buffered.of_eq (t := { t with messages := rest }) rfl rfl rfl)
    refine ⟨(o, w) :: ps, rfl, .done hmsgs hrun hgives hw hwrites, ?_, hbuf', ?_⟩
    · rw [hwritten, List.flatMap_cons, ← List.append_assoc, ← hw]
    · rw [List.forall_mem_cons, message_kept_iff hbuf hgives hrun hw, hiff, List.map_cons, Outcome.size, Announceable]
      obtain ⟨hargs, hsizes⟩ := answer_sizes hgives
      have hresp : (answer o).response.length = 4 + argsSize o.msg.command := by
        rw [Answer.response, response_length, hargs]
      rw [waiting_length, ← hsizes]
      cases (answer o).flush.payloads with
      | none => simp [hresp]
      | some datas => simp

/-- What is sent at the end of a tick is packets, if anything is sent. -/
theorem last_send_packets (h : Buffered base fs cur s) :
    Ensures (do
      let s ← get
      if s.send_buffer_size.toNat > 2 then do_send 0 else pure () : JtagdProg δ Unit) s fun _ t =>
      ∃ last us, t.sock.written = s.sock.written ++ last ∧ packets.Splits last us [] := by
  refine Ensures.get_bind ?_
  split
  · rename_i hsize
    have hbase : Buffered s.sock.written [] cur s := ⟨h.size, h.room, h.alive, .refl _, h.holds⟩
    refine (do_send_spec hbase 0).mono ?_
    rintro _ t ⟨hbuf, -⟩
    obtain ⟨sents, hall, hwritten⟩ := hbuf.sent.pieces
    have hsound : Frame.Sound ⟨0, cur⟩ := by
      have hcost : Frame.cost ⟨0, cur⟩ = s.send_buffer_size.toNat := h.size_toNat.symm
      exact ⟨by omega, by omega⟩
    refine ⟨_, _, hwritten, (splits_sends hall (by simp) (Nat.le_of_ble_eq_true rfl)).2 ?_⟩
    simpa using hsound
  · exact ensures_pure ⟨[], [], (List.append_nil _).symm, .stop rfl⟩

theorem handle_messages_writes (h : Buffered base [] [] s) :
    Ensures (handle_messages adapter junk) s fun _ t => ∃ ps u last us, Writes adapter junk s ps u ∧
      t.sock.written = s.sock.written ++ (ps.flatMap Prod.snd ++ last) ∧ packets.Splits last us [] ∧
      ((∀ p ∈ ps, KeepsAnnounced p.1 p.2) ↔ Announceable 0 (ps.map fun p => p.1.size)) := by
  unfold handle_messages
  refine Ensures.get_bind (Ensures.bind (message_loop_spec h (Nat.le_refl _)) ?_)
  rintro _ u ⟨-, outs, -, -, hhandles, -, -⟩
  obtain ⟨ps, -, hwrites, hwritten, ⟨fs', cur', hbuf⟩, hiff⟩ := hhandles.writes h
  refine (last_send_packets hbuf).mono ?_
  rintro _ t ⟨last, us, hlast, hsplits⟩
  refine ⟨ps, u, last, us, hwrites, ?_, hsplits, hiff⟩
  rw [hlast, hwritten, List.append_assoc]

theorem tick_writes {net : Net} (hfd : s.sock.client_fd ≥ 0) (halive : s.sock.alive = true)
    (hroom : s.send_buffer.length = BUFFER_SIZE) :
    Ensures (jtag_jtagd_tick adapter junk net) s fun _ t => ∃ ps last us, Pieces adapter junk net s ps ∧
      t.sock.written = s.sock.written ++ (ps.flatMap Prod.snd ++ last) ∧ packets.Splits last us [] ∧
      ((∀ p ∈ ps, KeepsAnnounced p.1 p.2) ↔ Announceable 0 (ps.map fun p => p.1.size)) := by
  refine (tick_serves hfd halive hroom).mono ?_
  rintro _ t (⟨hread, hwritten⟩ | ⟨r, q, hread, hpackets, hbuf, hq, hhandle⟩)
  · refine ⟨[], [], [], .closed hread, ?_, .stop rfl, by simp [Announceable]⟩
    rw [hwritten]
    simp
  · obtain ⟨ps, u, last, us, hwrites, hwritten, hsplits, hiff⟩ := handle_messages_writes hbuf _ t hhandle
    refine ⟨ps, last, us, .served hread hpackets hwrites, ?_, hsplits, hiff⟩
    rw [hwritten, hq]

/-- When every announcement is kept, the tick writes a row of packets. -/
theorem splits_pieces {ps : List (Outcome × List Byte)} {last : List Byte} {us : List (List Byte)}
    (h : ∀ p ∈ ps, KeepsAnnounced p.1 p.2) (hlast : packets.Splits last us []) :
    ∃ us', packets.Splits (ps.flatMap Prod.snd ++ last) us' [] := by
  induction ps with
  | nil => exact ⟨us, hlast⟩
  | cons p ps ih =>
    rw [List.forall_mem_cons] at h
    obtain ⟨us', hus'⟩ := ih h.2
    obtain ⟨us₀, hus₀, -⟩ := h.1
    rw [List.flatMap_cons, List.append_assoc]
    exact ⟨us₀ ++ us', hus₀.append hus'⟩

/-- A tick keeps the announced lengths just if each message of its batch fits the counter; whatever is sent at its end
is packets. -/
theorem tick_announced_iff {net : Net} (hfd : s.sock.client_fd ≥ 0) (halive : s.sock.alive = true)
    (hroom : s.send_buffer.length = BUFFER_SIZE) (hrun : jtag_jtagd_tick adapter junk net s = .ok () t) :
    ∃ ps last us, Pieces adapter junk net s ps ∧ t.sock.written = s.sock.written ++ (ps.flatMap Prod.snd ++ last) ∧
      packets.Splits last us [] ∧
      ((∀ p ∈ ps, KeepsAnnounced p.1 p.2) ↔ Announceable 0 (ps.map fun p => p.1.size)) :=
  tick_writes hfd halive hroom () t hrun

/-- One packet with 14 GET_VERSION_INFO messages and a SET_PARAMETER, whose responses have 256 bytes and bring the
counter back to where it was, and a GET_HARDWARE. -/
def roundAndHardware : Net :=
  ⟨deliver ([0x00, 0x3F] ++ (List.replicate 14 [0x83, 0x00, 0x00, 0x04]).flatten ++ [0xAA, 0x00, 0x00, 0x04] ++
    [0x80, 0x00, 0x00, 0x04]), false⟩

/-- What is left of their responses: the one to GET_HARDWARE, and its payload. -/
def hardwareAnswer : List Byte :=
  Frame.bytes ⟨0, response 0 (be32 1 ++ be32 30)⟩ ++ Frame.bytes ⟨4, hardware_bytes⟩

theorem tick_announced_iff_hardware : ∃ t,
    jtag_jtagd_tick lowDriver (fun _ => 0) roundAndHardware servingJtagd = .ok () t ∧
    t.sock.written = hardwareAnswer ∧
    ∃ ps last us, Pieces lowDriver (fun _ => 0) roundAndHardware servingJtagd ps ∧
      t.sock.written = servingJtagd.sock.written ++ (ps.flatMap Prod.snd ++ last) ∧ packets.Splits last us [] ∧
      ((∀ p ∈ ps, KeepsAnnounced p.1 p.2) ↔ Announceable 0 (ps.map fun p => p.1.size)) := by
  have hwritten : writtenBy (jtag_jtagd_tick lowDriver (fun _ => 0) roundAndHardware servingJtagd) =
      some hardwareAnswer := by decide +kernel
  obtain ⟨t, hrun, hbytes⟩ := returns_of_writtenBy hwritten
  exact ⟨t, hrun, hbytes, tick_announced_iff (by decide) rfl List.length_replicate hrun⟩

/-- With no device on the chain, READ_CHAIN announces 0 bytes, and the payload's packet has no body: its header
says mux 15 and 4096 bytes. -/
theorem empty_chain_announced : ∃ t ps last,
    jtag_jtagd_tick lowDriver (fun _ => 0) readChain servingJtagd = .ok () t ∧
    Pieces lowDriver (fun _ => 0) readChain servingJtagd ps ∧
    t.sock.written = servingJtagd.sock.written ++ (ps.flatMap Prod.snd ++ last) ∧
    ¬ ∀ p ∈ ps, KeepsAnnounced p.1 p.2 := by
  have hwritten : writtenBy (jtag_jtagd_tick lowDriver (fun _ => 0) readChain servingJtagd) =
      some emptyChain := by decide +kernel
  obtain ⟨t, hrun, hbytes⟩ := returns_of_writtenBy hwritten
  obtain ⟨ps, last, us, hpieces, hnew, hlast, -⟩ := tick_writes (by decide) rfl List.length_replicate () t hrun
  refine ⟨t, ps, last, hrun, hpieces, hnew, fun hkeeps => ?_⟩
  obtain ⟨us', hus'⟩ := splits_pieces hkeeps hlast
  have hall : emptyChain = ps.flatMap Prod.snd ++ last := hbytes.symm.trans hnew
  rw [← hall] at hus'
  exact empty_chain_rest hus'

end JtagRemote.Jtagd
