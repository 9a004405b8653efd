import JtagRemote.Jtagd.SendBuffer
import JtagRemote.Jtagd.Fifo

/-!
# The answers to messages

A message is answered with one response, which stays in the frame or is sent at
once, perhaps with a payload for the FIFO of the client behind it.
-/

namespace JtagRemote.Jtagd

open JtagState

/-! ## What a message is worth -/

/-- What happens to the frame after the response. -/
inductive Flush where
  | stays
  | sent
  | payload (data : List Byte)

structure Answer where
  resp : Byte
  args : List Byte
  flush : Flush

def Answer.response (a : Answer) : List Byte := Jtagd.response a.resp a.args

/-- The frames that go out, when `cur` waits in the buffer. -/
def Answer.frames (a : Answer) (cur : List Byte) : List Frame :=
  match a.flush with
  | .stays => []
  | .sent => [⟨0, cur ++ a.response⟩]
  | .payload data => [⟨0, cur ++ a.response⟩, ⟨4, data⟩]

/-- What waits in the buffer then. -/
def Answer.waiting (a : Answer) (cur : List Byte) : List Byte :=
  match a.flush with
  | .stays => cur ++ a.response
  | .sent => []
  | .payload _ => []

/-- A message that is done, the devices that are known after it, and the bytes that its scan gave. -/
structure Outcome where
  msg : Message
  devices : List (BitVec 32)
  read : List Byte

def hardware_bytes : List Byte :=
  be32 1 ++ string_bytes HW_NAME ++ string_bytes PORT ++ be32 1 ++ string_bytes DEVICE_NAME ++ be32 0x0800

def device_bytes (device_id : BitVec 32) : List Byte :=
  be32 device_id ++ be32 10 ++ be32 0 ++ be32 0 ++ be32 0 ++ string_bytes DEVICE_NAME

/-- An `int` argument. -/
def intAt (body : List Byte) (off : Nat) : Nat := le32 ((body.drop off).take 4).reverse

/-- The bytes that ACCESS_DR_2 gives back. -/
def readBytes (body : List Byte) : Nat := (intAt body 28 + 7) % 2 ^ 32 / 8

def answer (o : Outcome) : Answer :=
  if o.msg.command = 0x80 then
    ⟨0, be32 1 ++ be32 (BitVec.ofNat 32 hardware_bytes.length), .payload hardware_bytes⟩
  else if o.msg.command = 0x83 then
    ⟨0, string_bytes (ascii ['1', '.', '0']) ++ be32 0 ++ string_bytes (ascii ['j', 't', 'a', 'g', 'd']), .stays⟩
  else if o.msg.command = 0x84 then ⟨0, be32 1 ++ be32 0 ++ be32 0, .stays⟩
  else if o.msg.command = 0xA5 then
    ⟨0, be32 1 ++ be32 (BitVec.ofNat 32 o.devices.length) ++ be32 (BitVec.ofNat 32 (o.devices.length * 28)),
      .payload (o.devices.flatMap device_bytes)⟩
  else if o.msg.command = 0xA8 then ⟨0, be32 (o.devices.headD 0), .stays⟩
  else if o.msg.command = 0xAB then ⟨0, be32 0, .stays⟩
  else if o.msg.command = 0xC1 then ⟨0, [], .sent⟩
  else if o.msg.command = 0xC6 then ⟨0, be32 (BitVec.ofNat 32 (le32 o.read)), .sent⟩
  else if o.msg.command = 0xC8 then
    ⟨0, [], if intAt o.msg.body 28 > 0 then .payload (o.read.take (readBytes o.msg.body)) else .sent⟩
  else if o.msg.command = 0xCA then ⟨0, [], .sent⟩
  else if o.msg.command = 0xFE then ⟨0, be32 1, .stays⟩
  else if o.msg.command ∈ [0xA2, 0xA3, 0xAA, 0xC0, 0xC2] then ⟨0, [], .stays⟩
  else ⟨126, [], .stays⟩

/-- The bytes that a scan gives, after the TAP moved to `dst`. -/
def Scans {δ : Type} (adapter : driver δ) (dst : JtagState) (data recv : List Byte) (n : Nat) (c : Jtag δ)
    (read : List Byte) : Prop :=
  ∃ r c₁ q c₂, jtag_tms_seq_to adapter dst c = .ok r c₁ ∧
    jtag_scan_chain adapter data recv n true true c₁ = .ok (q, read) c₂

theorem Scans.unique {δ : Type} {adapter : driver δ} {dst : JtagState} {data recv read read' : List Byte} {n : Nat}
    {c : Jtag δ} (h : Scans adapter dst data recv n c read) (h' : Scans adapter dst data recv n c read') :
    read' = read := by
  obtain ⟨r, c₁, q, c₂, hmove, hscan⟩ := h
  obtain ⟨r', c₁', q', c₂', hmove', hscan'⟩ := h'
  rw [hmove] at hmove'
  cases hmove'
  rw [hscan] at hscan'
  cases hscan'
  rfl

/-- The instruction of ACCESS_IR_2, lowest byte first. -/
def instructionOf (body : List Byte) : List Byte :=
  [body.getD 15 0, body.getD 14 0, body.getD 13 0, body.getD 12 0]

/-- The outcome is what the board gives, when the message is taken up in `s`. -/
structure Gives {δ : Type} (adapter : driver δ) (junk : Nat → Byte) (s : Jtagd δ) (o : Outcome) : Prop where
  probe : o.msg.command = 0xA5 → ∃ c, jtag_probe_devices adapter junk s.jtag = .ok o.devices c
  known : o.msg.command ≠ 0xA5 → o.devices = s.devices
  ir : o.msg.command = 0xC6 →
    Scans adapter ShiftIR (instructionOf o.msg.body) (List.replicate 4 0) 10 s.jtag o.read
  dr : o.msg.command = 0xC8 → readBytes o.msg.body ≤ o.read.length ∧ ∃ send t,
    pop_fifo (List.replicate BUFFER_SIZE 0) (intAt o.msg.body 20 / 8) s = .ok (true, send) t ∧
    Scans adapter ShiftDR send (List.replicate BUFFER_SIZE 0) (intAt o.msg.body 12) s.jtag o.read

/-! ## The handlers -/

section

variable {δ : Type} {base : List Byte} {fs : List Frame} {cur : List Byte} {s : Jtagd δ}

/-- Nothing is under way, and the queue is the one of `s`. -/
theorem Responded.send {t : Jtagd δ} (h : Responded base fs cur s t) (mux : BitVec 16) :
    Ensures (do_send mux) t fun _ u => Responded base (fs ++ [⟨mux, cur⟩]) [] s u := by
  refine (do_send_spec h.buffered mux).mono ?_
  rintro _ u ⟨hbuf, hlast, hmsgs⟩
  exact ⟨hbuf, hlast.trans h.closed, hmsgs.trans h.messages⟩

theorem Responded.append {t : Jtagd δ} {p : JtagdProg δ Unit} {data : List Byte} (h : Responded base fs cur s t)
    (hp : Appends p data) : Ensures p t fun _ u => Responded base fs (cur ++ data) s u := by
  refine (hp base fs cur t h.buffered).mono ?_
  rintro _ u ⟨hbuf, hquiet⟩
  exact ⟨hbuf, hquiet.last_response.trans h.closed, hquiet.messages.trans h.messages⟩

/-- The state after the message is answered. -/
def Answered (a : Answer) (base : List Byte) (fs : List Frame) (cur : List Byte) (s t : Jtagd δ) : Prop :=
  Responded base (fs ++ a.frames cur) (a.waiting cur) s t

theorem Responded.stays {resp : Byte} {args : List Byte} {t : Jtagd δ}
    (h : Responded base fs (cur ++ response resp args) s t) : Answered ⟨resp, args, .stays⟩ base fs cur s t := by
  rw [← List.append_nil fs] at h
  exact h

theorem Responded.payload {resp : Byte} {args data : List Byte} {t : Jtagd δ}
    (h : Responded base (fs ++ [⟨0, cur ++ response resp args⟩] ++ [⟨4, data⟩]) [] s t) :
    Answered ⟨resp, args, .payload data⟩ base fs cur s t := by
  rw [List.append_assoc] at h
  exact h

theorem respond_spec (h : Buffered base fs cur s) (resp : Byte) :
    Ensures (respond resp) s fun _ t => Responded base fs (cur ++ response resp []) s t := by
  unfold respond
  refine Ensures.bind (add_response_spec h resp) fun _ t ht => ?_
  exact end_response_spec ht

theorem GET_HARDWARE_spec (h : Buffered base fs cur s) :
    Ensures GET_HARDWARE s fun _ t => Answered
      ⟨0, be32 1 ++ be32 (BitVec.ofNat 32 hardware_bytes.length), .payload hardware_bytes⟩ base fs cur s t := by
  unfold GET_HARDWARE
  refine Ensures.bind (add_response_spec h 0) fun _ t ht => ?_
  refine Ensures.bind (ht.append (add_int_appends _)) fun _ t ht => ?_
  refine Ensures.bind (ht.append (add_int_appends _)) fun _ t ht => ?_
  refine Ensures.bind (end_response_spec ht) fun _ t ht => ?_
  refine Ensures.bind (ht.send 0) fun _ t ht => ?_
  refine Ensures.bind (ht.append (add_int_appends _)) fun _ t ht => ?_
  refine Ensures.bind (ht.append (add_string_appends _)) fun _ t ht => ?_
  refine Ensures.bind (ht.append (add_string_appends _)) fun _ t ht => ?_
  refine Ensures.bind (ht.append (add_int_appends _)) fun _ t ht => ?_
  refine Ensures.bind (ht.append (add_string_appends _)) fun _ t ht => ?_
  refine Ensures.bind (ht.append (add_int_appends _)) fun _ t ht => ?_
  exact (ht.send 4).mono fun _ t ht => ht.payload

theorem GET_VERSION_INFO_spec (h : Buffered base fs cur s) :
    Ensures GET_VERSION_INFO s fun _ t => Answered
      ⟨0, string_bytes (ascii ['1', '.', '0']) ++ be32 0 ++ string_bytes (ascii ['j', 't', 'a', 'g', 'd']), .stays⟩
      base fs cur s t := by
  unfold GET_VERSION_INFO
  refine Ensures.bind (add_response_spec h 0) fun _ t ht => ?_
  refine Ensures.bind (ht.append (add_string_appends _)) fun _ t ht => ?_
  refine Ensures.bind (ht.append (add_int_appends _)) fun _ t ht => ?_
  refine Ensures.bind (ht.append (add_string_appends _)) fun _ t ht => ?_
  exact (end_response_spec ht).mono fun _ t ht => ht.stays

theorem GET_DEFINED_DEVICES_spec (h : Buffered base fs cur s) :
    Ensures GET_DEFINED_DEVICES s fun _ t =>
      Answered ⟨0, be32 1 ++ be32 0 ++ be32 0, .stays⟩ base fs cur s t := by
  unfold GET_DEFINED_DEVICES
  refine Ensures.bind (add_response_spec h 0) fun _ t ht => ?_
  refine Ensures.bind (ht.append (add_int_appends _)) fun _ t ht => ?_
  refine Ensures.bind (ht.append (add_int_appends _)) fun _ t ht => ?_
  refine Ensures.bind (ht.append (add_int_appends _)) fun _ t ht => ?_
  exact (end_response_spec ht).mono fun _ t ht => ht.stays

theorem add_device_appends (device_id : BitVec 32) :
    Appends (add_device device_id : JtagdProg δ Unit) (device_bytes device_id) := by
  intro base fs cur s h
  unfold add_device
  have hall := (add_int_appends (δ := δ) device_id).bind ((add_int_appends 10).bind ((add_int_appends 0).bind
    ((add_int_appends 0).bind ((add_int_appends 0).bind (add_string_appends DEVICE_NAME)))))
  refine (hall base fs cur s h).mono fun _ t ht => ?_
  simp only [device_bytes, List.append_assoc]
  exact ht

theorem OPEN_DEVICE_spec (h : Buffered base fs cur s) :
    Ensures OPEN_DEVICE s fun _ t => Answered ⟨0, be32 (s.devices.headD 0), .stays⟩ base fs cur s t := by
  unfold OPEN_DEVICE
  refine Ensures.bind (add_response_spec h 0) fun _ t ht => Ensures.get_bind ?_
  have hdevices : t.devices = s.devices := by rw [ht.rest]
  rw [hdevices]
  cases s.devices with
  | nil => exact Ensures.bind (P := fun _ _ => False) ensures_throw fun _ _ hfalse => hfalse.elim
  | cons id ids =>
    refine Ensures.bind (ht.append (add_int_appends id)) fun _ t ht => ?_
    exact (end_response_spec ht).mono fun _ t ht => ht.stays

theorem GET_PARAMETER_spec (h : Buffered base fs cur s) :
    Ensures GET_PARAMETER s fun _ t => Answered ⟨0, be32 0, .stays⟩ base fs cur s t := by
  unfold GET_PARAMETER
  refine Ensures.bind (add_response_spec h 0) fun _ t ht => ?_
  refine Ensures.bind (ht.append (add_int_appends _)) fun _ t ht => ?_
  exact (end_response_spec ht).mono fun _ t ht => ht.stays

theorem LOCK_DEVICE_spec (h : Buffered base fs cur s) :
    Ensures LOCK_DEVICE s fun _ t => Answered ⟨0, [], .sent⟩ base fs cur s t := by
  unfold LOCK_DEVICE
  refine Ensures.bind (respond_spec h 0) fun _ t ht => ?_
  exact ht.send 0

theorem USE_PROTOCOL_VERSION_spec (h : Buffered base fs cur s) :
    Ensures USE_PROTOCOL_VERSION s fun _ t => Answered ⟨0, be32 1, .stays⟩ base fs cur s t := by
  unfold USE_PROTOCOL_VERSION
  refine Ensures.bind (add_response_spec h 0) fun _ t ht => ?_
  refine Ensures.bind (ht.append (add_int_appends _)) fun _ t ht => ?_
  exact (end_response_spec ht).mono fun _ t ht => ht.stays

/-! ## The handlers that use the adapter -/

/-- A step on the adapter leaves the rest alone. -/
theorem jtagd_jtag_spec {α : Type} {p : EStateM Fault (Jtag δ) α} :
    Ensures (jtagd_jtag p) s fun a t => ∃ c, p s.jtag = .ok a c ∧ t = { s with jtag := c } := by
  have h : Ensures p s.jtag fun a c => p s.jtag = .ok a c := fun _ _ h => h
  exact h.focus

/-- The handlers look at the send side and at the queue only. -/
theorem Answered.of_eq {a : Answer} {s' t : Jtagd δ} (h : Answered a base fs cur s' t)
    (hmsgs : s'.messages = s.messages) : Answered a base fs cur s t :=
  ⟨h.buffered, h.closed, h.messages.trans hmsgs⟩

variable (adapter : driver δ)

theorem READ_CHAIN_spec (h : Buffered base fs cur s) (junk : Nat → Byte) :
    Ensures (READ_CHAIN adapter junk) s fun _ t => ∃ devices c,
      jtag_probe_devices adapter junk s.jtag = .ok devices c ∧
      Answered ⟨0, be32 1 ++ be32 (BitVec.ofNat 32 devices.length) ++
        be32 (BitVec.ofNat 32 (devices.length * 28)), .payload (devices.flatMap device_bytes)⟩ base fs cur s t := by
  unfold READ_CHAIN
  refine Ensures.bind jtagd_jtag_spec ?_
  rintro devices _ ⟨c, hprobe, rfl⟩
  refine Ensures.modify_bind ?_
  have h' : Buffered base fs cur { s with jtag := c, devices := devices } := h.of_eq rfl rfl rfl
  refine Ensures.bind (add_response_spec h' 0) fun _ t ht => ?_
  refine Ensures.bind (ht.append (add_int_appends _)) fun _ t ht => ?_
  refine Ensures.bind (ht.append (add_int_appends _)) fun _ t ht => ?_
  refine Ensures.bind (ht.append (add_int_appends _)) fun _ t ht => ?_
  refine Ensures.bind (end_response_spec ht) fun _ t ht => ?_
  refine Ensures.bind (ht.send 0) fun _ t ht => ?_
  refine Ensures.bind (ht.append (forM_appends add_device_appends devices)) fun _ t ht => ?_
  refine (ht.send 4).mono fun _ t ht => ?_
  exact ⟨devices, c, hprobe, ht.payload.of_eq rfl⟩

/-- A move and a scan. -/
theorem scans_spec (dst : JtagState) (data recv : List Byte) (n : Nat) {α : Type} {s : Jtagd δ}
    {f : Bool × List Byte → JtagdProg δ α} {Q : α → Jtagd δ → Prop}
    (hf : ∀ q read c, Scans adapter dst data recv n s.jtag read → Ensures (f (q, read)) { s with jtag := c } Q) :
    Ensures (do
      let _ ← jtagd_jtag (jtag_tms_seq_to adapter dst)
      let r ← jtagd_jtag (jtag_scan_chain adapter data recv n true true)
      f r) s Q := by
  refine Ensures.bind jtagd_jtag_spec ?_
  rintro r _ ⟨c₁, hmove, rfl⟩
  refine Ensures.bind jtagd_jtag_spec ?_
  rintro ⟨q, read⟩ _ ⟨c₂, hscan, rfl⟩
  exact hf q read c₂ ⟨r, c₁, q, c₂, hmove, hscan⟩

theorem ACCESS_IR_2_spec (h : Buffered base fs cur s) (body : List Byte) :
    Ensures (ACCESS_IR_2 adapter body) s fun _ t => ∃ read,
      Scans adapter ShiftIR (instructionOf body) (List.replicate 4 0) 10 s.jtag read ∧
      Answered ⟨0, be32 (BitVec.ofNat 32 (le32 read)), .sent⟩ base fs cur s t := by
  unfold ACCESS_IR_2
  refine Ensures.bind (index_spec _ _ s) ?_
  rintro _ _ ⟨rfl, rfl, -⟩
  refine Ensures.bind (index_spec _ _ _) ?_
  rintro _ _ ⟨rfl, rfl, -⟩
  refine Ensures.bind (index_spec _ _ _) ?_
  rintro _ _ ⟨rfl, rfl, -⟩
  refine Ensures.bind (index_spec _ _ _) ?_
  rintro _ s ⟨rfl, rfl, -⟩
  refine scans_spec adapter _ _ _ _ fun _ read c hread => ?_
  have h' : Buffered base fs cur { s with jtag := c } := h.of_eq rfl rfl rfl
  refine Ensures.bind (add_response_spec h' 0) fun _ t ht => ?_
  refine Ensures.bind (ht.append (add_int_appends _)) fun _ t ht => ?_
  refine Ensures.bind (end_response_spec ht) fun _ t ht => ?_
  refine (ht.send 0).mono fun _ t ht => ⟨read, hread, ?_⟩
  exact Answered.of_eq ht rfl

theorem body_int_spec (body : List Byte) (off : Nat) (s : Jtagd δ) :
    Ensures (body_int body off) s fun n t => t = s ∧ n = intAt body off := by
  unfold body_int
  refine Ensures.bind (bytes_at_spec _ _ _ s) ?_
  rintro _ _ ⟨rfl, rfl, -⟩
  exact ensures_pure ⟨rfl, rfl⟩

/-- Popping the FIFO leaves the rest alone. -/
theorem pop_fifo_spec (buffer : List Byte) (n : Nat) (s : Jtagd δ) :
    Ensures (pop_fifo buffer n) s fun _ t => t = { s with fifos := t.fifos } := by
  unfold pop_fifo
  refine Ensures.get_bind ?_
  dsimp only
  split
  · refine Ensures.bind (first_element_spec _ s) ?_
    rintro _ _ ⟨rfl, -⟩
    refine Ensures.bind (memcpy_spec _ _ _ _) ?_
    rintro _ _ ⟨rfl, -, -⟩
    exact Ensures.set_bind (ensures_pure rfl)
  · exact ensures_pure rfl

theorem ACCESS_DR_2_spec (h : Buffered base fs cur s) (body : List Byte) :
    Ensures (ACCESS_DR_2 adapter body) s fun ok t => (ok = false → t = s) ∧ (ok = true → ∃ send u read,
      pop_fifo (List.replicate BUFFER_SIZE 0) (intAt body 20 / 8) s = .ok (true, send) u ∧
      Scans adapter ShiftDR send (List.replicate BUFFER_SIZE 0) (intAt body 12) s.jtag read ∧
      (intAt body 28 > 0 → readBytes body ≤ read.length) ∧
      Answered ⟨0, [], if intAt body 28 > 0 then .payload (read.take (readBytes body)) else .sent⟩
        base fs cur s t) := by
  unfold ACCESS_DR_2
  refine Ensures.bind (body_int_spec _ _ s) ?_
  rintro _ _ ⟨rfl, rfl⟩
  refine Ensures.bind (body_int_spec _ _ _) ?_
  rintro _ _ ⟨rfl, rfl⟩
  refine Ensures.bind (body_int_spec _ _ _) ?_
  rintro _ s ⟨rfl, rfl⟩
  have hrun : Ensures (pop_fifo (List.replicate BUFFER_SIZE 0) (intAt body 20 / 8)) s fun r t =>
      pop_fifo (List.replicate BUFFER_SIZE 0) (intAt body 20 / 8) s = .ok r t := fun _ _ hrun => hrun
  refine Ensures.bind hrun ?_
  rintro ⟨ok, send⟩ u hpop
  cases ok with
  | false =>
    obtain ⟨rfl, -⟩ := pop_fifo_false hpop
    exact ensures_pure ⟨fun _ => rfl, by simp⟩
  | true =>
    have hu : u = { s with fifos := u.fifos } := pop_fifo_spec _ _ _ _ _ hpop
    have hjtag : u.jtag = s.jtag := by rw [hu]
    refine scans_spec adapter _ _ _ _ fun _ read c hread => ?_
    rw [hjtag] at hread
    have h' : Buffered base fs cur { u with jtag := c } := by
      rw [hu]
      exact h.of_eq rfl rfl rfl
    have hmsgs : ({ u with jtag := c } : Jtagd δ).messages = s.messages := by rw [hu]
    refine Ensures.bind (respond_spec h' 0) fun _ t ht => ?_
    refine Ensures.bind (ht.send 0) fun _ t ht => ?_
    split
    · rename_i hpos
      refine Ensures.bind ((ht.append (add_array_appends read _)).and (add_array_le read _ t)) ?_
      rintro _ t ⟨ht, hlen⟩
      refine Ensures.bind (ht.send 4) fun _ t ht => ?_
      exact ensures_pure ⟨by simp, fun _ => ⟨send, u, read, hpop, hread, fun _ => hlen, ht.payload.of_eq hmsgs⟩⟩
    · rename_i hzero
      refine ensures_pure ⟨by simp, fun _ => ⟨send, u, read, hpop, hread, fun hpos => absurd hpos hzero, ?_⟩⟩
      exact Answered.of_eq ht hmsgs

theorem RUN_TEST_IDLE_spec (h : Buffered base fs cur s) :
    Ensures (RUN_TEST_IDLE adapter) s fun _ t => Answered ⟨0, [], .sent⟩ base fs cur s t := by
  unfold RUN_TEST_IDLE
  refine Ensures.bind jtagd_jtag_spec ?_
  rintro _ _ ⟨c, -, rfl⟩
  have h' : Buffered base fs cur { s with jtag := c } := h.of_eq rfl rfl rfl
  refine Ensures.bind (respond_spec h' 0) fun _ t ht => ?_
  exact (ht.send 0).mono fun _ t ht => Answered.of_eq ht rfl

end

end JtagRemote.Jtagd
