import JtagRemote.Jtagd.Queue

/-!
# Replies come

A handler begins a response, adds its arguments and ends it. From a send buffer of the
declared size and with no response under way, all its asserts hold and all its accesses
are in range, so that the reply comes.
-/

namespace JtagRemote.Jtagd

open JtagState

variable {δ : Type} {d : driver δ} {s : Jtagd δ} {junk : Nat → Byte}

/-! ## Between two steps of a handler -/

/-- A response is under way, and began where one byte can count, or none is. -/
structure Phase (under_way : Bool) (s : Jtagd δ) : Prop where
  room : s.send_buffer.length = BUFFER_SIZE
  last : if under_way then 0 ≤ s.last_response ∧ s.last_response < 256 else s.last_response = -1

/-- The program returns, and leads from one phase to the other. -/
def Leads {α : Type} (a b : Bool) (p : JtagdProg δ α) : Prop := ∀ s, Phase a s → Returns p s fun _ t => Phase b t

theorem Leads.bind {α β : Type} {a b c : Bool} {p : JtagdProg δ α} {f : α → JtagdProg δ β} (hp : Leads a b p)
    (hf : ∀ x, Leads b c (f x)) : Leads a c (p >>= f) := fun s h => Returns.bind (hp s h) fun x t ht => hf x t ht

theorem Leads.same {α : Type} {a b : Bool} {p : JtagdProg δ α} (hp : Leads a b p) (honly : SendOnly p)
    (h : Phase a s) :
    Returns p s fun _ t => Phase b t ∧ SendSame s t := (hp s h).and (honly s).ensures

theorem leads_pure {α : Type} {a : Bool} (x : α) : Leads a a (pure x : JtagdProg δ α) := fun _ h => returns_pure h

theorem Adds.leads {a : Bool} {p : JtagdProg δ Unit} (hp : Adds p) (hlast : Keeps (fun s => s.last_response) p) :
    Leads a a p := by
  intro s h
  apply ((hp s h.room).and (hlast s)).mono
  rintro _ t ⟨hroom, hsame⟩
  have hlast : t.last_response = s.last_response := hsame
  constructor
  · exact hroom
  · rw [hlast]
    exact h.last

theorem append_bytes_keeps (data : List Byte) :
    Keeps (fun s => s.last_response) (append_bytes data : JtagdProg δ Unit) := by
  intro s
  unfold append_bytes
  refine Ensures.get_bind (Ensures.bind (memcpy_spec _ _ _ s) ?_)
  rintro buf _ ⟨rfl, -, -⟩
  exact Ensures.set_bind (ensures_pure rfl)

theorem assert_keeps (b : Bool) : Keeps (fun s => s.last_response) (assert b : JtagdProg δ Unit) :=
  keeps_ite (keeps_pure _) (keeps_throw _)

theorem assert_room_keeps (n : Nat) : Keeps (fun s => s.last_response) (assert_room n : JtagdProg δ Unit) :=
  Keeps.get_bind fun _ => assert_keeps _

theorem add_int_leads {a : Bool} (value : BitVec 32) : Leads a a (add_int value : JtagdProg δ Unit) :=
  (add_int_adds value).leads ((assert_room_keeps 4).bind fun _ => append_bytes_keeps _)

theorem add_string_leads {a : Bool} {data : List Byte} (hdata : data.length ≤ 0xff) :
    Leads a a (add_string data : JtagdProg δ Unit) :=
  (add_string_adds hdata).leads ((assert_keeps _).bind fun _ => (assert_room_keeps _).bind fun _ =>
    (append_bytes_keeps _).bind fun _ => append_bytes_keeps _)

theorem add_array_leads {a : Bool} {data : List Byte} {len : Nat} (hlen : len ≤ data.length) (hle : len ≤ 256) :
    Leads a a (add_array data len : JtagdProg δ Unit) := by
  have hadds : Adds (add_array data len : JtagdProg δ Unit) := by
    apply (assert_room_adds hle).bind
    intro s h
    refine Returns.of_eq_bind (bytes_at_ok (by omega) s) ?_
    exact append_bytes_adds (by rw [List.length_take, List.length_drop]; omega) s h
  apply hadds.leads
  apply (assert_room_keeps len).bind
  intro _
  apply Keeps.bind
  · intro s
    refine (bytes_at_spec _ _ _ s).mono ?_
    rintro _ _ ⟨rfl, -, -⟩
    rfl
  · intro bytes
    exact append_bytes_keeps bytes

theorem do_send_leads {a : Bool} (mux : BitVec 16) : Leads a a (do_send mux : JtagdProg δ Unit) := by
  apply (do_send_adds mux).leads
  have hfill : Keeps (fun s => s.last_response) (fill_header mux : JtagdProg δ Unit) := by
    intro s
    unfold fill_header
    refine Ensures.get_bind (Ensures.bind (memcpy_spec _ _ _ s) ?_)
    rintro buf _ ⟨rfl, -, -⟩
    exact Ensures.set_bind (ensures_pure rfl)
  intro s
  unfold do_send
  refine Ensures.bind (hfill s) ?_
  intro _ t ht
  refine Ensures.get_bind (Ensures.bind (bytes_at_spec _ _ _ t) ?_)
  rintro bytes _ ⟨rfl, -, -⟩
  refine Ensures.bind (jtagd_sock_spec (P := fun _ _ => True) fun _ _ _ => trivial) ?_
  rintro _ _ ⟨k, -, rfl⟩
  exact ensures_modify ht

theorem add_response_leads (resp : Byte) : Leads false true (add_response resp : JtagdProg δ Unit) := by
  intro s h
  have hclosed : s.last_response = -1 := h.last
  have hsize := s.send_buffer_size.isLt
  have hroom : (assert_room 4 : JtagdProg δ Unit) s = .ok () s := by
    refine (bind_of_ok (get_apply s)).trans (assert_ok ?_ s)
    have hbuffer : BUFFER_SIZE = 4096 := rfl
    rw [decide_eq_true_eq]
    omega
  have hbyte : ∀ b, Leads true true (append_bytes [b] : JtagdProg δ Unit) := fun b =>
    (append_bytes_adds (by simp)).leads (append_bytes_keeps _)
  unfold add_response
  apply Returns.get_bind
  refine Returns.of_eq_bind (assert_ok (decide_eq_true hclosed) s) (Returns.of_eq_bind hroom (Returns.set_bind ?_))
  apply (hbyte _).bind fun _ => (hbyte _).bind fun _ => (hbyte _).bind fun _ => hbyte _
  constructor
  · exact h.room
  · show 0 ≤ (s.send_buffer_size.toNat : Int) ∧ (s.send_buffer_size.toNat : Int) < 256
    omega

theorem end_response_leads : Leads true false (end_response : JtagdProg δ Unit) := by
  intro s h
  obtain ⟨hpos, hlt⟩ : 0 ≤ s.last_response ∧ s.last_response < 256 := h.last
  have hbuffer : BUFFER_SIZE = 4096 := rfl
  have hroom := h.room
  unfold end_response
  apply Returns.get_bind
  refine Returns.of_eq_bind (assert_ok (by rw [decide_eq_true_eq]; omega) s) ?_
  have hfits : ∀ a b : Byte, s.last_response.toNat + 2 + [a, b].length ≤ s.send_buffer.length := by
    intro a b
    simp only [List.length_cons, List.length_nil]
    omega
  refine Returns.of_eq_bind (memcpy_ok (hfits _ _) s) (Returns.set_bind (returns_pure ⟨?_, rfl⟩))
  show (splice _ _ _).length = BUFFER_SIZE
  rw [splice_length _ _ _ (hfits _ _), h.room]

/-! ## The handlers -/

theorem respond_leads (resp : Byte) : Leads false false (respond resp : JtagdProg δ Unit) :=
  (add_response_leads resp).bind fun _ => end_response_leads

theorem GET_HARDWARE_leads : Leads false false (GET_HARDWARE : JtagdProg δ Unit) :=
  (add_response_leads _).bind fun _ => (add_int_leads _).bind fun _ => (add_int_leads _).bind fun _ =>
    end_response_leads.bind fun _ => (do_send_leads _).bind fun _ => (add_int_leads _).bind fun _ =>
    (add_string_leads (by decide)).bind fun _ => (add_string_leads (by decide)).bind fun _ =>
    (add_int_leads _).bind fun _ => (add_string_leads (by decide)).bind fun _ => (add_int_leads _).bind fun _ =>
    do_send_leads _

theorem GET_VERSION_INFO_leads : Leads false false (GET_VERSION_INFO : JtagdProg δ Unit) :=
  (add_response_leads _).bind fun _ => (add_string_leads (by decide)).bind fun _ => (add_int_leads _).bind fun _ =>
    (add_string_leads (by decide)).bind fun _ => end_response_leads

theorem GET_DEFINED_DEVICES_leads : Leads false false (GET_DEFINED_DEVICES : JtagdProg δ Unit) :=
  (add_response_leads _).bind fun _ => (add_int_leads _).bind fun _ => (add_int_leads _).bind fun _ =>
    (add_int_leads _).bind fun _ => end_response_leads

theorem add_device_leads {a : Bool} (device_id : BitVec 32) : Leads a a (add_device device_id : JtagdProg δ Unit) :=
  (add_int_leads _).bind fun _ => (add_int_leads _).bind fun _ => (add_int_leads _).bind fun _ =>
    (add_int_leads _).bind fun _ => (add_int_leads _).bind fun _ => add_string_leads (by decide)

theorem forM_leads {α : Type} {a : Bool} {f : α → JtagdProg δ Unit} (hf : ∀ x, Leads a a (f x)) (l : List α) :
    Leads a a (l.forM f) := by
  induction l with
  | nil => exact leads_pure _
  | cons x l ih => exact (hf x).bind fun _ => ih

theorem OPEN_DEVICE_returns (h : Phase false s) (hknown : s.devices ≠ []) :
    Returns OPEN_DEVICE s fun _ t => Phase false t := by
  unfold OPEN_DEVICE
  apply Returns.bind ((add_response_leads 0 s h).and (add_response_only 0 s).ensures)
  rintro _ t ⟨ht, hsame⟩
  apply Returns.get_bind
  rw [hsame.devices]
  cases hdevices : s.devices with
  | nil => exact absurd hdevices hknown
  | cons id ids => exact ((add_int_leads id).bind fun _ => end_response_leads) t ht

theorem GET_PARAMETER_leads : Leads false false (GET_PARAMETER : JtagdProg δ Unit) :=
  (add_response_leads _).bind fun _ => (add_int_leads _).bind fun _ => end_response_leads

theorem LOCK_DEVICE_leads : Leads false false (LOCK_DEVICE : JtagdProg δ Unit) :=
  (respond_leads 0).bind fun _ => do_send_leads 0

theorem USE_PROTOCOL_VERSION_leads : Leads false false (USE_PROTOCOL_VERSION : JtagdProg δ Unit) :=
  (add_response_leads _).bind fun _ => (add_int_leads _).bind fun _ => end_response_leads

/-! ## Messages that leave the board alone -/

/-- The message does not move the TAP. -/
def Plain (msg : Message) : Prop :=
  msg.command ≠ 0xA5 ∧ msg.command ≠ 0xC6 ∧ msg.command ≠ 0xC8 ∧ msg.command ≠ 0xCA

theorem plain_returns {msg : Message} (hplain : Plain msg) (hknown : msg.command = 0xA8 → s.devices ≠ [])
    (h : Phase false s) : Returns (handle_message d junk msg) s fun _ t => Phase false t := by
  obtain ⟨hA5, hC6, hC8, hCA⟩ := hplain
  have hdone : ∀ {p : JtagdProg δ Unit}, Returns p s (fun _ t => Phase false t) →
      Returns (do p; pure true) s fun _ t => Phase false t := fun hp =>
    Returns.bind hp fun _ t ht => returns_pure ht
  have hite : ∀ {c : Prop} [Decidable c] {p q : JtagdProg δ Bool}, (c → Returns p s fun _ t => Phase false t) →
      (¬ c → Returns q s fun _ t => Phase false t) → Returns (if c then p else q) s fun _ t => Phase false t := by
    intro c _ p q hp hq
    split
    · exact hp ‹_›
    · exact hq ‹_›
  unfold handle_message
  apply hite fun _ => hdone (GET_HARDWARE_leads s h)
  intro _
  apply hite fun _ => hdone (GET_VERSION_INFO_leads s h)
  intro _
  apply hite fun _ => hdone (GET_DEFINED_DEVICES_leads s h)
  intro _
  apply hite fun _ => hdone (respond_leads 0 s h)
  intro _
  apply hite fun _ => hdone (respond_leads 0 s h)
  intro _
  apply hite fun hc => absurd hc hA5
  intro _
  apply hite fun hc => hdone (OPEN_DEVICE_returns h (hknown hc))
  intro _
  apply hite fun _ => hdone (respond_leads 0 s h)
  intro _
  apply hite fun _ => hdone (GET_PARAMETER_leads s h)
  intro _
  apply hite fun _ => hdone (respond_leads 0 s h)
  intro _
  apply hite fun _ => hdone (LOCK_DEVICE_leads s h)
  intro _
  apply hite fun _ => hdone (respond_leads 0 s h)
  intro _
  apply hite fun hc => absurd hc hC6
  intro _
  apply hite fun hc => absurd hc hC8
  intro _
  apply hite fun hc => absurd hc hCA
  intro _
  exact hite (fun _ => hdone (USE_PROTOCOL_VERSION_leads s h)) fun _ => hdone (respond_leads 126 s h)

/-! ## Messages that use the board -/

/-- The TAP moved to `dst`, and a scan gave `read` and led to `c'`. -/
def Scanned (d : driver δ) (dst : JtagState) (data recv : List Byte) (n : Nat) (c : Jtag δ) (read : List Byte)
    (c' : Jtag δ) : Prop :=
  ∃ r c₁ q, jtag_tms_seq_to d dst c = .ok r c₁ ∧ jtag_scan_chain d data recv n true true c₁ = .ok (q, read) c'

theorem Scanned.read_eq {dst : JtagState} {data recv read read' : List Byte} {n : Nat} {c c' : Jtag δ}
    (h : Scanned d dst data recv n c read c') (h' : Scans d dst data recv n c read') : read' = read := by
  obtain ⟨r, c₁, q, hscanned⟩ := h
  exact Scans.unique ⟨r, c₁, q, c', hscanned⟩ h'

theorem jtagd_jtag_ok {α : Type} {p : EStateM Fault (Jtag δ) α} {a : α} {c : Jtag δ} (h : p s.jtag = .ok a c) :
    jtagd_jtag p s = .ok a { s with jtag := c } := by
  unfold jtagd_jtag focus
  rw [h]

theorem Scanned.returns {α : Type} {dst : JtagState} {data recv read : List Byte} {n : Nat} {c' : Jtag δ}
    {f : Bool × List Byte → JtagdProg δ α} {Q : α → Jtagd δ → Prop}
    (h : Scanned d dst data recv n s.jtag read c') (hf : ∀ q, Returns (f (q, read)) { s with jtag := c' } Q) :
    Returns (do
      let _ ← jtagd_jtag (jtag_tms_seq_to d dst)
      let r ← jtagd_jtag (jtag_scan_chain d data recv n true true)
      f r) s Q := by
  obtain ⟨r, c₁, q, hmove, hscan⟩ := h
  refine Returns.of_eq_bind (jtagd_jtag_ok hmove) ?_
  exact Returns.of_eq_bind (jtagd_jtag_ok (s := { s with jtag := c₁ }) hscan) (hf q)

theorem ACCESS_IR_2_returns (h : Phase false s) {body read : List Byte} (hlen : 16 ≤ body.length) {c' : Jtag δ}
    (hscan : Scanned d ShiftIR (instructionOf body) (List.replicate 4 0) 10 s.jtag read c') :
    Returns (ACCESS_IR_2 d body) s fun _ t => Phase false t ∧ SendSame { s with jtag := c' } t := by
  unfold ACCESS_IR_2
  refine Returns.of_eq_bind (index_ok (by omega) s) ?_
  refine Returns.of_eq_bind (index_ok (by omega) s) ?_
  refine Returns.of_eq_bind (index_ok (by omega) s) ?_
  refine Returns.of_eq_bind (index_ok (by omega) s) ?_
  apply hscan.returns
  intro q
  apply Leads.same (s := { s with jtag := c' })
  · exact (add_response_leads _).bind fun _ => (add_int_leads _).bind fun _ => end_response_leads.bind fun _ =>
      do_send_leads _
  · exact (add_response_only _).bind fun _ => (add_int_only _).bind fun _ => end_response_only.bind fun _ =>
      do_send_only _
  · exact ⟨h.room, h.last⟩

theorem RUN_TEST_IDLE_returns (h : Phase false s) {r : Bool} {c' : Jtag δ}
    (hmove : jtag_tms_seq_to d RunTestIdle s.jtag = .ok r c') :
    Returns (RUN_TEST_IDLE d) s fun _ t => Phase false t ∧ SendSame { s with jtag := c' } t := by
  unfold RUN_TEST_IDLE
  refine Returns.of_eq_bind (jtagd_jtag_ok hmove) ?_
  apply Leads.same (s := { s with jtag := c' })
  · exact (respond_leads 0).bind fun _ => do_send_leads 0
  · exact (respond_only 0).bind fun _ => do_send_only 0
  · exact ⟨h.room, h.last⟩

theorem READ_CHAIN_returns (h : Phase false s) {devices : List (BitVec 32)} {c' : Jtag δ}
    (hprobe : jtag_probe_devices d junk s.jtag = .ok devices c') :
    Returns (READ_CHAIN d junk) s fun _ t =>
      Phase false t ∧ SendSame { s with jtag := c', devices := devices } t := by
  unfold READ_CHAIN
  refine Returns.of_eq_bind (jtagd_jtag_ok hprobe) (Returns.modify_bind ?_)
  apply Leads.same (s := { s with jtag := c', devices := devices })
  · exact (add_response_leads _).bind fun _ => (add_int_leads _).bind fun _ => (add_int_leads _).bind fun _ =>
      (add_int_leads _).bind fun _ => end_response_leads.bind fun _ => (do_send_leads _).bind fun _ =>
      (forM_leads add_device_leads devices).bind fun _ => do_send_leads _
  · exact (add_response_only _).bind fun _ => (add_int_only _).bind fun _ => (add_int_only _).bind fun _ =>
      (add_int_only _).bind fun _ => end_response_only.bind fun _ => (do_send_only _).bind fun _ =>
      (forM_only add_device_only devices).bind fun _ => do_send_only _
  · exact ⟨h.room, h.last⟩

theorem pop_nothing (hsome : s.fifos FIFO_MIN ≠ []) (buffer : List Byte) :
    pop_fifo buffer 0 s = .ok (true, buffer) s := by
  have hsame : splice buffer 0 [] = buffer := by simp [splice]
  unfold pop_fifo
  refine (bind_of_ok (get_apply s)).trans ((congrFun (if_pos (Nat.zero_le _)) s).trans ?_)
  rw [bind_of_ok (first_element_ok (List.length_pos_iff.mpr hsome) s), List.take_zero,
    bind_of_ok (memcpy_ok (Nat.zero_le _) s), hsame, List.drop_zero, Function.update_eq_self]
  rfl

/-- An access that writes nothing to the register. -/
theorem ACCESS_DR_2_returns (h : Phase false s) {body read : List Byte} (hlen : 32 ≤ body.length)
    (hsome : s.fifos FIFO_MIN ≠ []) (hno : intAt body 20 / 8 = 0) (hread : readBytes body ≤ read.length) (hle : readBytes body ≤ 256) {c' : Jtag δ}
    (hscan : Scanned d ShiftDR (List.replicate BUFFER_SIZE 0) (List.replicate BUFFER_SIZE 0) (intAt body 12) s.jtag
      read c') :
    Returns (ACCESS_DR_2 d body) s fun ok t => ok = true ∧ Phase false t ∧ SendSame { s with jtag := c' } t := by
  unfold ACCESS_DR_2
  refine Returns.of_eq_bind (body_int_ok (by omega) s) ?_
  refine Returns.of_eq_bind (body_int_ok (by omega) s) ?_
  refine Returns.of_eq_bind (body_int_ok (by omega) s) ?_
  rw [hno]
  refine Returns.of_eq_bind (pop_nothing hsome _) ?_
  apply hscan.returns
  intro q
  have hphase : Phase false { s with jtag := c' } := ⟨h.room, h.last⟩
  apply Returns.bind ((respond_leads 0).same (respond_only 0) hphase)
  rintro _ t ⟨ht, hsame⟩
  apply Returns.bind ((do_send_leads 0).same (do_send_only 0) ht)
  rintro _ t' ⟨ht', hsame'⟩
  by_cases hpos : intAt body 28 > 0
  · rw [if_pos hpos]
    have hadd : Leads false false (add_array read (readBytes body) : JtagdProg δ Unit) := add_array_leads hread hle
    apply Returns.bind (hadd.same (add_array_only _ _) ht')
    rintro _ u ⟨hu, hsame₁⟩
    apply Returns.bind ((do_send_leads 4).same (do_send_only 4) hu)
    rintro _ u' ⟨hu', hsame₂⟩
    exact returns_pure ⟨rfl, hu', ((hsame.trans hsame').trans hsame₁).trans hsame₂⟩
  · rw [if_neg hpos]
    exact returns_pure ⟨rfl, ht', hsame.trans hsame'⟩

end JtagRemote.Jtagd
