import JtagRemote.Jtagd.Turns
import JtagRemote.Jtagd.Bounds

/-!
# Runs of ACCESS_DR_2

Here the FIFO is a queue of bytes, as its client takes it. The bytes that an access
takes are then counted in three places: for the pop, for the scan and for the reply.
-/

namespace JtagRemote.Jtagd

open JtagState

variable {δ : Type} {board : Board} {d : driver δ}

/-! ## The FIFO as a queue of bytes -/

/-- `pop_fifo` with a FIFO whose entries have these bytes. -/
def pop_fifo_of (raw : BitVec 32 → List Byte) (buffer : List Byte) (length : Nat) :
    JtagdProg δ (Bool × List Byte) := do
  let s ← get
  let fifo := s.fifos FIFO_MIN
  if length ≤ fifo.length then
    first_element fifo
    let buffer ← memcpy buffer 0 ((fifo.flatMap raw).take length)
    set { s with fifos := Function.update s.fifos FIFO_MIN (fifo.drop length) }
    pure (true, buffer)
  else pure (false, buffer)

/-- The entries of the source are words. -/
theorem pop_fifo_words : (pop_fifo : List Byte → Nat → JtagdProg δ (Bool × List Byte)) = pop_fifo_of le_bytes := rfl

def octet (w : BitVec 32) : List Byte := [w.setWidth 8]

def toWord (b : Byte) : BitVec 32 := b.setWidth 32

theorem octets (q : List Byte) : (q.map toWord).flatMap octet = q := by
  induction q with
  | nil => rfl
  | cons b q ih =>
    have hb : (toWord b).setWidth 8 = b := by simp [toWord]
    rw [List.map_cons, List.flatMap_cons, ih, octet, hb, List.singleton_append]

/-- ACCESS_DR_2 with entries of these bytes in the FIFO. -/
def ACCESS_DR_2_of (raw : BitVec 32 → List Byte) (adapter : driver δ) (body : List Byte) : JtagdProg δ Bool := do
  let length_dr ← body_int body 12
  let write_length ← body_int body 20
  let read_length ← body_int body 28
  let (ok, send) ← pop_fifo_of raw (List.replicate BUFFER_SIZE 0) (write_length / 8)
  if ok then
    let _ ← jtagd_jtag (jtag_tms_seq_to adapter ShiftDR)
    let (_, recv) ← jtagd_jtag
      (jtag_scan_chain adapter send (List.replicate BUFFER_SIZE 0) length_dr true true)
    respond 0
    do_send 0
    ACCESS_DR_2_reply recv read_length
  else pure false

theorem ACCESS_DR_2_words (adapter : driver δ) (body : List Byte) :
    ACCESS_DR_2 adapter body = ACCESS_DR_2_of le_bytes adapter body := rfl

variable {s : Jtagd δ}

/-- A pop takes bytes off the head, and pads them to the size of the buffer. -/
theorem pop_bytes_spec {q : List Byte} (h : s.fifos FIFO_MIN = q.map toWord) (n : Nat) :
    Ensures (pop_fifo_of octet (List.replicate BUFFER_SIZE 0) n) s fun r t =>
      (r.1 = false → t = s) ∧ (r.1 = true → n ≤ q.length ∧ n ≤ BUFFER_SIZE ∧
        r.2 = q.take n ++ List.replicate (BUFFER_SIZE - n) 0 ∧
        t = { s with fifos := Function.update s.fifos FIFO_MIN ((q.drop n).map toWord) }) := by
  unfold pop_fifo_of
  refine Ensures.get_bind ?_
  dsimp only
  rw [h, octets, List.length_map]
  refine ensures_ite (fun hn => ?_) fun _ => ensures_pure ⟨fun _ => rfl, by simp⟩
  have htake : (q.take n).length = n := by rw [List.length_take, Nat.min_eq_left hn]
  refine Ensures.bind (first_element_spec _ s) ?_
  rintro _ s ⟨rfl, -⟩
  refine Ensures.bind (memcpy_spec _ _ _ s) ?_
  rintro buffer _ ⟨rfl, rfl, hfits⟩
  rw [htake, List.length_replicate, Nat.zero_add] at hfits
  refine Ensures.set_bind (ensures_pure ⟨by simp, fun _ => ⟨hn, hfits, ?_, ?_⟩⟩)
  · rw [splice_replicate, htake]
  · rw [List.map_drop]

/-- The bits of the popped bytes are those at the head of the queue. -/
theorem scanPins_popped (q : List Byte) {n k : Nat} (size : Nat) (h : n ≤ 8 * k) (hk : k ≤ q.length) (flip : Bool) :
    scanPins (q.take k ++ List.replicate size 0) n flip = scanPins q n flip := by
  have htake : (q.take k).length = k := by rw [List.length_take, Nat.min_eq_left hk]
  unfold scanPins
  refine List.map_congr_left fun i hi => ?_
  have hlt : i < n := List.mem_range.mp hi
  rw [bitAt_append, htake, if_pos (by omega), bitAt_take, decide_eq_true (by omega : i < 8 * k), Bool.true_and]

/-! ## The answer -/

/-- The response, and behind it the data that was asked for. -/
def drAnswer (recv : List Byte) (read_length : Nat) : Answer :=
  ⟨0, [], if read_length > 0 then .payload (recv.take ((read_length + 7) % 2 ^ 32 / 8)) else .sent⟩

theorem drAnswer_waiting (recv : List Byte) (r : Nat) (cur : List Byte) : (drAnswer recv r).waiting cur = [] := by
  unfold drAnswer
  split <;> rfl

theorem reply_only (recv : List Byte) (n : Nat) : SendOnly (ACCESS_DR_2_reply recv n : JtagdProg δ Bool) := by
  intro s
  unfold ACCESS_DR_2_reply
  refine guards_ite (fun _ => ?_) fun _ => sendOnly_pure true s
  exact ((add_array_only _ _).bind fun _ => (do_send_only _).bind fun _ => sendOnly_pure true) s

theorem answer_spec {base : List Byte} {fs : List Frame} {cur : List Byte} (h : Buffered base fs cur s) (recv : List Byte) (n : Nat) :
    Ensures (do respond 0; do_send 0; ACCESS_DR_2_reply recv n) s fun ok t => ok = true ∧ SendSame s t ∧
      (n > 0 → (n + 7) % 2 ^ 32 / 8 ≤ recv.length) ∧ Answered (drAnswer recv n) base fs cur s t := by
  have hsame : Ensures (do respond 0; do_send 0; ACCESS_DR_2_reply recv n) s fun _ t => SendSame s t :=
    ((respond_only 0).bind (fun _ => (do_send_only 0).bind fun _ => reply_only recv n) s).ensures
  suffices hanswer : Ensures (do respond 0; do_send 0; ACCESS_DR_2_reply recv n) s fun ok t => ok = true ∧
      (n > 0 → (n + 7) % 2 ^ 32 / 8 ≤ recv.length) ∧ Answered (drAnswer recv n) base fs cur s t by
    refine (hsame.and hanswer).mono ?_
    rintro ok t ⟨hsame, hok, hlen, hanswered⟩
    exact ⟨hok, hsame, hlen, hanswered⟩
  refine Ensures.bind (respond_spec h 0) fun _ t ht => ?_
  refine Ensures.bind (ht.send 0) fun _ t ht => ?_
  unfold ACCESS_DR_2_reply drAnswer
  split
  · refine Ensures.bind ((ht.append (add_array_appends recv _)).and (add_array_le recv _ t)) ?_
    rintro _ t ⟨ht, hlen⟩
    refine Ensures.bind (ht.send 4) fun _ t ht => ?_
    exact ensures_pure ⟨rfl, fun _ => hlen, ht.payload⟩
  · rename_i hzero
    exact ensures_pure ⟨rfl, fun hpos => absurd hpos hzero, ht⟩

/-! ## What an access is for -/

/-- An access at offset 0 that shifts what it writes. -/
structure DrRequest (body : List Byte) : Prop where
  offsets : intAt body 16 = 0 ∧ intAt body 24 = 0
  length : intAt body 20 = intAt body 12
  pos : 1 ≤ intAt body 12
  le : intAt body 12 ≤ 8 * BUFFER_SIZE
  read : intAt body 28 ≤ intAt body 12

/-- The TAP, the queue of the client's bytes, the packets that went out, and the bytes that wait for one. -/
structure Bank where
  state : JtagState
  line : Line
  queue : List Byte
  frames : List Frame
  waiting : List Byte

/-- One access: it shifts the bits at the head of the queue, removes the bytes that carry them, and gives back
the first bits of TDO. -/
structure Accessed (board : Board) (body : List Byte) (b b' : Bank) : Prop where
  state : b'.state = Exit1DR
  enough : (intAt body 20 + 7) / 8 ≤ b.queue.length
  queue : b'.queue = b.queue.drop ((intAt body 20 + 7) / 8)
  waiting : b'.waiting = []
  shifts : ∃ moves reply, stateAfter b.state (moves.map Pins.tms) = ShiftDR ∧
    b'.line = (b.line.clock board moves).clock board (scanPins b.queue (intAt body 12) true) ∧
    b'.frames = b.frames ++ ⟨0, b.waiting ++ response 0 []⟩ :: (if intAt body 28 > 0 then [⟨4, reply⟩] else []) ∧
    reply.length = (intAt body 28 + 7) / 8 ∧
    bitsOf reply (intAt body 28) = ((board.cycles (b.line.clock board moves).log
      (scanPins b.queue (intAt body 12) true)).map Cycle.tdo).take (intAt body 28)

/-- Another message: it may move the TAP, is answered, and leaves the queue alone. -/
structure Replied (board : Board) (msg : Message) (b b' : Bank) : Prop where
  moves : board.Since b.line.log b'.line.log
  queue : b'.queue = b.queue
  answer : ∃ o : Outcome, o.msg = msg ∧ b'.frames = b.frames ++ (answer o).frames b.waiting ∧
    b'.waiting = (answer o).waiting b.waiting

/-- What is sent for the bytes that wait when a tick ends. -/
def lastFrame (waiting : List Byte) : List Frame :=
  if (2 + waiting.length) % 256 > 2 then [⟨0, waiting⟩] else []

/-- Bytes come for the FIFO; an access waits for more of them, or is done; another message is done; a tick ends. -/
inductive DrEvent where
  | bytes (l : List Byte)
  | waits (body : List Byte)
  | access (body : List Byte)
  | message (msg : Message)
  | ends

inductive Serves (board : Board) : Bank → List DrEvent → Bank → Prop
  | nil (b : Bank) : Serves board b [] b
  | bytes {b b' : Bank} {l : List Byte} {evs : List DrEvent} :
      Serves board { b with queue := b.queue ++ l } evs b' → Serves board b (.bytes l :: evs) b'
  | waits {b b' : Bank} {body : List Byte} {evs : List DrEvent} :
      Serves board b evs b' → Serves board b (.waits body :: evs) b'
  | access {b b₁ b' : Bank} {body : List Byte} {evs : List DrEvent} :
      Accessed board body b b₁ → Serves board b₁ evs b' → Serves board b (.access body :: evs) b'
  | message {b b₁ b' : Bank} {msg : Message} {evs : List DrEvent} :
      Replied board msg b b₁ → Serves board b₁ evs b' → Serves board b (.message msg :: evs) b'
  | ends {b b' : Bank} {evs : List DrEvent} :
      Serves board { b with frames := b.frames ++ lastFrame b.waiting, waiting := [] } evs b' →
      Serves board b (.ends :: evs) b'

/-! ## The runs -/

def come (s : Jtagd δ) (l : List Byte) : Jtagd δ :=
  { s with fifos := Function.update s.fifos FIFO_MIN (s.fifos FIFO_MIN ++ l.map toWord) }

/-- What a tick does with the send buffer after the message loop, and the next one first of all. -/
def end_tick : JtagdProg δ Unit := do
  let s ← get
  (if s.send_buffer_size.toNat > 2 then do_send 0 else pure ())
  modify fun s => { s with send_buffer_size := 2 }

inductive DrRun (d : driver δ) : Jtagd δ → List DrEvent → Jtagd δ → Prop
  | nil (s : Jtagd δ) : DrRun d s [] s
  | bytes {s u : Jtagd δ} {l : List Byte} {evs : List DrEvent} :
      DrRun d (come s l) evs u → DrRun d s (.bytes l :: evs) u
  | waits {s t u : Jtagd δ} {body : List Byte} {evs : List DrEvent} :
      ACCESS_DR_2_of octet d body s = .ok false t → DrRun d t evs u → DrRun d s (.waits body :: evs) u
  | access {s t u : Jtagd δ} {body : List Byte} {evs : List DrEvent} :
      ACCESS_DR_2_of octet d body s = .ok true t → DrRun d t evs u → DrRun d s (.access body :: evs) u
  | message {s t u : Jtagd δ} {junk : Nat → Byte} {msg : Message} {evs : List DrEvent} : msg.command ≠ 0xC8 →
      handle_message d junk msg s = .ok true t → DrRun d t evs u → DrRun d s (.message msg :: evs) u
  | ends {s t u : Jtagd δ} {evs : List DrEvent} :
      end_tick s = .ok () t → DrRun d t evs u → DrRun d s (.ends :: evs) u

/-- The server is at this bank. Since `base` its packets went out, each one as it is if the counter can count it. -/
structure InBank (A : HandlerAdapter board d) (base : List Byte) (s : Jtagd δ) (b : Bank) : Prop where
  state : s.jtag.state = b.state
  stands : A.Stands s.jtag.state s.jtag.dev b.line
  pending : b.line.pending = []
  queue : s.fifos FIFO_MIN = b.queue.map toWord
  buffered : Buffered base b.frames b.waiting s

/-- Whole bytes, and an answer that `send_buffer_size` can count. -/
structure DrWhole (takes : Nat → Prop) (body : List Byte) : Prop where
  bytes : intAt body 20 % 8 = 0
  answer : (intAt body 28 + 7) / 8 ≤ 253
  takes : takes (intAt body 12)

section

variable {A : HandlerAdapter board d} {base : List Byte} {fs : List Frame} {cur : List Byte} {b : Bank} {body : List Byte}

theorem access_waits (d : driver δ) {q : List Byte} (h : s.fifos FIFO_MIN = q.map toWord) (body : List Byte) :
    Ensures (ACCESS_DR_2_of octet d body) s fun ok t => ok = false → t = s := by
  unfold ACCESS_DR_2_of
  refine Ensures.bind (body_int_spec _ _ s) ?_
  rintro _ _ ⟨rfl, rfl⟩
  refine Ensures.bind (body_int_spec _ _ _) ?_
  rintro _ _ ⟨rfl, rfl⟩
  refine Ensures.bind (body_int_spec _ _ _) ?_
  rintro _ s ⟨rfl, rfl⟩
  refine Ensures.bind (pop_bytes_spec h _) ?_
  rintro ⟨ok, send⟩ u ⟨hfail, -⟩
  cases ok with
  | false => exact ensures_pure fun _ => hfail rfl
  | true =>
    refine Ensures.any_bind fun _ _ => Ensures.any_bind fun _ _ => ?_
    refine Ensures.any_bind fun _ _ => Ensures.any_bind fun _ _ => ?_
    unfold ACCESS_DR_2_reply
    refine ensures_ite (fun _ => ?_) fun _ => ensures_pure (by simp)
    exact Ensures.any_bind fun _ _ => Ensures.any_bind fun _ _ => ensures_pure (by simp)

/-- The reply has the first bits of what the scan gave. -/
theorem reply_bits {recv : List Byte} {tdo : List Bool} {r m : Nat} (h : Holds recv tdo) (hr : r ≤ tdo.length)
    (hm : r ≤ 8 * m) : bitsOf (recv.take m) r = tdo.take r := by
  have hall : bitsOf (recv.take m) r = bitsOf recv r := by
    refine bitsOf_congr fun i hi => ?_
    rw [bitAt_take, decide_eq_true (by omega : i < 8 * m), Bool.true_and]
  calc bitsOf (recv.take m) r = (bitsOf recv tdo.length).take r := by rw [hall, bitsOf_take, Nat.min_eq_left hr]
    _ = tdo.take r := by rw [h.bitsOf]

theorem drAnswer_frames (cur recv : List Byte) {r : Nat} (hr : r < 2 ^ 31) : (drAnswer recv r).frames cur =
    (⟨0, cur ++ response 0 []⟩ : Frame) :: (if r > 0 then [⟨4, recv.take ((r + 7) / 8)⟩] else []) := by
  have hmod : (r + 7) % 2 ^ 32 / 8 = (r + 7) / 8 := by omega
  unfold drAnswer
  rw [hmod]
  split <;> rfl

theorem access_step (h : InBank A base s b) (hreq : DrRequest body) (hwhole : DrWhole A.Takes body) :
    Ensures (ACCESS_DR_2_of octet d body) s fun ok t => ok = true →
      ∃ b', Accessed board body b b' ∧ InBank A base t b' := by
  have hsize : BUFFER_SIZE = 4096 := rfl
  have hlength := hreq.length
  have hpos := hreq.pos
  have hle := hreq.le
  have hread := hreq.read
  have hbytes := hwhole.bytes
  unfold ACCESS_DR_2_of
  refine Ensures.bind (body_int_spec _ _ s) ?_
  rintro _ _ ⟨rfl, rfl⟩
  refine Ensures.bind (body_int_spec _ _ _) ?_
  rintro _ _ ⟨rfl, rfl⟩
  refine Ensures.bind (body_int_spec _ _ _) ?_
  rintro _ s ⟨rfl, rfl⟩
  refine Ensures.bind (pop_bytes_spec h.queue _) ?_
  rintro ⟨ok, send⟩ u ⟨-, hpop⟩
  cases ok with
  | false => exact ensures_pure (by simp)
  | true =>
    obtain ⟨henough, -, rfl, rfl⟩ := hpop rfl
    rw [hlength] at henough hbytes ⊢
    have hceil : (intAt body 12 + 7) / 8 = intAt body 12 / 8 := by omega
    have htake : (b.queue.take (intAt body 12 / 8)).length = intAt body 12 / 8 := by rw [List.length_take, Nat.min_eq_left henough]
    refine Ensures.bind jtagd_jtag_spec ?_
    rintro r₁ _ ⟨c₁, hmove, rfl⟩
    obtain ⟨hst₁, moves, hmoves, h₁⟩ := move_spec A.toAdapter h.stands ShiftDR _ _ hmove
    have hscan := @DrAdapter.scan _ _ _ A.toDrAdapter _ _
      (b.queue.take (intAt body 12 / 8) ++ List.replicate (BUFFER_SIZE - intAt body 12 / 8) 0) _ h₁ h.pending
      (by rw [hst₁]; rfl) hpos hle hwhole.takes
      (by rw [List.length_append, htake, List.length_replicate]; omega)
    rw [scanPins_popped _ _ (by omega) henough] at hscan
    refine Ensures.bind jtagd_jtag_spec ?_
    rintro ⟨r₂, recv⟩ _ ⟨c₂, hrun₂, rfl⟩
    obtain ⟨hout, hholds, hst₂, h₂⟩ := hscan.ensures _ _ hrun₂
    have hbuf : Buffered base b.frames b.waiting { s with
        jtag := c₂
        fifos := Function.update s.fifos FIFO_MIN ((b.queue.drop (intAt body 12 / 8)).map toWord) } :=
      h.buffered.of_eq rfl rfl rfl
    refine (answer_spec hbuf recv _).mono ?_
    rintro _ t ⟨rfl, hsame, hrecv, hanswered⟩ -
    have hsent := hanswered.buffered
    rw [drAnswer_frames _ _ (by omega), drAnswer_waiting] at hsent
    have hjtag : t.jtag = c₂ := hsame.jtag
    refine ⟨⟨Exit1DR, (b.line.clock board moves).clock board (scanPins b.queue (intAt body 12) true), b.queue.drop (intAt body 12 / 8),
      b.frames ++ ⟨0, b.waiting ++ response 0 []⟩ :: (if intAt body 28 > 0 then [⟨4, recv.take ((intAt body 28 + 7) / 8)⟩] else []), []⟩,
      ⟨rfl, ?_, ?_, rfl, moves, recv.take ((intAt body 28 + 7) / 8), ?_, rfl, rfl, ?_, ?_⟩, ?_⟩
    · rwa [hlength, hceil]
    · rw [hlength, hceil]
    · rw [← h.state]
      exact hmoves
    · have hrecvLen : recv.length = BUFFER_SIZE := hout
      have := hwhole.answer
      rw [List.length_take]
      omega
    · refine reply_bits hholds ?_ (by omega)
      rwa [List.length_map, cycles_length, scanPins, List.length_map, List.length_range]
    · refine ⟨?_, ?_, h.pending, ?_, hsent⟩
      · rw [hjtag, hst₂, hst₁]
        rfl
      · rw [hjtag]
        exact h₂
      · rw [hsame.fifos]
        exact Function.update_self FIFO_MIN _ s.fifos

/-- A message other than ACCESS_DR_2 that is done. -/
theorem message_step (h : InBank A base s b) {junk : Nat → Byte} {msg : Message} (hmsg : msg.command ≠ 0xC8)
    {t : Jtagd δ} (hrun : handle_message d junk msg s = .ok true t) :
    ∃ b', Replied board msg b b' ∧ InBank A base t b' := by
  have hstill : Still A b.line.log s.jtag := ⟨b.line, h.stands, h.pending, .refl board _⟩
  have hmoved := (handle_message_moves hstill junk msg (done_supported hrun)).ensures true t hrun
  obtain ⟨l, hstands, hnone, hsince⟩ := hmoved.still
  obtain ⟨o, ho, -, hanswered⟩ := (handle_message_spec h.buffered msg true t hrun).2 rfl
  refine ⟨⟨t.jtag.state, l, b.queue, b.frames ++ (answer o).frames b.waiting, (answer o).waiting b.waiting⟩,
    ⟨hsince, rfl, o, ho, rfl, rfl⟩, rfl, hstands, hnone, ?_, hanswered.buffered⟩
  rw [hmoved.fifos hmsg]
  exact h.queue

theorem Buffered.restart (h : Buffered base fs cur s) : Buffered base fs [] { s with send_buffer_size := 2 } := by
  refine ⟨rfl, h.room, h.alive, h.sent, fun _ => ?_⟩
  match hsend : s.send_buffer, h.room with
  | x :: y :: rest, _ => exact ⟨x, y, rest, rfl⟩

theorem end_tick_spec (h : Buffered base fs cur s) : Ensures end_tick s fun _ t =>
    SendSame s t ∧ Buffered base (fs ++ lastFrame cur) [] t := by
  unfold end_tick
  refine Ensures.get_bind ?_
  rw [h.size_toNat]
  by_cases hsize : (2 + cur.length) % 256 > 2
  · rw [if_pos hsize, lastFrame, if_pos hsize]
    refine Ensures.bind (((do_send_only 0) s).ensures.and (do_send_spec h 0)) ?_
    rintro _ t ⟨hsame, hsent, -, -⟩
    exact ensures_modify ⟨hsame.trans ⟨rfl⟩, hsent.restart⟩
  · rw [if_neg hsize, lastFrame, if_neg hsize, List.append_nil]
    exact ensures_modify ⟨⟨rfl⟩, h.restart⟩

end

/-! ## Two accesses -/

/-- The body of an access of `n` bits that asks for `r` of them. -/
def accessBody (n r : BitVec 32) : List Byte :=
  List.replicate 12 0 ++ be32 n ++ be32 0 ++ be32 n ++ be32 0 ++ be32 r

def servingDr : Jtagd Mpsse :=
  freshJtagd (benchMpsse RunTestIdle)

def startBank : Bank := ⟨RunTestIdle, ⟨[], false, []⟩, [], [], []⟩

theorem servingDr_in : InBank blinkHandlers [] servingDr startBank :=
  ⟨rfl, benchMpsse_stands _ _, rfl, rfl, rfl, List.length_replicate, rfl, .refl [], fun _ => ⟨0, 0, _, rfl⟩⟩

/-- The server after ACCESS_DR_2. -/
def drDone (body : List Byte) (s : Jtagd Mpsse) : Jtagd Mpsse :=
  finalState (ACCESS_DR_2_of octet (mpsse_driver (mpsseUsb Mpsse.blinkBoard Mpsse.idleEngine) (100 + 0) 15) body s)

/-- The server after RUN_TEST_IDLE. -/
def idleDone (s : Jtagd Mpsse) : Jtagd Mpsse :=
  finalState (handle_message (mpsse_driver (mpsseUsb Mpsse.blinkBoard Mpsse.idleEngine) (100 + 0) 15) (fun _ => 0) ⟨0xCA, []⟩ s)

/-- Two bytes come, and an access takes the first of them. -/
def firstDone : Jtagd Mpsse := drDone (accessBody 8 8) (come servingDr [0xA5, 0x3C])

/-- The next access waits for a byte, which comes before the tick ends. -/
def secondReady : Jtagd Mpsse := finalState (end_tick (come (drDone (accessBody 16 16) (idleDone firstDone)) [0xC3]))

def twoAccesses : List DrEvent :=
  [.bytes [0xA5, 0x3C], .access (accessBody 8 8), .message ⟨0xCA, []⟩, .waits (accessBody 16 16), .bytes [0xC3], .ends,
    .access (accessBody 16 16)]

theorem twoAccesses_run : DrRun (mpsse_driver (mpsseUsb Mpsse.blinkBoard Mpsse.idleEngine) (100 + 0) 15) servingDr
    twoAccesses (drDone (accessBody 16 16) secondReady) :=
  .bytes (.access (of_answer (by decide +kernel)) (.message (by decide) (of_answer (by decide +kernel))
    (.waits (of_answer (by decide +kernel)) (.bytes (.ends (of_answer (by decide +kernel))
      (.access (of_answer (by decide +kernel)) (.nil _)))))))

theorem twoAccesses_bodies {body : List Byte} (h : .access body ∈ twoAccesses) :
    body = accessBody 8 8 ∨ body = accessBody 16 16 := by
  simpa [twoAccesses] using h

end JtagRemote.Jtagd
