import JtagRemote.Jtagd.Moves
import JtagRemote.Drivers

/-!
# Whole sessions, and the moves of the TAP

Whether all moves of a session find a way can be told from the order of its messages.
-/

namespace JtagRemote.Jtagd

open JtagState

variable {δ : Type} {board : Board} {d : driver δ} {s : Jtagd δ}

/-! ## The order of messages -/

/-- The moves that may come right after `prev`, or first of all. -/
def MayFollow (prev : Option Move) : Move → Prop
  | .probe _ => True
  | .ir => prev = none ∨ prev = some (.probe true) ∨ prev = some .idle
  | .dr _ => prev = none ∨ prev = some (.probe true) ∨ prev = some .idle ∨ prev = some .ir ∨ prev = some (.dr false)
  | .idle => prev = some (.probe false) ∨ prev = some .idle ∨ prev = some .ir ∨ prev = some (.dr true)

/-- Each move may follow the one before it. -/
def Orderly (prev : Option Move) : List Move → Prop
  | [] => True
  | m :: ms => MayFollow prev m ∧ Orderly (some m) ms

theorem mayFollow_iff (prev : Option Move) (m : Move) :
    MayFollow prev m ↔ m.Supported ((prev.map Move.leaves).getD TestLogicReset) := by
  cases m with
  | probe found => simp [MayFollow, Move.Supported, Move.target]
  | ir =>
    rcases prev with _ | ⟨found⟩ | _ | ⟨taken⟩ | _
    all_goals first | cases found | cases taken | skip
    all_goals simp [MayFollow, Move.Supported, Move.target, Move.leaves, tabulated, jtag_get_tms_seq]
  | dr _ =>
    rcases prev with _ | ⟨found⟩ | _ | ⟨taken⟩ | _
    all_goals first | cases found | cases taken | skip
    all_goals simp [MayFollow, Move.Supported, Move.target, Move.leaves, tabulated, jtag_get_tms_seq]
  | idle =>
    rcases prev with _ | ⟨found⟩ | _ | ⟨taken⟩ | _
    all_goals first | cases found | cases taken | skip
    all_goals simp [MayFollow, Move.Supported, Move.target, Move.leaves, tabulated, jtag_get_tms_seq]

theorem orderly_iff (prev : Option Move) (ms : List Move) :
    Orderly prev ms ↔ InTurn ((prev.map Move.leaves).getD TestLogicReset) ms := by
  induction ms generalizing prev with
  | nil => exact Iff.rfl
  | cons m ms ih =>
    rw [Orderly, InTurn, mayFollow_iff, ih]
    rfl

/-! ## The moves that a tick begins -/

/-- The moves that the message loop begins: those of the messages that are done, and the one that
the next message asks for. -/
inductive Begins (d : driver δ) (refuses : Nat → Bool) (junk : Nat → Byte) : Jtagd δ → List Move → Prop
  | empty {s : Jtagd δ} : s.messages = [] → Begins d refuses junk s []
  | last {s : Jtagd δ} {msg : Message} {rest : List Message} : s.messages = msg :: rest →
      (∀ t, handle_message d junk msg s ≠ .ok true t) → Begins d refuses junk s (asks refuses s msg)
  | next {s t : Jtagd δ} {o : Outcome} {rest : List Message} {ms : List Move} : s.messages = o.msg :: rest →
      handle_message d junk o.msg s = .ok true t → Gives d junk s o →
      Begins d refuses junk { t with messages := t.messages.tail } ms → Begins d refuses junk s (o.moves refuses ++ ms)

theorem asks_inTurn {refuses : Nat → Bool} {msg : Message} :
    InTurn s.jtag.state (asks refuses s msg) ↔ ∀ m ∈ asks refuses s msg, m.Supported s.jtag.state := by
  unfold asks
  split
  · simp [InTurn]
  · split
    · simp [InTurn]
    · split <;> simp [InTurn]

/-- What a message that is done asked for had a way. -/
theorem done_supported {refuses : Nat → Bool} {junk : Nat → Byte} {msg : Message} {t : Jtagd δ}
    (hrun : handle_message d junk msg s = .ok true t) : ∀ m ∈ asks refuses s msg, m.Supported s.jtag.state := by
  intro m hm
  by_contra hno
  exact (handle_message_stops hm hno).not_ok hrun

/-- The moves of a loop, in turn or not. -/
structure MovesOf (A : HandlerAdapter board d) (log : List Cycle) (p : JtagdProg δ Unit) (s : Jtagd δ) (ms : List Move) : Prop where
  inTurn : InTurn s.jtag.state ms →
    Guards p s .no_tms_seq fun _ t => t.jtag.state = after s.jtag.state ms ∧ Still A log t.jtag
  stops : ¬ InTurn s.jtag.state ms → Faults p s .no_tms_seq

variable {A : HandlerAdapter board d} {log : List Cycle}

theorem message_loop_moves (hd : Still A log s.jtag) {junk : Nat → Byte} {ms : List Move}
    (h : Begins d A.Refuses junk s ms) {fuel : Nat} (hfuel : s.messages.length ≤ fuel) :
    MovesOf A log (message_loop d junk fuel) s ms := by
  induction h generalizing fuel with
  | @empty s hmsgs =>
    refine ⟨fun _ => ?_, fun hno => absurd trivial hno⟩
    cases fuel with
    | zero => exact guards_pure ⟨rfl, hd⟩
    | succ fuel =>
      unfold message_loop
      refine Guards.get_bind ?_
      rw [hmsgs]
      exact guards_pure ⟨rfl, hd⟩
  | @last s msg rest hmsgs hnot =>
    obtain ⟨fuel, rfl⟩ : ∃ n, fuel = n + 1 := ⟨fuel - 1, by rw [hmsgs, List.length_cons] at hfuel; omega⟩
    unfold message_loop
    refine ⟨fun hturn => Guards.get_bind ?_, fun hno => ?_⟩
    · rw [hmsgs]
      have hrun := handle_message_moves hd junk msg (asks_inTurn.mp hturn)
      refine Guards.bind ⟨hrun.ensures.and fun _ _ h => h, hrun.avoids⟩ ?_
      rintro ok t ⟨hmoved, heq⟩
      cases ok with
      | true => exact absurd heq (hnot t)
      | false =>
        obtain ⟨rfl, hasks⟩ := hmoved.waits rfl
        refine guards_pure ⟨?_, hd⟩
        rw [hasks]
        rfl
    · rw [asks_inTurn] at hno
      obtain ⟨m, hm, hno⟩ : ∃ m ∈ asks A.Refuses s msg, ¬ m.Supported s.jtag.state := by
        simpa only [not_forall, exists_prop] using hno
      rw [Faults, bind_of_ok (get_apply s), hmsgs]
      exact Faults.bind (handle_message_stops hm hno)
  | @next s t o rest ms hmsgs hrun hgives htail ih =>
    obtain ⟨fuel, rfl⟩ : ∃ n, fuel = n + 1 := ⟨fuel - 1, by rw [hmsgs, List.length_cons] at hfuel; omega⟩
    have hmoved := (handle_message_moves hd junk o.msg (done_supported hrun)).ensures true t hrun
    obtain ⟨hturn, hstate⟩ := hmoved.done rfl o rfl hgives
    have hlen : ({ t with messages := t.messages.tail } : Jtagd δ).messages.length ≤ fuel := by
      show t.messages.tail.length ≤ fuel
      rw [hmoved.messages, hmsgs, List.tail_cons]
      rw [hmsgs, List.length_cons] at hfuel
      omega
    have hrest := ih hmoved.still hlen
    have hstate' : ({ t with messages := t.messages.tail } : Jtagd δ).jtag.state =
        after s.jtag.state (o.moves A.Refuses) := hstate
    have heq : message_loop d junk (fuel + 1) s =
        message_loop d junk fuel { t with messages := t.messages.tail } := by
      rw [message_loop, bind_of_ok (get_apply s), hmsgs]
      exact (bind_of_ok hrun).trans rfl
    refine ⟨fun hall => Guards.of_eq heq ?_, fun hno => ?_⟩
    · rw [inTurn_append, ← hstate'] at hall
      rw [after_append, ← hstate']
      exact hrest.inTurn hall.2
    · rw [Faults, heq]
      refine hrest.stops fun hms => hno ?_
      rw [inTurn_append, ← hstate']
      exact ⟨hturn, hms⟩

theorem handle_messages_moves (hd : Still A log s.jtag) {junk : Nat → Byte} {ms : List Move}
    (h : Begins d A.Refuses junk s ms) : MovesOf A log (handle_messages d junk) s ms := by
  have hloop := message_loop_moves hd h (Nat.le_refl _)
  unfold handle_messages
  refine ⟨fun hturn => Guards.get_bind (Guards.bind (hloop.inTurn hturn) fun _ t ht => ?_), fun hno => ?_⟩
  · refine Guards.get_bind (guards_ite (fun _ => ?_) fun _ => guards_pure ht)
    refine (do_send_only 0 t).mono fun _ u hu => ?_
    rw [hu.jtag]
    exact ht
  · rw [Faults, bind_of_ok (get_apply s)]
    exact Faults.bind (hloop.stops hno)

/-- The moves that a tick begins. -/
inductive TickBegins (d : driver δ) (refuses : Nat → Bool) (junk : Nat → Byte) (net : Net) (s : Jtagd δ) :
    List Move → Prop
  | idle : ¬ s.sock.client_fd ≥ 0 → TickBegins d refuses junk net s []
  | unread : s.sock.client_fd ≥ 0 →
      (∀ r, jtagd_sock (read_socket net.recv) { s with send_buffer_size := 2 } ≠ .ok true r) →
      TickBegins d refuses junk net s []
  | stuck {r : Jtagd δ} : s.sock.client_fd ≥ 0 →
      jtagd_sock (read_socket net.recv) { s with send_buffer_size := 2 } = .ok true r →
      (∀ q, packet_loop (BUFFER_SIZE + 1) r ≠ .ok () q) → TickBegins d refuses junk net s []
  | served {r q : Jtagd δ} {ms : List Move} : s.sock.client_fd ≥ 0 →
      jtagd_sock (read_socket net.recv) { s with send_buffer_size := 2 } = .ok true r →
      packet_loop (BUFFER_SIZE + 1) r = .ok () q → Begins d refuses junk q ms →
      TickBegins d refuses junk net s ms

theorem read_socket_guards (recv : Recv) (k : Sock) :
    Guards (read_socket recv) k .no_tms_seq fun _ _ => True := by
  unfold read_socket
  refine Guards.modify_bind (Guards.get_bind (guards_ite (fun _ => ?_) fun _ => guards_pure trivial))
  cases recv with
  | closed => exact Guards.set_bind (guards_pure trivial)
  | failed => exact guards_pure trivial
  | data first rest =>
    refine Guards.bind (memcpy_guards _ _ _ _) fun _ _ _ => ?_
    exact Guards.set_bind (guards_pure trivial)

theorem try_accept_guards (accept : Bool) (k : Sock) :
    Guards (try_accept accept) k .no_tms_seq fun _ _ => True := by
  unfold try_accept
  refine guards_ite (fun _ => ?_) fun _ => guards_pure trivial
  exact Guards.modify_bind (guards_pure trivial)

/-- What happens to the connection leaves the TAP alone. -/
theorem jtagd_sock_guards {α : Type} {p : EStateM Fault Sock α}
    (hp : Guards p s.sock .no_tms_seq fun _ _ => True) :
    Guards (jtagd_sock p) s .no_tms_seq fun a t => t.jtag = s.jtag ∧ jtagd_sock p s = .ok a t := by
  have hpart : Guards (jtagd_sock p) s .no_tms_seq fun _ s' => ∃ k, True ∧ s' = { s with sock := k } := hp.focus
  refine ⟨Ensures.and (hpart.ensures.mono ?_) fun _ _ hrun => hrun, hpart.avoids⟩
  rintro a _ ⟨k, -, rfl⟩
  rfl

theorem hello_only : SendOnly (hello : JtagdProg δ Unit) :=
  (add_string_only _).bind fun _ => (add_int_only _).bind fun _ => (add_int_only _).bind fun _ => do_send_only _

theorem tick_moves (hd : Still A log s.jtag) {junk : Nat → Byte} {net : Net} {ms : List Move}
    (h : TickBegins d A.Refuses junk net s ms) : MovesOf A log (jtag_jtagd_tick d junk net) s ms := by
  have hread := jtagd_sock_guards (s := { s with send_buffer_size := 2 }) (read_socket_guards net.recv s.sock)
  unfold jtag_jtagd_tick
  cases h with
  | idle hfd =>
    refine ⟨fun _ => Guards.modify_bind (Guards.get_bind ?_), fun hno => absurd trivial hno⟩
    refine guards_ite (fun h => absurd h hfd) fun _ => Guards.modify_bind ?_
    refine Guards.bind (jtagd_sock_guards (try_accept_guards _ _)) ?_
    rintro ok t ⟨ht, -⟩
    have hsame : t.jtag.state = after s.jtag.state [] ∧ Still A log t.jtag := by
      rw [ht]
      exact ⟨rfl, hd⟩
    refine guards_ite (fun _ => ?_) fun _ => guards_pure hsame
    refine (hello_only t).mono fun _ u hu => ?_
    rw [hu.jtag]
    exact hsame
  | unread hfd hnot =>
    refine ⟨fun _ => Guards.modify_bind (Guards.get_bind ?_), fun hno => absurd trivial hno⟩
    refine guards_ite (fun _ => ?_) fun h => absurd hfd h
    refine Guards.bind hread ?_
    rintro ok r ⟨hr, hrun⟩
    cases ok with
    | true => exact absurd hrun (hnot r)
    | false =>
      refine guards_pure ?_
      rw [hr]
      exact ⟨rfl, hd⟩
  | @stuck r hfd hrun hnot =>
    refine ⟨fun _ => Guards.modify_bind (Guards.get_bind ?_), fun hno => absurd trivial hno⟩
    refine guards_ite (fun _ => ?_) fun h => absurd hfd h
    refine Guards.bind hread ?_
    rintro ok r' ⟨-, hrun'⟩
    rw [hrun] at hrun'
    cases hrun'
    have hpackets := packet_loop_took (BUFFER_SIZE + 1) r
    refine Guards.bind ⟨fun _ q hq => hq, hpackets.avoids⟩ ?_
    intro _ q hq
    exact absurd hq (hnot q)
  | @served r q ms hfd hrun hpackets hbegins =>
    have hjtag : q.jtag = s.jtag := by
      obtain ⟨new, htook⟩ := (packet_loop_took _ r).ensures () q hpackets
      rw [htook.rest]
      exact (hread.ensures true r hrun).1
    have hstate : q.jtag.state = s.jtag.state := by rw [hjtag]
    rw [← hjtag] at hd
    have hmsgs := handle_messages_moves hd hbegins
    have heq : (do
        modify fun s => { s with send_buffer_size := 2 }
        let s ← get
        if s.sock.client_fd ≥ 0 then
          if ← jtagd_sock (read_socket net.recv) then
            packet_loop (BUFFER_SIZE + 1)
            handle_messages d junk
          else pure ()
        else
          modify fun s => { s with messages := [] }
          if ← jtagd_sock (try_accept net.accept) then hello else pure () : JtagdProg δ Unit) s =
        handle_messages d junk q := by
      rw [bind_of_ok (modify_apply _ s), bind_of_ok (get_apply _)]
      refine (congrFun (if_pos hfd) _).trans ?_
      rw [bind_of_ok hrun]
      exact bind_of_ok hpackets
    refine ⟨fun hturn => Guards.of_eq heq ?_, fun hno => ?_⟩
    · rw [← hstate] at hturn ⊢
      exact hmsgs.inTurn hturn
    · rw [← hstate] at hno
      rw [Faults, heq]
      exact hmsgs.stops hno

/-! ## Whole runs -/

/-- Ticks one after the other, with the moves that they begin, up to where the server is or to a fault. -/
inductive Session (d : driver δ) (refuses : Nat → Bool) :
    Jtagd δ → List Move → EStateM.Result Fault (Jtagd δ) Unit → Prop
  | nil (s : Jtagd δ) : Session d refuses s [] (.ok () s)
  | tick {s t : Jtagd δ} {junk : Nat → Byte} {net : Net} {ms ms' : List Move}
      {r : EStateM.Result Fault (Jtagd δ) Unit} : TickBegins d refuses junk net s ms →
      jtag_jtagd_tick d junk net s = .ok () t → Session d refuses t ms' r → Session d refuses s (ms ++ ms') r
  | stops {s t : Jtagd δ} {junk : Nat → Byte} {net : Net} {ms : List Move} {e : Fault} :
      TickBegins d refuses junk net s ms → jtag_jtagd_tick d junk net s = .error e t →
      Session d refuses s ms (.error e t)

/-- A run meets the assertion just if a move does not find a way. -/
theorem Session.inTurn_iff {ms : List Move} {r : EStateM.Result Fault (Jtagd δ) Unit}
    (h : Session d A.Refuses s ms r) (hd : Still A log s.jtag) :
    ((∃ t, r = .error .no_tms_seq t) ↔ ¬ InTurn s.jtag.state ms) ∧
      ∀ t, r = .ok () t → t.jtag.state = after s.jtag.state ms ∧ Still A log t.jtag := by
  induction h with
  | nil s =>
    refine ⟨⟨?_, fun hno => absurd trivial hno⟩, ?_⟩
    · rintro ⟨t, ⟨⟩⟩
    · rintro t ⟨⟩
      exact ⟨rfl, hd⟩
  | @tick s t junk net ms ms' r hbegins hrun _ ih =>
    have hmoves := tick_moves hd hbegins
    have hturn : InTurn s.jtag.state ms := by
      by_contra hno
      exact (hmoves.stops hno).not_ok hrun
    obtain ⟨hstate, hstill⟩ := (hmoves.inTurn hturn).ensures () t hrun
    rw [inTurn_append, after_append, ← hstate]
    simpa only [hturn, true_and] using ih hstill
  | @stops s t junk net ms e hbegins hrun =>
    have hmoves := tick_moves hd hbegins
    refine ⟨⟨?_, fun hno => ?_⟩, by simp⟩
    · rintro ⟨t', ⟨⟩⟩ hturn
      exact (hmoves.inTurn hturn).avoids _ hrun
    · obtain ⟨t', ht'⟩ := hmoves.stops hno
      rw [hrun] at ht'
      cases ht'
      exact ⟨t, rfl⟩

/-- In a run from TestLogicReset, the assertion is met just if a message comes out of order; as long
as it is not, the TAP is where the last message left it. A move that is made ends where it should. -/
theorem moves_supported_iff (A : HandlerAdapter board d) {ms : List Move} {r : EStateM.Result Fault (Jtagd δ) Unit}
    (h : Session d A.Refuses s ms r) (hstill : Still A log s.jtag) (hreset : s.jtag.state = TestLogicReset) :
    ((∀ t, r ≠ .error .no_tms_seq t) ↔ Orderly none ms) ∧
      (∀ t, r = .ok () t → t.jtag.state = after TestLogicReset ms ∧ Still A log t.jtag) ∧
      ∀ dst ok c c', Still A log c → jtag_tms_seq_to d dst c = .ok ok c' → c'.state = dst := by
  obtain ⟨hiff, hstate⟩ := h.inTurn_iff hstill
  rw [hreset] at hiff hstate
  refine ⟨?_, hstate, ?_⟩
  · have hstart : ((none : Option Move).map Move.leaves).getD TestLogicReset = TestLogicReset := rfl
    rw [orderly_iff, hstart, ← not_iff_not, ← hiff]
    simp
  · rintro dst ok c c' ⟨l, hstands, -⟩ hrun
    exact (move_spec A.toAdapter hstands dst ok c' hrun).1

/-- Each message loop begins some moves. -/
theorem begins_exists {refuses : Nat → Bool} {junk : Nat → Byte} {base : List Byte} {fs : List Frame} {cur : List Byte}
    (h : Buffered base fs cur s) : ∃ ms, Begins d refuses junk s ms := by
  induction hlen : s.messages.length using Nat.strongRecOn generalizing s fs cur with
  | _ n ih =>
    cases hmsgs : s.messages with
    | nil => exact ⟨[], .empty hmsgs⟩
    | cons msg rest =>
      by_cases hdone : ∃ t, handle_message d junk msg s = .ok true t
      · obtain ⟨t, hrun⟩ := hdone
        obtain ⟨o, rfl, hgives, hans⟩ := (handle_message_spec h msg true t hrun).2 rfl
        have hbuf : Buffered base (fs ++ (answer o).frames cur) ((answer o).waiting cur)
            { t with messages := t.messages.tail } := hans.buffered.of_eq rfl rfl rfl
        have hshort : ({ t with messages := t.messages.tail } : Jtagd δ).messages.length < n := by
          show t.messages.tail.length < n
          rw [hans.messages, hmsgs, ← hlen, hmsgs]
          exact Nat.lt_succ_self _
        obtain ⟨ms, hms⟩ := ih _ hshort hbuf rfl
        exact ⟨_, .next hmsgs hrun hgives hms⟩
      · exact ⟨_, .last hmsgs fun t ht => hdone ⟨t, ht⟩⟩

theorem tickBegins_exists {refuses : Nat → Bool} {junk : Nat → Byte} {net : Net} (halive : s.sock.alive = true)
    (hroom : s.send_buffer.length = BUFFER_SIZE) : ∃ ms, TickBegins d refuses junk net s ms := by
  by_cases hfd : s.sock.client_fd ≥ 0
  · by_cases hread : ∃ r, jtagd_sock (read_socket net.recv) { s with send_buffer_size := 2 } = .ok true r
    · obtain ⟨r, hread⟩ := hread
      by_cases hpackets : ∃ q, packet_loop (BUFFER_SIZE + 1) r = .ok () q
      · obtain ⟨q, hpackets⟩ := hpackets
        obtain ⟨hr, hralive, hrwritten, -⟩ := jtagd_read_spec net.recv _ true r hread
        obtain ⟨new, htook⟩ := (packet_loop_took _ r).ensures () q hpackets
        obtain ⟨ms, hms⟩ := begins_exists (tick_buffered halive hroom hr hralive hrwritten htook)
        exact ⟨ms, .served hfd hread hpackets hms⟩
      · exact ⟨[], .stuck hfd hread fun q hq => hpackets ⟨q, hq⟩⟩
    · exact ⟨[], .unread hfd fun r hr => hread ⟨r, hr⟩⟩
  · exact ⟨[], .idle hfd⟩

/-- An idle MPSSE chip, for the handlers. -/
def blinkHandlers : HandlerAdapter Mpsse.blinkBoard
    (mpsse_driver (mpsseUsb Mpsse.blinkBoard Mpsse.idleEngine) (100 + 0) 15) :=
  mpsseHandlers _ _ Mpsse.idleEngine 0 15 (mpsseUsb_delivers _ _)

/-- A client has come, and the driver is the one of the MPSSE chip. -/
def mpsseServing : Jtagd Mpsse :=
  let s := freshJtagd (benchMpsse TestLogicReset)
  { s with sock := { s.sock with client_fd := 4, alive := true } }

theorem mpsseServing_still : Still blinkHandlers [] mpsseServing.jtag :=
  ⟨⟨[], false, []⟩, benchMpsse_stands _ TestLogicReset, rfl, .refl _ []⟩

def blinkTick (net : Net) : EStateM.Result Fault (Jtagd Mpsse) Unit :=
  jtag_jtagd_tick (mpsse_driver (mpsseUsb Mpsse.blinkBoard Mpsse.idleEngine) (100 + 0) 15) (fun _ => 0) net mpsseServing

/-- The fault, if any, and where the TAP is. -/
def outcomeOf (r : EStateM.Result Fault (Jtagd Mpsse) Unit) : Option Fault × JtagState :=
  match r with
  | .ok _ t => (none, t.jtag.state)
  | .error e t => (some e, t.jtag.state)

/-- The packet of an ACCESS_IR_2 message with the instruction 3, and of a RUN_TEST_IDLE message. -/
def irThenIdle : Net :=
  ⟨deliver ([0x00, 0x17, 0xC6, 0x00, 0x00, 0x14] ++ List.replicate 15 0x00 ++ [0x03] ++ [0xCA, 0x00, 0x00, 0x04]), false⟩

theorem moves_supported_iff_idle : ∃ ms t, blinkTick irThenIdle = .ok () t ∧ t.jtag.state = RunTestIdle ∧
    ((∀ t', EStateM.Result.ok () t ≠ .error Fault.no_tms_seq t') ↔ Orderly none ms) ∧
      (∀ t', EStateM.Result.ok () t = (.ok () t' : EStateM.Result Fault (Jtagd Mpsse) Unit) →
        t'.jtag.state = after TestLogicReset ms ∧ Still blinkHandlers [] t'.jtag) ∧
      ∀ dst ok c c', Still blinkHandlers [] c →
        jtag_tms_seq_to (mpsse_driver (mpsseUsb Mpsse.blinkBoard Mpsse.idleEngine) (100 + 0) 15) dst c = .ok ok c' →
        c'.state = dst := by
  have hends : outcomeOf (blinkTick irThenIdle) = (none, RunTestIdle) := by decide +kernel
  obtain ⟨t, hrun, hstate⟩ : ∃ t, blinkTick irThenIdle = .ok () t ∧ t.jtag.state = RunTestIdle := by
    unfold outcomeOf at hends
    split at hends
    · rename_i t hrun
      exact ⟨t, hrun, congrArg Prod.snd hends⟩
    · cases hends
  obtain ⟨ms, hms⟩ : ∃ ms, TickBegins _ blinkHandlers.Refuses (fun _ => 0) irThenIdle mpsseServing ms :=
    tickBegins_exists rfl List.length_replicate
  have hsession : Session _ blinkHandlers.Refuses mpsseServing (ms ++ []) (.ok () t) := .tick hms hrun (.nil t)
  exact ⟨ms ++ [], t, hrun, hstate, moves_supported_iff blinkHandlers hsession mpsseServing_still rfl⟩

/-- The packet of one RUN_TEST_IDLE message. -/
def runTestIdle : Net := ⟨deliver [0x00, 0x03, 0xCA, 0x00, 0x00, 0x04], false⟩

/-- From TestLogicReset, there is no way to RunTestIdle. -/
theorem reset_to_idle_stops : mpsseServing.jtag.state = TestLogicReset ∧
    ∃ t, blinkTick runTestIdle = .error .no_tms_seq t := by
  have hfault : outcomeOf (blinkTick runTestIdle) = (some .no_tms_seq, TestLogicReset) := by decide +kernel
  refine ⟨rfl, ?_⟩
  unfold outcomeOf at hfault
  split at hfault
  · cases hfault
  · rename_i e t hrun
    obtain rfl : e = .no_tms_seq := Option.some.inj (congrArg Prod.fst hfault)
    exact ⟨t, hrun⟩

end JtagRemote.Jtagd
