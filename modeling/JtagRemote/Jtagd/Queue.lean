import JtagRemote.Jtagd.Full

/-!
# The queue over a connection

The handlers of the messages run in the order of arrival, each to its end once. The one
of an ACCESS_DR_2 that lacks data is tried again in each tick, and leaves no trace until then.
-/

namespace JtagRemote.Jtagd

open JtagState

variable {δ : Type} {d : driver δ} {c : Jtag δ} {s : Jtagd δ} {junk : Nat → Byte}

/-! ## One message -/

/-- The FIFO does not hold what the message asks for. -/
def Lacks (s : Jtagd δ) (msg : Message) : Prop :=
  msg.command = 0xC8 ∧ (s.fifos FIFO_MIN).length < intAt msg.body 20 / 8

/-- Only a message that lacks data waits, and changes nothing. -/
theorem handle_message_waits (msg : Message) (s : Jtagd δ) :
    Ensures (handle_message d junk msg) s fun ok t =>
      (ok = false → Lacks s msg ∧ t = s) ∧ (ok = true → ¬ Lacks s msg) := by
  by_cases hC8 : msg.command = 0xC8
  · rw [handle_ACCESS_DR_2 hC8]
    unfold ACCESS_DR_2
    refine Ensures.bind (body_int_spec _ _ s) ?_
    rintro _ _ ⟨rfl, rfl⟩
    refine Ensures.bind (body_int_spec _ _ _) ?_
    rintro _ _ ⟨rfl, rfl⟩
    refine Ensures.bind (body_int_spec _ _ _) ?_
    rintro _ s ⟨rfl, rfl⟩
    by_cases henough : intAt msg.body 20 / 8 ≤ (s.fifos FIFO_MIN).length
    · have hnot : ¬ Lacks s msg := fun h => absurd h.2 (by omega)
      have hpop : Ensures (pop_fifo (List.replicate BUFFER_SIZE 0) (intAt msg.body 20 / 8)) s fun r _ => r.1 = true := by
        unfold pop_fifo
        refine Ensures.get_bind (ensures_ite (fun _ => ?_) fun hno => absurd henough hno)
        refine Ensures.any_bind fun _ _ => Ensures.any_bind fun _ _ => ?_
        exact Ensures.set_bind (ensures_pure rfl)
      refine Ensures.bind hpop ?_
      rintro ⟨ok, send⟩ t rfl
      refine ensures_ite (fun _ => ?_) fun hno => absurd rfl hno
      refine Ensures.any_bind fun _ _ => Ensures.any_bind fun _ _ => ?_
      refine Ensures.any_bind fun _ _ => Ensures.any_bind fun _ _ => ?_
      refine ensures_ite (fun _ => ?_) fun _ => ensures_pure ⟨by simp, fun _ => hnot⟩
      refine Ensures.any_bind fun _ _ => Ensures.any_bind fun _ _ => ?_
      exact ensures_pure ⟨by simp, fun _ => hnot⟩
    · refine Ensures.of_eq_bind (pop_fifo_fails _ henough) (ensures_pure ⟨fun _ => ⟨⟨hC8, by omega⟩, rfl⟩, by simp⟩)
  · have hdone : ∀ p : JtagdProg δ Unit, Ensures (do p; pure true) s fun ok t =>
        (ok = false → Lacks s msg ∧ t = s) ∧ (ok = true → ¬ Lacks s msg) := fun p =>
      Ensures.any_bind fun _ _ => ensures_pure ⟨by simp, fun _ h => hC8 h.1⟩
    unfold handle_message
    iterate 13 refine ensures_ite (fun _ => hdone _) fun _ => ?_
    refine ensures_ite (fun h => absurd h hC8) fun _ => ?_
    iterate 2 refine ensures_ite (fun _ => hdone _) fun _ => ?_
    exact hdone _

theorem lacks_returns {msg : Message} (h : Lacks s msg) (hlen : 32 ≤ msg.body.length) :
    handle_message d junk msg s = .ok false s := by
  have hint : ∀ off, off + 4 ≤ 32 → (body_int msg.body off : JtagdProg δ Nat) s = .ok (intAt msg.body off) s := by
    intro off hoff
    unfold body_int
    rw [bind_of_ok (bytes_at_ok (by omega) s)]
    rfl
  have hfew : ¬ intAt msg.body 20 / 8 ≤ (s.fifos FIFO_MIN).length := by
    have := h.2
    omega
  rw [handle_ACCESS_DR_2 h.1]
  unfold ACCESS_DR_2
  rw [bind_of_ok (hint 12 (by omega)), bind_of_ok (hint 20 (by omega)), bind_of_ok (hint 28 (by omega)),
    bind_of_ok (pop_fifo_fails _ hfew)]
  rfl

/-! ## The loop -/

/-- The handlers of these messages run one after the other, each to its end. -/
inductive Runs (d : driver δ) (junk : Nat → Byte) : Jtagd δ → List Message → Jtagd δ → Prop
  | nil (s : Jtagd δ) : Runs d junk s [] s
  | next {s t u : Jtagd δ} {msg : Message} {rest ms : List Message} : s.messages = msg :: rest →
      handle_message d junk msg s = .ok true t → Runs d junk { t with messages := rest } ms u →
      Runs d junk s (msg :: ms) u

/-- No message is left, or the next one has to wait. -/
def Rests (s : Jtagd δ) : Prop := ∀ msg rest, s.messages = msg :: rest → Lacks s msg

theorem Runs.messages {q u : Jtagd δ} {ms : List Message} (h : Runs d junk q ms u) : q.messages = ms ++ u.messages := by
  induction h with
  | nil s => rfl
  | next hmsgs _ _ ih =>
    rw [hmsgs, List.cons_append, ← ih]

/-- The loop goes where the handlers go. -/
theorem message_loop_runs {q u : Jtagd δ} {ms : List Message} (h : Runs d junk q ms u) (fuel : Nat) :
    message_loop d junk (ms.length + fuel) q = message_loop d junk fuel u := by
  induction h with
  | nil s => rw [List.length_nil, Nat.zero_add]
  | @next s t u msg rest ms hmsgs hrun _ ih =>
    have hsame : t.messages.tail = rest := by
      rw [messages_of_windowOf (handle_message_aside d junk msg s true t hrun), hmsgs]
      rfl
    rw [← ih, List.length_cons, Nat.add_right_comm, message_loop, bind_of_ok (get_apply s), hmsgs]
    refine (bind_of_ok hrun).trans ?_
    rw [← hsame]
    rfl

theorem message_loop_rests {fuel : Nat} (hfuel : s.messages.length ≤ fuel) :
    Ensures (message_loop d junk fuel) s fun _ u => ∃ ms, Runs d junk s ms u ∧ Rests u := by
  induction fuel generalizing s with
  | zero =>
    have hnone : s.messages = [] := List.eq_nil_of_length_eq_zero (Nat.le_zero.mp hfuel)
    refine ensures_pure ⟨[], .nil s, ?_⟩
    intro msg rest hmsgs
    rw [hnone] at hmsgs
    cases hmsgs
  | succ fuel ih =>
    unfold message_loop
    refine Ensures.get_bind ?_
    cases hmsgs : s.messages with
    | nil =>
      refine ensures_pure ⟨[], .nil s, ?_⟩
      intro msg rest hcons
      rw [hmsgs] at hcons
      cases hcons
    | cons msg rest =>
      have hrun : Ensures (handle_message d junk msg) s fun ok t => handle_message d junk msg s = .ok ok t :=
        fun _ _ hrun => hrun
      refine Ensures.bind hrun ?_
      intro ok t hrun
      obtain ⟨hwaits, -⟩ := handle_message_waits msg s ok t hrun
      cases ok with
      | false =>
        obtain ⟨hlacks, rfl⟩ := hwaits rfl
        refine ensures_pure ⟨[], .nil t, ?_⟩
        intro msg' rest' hcons
        rw [hmsgs] at hcons
        cases hcons
        exact hlacks
      | true =>
        have htail : t.messages.tail = rest := by
          rw [messages_of_windowOf (handle_message_aside d junk msg s true t hrun), hmsgs]
          rfl
        refine Ensures.modify_bind ?_
        rw [htail]
        have hlen : rest.length ≤ fuel := by
          rw [hmsgs, List.length_cons] at hfuel
          omega
        refine (ih (s := { t with messages := rest }) hlen).mono ?_
        rintro _ u ⟨ms, hruns, hrests⟩
        exact ⟨msg :: ms, .next hmsgs hrun hruns, hrests⟩

/-- The messages that are done have outcomes, and what is sent are the frames of these. -/
theorem Runs.outcomes {q u : Jtagd δ} {ms : List Message} (h : Runs d junk q ms u) {base : List Byte}
    {fs : List Frame} {cur : List Byte} (hbuf : Buffered base fs cur q) :
    ∃ outs fs' cur', outs.map Outcome.msg = ms ∧ (∀ o ∈ outs, ∃ v, Gives d junk v o) ∧
      Buffered base fs' cur' u ∧ fs' ++ framesOf cur' [] = fs ++ framesOf cur outs := by
  induction h generalizing fs cur with
  | nil s => exact ⟨[], fs, cur, rfl, by simp, hbuf, rfl⟩
  | @next s t u msg rest ms hmsgs hrun _ ih =>
    obtain ⟨-, hdone⟩ := handle_message_spec hbuf msg true t hrun
    obtain ⟨o, rfl, hgives, hans⟩ := hdone rfl
    have hbuf' : Buffered base (fs ++ (answer o).frames cur) ((answer o).waiting cur) { t with messages := rest } :=
      hans.buffered.of_eq rfl rfl rfl
    obtain ⟨outs, fs', cur', hmap, houts, hlast, heq⟩ := ih hbuf'
    refine ⟨o :: outs, fs', cur', by rw [List.map_cons, hmap], ?_, hlast, ?_⟩
    · intro o' ho'
      rcases List.mem_cons.mp ho' with rfl | ho'
      · exact ⟨s, hgives⟩
      · exact houts o' ho'
    · rw [heq, framesOf, List.append_assoc]

/-- The last frame of the loop. -/
theorem last_send_only : SendOnly (do
    let s ← get
    if s.send_buffer_size.toNat > 2 then do_send 0 else pure () : JtagdProg δ Unit) :=
  sendOnly_get fun s => guards_ite (fun _ => do_send_only 0 s) fun _ => guards_pure (.refl s)

theorem handle_messages_rests (q : Jtagd δ) : Ensures (handle_messages d junk) q fun _ t =>
    ∃ ms u, Runs d junk q ms u ∧ Rests u ∧ SendSame u t := by
  unfold handle_messages
  refine Ensures.get_bind (Ensures.bind (message_loop_rests (Nat.le_refl _)) ?_)
  rintro _ u ⟨ms, hruns, hrests⟩
  exact (last_send_only u).ensures.mono fun _ t ht => ⟨ms, u, hruns, hrests, ht⟩

/-! ## One tick -/

/-- What every reachable state of the server has. -/
structure Ready (s : Jtagd δ) : Prop where
  sock : s.sock.Ok
  room : s.send_buffer.length = BUFFER_SIZE
  alive : s.sock.client_fd ≥ 0 → s.sock.alive = true
  closed : s.last_response = -1
  idle : ¬ s.sock.client_fd ≥ 0 → s.sock.buffer_begin = 0 ∧ s.sock.buffer_end = 0

/-- A tick gets a read through, and its packets queue `new`. -/
structure Queues (i : Input) (s q : Jtagd δ) (new : List Message) : Prop where
  connected : s.sock.client_fd ≥ 0
  packets : ∃ r, jtagd_sock (read_socket i.net.recv) { s with send_buffer_size := 2 } = .ok true r ∧
    packet_loop (BUFFER_SIZE + 1) r = .ok () q
  messages : q.messages = s.messages ++ new

theorem Queues.step {i : Input} {q : Jtagd δ} {new : List Message} (h : Queues i s q new) :
    step d i s = handle_messages d i.junk q := by
  obtain ⟨r, hread, hloop⟩ := h.packets
  rw [Jtagd.step, tick_connected h.connected]
  exact (bind_of_ok hread).trans (bind_of_ok hloop)

theorem Queues.buffered {i : Input} {q : Jtagd δ} {new : List Message} (h : Queues i s q new) (hs : Ready s) :
    Buffered s.sock.written [] [] q := by
  obtain ⟨r, hread, hloop⟩ := h.packets
  obtain ⟨hr, halive, hwritten, -⟩ := jtagd_read_spec i.net.recv { s with send_buffer_size := 2 } true r hread
  obtain ⟨new', htook⟩ := (packet_loop_took _ r).ensures () q hloop
  exact tick_buffered (hs.alive h.connected) hs.room hr halive hwritten htook

theorem read_socket_hangs_up (recv : Recv) (k : Sock) : Ensures (read_socket recv) k fun ok k' =>
    ok = false → k'.client_fd = -1 ∧ k'.buffer_begin = 0 ∧ k'.buffer_end = 0 := by
  unfold read_socket
  refine Ensures.modify_bind (Ensures.get_bind ?_)
  refine ensures_ite (fun _ => ?_) fun _ => ensures_pure (by simp)
  cases recv with
  | closed => exact Ensures.set_bind (ensures_pure fun _ => ⟨rfl, rfl, rfl⟩)
  | failed => exact ensures_pure (by simp)
  | data first rest =>
    refine Ensures.any_bind fun _ _ => ?_
    exact Ensures.set_bind (ensures_pure (by simp))

/-- As long as the client stays, each tick that returns is such a tick. -/
theorem step_queues {i : Input} {t : Jtagd δ} (hfd : s.sock.client_fd ≥ 0) (hrun : step d i s = .ok () t)
    (hfd' : t.sock.client_fd ≥ 0) : ∃ q new, Queues i s q new ∧ handle_messages d i.junk q = .ok () t := by
  rw [step, tick_connected hfd] at hrun
  obtain ⟨ok, r, hread, hrest⟩ := bind_eq_ok.mp hrun
  obtain ⟨hr, -, -, -⟩ := jtagd_read_spec i.net.recv _ ok r hread
  cases ok with
  | false =>
    obtain rfl : r = t := by
      cases hrest
      rfl
    obtain ⟨k, hclosed, rfl⟩ := jtagd_sock_spec (read_socket_hangs_up i.net.recv _) false r hread
    have hgone : k.client_fd = -1 := (hclosed rfl).1
    rw [hgone] at hfd'
    exact absurd hfd' (by decide)
  | true =>
    obtain ⟨_, q, hloop, hmessages⟩ := bind_eq_ok.mp hrest
    obtain ⟨new, htook⟩ := (packet_loop_took _ r).ensures () q hloop
    refine ⟨q, new, ⟨hfd, ⟨r, hread, hloop⟩, ?_⟩, hmessages⟩
    rw [htook.messages, hr]

/-- The buffer as it is for a new client. -/
theorem accepted_buffered {k : Sock} (hs : s.send_buffer.length = BUFFER_SIZE) (hk : k.alive = true) :
    Buffered k.written [] [] { s with send_buffer_size := 2, messages := [], sock := k } :=
  tick_buffered (s := { s with messages := [], sock := k })
    (r := { s with send_buffer_size := 2, messages := [], sock := k }) hk hs rfl rfl rfl (.refl _)

theorem hello_spec {base : List Byte} (h : Buffered base [] [] s) : Ensures hello s fun _ t =>
    (∃ fs cur, Buffered base fs cur t) ∧ t.last_response = s.last_response := by
  unfold hello
  refine Ensures.bind (add_string_appends SIGNATURE base [] [] s h) ?_
  rintro _ t₁ ⟨h₁, hquiet₁⟩
  refine Ensures.bind (add_int_appends 13 base [] _ t₁ h₁) ?_
  rintro _ t₂ ⟨h₂, hquiet₂⟩
  refine Ensures.bind (add_int_appends 0 base [] _ t₂ h₂) ?_
  rintro _ t₃ ⟨h₃, hquiet₃⟩
  refine (do_send_spec h₃ 0).mono ?_
  rintro _ t ⟨ht, hlast, -⟩
  exact ⟨⟨_, _, ht⟩, hlast.trans ((hquiet₁.trans hquiet₂).trans hquiet₃).last_response⟩

theorem connected_ready (i : Input) (hs : Ready s) (hfd : s.sock.client_fd ≥ 0) :
    Ensures (step d i) s fun _ t => Ready t := by
  have hok := step_ok d i hs.sock
  have hread : Ensures (read_socket i.net.recv) s.sock fun ok k =>
      (ok = false → k.client_fd = -1 ∧ k.buffer_begin = 0 ∧ k.buffer_end = 0) ∧
      (ok = true → k.client_fd = s.sock.client_fd) := by
    refine ((read_socket_hangs_up i.net.recv _).and (hs.sock.read_socket_ok i.net.recv).ensures).mono ?_
    rintro ok k ⟨hfalse, -, -, -, htrue, -⟩
    exact ⟨hfalse, fun h => (htrue h).1⟩
  suffices hrest : Ensures (step d i) s fun _ t => t.send_buffer.length = BUFFER_SIZE ∧ t.sock.alive = true ∧
      t.last_response = -1 ∧ (¬ t.sock.client_fd ≥ 0 → t.sock.buffer_begin = 0 ∧ t.sock.buffer_end = 0) by
    refine (hok.and hrest).mono ?_
    rintro _ t ⟨hsock, hroom, halive, hclosed, hidle⟩
    exact ⟨hsock, hroom, fun _ => halive, hclosed, hidle⟩
  rw [step, Ensures, tick_connected hfd]
  refine Ensures.bind ((jtagd_read_spec i.net.recv _).and (jtagd_sock_spec (s := { s with send_buffer_size := 2 })
    hread)) ?_
  rintro ok r ⟨⟨hr, halive, hwritten, -⟩, k, ⟨hgone, hstays⟩, hk⟩
  cases ok with
  | false =>
    refine ensures_pure ⟨?_, ?_, ?_, fun _ => ?_⟩
    · rw [hr]
      exact hs.room
    · rw [halive]
      exact hs.alive hfd
    · rw [hr]
      exact hs.closed
    · rw [hk]
      exact (hgone rfl).2
  | true =>
    refine Ensures.bind (packet_loop_took _ r).ensures ?_
    rintro _ q ⟨new, htook⟩
    have hbuf := tick_buffered (hs.alive hfd) hs.room hr halive hwritten htook
    have hclosed : q.last_response = -1 := by
      rw [htook.rest, hr]
      exact hs.closed
    have hconnected : q.sock.client_fd ≥ 0 := by
      rw [htook.rest, hk]
      show k.client_fd ≥ 0
      rw [hstays rfl]
      exact hfd
    refine Ensures.mono (Ensures.and (P := fun _ t => t.send_buffer.length = BUFFER_SIZE ∧ t.sock.alive = true ∧
      t.last_response = -1) ?_ (handle_messages_sock d i.junk q)) ?_
    · unfold handle_messages
      refine Ensures.get_bind (Ensures.bind (message_loop_spec hbuf (Nat.le_refl _)) ?_)
      rintro _ u ⟨hlast, outs, fs', cur', -, hbuf', -⟩
      refine (last_send_spec hbuf').mono ?_
      rintro _ t ⟨⟨fs, cur, hsent⟩, hsame, -, -⟩
      exact ⟨hsent.room, hsent.alive, hsame.trans (hlast hclosed)⟩
    · rintro _ t ⟨⟨hroom, halive', hlast⟩, hsock⟩
      refine ⟨hroom, halive', hlast, fun hnot => absurd ?_ hnot⟩
      rw [hsock]
      exact hconnected

theorem alone_ready (i : Input) (hs : Ready s) (hfd : ¬ s.sock.client_fd ≥ 0) :
    Ensures (step d i) s fun _ t => Ready t := by
  have haccept : Ensures (try_accept i.net.accept) s.sock fun ok k =>
      (ok = true → k.alive = true ∧ k.client_fd = 4 ∧ k.Ok) ∧ (ok = false → k = s.sock) := by
    unfold try_accept
    refine ensures_ite (fun _ => Ensures.modify_bind (ensures_pure ⟨fun _ => ?_, by simp⟩)) fun _ =>
      ensures_pure ⟨by simp, fun _ => rfl⟩
    exact ⟨rfl, rfl, hs.sock.size, hs.sock.order, hs.sock.bound⟩
  rw [step, Ensures, tick_alone hfd]
  refine Ensures.bind (jtagd_sock_spec haccept) ?_
  rintro ok _ ⟨k, ⟨htrue, hfalse⟩, rfl⟩
  cases ok with
  | false =>
    obtain rfl := hfalse rfl
    exact ensures_pure ⟨hs.sock, hs.room, fun h => absurd h hfd, hs.closed, hs.idle⟩
  | true =>
    obtain ⟨halive, hclient, hk⟩ := htrue rfl
    refine Ensures.mono (Ensures.and (hello_spec (accepted_buffered hs.room halive)) (hello_only.aside _)) ?_
    rintro _ t ⟨⟨⟨fs, cur, hbuf⟩, hlast⟩, haside⟩
    have hsock := sock_of_windowOf haside
    refine ⟨hk.of_written hsock, hbuf.room, fun _ => hbuf.alive, hlast.trans hs.closed, fun hnot => absurd ?_ hnot⟩
    rw [hsock]
    show k.client_fd ≥ 0
    rw [hclient]
    decide

theorem step_ready (i : Input) (hs : Ready s) : Ensures (step d i) s fun _ t => Ready t := by
  by_cases hfd : s.sock.client_fd ≥ 0
  · exact connected_ready i hs hfd
  · exact alone_ready i hs hfd

theorem reaches_ready (h : Reaches (step d) (bootJtagd c) s) : Ready s := by
  refine h.invariant ⟨bootSock_ok, List.length_replicate, fun hfd => absurd hfd ?_, rfl, fun _ => ⟨rfl, rfl⟩⟩
    fun i t ht => step_ready i ht
  exact Int.not_le.mpr (by decide : (-1 : Int) < 0)

/-! ## One connection -/

/-- A client has just been let in. -/
def Opened (d : driver δ) (c : Jtag δ) (s₀ : Jtagd δ) : Prop :=
  ∃ s i, Reaches (step d) (bootJtagd c) s ∧ ¬ s.sock.client_fd ≥ 0 ∧ step d i s = .ok () s₀ ∧
    s₀.sock.client_fd ≥ 0

/-- Ticks during which the client stays. -/
inductive Stays (d : driver δ) (s₀ : Jtagd δ) : Jtagd δ → Prop
  | start : Stays d s₀ s₀
  | tick {s t : Jtagd δ} {i : Input} : Stays d s₀ s → step d i s = .ok () t → t.sock.client_fd ≥ 0 → Stays d s₀ t

/-- The history of a connection: the messages that were queued, and those whose handlers ran to the end. -/
inductive History (d : driver δ) (s₀ : Jtagd δ) : List Message → List Message → Jtagd δ → Prop
  | start : History d s₀ [] [] s₀
  | tick {arrived ran new ms : List Message} {i : Input} {s q u t : Jtagd δ} : History d s₀ arrived ran s →
      Queues i s q new → Runs d i.junk q ms u → Rests u → step d i s = .ok () t → SendSame u t →
      History d s₀ (arrived ++ new) (ran ++ ms) t

theorem Opened.empty {s₀ : Jtagd δ} (h : Opened d c s₀) : Ready s₀ ∧ s₀.messages = [] := by
  obtain ⟨s, i, hreach, halone, hrun, -⟩ := h
  have hready := reaches_ready hreach
  refine ⟨step_ready i hready () s₀ hrun, ?_⟩
  have hempty : Ensures (step d i) s fun _ t => t.messages = [] := by
    rw [step, Ensures, tick_alone halone]
    refine Ensures.bind (jtagd_sock_spec (P := fun _ _ => True) fun _ _ _ => trivial) ?_
    rintro ok _ ⟨k, -, rfl⟩
    refine ensures_ite (fun _ => ?_) fun _ => ensures_pure rfl
    exact (hello_only.aside _).mono fun _ u hu => messages_of_windowOf hu
  exact hempty () s₀ hrun

theorem Stays.ready {s₀ : Jtagd δ} (h : Stays d s₀ s) (h0 : Ready s₀) (hfd : s₀.sock.client_fd ≥ 0) :
    Ready s ∧ s.sock.client_fd ≥ 0 := by
  induction h with
  | start => exact ⟨h0, hfd⟩
  | tick _ hrun hstays ih => exact ⟨step_ready _ ih.1 () _ hrun, hstays⟩

theorem Stays.history {s₀ : Jtagd δ} (h : Stays d s₀ s) (h0 : Ready s₀) (hfd : s₀.sock.client_fd ≥ 0) :
    ∃ arrived ran, History d s₀ arrived ran s := by
  induction h with
  | start => exact ⟨[], [], .start⟩
  | tick hbefore hrun hstays ih =>
    obtain ⟨arrived, ran, hhist⟩ := ih
    obtain ⟨q, new, hqueues, hmessages⟩ := step_queues (hbefore.ready h0 hfd).2 hrun hstays
    obtain ⟨ms, u, hruns, hrests, hsame⟩ := handle_messages_rests q () _ hmessages
    exact ⟨_, _, .tick hhist hqueues hruns hrests hrun hsame⟩

/-- Nothing is lost and nothing is done twice. -/
theorem History.in_order {s₀ : Jtagd δ} {arrived ran : List Message} (h : History d s₀ arrived ran s)
    (h0 : s₀.messages = []) : arrived = ran ++ s.messages := by
  induction h with
  | start => rw [h0]; rfl
  | tick _ hqueues hruns _ _ hsame ih =>
    have hq := hruns.messages
    rw [hqueues.messages, ← hsame.messages] at hq
    rw [ih, List.append_assoc, hq, List.append_assoc]

/-! ## A message that waits -/

/-- When the handlers got to a message that lacks data, the tick ends there. -/
theorem deferred_atomic {i : Input} {q u : Jtagd δ} {new ms rest : List Message} {msg : Message} (hs : Ready s)
    (hqueues : Queues i s q new) (hruns : Runs d i.junk q ms u) (hmsgs : u.messages = msg :: rest)
    (hlacks : Lacks u msg) (hbody : 32 ≤ msg.body.length) :
    ∃ t outs, step d i s = .ok () t ∧ SendSame u t ∧ outs.map Outcome.msg = ms ∧
      (∀ o ∈ outs, ∃ v, Gives d i.junk v o) ∧ ((∀ f ∈ framesOf [] outs, f.body.length < 254) →
        t.sock.written = s.sock.written ++ (framesOf [] outs).flatMap Frame.bytes) := by
  obtain ⟨outs, fs', cur', hmap, hgives, hbuf, heq⟩ := hruns.outcomes (hqueues.buffered hs)
  rw [List.nil_append] at heq
  have hwaits : ∀ fuel, message_loop d i.junk fuel u = .ok () u := by
    intro fuel
    cases fuel with
    | zero => rfl
    | succ fuel =>
      rw [message_loop, bind_of_ok (get_apply u), hmsgs]
      exact bind_of_ok (lacks_returns hlacks hbody)
  have hloop : message_loop d i.junk q.messages.length q = .ok () u := by
    rw [hruns.messages, List.length_append, message_loop_runs hruns, hwaits]
  have hreturns : Returns (do
      let s ← get
      if s.send_buffer_size.toNat > 2 then do_send 0 else pure () : JtagdProg δ Unit) u fun _ _ => True := by
    refine Returns.get_bind ?_
    split
    · obtain ⟨_, t, hrun, -⟩ := do_send_adds 0 u hbuf.room
      exact ⟨_, t, hrun, trivial⟩
    · exact returns_pure trivial
  obtain ⟨_, t, hsend, -⟩ := hreturns
  have hstep : step d i s = .ok () t := by
    rw [hqueues.step]
    unfold handle_messages
    rw [bind_of_ok (get_apply q), bind_of_ok hloop]
    exact hsend
  obtain ⟨-, -, -, hwrote⟩ := last_send_spec hbuf () t hsend
  rw [heq] at hwrote
  refine ⟨t, outs, hstep, (last_send_only u).ensures () t hsend, hmap, hgives, fun hshort => ?_⟩
  obtain ⟨sent, hwritten, -, hexact⟩ := hwrote.grows
  rw [hwritten, hexact fun f hf => Nat.le_of_lt_succ (hshort f hf)]

/-- Over every run of a connection: the handlers run in the order of arrival, each once, and a message
that lacks data leaves all as it was but for the responses of the messages before it. -/
theorem messages_run_once {s₀ : Jtagd δ} (hopened : Opened d c s₀) (hstays : Stays d s₀ s) :
    (∃ arrived ran, History d s₀ arrived ran s ∧ arrived = ran ++ s.messages) ∧
    ∀ i q u new ms msg rest, Queues i s q new → Runs d i.junk q ms u → u.messages = msg :: rest → Lacks u msg →
      32 ≤ msg.body.length → ∃ t outs, step d i s = .ok () t ∧
        t.messages = msg :: rest ∧ t.fifos = u.fifos ∧ t.jtag = u.jtag ∧
        outs.map Outcome.msg = ms ∧ (∀ o ∈ outs, ∃ v, Gives d i.junk v o) ∧
        ((∀ f ∈ framesOf [] outs, f.body.length < 254) →
          t.sock.written = s.sock.written ++ (framesOf [] outs).flatMap Frame.bytes) := by
  obtain ⟨hready, hempty⟩ := hopened.empty
  obtain ⟨_, _, -, -, -, hfd⟩ := hopened
  refine ⟨?_, ?_⟩
  · obtain ⟨arrived, ran, hhist⟩ := hstays.history hready hfd
    exact ⟨arrived, ran, hhist, hhist.in_order hempty⟩
  · intro i q u new ms msg rest hqueues hruns hmsgs hlacks hbody
    obtain ⟨t, outs, hstep, hsame, hmap, hgives, hwritten⟩ :=
      deferred_atomic (hstays.ready hready hfd).1 hqueues hruns hmsgs hlacks hbody
    refine ⟨t, outs, hstep, ?_, hsame.fifos, hsame.jtag, hmap, hgives, hwritten⟩
    rw [hsame.messages, hmsgs]

def stateOf (r : EStateM.Result Fault (Jtagd Unit) Unit) : Jtagd Unit :=
  match r with
  | .ok _ t => t
  | .error _ t => t

theorem returns_stateOf {r : EStateM.Result Fault (Jtagd Unit) Unit} (h : (writtenBy r).isSome = true) :
    r = .ok () (stateOf r) := by
  cases r with
  | ok _ t => rfl
  | error e t => cases h

/-- The state after the hello. -/
def helloJtagd : Jtagd Unit :=
  stateOf (step lowDriver ⟨fun _ => 0, ⟨.failed, true⟩⟩ (bootJtagd ⟨TestLogicReset, 0, ()⟩))

/-- ACCESS_DR_2 with 8 bits to write. -/
def drBody : List Byte := List.replicate 23 0 ++ [8] ++ List.replicate 8 0

/-- A packet with LOCK_CHAIN and ACCESS_DR_2, and nothing for the FIFO. -/
def lockAndDr : Input :=
  ⟨fun _ => 0, ⟨deliver ([0x00, 0x27, 0xA2, 0x00, 0x00, 0x04, 0xC8, 0x00, 0x00, 0x24] ++ drBody), false⟩⟩

theorem messages_run_once_lock : ∃ s, step lowDriver lockAndDr helloJtagd = .ok () s ∧
    s.messages = [⟨0xC8, drBody⟩] ∧ s.sock.written = helloJtagd.sock.written ++ [0x00, 0x03, 0x00, 0x00, 0x00, 0x04] ∧
    ∃ arrived ran, History lowDriver helloJtagd arrived ran s ∧ arrived = ran ++ s.messages := by
  have halone : ¬ (bootJtagd (⟨TestLogicReset, 0, ()⟩ : Jtag Unit)).sock.client_fd ≥ 0 := by decide
  have hhello := returns_stateOf (r := step lowDriver ⟨fun _ => 0, ⟨.failed, true⟩⟩
    (bootJtagd ⟨TestLogicReset, 0, ()⟩)) (by decide +kernel)
  have hfd : helloJtagd.sock.client_fd ≥ 0 := by decide +kernel
  have hopened : Opened lowDriver ⟨TestLogicReset, 0, ()⟩ helloJtagd := ⟨_, _, .refl _, halone, hhello, hfd⟩
  have hrun := returns_stateOf (r := step lowDriver lockAndDr helloJtagd) (by decide +kernel)
  have hfd' : (stateOf (step lowDriver lockAndDr helloJtagd)).sock.client_fd ≥ 0 := by decide +kernel
  refine ⟨_, hrun, by decide +kernel, by decide +kernel, ?_⟩
  exact (messages_run_once hopened (.tick .start hrun hfd')).1

end JtagRemote.Jtagd
