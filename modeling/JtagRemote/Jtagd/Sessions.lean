import JtagRemote.Blaster.Places
import JtagRemote.Drivers
import JtagRemote.Jtagd.Isolation
import JtagRemote.Mpsse.Places
import JtagRemote.Mpsse.Runs

/-!
# Whole sessions

Over all ticks of a client that asks for the chain first, two servers with different pasts
are in step. What must be the same is the FIFO, and the client must not be shown bytes of others.
-/

namespace JtagRemote.Jtagd

open JtagState

variable {δ : Type} {b : Base δ} {own : Nat} {known : Prop} {d : driver δ} {s s' : Jtagd δ}

/-! ## What the client does -/

/-- The server when the handlers of a tick start. -/
def parsed (i : Input) (s : Jtagd δ) : Option (Jtagd δ) :=
  if s.sock.client_fd ≥ 0 then
    match jtagd_sock (read_socket i.net.recv) { s with send_buffer_size := 2 } with
    | .ok true r =>
      match packet_loop (BUFFER_SIZE + 1) r with
      | .ok _ q => some q
      | .error _ _ => none
    | _ => none
  else none

/-- The queue then. -/
def queued (i : Input) (s : Jtagd δ) : List Message := ((parsed i s).map Jtagd.messages).getD []

/-- Whether the FIFO is empty then. -/
def starved (i : Input) (s : Jtagd δ) : Bool := ((parsed i s).map fun q => (q.fifos FIFO_MIN).isEmpty).getD true

/-- The first message that gets queued is READ_CHAIN. -/
def reads_chain (d : driver δ) : Jtagd δ → List Input → Bool
  | _, [] => true
  | s, i :: is =>
    match queued i s with
    | msg :: _ => decide (msg.command = 0xA5)
    | [] =>
      match step d i s with
      | .ok _ t => reads_chain d t is
      | .error _ _ => true

/-- The window, and the messages that are parsed from it, lie where this client has written. -/
def keeps_to (own : Nat) (recv : Recv) (k : Sock) : Bool :=
  match read_socket recv k with
  | .ok true k' => decide (k'.buffer_end ≤ ownAfter own k recv) &&
      packets_below (ownAfter own k recv) (BUFFER_SIZE + 1) k'
  | _ => true

/-- In no tick the server looks at a byte of the receive buffer that came from another client. -/
def keeps_own (d : driver δ) (own : Nat) (s : Jtagd δ) : List Input → Bool
  | [] => true
  | i :: is =>
    if s.sock.client_fd ≥ 0 then
      keeps_to own i.net.recv s.sock &&
        match step d i s with
        | .ok _ t => keeps_own d (ownAfter own s.sock i.net.recv) t is
        | .error _ _ => true
    else
      match step d i s with
      | .ok _ t => keeps_own d 0 t is
      | .error _ _ => true

/-- No message asks for bytes of the FIFO, nor is there an ACCESS_DR_2 while one of the servers has an empty
FIFO and the other has not. -/
def leaves_fifo (d : driver δ) : Jtagd δ → Jtagd δ → List Input → Bool
  | _, _, [] => true
  | s, s', i :: is =>
    (queued i s).all (fun msg => !takes msg && (msg.command != 0xC8 || starved i s' == starved i s)) &&
      match step d i s, step d i s' with
      | .ok _ t, .ok _ t' => leaves_fifo d t t' is
      | _, _ => true

theorem queued_eq {i : Input} {q : Jtagd δ} {new : List Message} (h : Queues i s q new) :
    queued i s = q.messages := by
  obtain ⟨r, hread, hloop⟩ := h.packets
  rw [queued, parsed, if_pos h.connected, hread]
  simp only [hloop, Option.map_some, Option.getD_some]

theorem reads_chain_cons {i : Input} {is : List Input} (h : reads_chain d s (i :: is) = true) :
    (∀ msg ∈ (queued i s).head?, msg.command = 0xA5) ∧
      (queued i s = [] → ∀ t, step d i s = .ok () t → reads_chain d t is = true) := by
  rw [reads_chain] at h
  cases hqueued : queued i s with
  | nil =>
    rw [hqueued] at h
    refine ⟨fun _ hmem => (by cases hmem), fun _ t hrun => ?_⟩
    rwa [hrun] at h
  | cons msg rest =>
    rw [hqueued] at h
    refine ⟨?_, fun hnil => (by cases hnil)⟩
    intro m hm
    cases hm
    exact of_decide_eq_true h

theorem leaves_fifo_cons {i : Input} {is : List Input} (h : leaves_fifo d s s' (i :: is) = true) :
    (∀ msg ∈ queued i s, takes msg = false ∧ (msg.command = 0xC8 → starved i s' = starved i s)) ∧
      ∀ t t', step d i s = .ok () t → step d i s' = .ok () t' → leaves_fifo d t t' is = true := by
  rw [leaves_fifo, Bool.and_eq_true] at h
  refine ⟨fun msg hmsg => ?_, fun t t' hrun hrun' => ?_⟩
  · have hthis := List.all_eq_true.mp h.1 msg hmsg
    simp only [Bool.and_eq_true, Bool.not_eq_true', Bool.or_eq_true, bne_iff_ne, beq_iff_eq] at hthis
    exact ⟨hthis.1, fun hC8 => hthis.2.resolve_left fun hne => hne hC8⟩
  · have hrest := h.2
    rwa [hrun, hrun'] at hrest

/-- Nothing is queued where nothing was. -/
theorem queue_stays_empty {i : Input} {t : Jtagd δ} (hfd : s.sock.client_fd ≥ 0) (hrun : step d i s = .ok () t)
    (hfd' : t.sock.client_fd ≥ 0) (hnone : queued i s = []) : t.messages = [] := by
  obtain ⟨q, new, hqueues, hmessages⟩ := step_queues hfd hrun hfd'
  obtain ⟨ms, u, hruns, -, hsame⟩ := handle_messages_rests q () t hmessages
  have hq := hruns.messages
  rw [← queued_eq hqueues, hnone] at hq
  rw [hsame.messages]
  exact (List.append_eq_nil_iff.mp hq.symm).2

/-! ## The handlers of a tick -/

theorem last_send_step : InStep b own known (do
    let s ← get
    if s.send_buffer_size.toNat > 2 then do_send 0 else pure () : JtagdProg δ Unit) := by
  refine Twins.get_bind fun s s' h => ?_
  rw [h.size]
  exact twins_ite (fun _ => do_send_step 0) (fun _ => twins_pure _) s s' h

section

variable (A : Alike d b.seen b.before b.after)

include A

theorem first_message_step (junk : Nat → Byte) {msg : Message} (hmsg : msg.command = 0xA5) :
    Twins (Seen b) (Peers b own known) (Peers b own True) (handle_message d junk msg) := by
  have hread : handle_message d junk msg = (do READ_CHAIN d junk; pure true) := by
    unfold handle_message
    simp [hmsg]
  rw [hread]
  exact (READ_CHAIN_step A junk).bind fun _ => twins_pure _

/-- A queue that is handled leaves the same devices: they were known, or it begins with READ_CHAIN. -/
theorem handle_messages_step (junk : Nat → Byte) (h : Peers b own known s s')
    (hfirst : known ∨ ∀ msg ∈ s.messages.head?, msg.command = 0xA5)
    (hmsgs : ∀ msg ∈ s.messages, Indifferent b msg) :
    Agree (Seen b) (Peers b own (known ∨ s.messages ≠ [])) (handle_messages d junk s)
      (handle_messages d junk s') := by
  unfold handle_messages
  rw [bind_of_ok (get_apply s), bind_of_ok (get_apply s'), h.messages]
  refine Agree.bind (R := Peers b own (known ∨ s.messages ≠ [])) ?_ fun _ t t' _ ht => last_send_step t t' ht
  have hmore : ∀ t t', Peers b own True t t' → Peers b own (known ∨ s.messages ≠ []) t t' :=
    fun t t' ht => { ht with probed := fun _ => ht.probed trivial, devices := fun _ => ht.devices trivial }
  rcases hfirst with hknown | hfirst
  · have hall : Peers b own True s s' :=
      { h with probed := fun _ => h.probed hknown, devices := fun _ => h.devices hknown }
    exact (message_loop_step A junk _ hall hmsgs).mono (fun _ _ he => he) hmore
  · cases hmessages : s.messages with
    | nil =>
      have hnone : ¬ ([] : List Message) ≠ [] := fun hne => hne rfl
      exact .ok { h with
        probed := fun hor => h.probed (hor.resolve_right hnone)
        devices := fun hor => h.devices (hor.resolve_right hnone) }
    | cons msg rest =>
      rw [hmessages] at hfirst hmsgs hmore
      have hA5 : msg.command = 0xA5 := hfirst msg rfl
      rw [List.length_cons]
      refine (message_round_step h hmessages (first_message_step A junk hA5 s s' h) fun t t' ht hleft => ?_).mono
        (fun _ _ he => he) hmore
      refine message_loop_step A junk _ ht fun m hm => ?_
      rw [hleft] at hm
      exact hmsgs m (List.mem_cons_of_mem _ hm)

end

/-! ## Ticks -/

/-- The servers wait for a client. -/
structure Apart (b : Base δ) (known : Prop) (s s' : Jtagd δ) : Prop where
  jtag : b.before s.jtag s'.jtag
  probed : known → b.after s.jtag s'.jtag
  told : Told b s.sock s'.sock
  alone : ¬ s.sock.client_fd ≥ 0
  alone' : ¬ s'.sock.client_fd ≥ 0
  devices : known → s'.devices = s.devices
  fifo : b.shared → s'.fifos FIFO_MIN = s.fifos FIFO_MIN
  level : b.level → (s'.fifos FIFO_MIN = [] ↔ s.fifos FIFO_MIN = [])

/-- The tick starts over with the send buffer. -/
theorem Peers.start (h : Peers b own known s s') :
    Peers b own known { s with send_buffer_size := 2 } { s' with send_buffer_size := 2 } :=
  { h with
    size := rfl
    pending := fun _ hi hlt => absurd (Nat.lt_of_lt_of_le hlt hi) (Nat.lt_irrefl _) }

/-- While messages are handled, the FIFOs may be compared as they are at that time. -/
def Base.at_level (b : Base δ) (p : Prop) : Base δ := { b with level := p }

theorem Peers.at_level (h : Peers b own known s s') {p : Prop}
    (hp : p → (s'.fifos FIFO_MIN = [] ↔ s.fifos FIFO_MIN = [])) : Peers (b.at_level p) own known s s' :=
  { h with sock := { h.sock with }, level := hp }

theorem Peers.of_level {p : Prop} (h : Peers (b.at_level p) own known s s') (hp : b.level → p) :
    Peers b own known s s' :=
  { h with sock := { h.sock with }, level := fun hlevel => h.level (hp hlevel) }

/-- A client is let in, or not. -/
theorem alone_step (i : Input) (h : Apart b known s s') (hs : Ready s) (hs' : Ready s') :
    Agree (Seen b) (fun t t' => Apart b known t t' ∨ t.sock.client_fd ≥ 0 ∧ t.messages = [] ∧
      t.sock.buffer_end ≤ 0 ∧ Peers b 0 known t t') (step d i s) (step d i s') := by
  unfold step
  rw [tick_alone h.alone, tick_alone h.alone']
  have hidle := hs.idle h.alone
  have hidle' := hs'.idle h.alone'
  cases haccept : i.net.accept with
  | false =>
    exact .ok (.inl { h with jtag := h.jtag })
  | true =>
    have hlet : ∀ k : Sock, try_accept true k = .ok true { k with client_fd := 4, alive := true } := fun _ => rfl
    rw [bind_of_ok (jtagd_sock_ok (s := { s with send_buffer_size := 2, messages := [] }) (hlet _)),
      bind_of_ok (jtagd_sock_ok (s := { s' with send_buffer_size := 2, messages := [] }) (hlet _))]
    have hnew : Peers b 0 known
        { s with send_buffer_size := 2, messages := [], sock := { s.sock with client_fd := 4, alive := true } }
        { s' with send_buffer_size := 2, messages := [], sock := { s'.sock with client_fd := 4, alive := true } } := {
      jtag := h.jtag
      probed := h.probed
      sock := {
        ok := ⟨hs.sock.size, hs.sock.order, hs.sock.bound⟩
        size := hs'.sock.size
        client := rfl
        start := hidle'.1.trans hidle.1.symm
        stop := hidle'.2.trans hidle.2.symm
        alive := rfl
        held := fun i hi => absurd hi (Nat.not_lt_zero i)
        told := h.told }
      room := hs.room
      room' := hs'.room
      size := rfl
      pending := fun _ hi hlt => absurd (Nat.lt_of_lt_of_le hlt hi) (Nat.lt_irrefl _)
      last := hs'.closed.trans hs.closed.symm
      devices := h.devices
      messages := rfl
      fifo := h.fifo
      level := h.level }
    refine (Agree.and_ensures (hello_step _ _ hnew) (hello_only.aside _)).mono (fun _ _ he => he) ?_
    rintro t t' ⟨ht, haside⟩
    have hsock := sock_of_windowOf haside
    refine .inr ⟨?_, messages_of_windowOf haside, ?_, ht⟩
    · rw [hsock]
      exact (by decide : (4 : Int) ≥ 0)
    · rw [hsock]
      exact Nat.le_of_eq hidle.2

section

variable (A : Alike d b.seen b.before b.after)

include A

theorem connected_step {i : Input} (h : Peers b own known s s') (hfd : s.sock.client_fd ≥ 0)
    (hown : s.sock.buffer_end ≤ own) (hkeeps : keeps_to own i.net.recv s.sock = true)
    (hfirst : known ∨ ∀ msg ∈ (queued i s).head?, msg.command = 0xA5)
    (hmsgs : b.shared ∨ ∀ msg ∈ queued i s, takes msg = false ∧ (msg.command = 0xC8 → starved i s' = starved i s)) :
    Agree (Seen b) (fun t t' => Peers b (ownAfter own s.sock i.net.recv) (known ∨ queued i s ≠ []) t t' ∧
      t.sock.buffer_end ≤ ownAfter own s.sock i.net.recv) (step d i s) (step d i s') := by
  have hfd' : s'.sock.client_fd ≥ 0 := by rwa [h.sock.client]
  have hread := jtagd_sock_agree h.start (read_socket_step h.sock hown i.net.recv)
  unfold step
  rw [tick_connected hfd, tick_connected hfd']
  refine Agree.bind_both hread ?_
  intro ok r r' hrun hrun' hr
  have hwhat : Ensures (read_socket i.net.recv) s.sock fun ok k => read_socket i.net.recv s.sock = .ok ok k ∧
      (ok = false → k.client_fd = -1 ∧ k.buffer_begin = 0 ∧ k.buffer_end = 0) :=
    Ensures.and (fun _ _ h => h) (read_socket_hangs_up i.net.recv _)
  obtain ⟨k, hk, rfl⟩ := jtagd_sock_spec (s := { s with send_buffer_size := 2 }) hwhat ok r hrun
  cases ok with
  | false =>
    have hnone : ¬ queued i s ≠ [] := by
      rw [queued, parsed, if_pos hfd, hrun]
      simp
    refine .ok ⟨{ hr with
      probed := fun hor => hr.probed (hor.resolve_right hnone)
      devices := fun hor => hr.devices (hor.resolve_right hnone) }, ?_⟩
    · show k.buffer_end ≤ _
      rw [(hk.2 rfl).2.2]
      exact Nat.zero_le _
  | true =>
    rw [keeps_to, hk.1] at hkeeps
    simp only [Bool.and_eq_true, decide_eq_true_eq] at hkeeps
    refine Agree.bind_both (packet_loop_step hr hkeeps.1 hkeeps.2) ?_
    rintro _ q q' hloop hloop' ⟨hq, hend⟩
    have hparsed : parsed i s = some q := by
      rw [parsed, if_pos hfd, hrun]
      simp only [hloop]
    have hparsed' : parsed i s' = some q' := by
      rw [parsed, if_pos hfd', hrun']
      simp only [hloop']
    have hqueued : queued i s = q.messages := by rw [queued, hparsed, Option.map_some, Option.getD_some]
    rw [hqueued] at hfirst hmsgs ⊢
    have hq₁ := hq.at_level (p := q'.fifos FIFO_MIN = [] ↔ q.fifos FIFO_MIN = []) id
    have hmsgs₁ : ∀ msg ∈ q.messages,
        Indifferent (b.at_level (q'.fifos FIFO_MIN = [] ↔ q.fifos FIFO_MIN = [])) msg := by
      intro msg hmem
      refine hmsgs.imp_right fun hall => ⟨(hall msg hmem).1, fun hC8 => ?_⟩
      have hsame := (hall msg hmem).2 hC8
      simp only [starved, hparsed, hparsed', Option.map_some, Option.getD_some] at hsame
      show q'.fifos FIFO_MIN = [] ↔ q.fifos FIFO_MIN = []
      rw [← List.isEmpty_iff, ← List.isEmpty_iff, hsame]
    have hhandled := handle_messages_step (b := b.at_level (q'.fifos FIFO_MIN = [] ↔ q.fifos FIFO_MIN = [])) A i.junk
      hq₁ hfirst hmsgs₁
    refine (hhandled.and_ensures (handle_messages_sock d i.junk q)).mono (fun _ _ he => he) ?_
    rintro t t' ⟨ht, hsock⟩
    refine ⟨ht.of_level hq.level, ?_⟩
    rw [hsock]
    exact hend

/-! ## Runs -/

/-- Two servers with a client, or two that wait for one. -/
inductive Across (b : Base δ) (own : Nat) (known : Prop) (s s' : Jtagd δ) : Prop
  | served (h : Peers b own known s s') (connected : s.sock.client_fd ≥ 0) (held : s.sock.buffer_end ≤ own)
  | waiting (h : Apart b known s s')

theorem run_agrees (is : List Input) (h : Across b own known s s') (hs : Ready s) (hs' : Ready s')
    (hasks : known ∨ ((s.sock.client_fd ≥ 0 → s.messages = []) ∧ reads_chain d s is = true))
    (htakes : b.shared ∨ leaves_fifo d s s' is = true) (howns : keeps_own d own s is = true) :
    Agree (Seen b) (Seen b) (is.forM (step d) s) (is.forM (step d) s') := by
  induction is generalizing own known s s' with
  | nil =>
    rcases h with ⟨h, -, -⟩ | h
    · exact .ok (Peers.seen s s' h)
    · exact .ok ⟨b.sees h.jtag, h.told⟩
  | cons i is ih =>
    rcases h with ⟨h, hfd, hown⟩ | h
    · rw [keeps_own, if_pos hfd, Bool.and_eq_true] at howns
      have hfirst : known ∨ ∀ msg ∈ (queued i s).head?, msg.command = 0xA5 :=
        hasks.imp_right fun hor => (reads_chain_cons hor.2).1
      have hmsgs := htakes.imp_right fun hor => (leaves_fifo_cons hor).1
      refine Agree.bind_both (((connected_step A h hfd hown howns.1 hfirst hmsgs).and_ensures
        (step_ready i hs)).and_ensures_right (step_ready i hs')) ?_
      rintro _ t t' hrun hrun' ⟨⟨⟨ht, hend⟩, hready⟩, hready'⟩
      have htakes' : b.shared ∨ leaves_fifo d t t' is = true :=
        htakes.imp_right fun hor => (leaves_fifo_cons hor).2 t t' hrun hrun'
      refine @ih (ownAfter own s.sock i.net.recv) (known ∨ queued i s ≠ []) t t' ?_ hready hready' ?_
        htakes' ?_
      · by_cases hstays : t.sock.client_fd ≥ 0
        · exact .served ht hstays hend
        · refine .waiting ⟨ht.jtag, ht.probed, ht.sock.told, hstays, ?_, ht.devices, ht.fifo, ht.level⟩
          rwa [ht.sock.client]
      · rcases hasks with hknown | ⟨-, hreads⟩
        · exact .inl (.inl hknown)
        · by_cases hnone : queued i s = []
          · refine .inr ⟨fun hstays => ?_, (reads_chain_cons hreads).2 hnone t hrun⟩
            exact queue_stays_empty hfd hrun hstays hnone
          · exact .inl (.inr hnone)
      · have hrest := howns.2
        rwa [hrun] at hrest
    · rw [keeps_own, if_neg h.alone] at howns
      refine Agree.bind_both (((alone_step i h hs hs').and_ensures (step_ready i hs)).and_ensures_right
        (step_ready i hs')) ?_
      rintro _ t t' hrun hrun' ⟨⟨ht, hready⟩, hready'⟩
      have hnone : queued i s = [] := by
        rw [queued, parsed, if_neg h.alone]
        rfl
      have htakes' : b.shared ∨ leaves_fifo d t t' is = true :=
        htakes.imp_right fun hor => (leaves_fifo_cons hor).2 t t' hrun hrun'
      refine @ih 0 known t t' ?_ hready hready' ?_ htakes' ?_
      · rcases ht with hstill | ⟨hfd, -, hend, hin⟩
        · exact .waiting hstill
        · exact .served hin hfd hend
      · refine hasks.imp_right fun ⟨_, hreads⟩ => ⟨fun hfd => ?_, (reads_chain_cons hreads).2 hnone t hrun⟩
        rcases ht with hstill | ⟨-, hempty, -, -⟩
        · exact absurd hfd hstill.alone
        · exact hempty
      · rwa [hrun] at howns

end

/-! ## Isolation -/

/-- Since `s` and `s'`, the same cycles were clocked and the same bytes written. -/
def SeenSince (log : δ → List Cycle) (s s' t t' : Jtagd δ) : Prop :=
  Extended (log s.jtag.dev) (log s'.jtag.dev) (log t.jtag.dev) (log t'.jtag.dev) ∧
  Extended s.sock.written s'.sock.written t.sock.written t'.sock.written

/-- A new client sees the same after both histories, also when the server stops. -/
def SameSession (d : driver δ) (log : δ → List Cycle) (s s' : Jtagd δ) (is : List Input) : Prop :=
  Agree (SeenSince log s s') (SeenSince log s s') (is.forM (step d) s) (is.forM (step d) s')

/-- Two histories of earlier clients after which the drivers are at the same place. -/
structure Histories (d : driver δ) (J : Jtag δ → Jtag δ → Prop) (c : Jtag δ) (s s' : Jtagd δ) : Prop where
  reached : Reaches (step d) (bootJtagd c) s
  reached' : Reaches (step d) (bootJtagd c) s'
  alone : ¬ s.sock.client_fd ≥ 0
  alone' : ¬ s'.sock.client_fd ≥ 0
  place : J s.jtag s'.jtag

/-- No session that asks for the chain first depends on the history, if the FIFO is left the same or not asked for,
and no tick looks at bytes of earlier clients. -/
def Isolated (d : driver δ) (log : δ → List Cycle) (J : Jtag δ → Jtag δ → Prop) : Prop :=
  ∀ c s s', Histories d J c s s' → ∀ is, reads_chain d s is = true →
    (s'.fifos FIFO_MIN = s.fifos FIFO_MIN ∨ leaves_fifo d s s' is = true) →
    keeps_own d 0 s is = true → SameSession d log s s' is

/-- Drivers that start alike are alike for the whole session. -/
theorem isolated_of_alike {log : δ → List Cycle} {J : Jtag δ → Jtag δ → Prop}
    (halike : ∀ c c', J c c' → ∃ E before after : Jtag δ → Jtag δ → Prop,
      Alike d E before after ∧ before c c' ∧
      ∀ e e', E e e' → Extended (log c.dev) (log c'.dev) (log e.dev) (log e'.dev)) :
    Isolated d log J := by
  rintro c s s' ⟨hreached, hreached', halone, halone', hplace⟩ is hreads hfifo howns
  obtain ⟨E, before, after, A, hbefore, hcycles⟩ := halike _ _ hplace
  have hnone : ∀ l : List Byte, l = l ++ [] := fun l => (List.append_nil l).symm
  have hapart : Apart ⟨E, before, after, A.weaken, A.seen, s.sock.written, s'.sock.written,
      s'.fifos FIFO_MIN = s.fifos FIFO_MIN, False⟩ False s s' :=
    ⟨hbefore, False.elim, ⟨[], hnone _, hnone _⟩, halone, halone', False.elim, id, False.elim⟩
  have hrun := run_agrees A is (.waiting hapart) (reaches_ready hreached) (reaches_ready hreached')
    (.inr ⟨fun hfd => absurd hfd halone, hreads⟩) hfifo howns
  exact hrun.mono (fun t t' h => ⟨hcycles _ _ h.1, h.2⟩) fun t t' h => ⟨hcycles _ _ h.1, h.2⟩

/-- A client is let in. -/
def comes : Input := ⟨fun _ => 0, ⟨.failed, true⟩⟩

def sends (l : List Byte) : Input := ⟨fun _ => 0, ⟨deliver l, false⟩⟩

def hangs_up : Input := ⟨fun _ => 0, ⟨.closed, false⟩⟩

def asksForChain : List Input := [comes, sends [0x00, 0x03, 0xA5, 0x00, 0x00, 0x04], hangs_up]

/-- READ_CHAIN, and an ACCESS_DR_2 of 8 bits, which asks for one byte. -/
def drPacket : List Byte :=
  [0x00, 0x27, 0xA5, 0x00, 0x00, 0x04, 0xC8, 0x00, 0x00, 0x24] ++
    List.replicate 15 0 ++ [8] ++ List.replicate 7 0 ++ [8] ++ List.replicate 8 0

abbrev blinkUsb : Usb := mpsseUsb Mpsse.blinkBoard Mpsse.idleEngine

abbrev blinkDriver : driver Mpsse := mpsse_driver blinkUsb 100 15

abbrev blinkPlace : Jtag Mpsse → Jtag Mpsse → Prop := Mpsse.SamePlace Mpsse.blinkBoard blinkUsb Mpsse.idleEngine

def startMpsse : Jtag Mpsse := ⟨TestLogicReset, 0, ⟨[], ⟨BITMODE_MPSSE, [], 0, 0, 0⟩⟩⟩

/-- The server after some ticks. -/
def afterTicks (d : driver δ) (c : Jtag δ) (is : List Input) : Jtagd δ := finalState (is.forM (step d) (bootJtagd c))

theorem histories_after {J : Jtag δ → Jtag δ → Prop} {c : Jtag δ} {is is' : List Input}
    (hrun : returned (is.forM (step d) (bootJtagd c)) = true)
    (hrun' : returned (is'.forM (step d) (bootJtagd c)) = true)
    (halone : ¬ (afterTicks d c is).sock.client_fd ≥ 0) (halone' : ¬ (afterTicks d c is').sock.client_fd ≥ 0)
    (hplace : J (afterTicks d c is).jtag (afterTicks d c is').jtag) :
    Histories d J c (afterTicks d c is) (afterTicks d c is') :=
  ⟨(Reaches.refl _).of_forM (of_returned hrun), (Reaches.refl _).of_forM (of_returned hrun'), halone, halone',
    hplace⟩

/-- A byte for the FIFO comes first. -/
def worksOnDr : List Input := [comes, sends ([0x40, 0x00, 0x01] ++ drPacket)]

/-- A client that leaves in the middle of a packet. -/
def leavesEarly : List Input := [comes, sends [0x00], hangs_up]

abbrev blinkBlasterUsb : Usb := blasterUsb Mpsse.blinkBoard idleBlasterEngine

abbrev blinkBlasterDriver : driver Blaster := usb_blaster_driver blinkBlasterUsb 100

def startBlaster : Jtag Blaster := { idleBlaster with state := TestLogicReset }

/-- The board looks at nothing but how many cycles there were. -/
theorem blinkBoard_alike {log log' : List Cycle} (h : log'.length % 2 = log.length % 2) :
    Mpsse.blinkBoard.Alike log log' := by
  refine ⟨fun cs => ?_, fun _ => rfl⟩
  have hcount : (log' ++ cs).length % 2 = (log ++ cs).length % 2 := by
    rw [List.length_append, List.length_append, Nat.add_mod, h, ← Nat.add_mod]
  simp only [Mpsse.blinkBoard, hcount]

/-- The second of two clients had the commands clocked that the first one left unsent: after it there were 428 more
cycles. -/
theorem chain_same_place :
    blinkPlace (afterTicks blinkDriver startMpsse asksForChain).jtag
      (afterTicks blinkDriver startMpsse (asksForChain ++ asksForChain)).jtag where
  state := by decide +kernel
  unsent := by decide +kernel
  waiting := by decide +kernel
  pins := .inl (by decide +kernel)
  board := blinkBoard_alike (by decide +kernel)
  unread := by decide +kernel
  read := by decide +kernel
  read' := by decide +kernel
  writes _ := rfl
  reads _ := rfl

theorem early_same_place : Blaster.SamePlace Mpsse.blinkBoard blinkBlasterUsb idleBlasterEngine
    (afterTicks blinkBlasterDriver startBlaster []).jtag
    (afterTicks blinkBlasterDriver startBlaster leavesEarly).jtag where
  state := by decide +kernel
  len := by decide +kernel
  size := by decide +kernel
  held := by decide +kernel
  mode := ⟨by decide +kernel, by decide +kernel⟩
  levels := .inl ⟨by decide +kernel, by decide +kernel, by decide +kernel⟩
  board := blinkBoard_alike (by decide +kernel)
  unread := by decide +kernel
  read := by decide +kernel
  read' := by decide +kernel
  writes _ := rfl
  reads _ := rfl

/-- A client that leaves after one byte for the FIFO. -/
def leavesByte : List Input := [comes, sends [0x40, 0x00, 0x01], hangs_up]

/-- A client whose ACCESS_DR_2 asks for a byte. -/
def asksForDr : List Input := [comes, sends drPacket]

theorem SameSession.seen {log : δ → List Cycle} {is : List Input} {t t' : Jtagd δ} (h : SameSession d log s s' is)
    (hrun : is.forM (step d) s = .ok () t) (hrun' : is.forM (step d) s' = .ok () t') :
    SeenSince log s s' t t' := by
  rw [SameSession, hrun, hrun'] at h
  cases h with
  | ok h => exact h

theorem SeenSince.written {log : δ → List Cycle} {t t' : Jtagd δ} (h : SeenSince log s s' t t') :
    t'.sock.written.drop s'.sock.written.length = t.sock.written.drop s.sock.written.length := by
  obtain ⟨-, ws, hws, hws'⟩ := h
  rw [hws, hws', List.drop_left, List.drop_left]

theorem byte_same_place : blinkPlace (afterTicks blinkDriver startMpsse []).jtag
    (afterTicks blinkDriver startMpsse leavesByte).jtag where
  state := by decide +kernel
  unsent := by decide +kernel
  waiting := by decide +kernel
  pins := .inl (by decide +kernel)
  board := blinkBoard_alike (by decide +kernel)
  unread := by decide +kernel
  read := by decide +kernel
  read' := by decide +kernel
  writes _ := rfl
  reads _ := rfl

end JtagRemote.Jtagd
