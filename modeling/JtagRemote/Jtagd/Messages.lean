import JtagRemote.Jtagd.Responses

/-!
# The message loop

The messages at the head of the queue are handled one after the other, until the
queue is empty or a message has to wait.
-/

namespace JtagRemote.Jtagd

open JtagState

variable {δ : Type} {adapter : driver δ} {junk : Nat → Byte} {base : List Byte} {fs : List Frame}
  {cur : List Byte} {s : Jtagd δ}

/-! ## One message -/

/-- A message is done, as its outcome says, or it leaves all as it was. -/
def Handled (adapter : driver δ) (junk : Nat → Byte) (msg : Message) (base : List Byte) (fs : List Frame)
    (cur : List Byte) (s : Jtagd δ) (done : Bool) (t : Jtagd δ) : Prop :=
  (done = false → t = s) ∧ (done = true → ∃ o, o.msg = msg ∧ Gives adapter junk s o ∧
    Answered (answer o) base fs cur s t)

/-- A message that does not look at the board. -/
theorem handled_known {msg : Message} {a : Answer} {p : JtagdProg δ Unit}
    (hp : Ensures p s fun _ t => Answered a base fs cur s t) (ha : answer ⟨msg, s.devices, []⟩ = a)
    (hboard : msg.command ≠ 0xA5 ∧ msg.command ≠ 0xC6 ∧ msg.command ≠ 0xC8) :
    Ensures (do p; pure true) s (Handled adapter junk msg base fs cur s) := by
  obtain ⟨hA5, hC6, hC8⟩ := hboard
  refine Ensures.bind hp fun _ t ht => ensures_pure ⟨by simp, fun _ => ?_⟩
  rw [← ha] at ht
  exact ⟨_, rfl, ⟨fun h => absurd h hA5, fun _ => rfl, fun h => absurd h hC6, fun h => absurd h hC8⟩, ht⟩

theorem respond_handled (h : Buffered base fs cur s) {msg : Message} {resp : Byte}
    (ha : answer ⟨msg, s.devices, []⟩ = ⟨resp, [], .stays⟩)
    (hboard : msg.command ≠ 0xA5 ∧ msg.command ≠ 0xC6 ∧ msg.command ≠ 0xC8) :
    Ensures (do respond resp; pure true) s (Handled adapter junk msg base fs cur s) :=
  handled_known ((respond_spec h resp).mono fun _ _ ht => ht.stays) ha hboard

theorem handle_message_spec (h : Buffered base fs cur s) (msg : Message) :
    Ensures (handle_message adapter junk msg) s (Handled adapter junk msg base fs cur s) := by
  unfold handle_message
  refine ensures_ite (fun hc => ?_) fun h80 => ?_
  · exact handled_known (GET_HARDWARE_spec h) (by simp [answer, hc]) (by simp [hc])
  refine ensures_ite (fun hc => ?_) fun h83 => ?_
  · exact handled_known (GET_VERSION_INFO_spec h) (by simp [answer, hc]) (by simp [hc])
  refine ensures_ite (fun hc => ?_) fun h84 => ?_
  · exact handled_known (GET_DEFINED_DEVICES_spec h) (by simp [answer, hc]) (by simp [hc])
  refine ensures_ite (fun hc => ?_) fun hA2 => ?_
  · exact respond_handled h (by simp [answer, hc]) (by simp [hc])
  refine ensures_ite (fun hc => ?_) fun hA3 => ?_
  · exact respond_handled h (by simp [answer, hc]) (by simp [hc])
  refine ensures_ite (fun hc => ?_) fun hA5 => ?_
  · refine Ensures.bind (READ_CHAIN_spec adapter h junk) ?_
    rintro _ t ⟨devices, c, hprobe, ht⟩
    refine ensures_pure ⟨by simp, fun _ => ⟨⟨msg, devices, []⟩, rfl, ?_, by simpa [answer, hc] using ht⟩⟩
    exact ⟨fun _ => ⟨c, hprobe⟩, fun hne => absurd hc hne, by simp [hc], by simp [hc]⟩
  refine ensures_ite (fun hc => ?_) fun hA8 => ?_
  · exact handled_known (OPEN_DEVICE_spec h) (by simp [answer, hc]) (by simp [hc])
  refine ensures_ite (fun hc => ?_) fun hAA => ?_
  · exact respond_handled h (by simp [answer, hc]) (by simp [hc])
  refine ensures_ite (fun hc => ?_) fun hAB => ?_
  · exact handled_known (GET_PARAMETER_spec h) (by simp [answer, hc]) (by simp [hc])
  refine ensures_ite (fun hc => ?_) fun hC0 => ?_
  · exact respond_handled h (by simp [answer, hc]) (by simp [hc])
  refine ensures_ite (fun hc => ?_) fun hC1 => ?_
  · exact handled_known (LOCK_DEVICE_spec h) (by simp [answer, hc]) (by simp [hc])
  refine ensures_ite (fun hc => ?_) fun hC2 => ?_
  · exact respond_handled h (by simp [answer, hc]) (by simp [hc])
  refine ensures_ite (fun hc => ?_) fun hC6 => ?_
  · refine Ensures.bind (ACCESS_IR_2_spec adapter h msg.body) ?_
    rintro _ t ⟨read, hread, ht⟩
    refine ensures_pure ⟨by simp, fun _ => ⟨⟨msg, s.devices, read⟩, rfl, ?_, by simpa [answer, hc] using ht⟩⟩
    exact ⟨by simp [hc], fun _ => rfl, fun _ => hread, by simp [hc]⟩
  refine ensures_ite (fun hc => ?_) fun hC8 => ?_
  · refine (ACCESS_DR_2_spec adapter h msg.body).mono ?_
    rintro ok t ⟨hfalse, htrue⟩
    refine ⟨hfalse, fun hok => ?_⟩
    obtain ⟨send, u, read, hpop, hread, hlen, ht⟩ := htrue hok
    refine ⟨⟨msg, s.devices, read⟩, rfl, ?_, by simpa [answer, hc] using ht⟩
    refine ⟨by simp [hc], fun _ => rfl, by simp [hc], fun _ => ⟨?_, send, u, hpop, hread⟩⟩
    by_cases hpos : intAt msg.body 28 > 0
    · exact hlen hpos
    · rw [readBytes, Nat.eq_zero_of_not_pos hpos]
      exact Nat.zero_le _
  refine ensures_ite (fun hc => ?_) fun hCA => ?_
  · exact handled_known (RUN_TEST_IDLE_spec adapter h) (by simp [answer, hc]) (by simp [hc])
  refine ensures_ite (fun hc => ?_) fun hFE => ?_
  · exact handled_known (USE_PROTOCOL_VERSION_spec h) (by simp [answer, hc]) (by simp [hc])
  · have hnone : msg.command ∉ ([0xA2, 0xA3, 0xAA, 0xC0, 0xC2] : List Byte) := by
      simp only [List.mem_cons, List.not_mem_nil, or_false]
      tauto
    have ha : answer ⟨msg, s.devices, []⟩ = ⟨126, [], .stays⟩ := by
      unfold answer
      rw [if_neg h80, if_neg h83, if_neg h84, if_neg hA5, if_neg hA8, if_neg hAB, if_neg hC1, if_neg hC6,
        if_neg hC8, if_neg hCA, if_neg hFE, if_neg hnone]
    exact respond_handled h ha ⟨hA5, hC6, hC8⟩

/-! ## The queue -/

/-- The loop handles the messages of these outcomes, and stops where nothing is left or one waits. -/
inductive Handles (adapter : driver δ) (junk : Nat → Byte) : Jtagd δ → List Outcome → Jtagd δ → Prop
  | empty {s : Jtagd δ} : s.messages = [] → Handles adapter junk s [] s
  | waits {s : Jtagd δ} {msg : Message} {rest : List Message} : s.messages = msg :: rest →
      handle_message adapter junk msg s = .ok false s → Handles adapter junk s [] s
  | done {s t u : Jtagd δ} {o : Outcome} {outs : List Outcome} {rest : List Message} :
      s.messages = o.msg :: rest → handle_message adapter junk o.msg s = .ok true t → Gives adapter junk s o →
      Handles adapter junk { t with messages := rest } outs u → Handles adapter junk s (o :: outs) u

/-- The frames of a batch, when `cur` waits in the buffer before it. -/
def framesOf (cur : List Byte) : List Outcome → List Frame
  | [] => if cur = [] then [] else [⟨0, cur⟩]
  | o :: outs => (answer o).frames cur ++ framesOf ((answer o).waiting cur) outs

theorem message_loop_spec {fuel : Nat} (h : Buffered base fs cur s) (hfuel : s.messages.length ≤ fuel) :
    Ensures (message_loop adapter junk fuel) s fun _ t => (s.last_response = -1 → t.last_response = -1) ∧
      ∃ outs fs' cur', Handles adapter junk s outs t ∧ Buffered base fs' cur' t ∧
        fs' ++ framesOf cur' [] = fs ++ framesOf cur outs := by
  induction fuel generalizing s fs cur with
  | zero =>
    have hnone : s.messages = [] := List.eq_nil_of_length_eq_zero (Nat.le_zero.mp hfuel)
    exact ensures_pure ⟨id, [], fs, cur, .empty hnone, h, rfl⟩
  | succ fuel ih =>
    unfold message_loop
    refine Ensures.get_bind ?_
    cases hmsgs : s.messages with
    | nil => exact ensures_pure ⟨id, [], fs, cur, .empty hmsgs, h, rfl⟩
    | cons msg rest =>
      have hrun : Ensures (handle_message adapter junk msg) s fun ok t =>
          Handled adapter junk msg base fs cur s ok t ∧ handle_message adapter junk msg s = .ok ok t :=
        (handle_message_spec h msg).and fun _ _ hrun => hrun
      refine Ensures.bind hrun ?_
      rintro ok t ⟨⟨hwaits, hdone⟩, hrun⟩
      cases ok with
      | false =>
        obtain rfl := hwaits rfl
        exact ensures_pure ⟨id, [], fs, cur, .waits hmsgs hrun, h, rfl⟩
      | true =>
        obtain ⟨o, rfl, hgives, hans⟩ := hdone rfl
        have htail : t.messages.tail = rest := by rw [hans.messages, hmsgs]; rfl
        refine Ensures.modify_bind ?_
        rw [htail]
        have hbuf : Buffered base (fs ++ (answer o).frames cur) ((answer o).waiting cur)
            { t with messages := rest } := hans.buffered.of_eq rfl rfl rfl
        have hlen : rest.length ≤ fuel := by
          rw [hmsgs, List.length_cons] at hfuel
          omega
        refine (ih hbuf hlen).mono ?_
        rintro _ u ⟨hclosed, outs, fs', cur', hhandles, hbuf', heq⟩
        refine ⟨fun _ => hclosed hans.closed, o :: outs, fs', cur', .done hmsgs hrun hgives hhandles, hbuf', ?_⟩
        rw [heq, framesOf, List.append_assoc]

/-- Nothing is sent for a frame that the counter cannot count. -/
theorem Wrote.skip {written : List Byte} {f : Frame} (h : Wrote base fs written) (hlong : ¬ f.body.length ≤ 253) :
    Wrote base (fs ++ [f]) written := by
  obtain ⟨new, rfl, hnew, hexact⟩ := h.grows
  refine ⟨⟨new, rfl, ?_, fun hshort => absurd (hshort f (List.mem_append_right _ List.mem_cons_self)) hlong⟩⟩
  rw [List.map_append, List.sum_append]
  exact Nat.le_add_right_of_le hnew

/-- What is left in the buffer when the loop stops goes out as the last frame. -/
theorem last_send_spec (h : Buffered base fs cur s) :
    Ensures (do
      let s ← get
      if s.send_buffer_size.toNat > 2 then do_send 0 else pure () : JtagdProg δ Unit) s fun _ t =>
      (∃ fs' cur', Buffered base fs' cur' t) ∧ t.last_response = s.last_response ∧ t.messages = s.messages ∧
        Wrote base (fs ++ framesOf cur []) t.sock.written := by
  refine Ensures.get_bind ?_
  split
  · rename_i hsize
    have hne : cur ≠ [] := by
      rintro rfl
      rw [h.size] at hsize
      exact absurd hsize (by decide)
    refine (do_send_spec h 0).mono ?_
    rintro _ t ⟨hbuf, hlast, hmsgs⟩
    refine ⟨⟨_, _, hbuf⟩, hlast, hmsgs, ?_⟩
    rw [framesOf, if_neg hne]
    exact hbuf.wrote
  · rename_i hsize
    refine ensures_pure ⟨⟨_, _, h⟩, rfl, rfl, ?_⟩
    by_cases hnil : cur = []
    · rw [framesOf, if_pos hnil, List.append_nil]
      exact h.wrote
    · rw [framesOf, if_neg hnil]
      refine h.wrote.skip fun hle => ?_
      have hpos := List.length_pos_iff.mpr hnil
      rw [h.size_toNat] at hsize
      simp only at hle
      omega

theorem handle_messages_spec (h : Buffered base [] [] s) :
    Ensures (handle_messages adapter junk) s fun _ t => ∃ outs u, Handles adapter junk s outs u ∧
      t.messages = u.messages ∧ Wrote base (framesOf [] outs) t.sock.written := by
  unfold handle_messages
  refine Ensures.get_bind (Ensures.bind (message_loop_spec h (Nat.le_refl _)) ?_)
  rintro _ u ⟨-, outs, fs', cur', hhandles, hbuf, heq⟩
  rw [List.nil_append] at heq
  refine (last_send_spec hbuf).mono ?_
  rintro _ t ⟨-, -, hmsgs, hwrote⟩
  rw [heq] at hwrote
  exact ⟨outs, u, hhandles, hmsgs, hwrote⟩

/-! ## The packets of a tick -/

/-- The packets of the window add messages, and entries of the FIFOs. -/
structure Took (s t : Jtagd δ) (new : List Message) : Prop where
  rest : t = { s with
    sock := { s.sock with buffer_begin := t.sock.buffer_begin }
    messages := t.messages
    fifos := t.fifos }
  messages : t.messages = s.messages ++ new
  grows : ∃ more, t.fifos FIFO_MIN = s.fifos FIFO_MIN ++ more

theorem Took.refl (s : Jtagd δ) : Took s s [] := ⟨rfl, (List.append_nil _).symm, [], (List.append_nil _).symm⟩

theorem Took.trans {s t u : Jtagd δ} {new new' : List Message} (h : Took s t new) (h' : Took t u new') :
    Took s u (new ++ new') := by
  obtain ⟨more, hmore⟩ := h.grows
  obtain ⟨more', hmore'⟩ := h'.grows
  refine ⟨?_, ?_, more ++ more', ?_⟩
  · rw [h'.rest, h.rest]
  · rw [h'.messages, h.messages, List.append_assoc]
  · rw [hmore', hmore, List.append_assoc]

theorem parse_messages_took (stop fuel p : Nat) (s : Jtagd δ) :
    Guards (parse_messages stop fuel p) s .no_tms_seq fun _ t => ∃ new, Took s t new := by
  induction fuel generalizing p s with
  | zero =>
    unfold parse_messages
    exact guards_ite (fun _ => guards_throw (by decide)) fun _ => guards_pure ⟨[], .refl s⟩
  | succ fuel ih =>
    unfold parse_messages
    refine guards_ite (fun _ => ?_) fun _ => guards_pure ⟨[], .refl s⟩
    refine Guards.get_bind ?_
    refine Guards.bind (index_guards _ _ s) ?_
    rintro command _ ⟨rfl, -, -⟩
    refine Guards.bind (index_guards _ _ _) ?_
    rintro hi _ ⟨rfl, -, -⟩
    refine Guards.bind (index_guards _ _ _) ?_
    rintro lo _ ⟨rfl, -, -⟩
    refine Guards.bind (bytes_at_guards _ _ _ _) ?_
    rintro bytes s ⟨rfl, -, -⟩
    refine guards_ite (fun _ => guards_pure ⟨[], .refl s⟩) fun _ => Guards.set_bind ?_
    refine (ih _ _).mono ?_
    rintro _ t ⟨new, ht⟩
    have hone : Took s { s with messages := s.messages ++ [⟨command, bytes.drop 4⟩] } [⟨command, bytes.drop 4⟩] :=
      ⟨rfl, rfl, [], (List.append_nil _).symm⟩
    exact ⟨_, hone.trans ht⟩

theorem handle_packet_took (mux length : Nat) (s : Jtagd δ) :
    Guards (handle_packet mux length) s .no_tms_seq fun _ t => ∃ new, Took s t new := by
  unfold handle_packet
  refine Guards.get_bind ?_
  refine guards_ite (fun _ => parse_messages_took _ _ _ s) fun _ => ?_
  refine guards_ite (fun _ => ?_) fun _ => guards_pure ⟨[], .refl s⟩
  refine guards_modify ⟨[], rfl, (List.append_nil _).symm, ?_⟩
  by_cases hmux : mux = FIFO_MIN
  · subst hmux
    exact ⟨_, Function.update_self FIFO_MIN _ s.fifos⟩
  · exact ⟨[], (Function.update_of_ne (Ne.symm hmux) _ s.fifos).trans (List.append_nil _).symm⟩

theorem jtagd_consume_took (n : Nat) (s : Jtagd δ) :
    Guards (jtagd_consume n) s .no_tms_seq fun _ t => Took s t [] :=
  guards_modify ⟨rfl, (List.append_nil _).symm, [], (List.append_nil _).symm⟩

theorem packet_loop_took (fuel : Nat) (s : Jtagd δ) :
    Guards (packet_loop fuel) s .no_tms_seq fun _ t => ∃ new, Took s t new := by
  induction fuel generalizing s with
  | zero => exact guards_throw (by decide)
  | succ fuel ih =>
    unfold packet_loop
    refine Guards.get_bind ?_
    refine guards_ite (fun _ => ?_) fun _ => guards_pure ⟨[], .refl s⟩
    refine Guards.bind (index_guards _ _ s) ?_
    rintro hi _ ⟨rfl, -, -⟩
    refine Guards.bind (index_guards _ _ _) ?_
    rintro lo s ⟨rfl, -, -⟩
    refine guards_ite (fun _ => ?_) fun _ => guards_pure ⟨[], .refl s⟩
    refine Guards.bind (jtagd_consume_took 2 s) fun _ s₁ h₁ => ?_
    refine Guards.bind (handle_packet_took _ _ s₁) ?_
    rintro _ s₂ ⟨new, h₂⟩
    refine Guards.bind (jtagd_consume_took _ s₂) fun _ s₃ h₃ => ?_
    refine (ih s₃).mono ?_
    rintro _ t ⟨new', ht⟩
    exact ⟨_, ((h₁.trans h₂).trans h₃).trans ht⟩

end JtagRemote.Jtagd
