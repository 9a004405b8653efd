import JtagRemote.Xvc.ReadBack

/-!
# One tick of the XVC server

A window is read, its commands are executed, and what they left pending is read
back. The replies of the shifts are written last.
-/

namespace JtagRemote.Xvc

section

variable {δ : Type} {board : Board} {d : driver δ} (A : Adapter board d) {s : Xvc δ} {l : Line}
  {cmds : List Command} {net : Net} {rest : List Byte}

/-- The commands come in: after the read the window holds them, with no other complete one. -/
structure Arrives (s : Xvc δ) (net : Net) (cmds : List Command) (rest : List Byte) : Prop where
  globals : Ok s
  connected : 0 ≤ s.sock.client_fd
  read : ∃ sock, read_socket net.recv s.sock = .ok true sock ∧ sock.window = encodeAll cmds ++ rest
  incomplete : nextLen rest = none

/-- What a tick leaves. -/
structure Ticked (s : Xvc δ) (l : Line) (cmds : List Command) (rest : List Byte) (s' : Xvc δ)
    (xs : List Done) : Prop where
  shifts : xs.map Done.shift = shifts cmds
  session : Session A.ticks s.jtag.state xs
  globals : Ok s'
  window : s'.sock.window = rest
  state : s'.jtag.state = stateAfterAll s.jtag.state cmds
  ran : board.Ran l.log (xs.flatMap Done.cycles)
  stands : ∃ tms, A.Stands s'.jtag.state s'.jtag.dev ⟨l.log ++ xs.flatMap Done.cycles, tms, []⟩

theorem encode_pos (c : Command) : 1 ≤ c.encode.length := framer.pos (framer_encode c)

theorem length_le_encodeAll (cmds : List Command) : cmds.length ≤ (encodeAll cmds).length := by
  induction cmds with
  | nil => exact Nat.le_refl 0
  | cons c cmds ih =>
    have := encode_pos c
    rw [encodeAll, List.flatMap_cons, List.length_append, List.length_cons]
    rw [encodeAll] at ih
    omega

theorem Ok.read (h : Ok s) {recv : Recv} {k : Sock} (hread : read_socket recv s.sock = .ok true k) :
    Ok { s with sock := k } := by
  obtain ⟨_, _, hread', hsock, halive, -⟩ := h.sock.read_socket_ok recv
  rw [hread] at hread'
  cases hread'
  exact ⟨hsock, halive.trans h.alive, h.tms, h.tdi, h.tdo⟩

/-- The globals once the window is there, and the fuel for it. -/
theorem Arrives.parse (h : Arrives s net cmds rest) :
    ∃ s', jtag_xvc_tick d net s = (xvc_parse d (BUFFER_SIZE + 1) [] >>= fun shift_commands =>
        shift_commands.forM (xvc_read_back d)) s' ∧
      Ok s' ∧ s'.jtag = s.jtag ∧ s'.sock.written = s.sock.written ∧
      s'.sock.window = encodeAll cmds ++ rest ∧ cmds.length < BUFFER_SIZE + 1 := by
  obtain ⟨sock, hread, hwin⟩ := h.read
  obtain ⟨_, _, hread', hsock, -, hwritten, -, -⟩ := h.globals.sock.read_socket_ok net.recv
  rw [hread] at hread'
  cases hread'
  have hrun : xvc_sock (read_socket net.recv) s = .ok true { s with sock := sock } := by
    unfold xvc_sock focus
    rw [hread]
  have hok : Ok { s with sock := sock } := h.globals.read hread
  refine ⟨{ s with sock := sock }, ?_, hok, rfl, hwritten, hwin, ?_⟩
  · unfold jtag_xvc_tick
    rw [bind_of_ok (get_apply s), if_pos h.connected, bind_of_ok hrun]
    rfl
  · have hlen := hsock.window_length
    have hbound := hsock.bound
    have hle := length_le_encodeAll cmds
    rw [hwin, List.length_append] at hlen
    omega

theorem tick_spec (h : Arrives s net cmds rest) (hA : A.Stands s.jtag.state s.jtag.dev l)
    (hnone : l.pending = []) (hruns : Runs A s.jtag.state 0 cmds) :
    Returns (jtag_xvc_tick d net) s fun _ s' => ∃ xs, Ticked A s l cmds rest s' xs ∧
      s'.sock.written = s.sock.written ++ (early cmds ++ xs.flatMap Done.reply) := by
  obtain ⟨s₁, heq, hok, hjtag, hwritten, hwin, hfuel⟩ := h.parse (d := d)
  rw [← hjtag] at hA hruns
  have hruns' : Runs A s₁.jtag.state l.pending.length cmds := by rwa [hnone]
  rw [Returns, heq]
  refine Returns.bind (xvc_parse_spec A hok hwin h.incomplete hA hruns' hfuel) ?_
  rintro _ s₂ ⟨xs, rfl, hp⟩
  obtain ⟨tms, hstands⟩ := hp.stands
  rw [hnone, List.nil_append] at hstands
  rw [List.nil_append]
  refine (read_backs_spec A hp.globals hp.session hstands (List.append_nil _).symm).mono ?_
  intro _ s₃ h₃
  refine ⟨xs, ⟨hp.shifts, ?_, h₃.globals, h₃.window.trans hp.window, ?_, hp.ran, tms, h₃.stands⟩, ?_⟩
  · rw [← hjtag]
    exact hp.session
  · rw [h₃.state, hp.state, hjtag]
  · rw [h₃.written, hp.written, hwritten, List.append_assoc]

theorem tick_fails (h : Arrives s net cmds rest) (hA : A.Stands s.jtag.state s.jtag.dev l)
    (hnone : l.pending = []) (hruns : ¬ Runs A s.jtag.state 0 cmds) :
    ∃ e, Faults (jtag_xvc_tick d net) s e := by
  obtain ⟨s₁, heq, hok, hjtag, -, hwin, hfuel⟩ := h.parse (d := d)
  rw [← hjtag] at hA hruns
  have hruns' : ¬ Runs A s₁.jtag.state l.pending.length cmds := by rwa [hnone]
  have hfails : ∃ e, Faults (xvc_parse d _ []) s₁ e := xvc_parse_fails A hok hwin hA hruns' hfuel
  obtain ⟨e, hfault⟩ := hfails
  refine ⟨e, ?_⟩
  rw [Faults, heq]
  exact hfault.bind

end

/-! ## Into an empty window -/

theorem arrives_of_empty {δ : Type} {s : Xvc δ} {cmds : List Command} (h : Ok s) (hfd : 0 ≤ s.sock.client_fd)
    (hempty : s.sock.window = []) (hfits : (encodeAll cmds).length ≤ BUFFER_SIZE) :
    Arrives s ⟨deliver (encodeAll cmds), false⟩ cmds [] := by
  refine ⟨h, hfd, ?_, rfl⟩
  obtain ⟨sock, hread, hwin⟩ := h.sock.read_empty hempty (deliver_open (encodeAll cmds))
  refine ⟨sock, hread, ?_⟩
  rw [hwin, List.append_nil, bytes_deliver, List.take_of_length_le hfits]

/-! ## What a tick needs -/

/-- The visits to a Shift state of all the shifts. -/
def totalVisits : JtagState → List Command → Nat
  | _, [] => 0
  | st, .getinfo :: cmds => totalVisits st cmds
  | st, .settck _ :: cmds => totalVisits st cmds
  | st, .shift sh :: cmds => visits st sh.tms sh.bits + totalVisits (sh.after st) cmds

/-- Every period is one that the driver takes. -/
def PeriodsOk (accepts : Nat → Prop) (cmds : List Command) : Prop :=
  ∀ period, Command.settck period ∈ cmds → period ≠ 0 ∧ accepts (xvc_freq period.toNat)

theorem runs_iff {δ : Type} {board : Board} {d : driver δ} (A : Adapter board d) (st : JtagState) (k : Nat)
    (cmds : List Command) :
    Runs A st k cmds ↔ PeriodsOk A.Accepts cmds ∧ RoomFor A k (totalVisits st cmds) := by
  induction cmds generalizing st k with
  | nil => simp [Runs, PeriodsOk, RoomFor, totalVisits]; omega
  | cons c cmds ih =>
    cases c with
    | getinfo => simp [Runs, PeriodsOk, totalVisits, ih]
    | settck period => simp [Runs, PeriodsOk, totalVisits, ih, and_assoc]
    | shift sh =>
      simp only [Runs, totalVisits, ih, roomFor_add, PeriodsOk, List.mem_cons, reduceCtorEq, false_or]
      tauto

end JtagRemote.Xvc
