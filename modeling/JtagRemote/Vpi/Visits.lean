import JtagRemote.Vpi.Refine

/-!
# jtag_vpi, client after client

A server that has no setup to undo serves each client from where the one before it left the target.
-/

namespace JtagRemote.Vpi

open JtagState

variable {σ : Type} {T : Target σ} {q₀ q : JtagState × σ} {noise : List Cycle → Byte} {δ : Type} {d : driver δ}
  (A : Scanner (T.board q₀ noise) d) {s : Vpi δ} {p : List Byte}

/-! ## What the ticks bring -/

/-- Some ticks and the records that the clients send in them. A client leaves with whole records only. -/
inductive Visits : List Net → List JtagVpiCmd → Prop where
  | waits {waits : List Net} (hwaits : ∀ net ∈ waits, net.accept = false) : Visits waits []
  | stays {waits nets : List Net} {recv : Recv} {rs : List JtagVpiCmd} {part : List Byte}
      (hwaits : ∀ net ∈ waits, net.accept = false) (hopen : ∀ net ∈ nets, net.recv ≠ .closed)
      (hin : received 0 nets = rs.flatMap JtagVpiCmd.bytes ++ part) (hpart : part.length < SIZEOF_CMD) :
      Visits (waits ++ ⟨recv, true⟩ :: nets) rs
  | leaves {waits nets rest : List Net} {recv : Recv} {accept : Bool} {rs rs' : List JtagVpiCmd}
      (hwaits : ∀ net ∈ waits, net.accept = false) (hopen : ∀ net ∈ nets, net.recv ≠ .closed)
      (hin : received 0 nets = rs.flatMap JtagVpiCmd.bytes) (hrest : Visits rest rs') :
      Visits (waits ++ ⟨recv, true⟩ :: (nets ++ ⟨.closed, accept⟩ :: rest)) (rs ++ rs')

theorem session_received (hp : Waits s p) (hfd : s.sock.client_fd ≥ 0) {nets : List Net}
    (hopen : ∀ net ∈ nets, net.recv ≠ .closed) {t : Vpi δ} (hrun : nets.forM (jtag_vpi_tick d) s = .ok () t) :
    (session d s nets).1 = received p.length nets := by
  induction nets generalizing s p with
  | nil => rfl
  | cons net nets ih =>
    rw [List.forall_mem_cons] at hopen
    obtain ⟨p', hsplits, hensures⟩ := tick_reads (d := d) hp hfd hopen.1
    obtain ⟨_, u, hu, hnets⟩ := bind_eq_ok.mp hrun
    obtain ⟨hwaits, hsame⟩ := hensures _ u hu
    have harrived : arrived s net = net.recv.bytes.take (SIZEOF_CMD - p.length) := by
      rw [arrived, if_pos hfd, hp.count]
    obtain ⟨hlen, hshort⟩ := hsplits.blocks_length
    rw [harrived, List.length_append, List.length_take] at hlen
    have hnext : p'.length = if p.length + (net.recv.bytes.take (SIZEOF_CMD - p.length)).length = SIZEOF_CMD then 0
        else p.length + (net.recv.bytes.take (SIZEOF_CMD - p.length)).length := by
      have := hp.short
      rw [List.length_take]
      unfold SIZEOF_CMD at *
      split <;> omega
    rw [session, hu, received, ← hnext]
    simp only [harrived, ih hwaits (by rwa [hsame]) hopen.2 hnets]

theorem records_length (rs : List JtagVpiCmd) : (rs.flatMap JtagVpiCmd.bytes).length = SIZEOF_CMD * rs.length := by
  induction rs with
  | nil => rfl
  | cons r rs ih =>
    rw [List.flatMap_cons, List.length_append, r.bytes_length, ih, List.length_cons, Nat.mul_succ, Nat.add_comm]

/-- With the last byte of a record, nothing waits. -/
theorem session_whole (hp : Waits s []) (hfd : s.sock.client_fd ≥ 0) {nets : List Net}
    (hopen : ∀ net ∈ nets, net.recv ≠ .closed) {rs : List JtagVpiCmd}
    (hin : received 0 nets = rs.flatMap JtagVpiCmd.bytes) :
    Ensures (nets.forM (jtag_vpi_tick d)) s fun _ t => Waits t [] := by
  intro _ t hrun
  obtain ⟨p, hsplits, hensures⟩ := session_splits (d := d) nets hp
  have hwaits := hensures _ t hrun
  rw [List.nil_append, session_received hp hfd hopen hrun, List.length_nil, hin] at hsplits
  obtain ⟨hlen, hshort⟩ := hsplits.blocks_length
  rw [records_length] at hlen
  have hnone : p.length = 0 := by
    unfold SIZEOF_CMD at *
    omega
  rwa [List.length_eq_zero_iff.mp hnone] at hwaits

/-! ## The server -/

theorem allApt_append {st : JtagState} {rs rs' : List JtagVpiCmd} : AllApt st (rs ++ rs') ↔
    AllApt st rs ∧ AllApt (stateAfter st ((rs.flatMap JtagVpiCmd.pins).map Pins.tms)) rs' := by
  induction rs generalizing st with
  | nil => simp [AllApt, stateAfter]
  | cons r rs ih =>
    rw [List.cons_append, AllApt, AllApt, ih, List.flatMap_cons, List.map_append, stateAfter_append]
    tauto

theorem cable_tap (q : JtagState × σ) (rs : List JtagVpiCmd) :
    ((cable T).run q rs).1 = stateAfter q.1 ((rs.flatMap JtagVpiCmd.pins).map Pins.tms) := by
  induction rs generalizing q with
  | nil => rfl
  | cons r rs ih =>
    rw [Mealy.run_cons, ih, List.flatMap_cons, List.map_append, stateAfter_append]
    exact congrArg (stateAfter · _) (T.run_tap q r.pins)

/-- A client is there and no record has begun; `q` is where the target is. -/
structure Serving (s : Vpi δ) (q : JtagState × σ) : Prop where
  waits : Waits s []
  connected : s.sock.client_fd ≥ 0
  state : s.jtag.state = q.1
  stands : ∃ log tms, A.Stands s.jtag.state s.jtag.dev ⟨log, tms, []⟩ ∧ T.machine.run q₀ (log.map Cycle.pins) = q

/-- Whether a client is there, and how much of a record has come, is left open. -/
structure Rests (s : Vpi δ) (q : JtagState × σ) : Prop where
  state : s.jtag.state = q.1
  stands : ∃ log tms, A.Stands s.jtag.state s.jtag.dev ⟨log, tms, []⟩ ∧ T.machine.run q₀ (log.map Cycle.pins) = q

/-- A client that has sent whole records. -/
theorem Alone.whole (h : Alone A s q) {waits nets : List Net} (recv : Recv)
    (hwaits : ∀ net ∈ waits, net.accept = false) (hopen : ∀ net ∈ nets, net.recv ≠ .closed) {rs : List JtagVpiCmd}
    (hapt : AllApt q.1 rs) (hin : received 0 nets = rs.flatMap JtagVpiCmd.bytes) :
    Follows (cable T) (fun t => t.sock.written) (Serving A) ((waits ++ ⟨recv, true⟩ :: nets).forM (jtag_vpi_tick d))
      s q rs := by
  have hclient := h.client A recv hwaits hopen hapt (hin.trans (List.append_nil _).symm) (by decide)
  have hnone : Ensures ((waits ++ ⟨recv, true⟩ :: nets).forM (jtag_vpi_tick d)) s fun _ t => Waits t [] := by
    have hwaiting : Waits (admitted s) [] := ⟨h.waits.size, h.waits.count, h.waits.held, h.waits.short⟩
    have hfd : (admitted s).sock.client_fd ≥ 0 := (by decide : (4 : Int) ≥ 0)
    rw [Ensures, (waiting_spec (d := d) hwaits h.alone (⟨recv, true⟩ :: nets)).2]
    exact Ensures.of_eq_bind (tick_admits h.alone recv) (session_whole hwaiting hfd hopen hin)
  apply (hclient.and hnone).mono
  rintro _ t ⟨⟨hleaves, hfd⟩, hwaiting⟩
  exact ⟨⟨hwaiting, hfd, hleaves.state, hleaves.stands⟩, hleaves.written⟩

/-- A client that leaves takes nothing with it. -/
theorem Serving.close (hdeinit : ∀ c, d.deinit c = .ok true c) (h : Serving A s q) (accept : Bool) :
    Returns (jtag_vpi_tick d ⟨.closed, accept⟩) s fun _ t => Alone A t q ∧ t.sock.written = s.sock.written := by
  have hnot : s.jtag_vpi_recv ≠ SIZEOF_CMD := by
    rw [h.waits.count]
    decide
  have hcall : vpi_jtag d.deinit { s with sock := { s.sock with client_fd := -1 } } =
      .ok true { s with sock := { s.sock with client_fd := -1 } } := by
    unfold vpi_jtag focus
    rw [hdeinit]
  have hclose : vpi_read d .closed s = .ok () { s with sock := { s.sock with client_fd := -1 } } := by
    unfold vpi_read
    exact (bind_of_ok (modify_apply _ s)).trans (bind_of_ok hcall)
  have halone : ¬ (-1 : Int) ≥ 0 := by decide
  have hwaiting : Waits { s with sock := { s.sock with client_fd := -1 } } [] :=
    ⟨h.waits.size, h.waits.count, h.waits.held, h.waits.short⟩
  rw [Returns, tick_connected h.connected, bind_of_ok hclose, bind_of_ok (get_apply _)]
  exact ⟨(), _, congrFun (if_neg hnot) _, ⟨hwaiting, halone, h.state, h.stands⟩, rfl⟩

/-- Over any clients, one after the other, the server is the cable. -/
theorem visits_spec (hdeinit : ∀ c, d.deinit c = .ok true c) (h : Alone A s q) {nets : List Net}
    {rs : List JtagVpiCmd} (hvisits : Visits nets rs) (hapt : AllApt q.1 rs) :
    Follows (cable T) (fun t => t.sock.written) (Rests A) (nets.forM (jtag_vpi_tick d)) s q rs := by
  induction hvisits generalizing s q with
  | @waits waits hwaits =>
    have hrun := (waiting_spec (d := d) hwaits h.alone []).2
    rw [List.append_nil] at hrun
    exact follows_quiet ⟨(), s, hrun, ⟨h.state, h.stands⟩, rfl⟩
  | stays hwaits hopen hin hpart =>
    apply (h.client A _ hwaits hopen hapt hin hpart).mono
    rintro _ t ⟨hleaves, -⟩
    exact ⟨⟨hleaves.state, hleaves.stands⟩, hleaves.written⟩
  | @leaves waits nets rest recv accept rs rs' hwaits hopen hin _ ih =>
    obtain ⟨hfirst, hsecond⟩ := allApt_append.mp hapt
    rw [← cable_tap (T := T)] at hsecond
    have hcut : (waits ++ ⟨recv, true⟩ :: (nets ++ ⟨.closed, accept⟩ :: rest)).forM (jtag_vpi_tick d) = (do
        (waits ++ ⟨recv, true⟩ :: nets).forM (jtag_vpi_tick d)
        jtag_vpi_tick d ⟨.closed, accept⟩
        rest.forM (jtag_vpi_tick d)) := by
      rw [← List.cons_append, ← List.append_assoc]
      exact List.forM_append
    have hall : Follows (cable T) (fun t => t.sock.written) (Rests A)
        ((waits ++ ⟨recv, true⟩ :: (nets ++ ⟨.closed, accept⟩ :: rest)).forM (jtag_vpi_tick d)) s q
        (rs ++ ([] ++ rs')) := by
      rw [hcut]
      apply Follows.bind (h.whole A recv hwaits hopen hfirst hin)
      intro _ t hserving
      apply Follows.bind (follows_quiet (hserving.close A hdeinit accept))
      intro _ u halone
      exact ih halone hsecond
    rwa [List.nil_append] at hall

end JtagRemote.Vpi
