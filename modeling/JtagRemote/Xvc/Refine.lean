import JtagRemote.Hardware.Target
import JtagRemote.Xvc.Order
import JtagRemote.Xvc.Resync

/-!
# XVC as a cable

What the server is for: a client hands it batches of commands, and it is as if the
client clocked the target itself. The cable is a machine over whole batches, made
from the target alone; the server with its driver refines it tick by tick.
-/

namespace JtagRemote.Xvc

/-! ## The cable -/

/-- The cycles that a shift asks for. -/
def Shift.pins (sh : Shift) : List Pins := (List.range sh.bits).map fun i => ⟨bitAt sh.tms i, bitAt sh.tdi i⟩

def pinsOf (cmds : List Command) : List Pins := (shifts cmds).flatMap Shift.pins

section

variable {σ : Type} (T : Target σ)

/-- One reply for each shift, each from where the shift before left the target. -/
def replies (q : JtagState × σ) : List Shift → List Byte
  | [] => []
  | sh :: shs => packBits (T.machine.outs q sh.pins) ++ replies (T.machine.run q sh.pins) shs

/-- All commands of a batch but its shifts are answered first. -/
def cable : Mealy (JtagState × σ) (List Command) (List Byte) where
  step q cmds := T.machine.run q (pinsOf cmds)
  out q cmds := early cmds ++ replies T q (shifts cmds)

end

/-! ## A shift -/

theorem Shift.pins_length (sh : Shift) : sh.pins.length = sh.bits := by simp [Shift.pins]

theorem Shift.pins_tms (sh : Shift) : sh.pins.map Pins.tms = sh.tmsBits := by
  simp [Shift.pins, Shift.tmsBits, bitsOf, Function.comp_def]

theorem pinsOf_tms (cmds : List Command) : (pinsOf cmds).map Pins.tms = tmsOf cmds := by
  simp [pinsOf, tmsOf, List.map_flatMap, Shift.pins_tms]

theorem ShiftExact.same {st : JtagState} {sh : Shift} {cs : List Cycle} {reply : List Byte}
    (h : ShiftExact st sh cs reply) : SameAsked st (cs.map Cycle.pins) sh.pins := by
  have htms : (cs.map Cycle.pins).map Pins.tms = bitsOf sh.tms sh.bits := by
    rw [← map_tms_eq, h.tmsBits, Shift.tmsBits]
  constructor
  · rw [htms, Shift.pins_tms, Shift.tmsBits]
  · intro i hshift
    rw [List.getElem?_map]
    by_cases hi : i < cs.length
    · have hbits : i < sh.bits := h.cycles ▸ hi
      rw [htms, bitsOf_take, Nat.min_eq_left (Nat.le_of_lt hbits)] at hshift
      have htdi := (h.exact i hi).tdi hshift
      simp [List.getElem?_eq_getElem hi, Shift.pins, hbits, Cycle.pins, htdi]
    · have hbits : ¬ i < sh.bits := h.cycles ▸ hi
      simp [List.getElem?_eq_none (Nat.le_of_not_lt hi), Shift.pins, hbits]

/-- The reply has the bits of the cycles that shift. -/
theorem ShiftExact.reply_eq {st : JtagState} {sh : Shift} {cs : List Cycle} {reply : List Byte}
    (h : ShiftExact st sh cs reply) : reply = packBits (shiftBits st cs) := by
  apply eq_packBits
  · rw [h.bytes, shiftBits_length, h.cycles]
  · intro i _
    rw [List.getD_eq_getElem?_getD, shiftBits_getElem?]
    by_cases hi : i < cs.length
    · have hbits : i < sh.bits := h.cycles ▸ hi
      rw [(h.exact i hi).reply, List.getElem?_eq_getElem hi, h.tmsBits, Shift.tmsBits, bitsOf_take,
        Nat.min_eq_left (Nat.le_of_lt hbits)]
      rfl
    · rw [h.padding i (h.cycles ▸ Nat.le_of_not_lt hi), List.getElem?_eq_none (Nat.le_of_not_lt hi)]
      rfl

/-! ## The shifts of a tick -/

section

variable {σ : Type} {T : Target σ} {q₀ : JtagState × σ} {noise : List Cycle → Byte}

theorem AllExact.answered {st : JtagState} {shs : List Shift} {css : List (List Cycle)} {rs : List (List Byte)}
    (h : AllExact st shs css rs) {log : List Cycle} (hran : (T.board q₀ noise).Ran log css.flatten)
    (hst : st = (T.machine.run q₀ (log.map Cycle.pins)).1) :
    rs.flatten = replies T (T.machine.run q₀ (log.map Cycle.pins)) shs ∧
      T.machine.run q₀ ((log ++ css.flatten).map Cycle.pins) =
        T.machine.run (T.machine.run q₀ (log.map Cycle.pins)) (shs.flatMap Shift.pins) := by
  induction h generalizing log with
  | nil st => simp [replies]
  | @cons st sh shs cs css reply rs hexact _ ih =>
    rw [List.flatten_cons] at hran
    obtain ⟨hfirst, hrest⟩ := hran.split
    have hsame := hexact.same
    rw [hst] at hsame
    obtain ⟨hbits, hgoes⟩ := Target.answers hfirst hsame
    have hreply := hexact.reply_eq
    rw [hst, hbits] at hreply
    have hafter : sh.after st = (T.machine.run q₀ ((log ++ cs).map Cycle.pins)).1 := by
      rw [hgoes, Target.run_tap, ← hst, Shift.pins_tms]
      rfl
    obtain ⟨hreplies, hend⟩ := ih hrest hafter
    rw [hgoes] at hreplies hend
    constructor
    · rw [List.flatten_cons, hreply, hreplies, replies]
    · rw [List.flatten_cons, ← List.append_assoc, hend, List.flatMap_cons, Mealy.run_append]

end

/-! ## The client stays -/

section

variable {δ : Type} (d : driver δ)

/-- Commands leave the connection as it is. -/
def Stays {α : Type} (p : XvcProg δ α) : Prop := Keeps (fun s : Xvc δ => s.sock.client_fd) p

theorem Aside.stays {α : Type} {p : XvcProg δ α} (h : Aside p) : Stays p :=
  fun s => (h s).mono fun _ _ ht => congrArg Sock.client_fd ht

theorem xvc_reply_stays (data : List Byte) : Stays (xvc_reply data : XvcProg δ Unit) :=
  fun s => (xvc_reply_sock data s).mono fun _ _ ht => (congrArg Sock.client_fd ht).trans rfl

theorem xvc_consume_stays (n : Nat) : Stays (xvc_consume n : XvcProg δ Unit) := keeps_modify fun _ => rfl

theorem xvc_getinfo_stays : Stays (xvc_getinfo : XvcProg δ Unit) :=
  (xvc_consume_stays _).bind fun _ => xvc_reply_stays _

theorem xvc_settck_stays : Stays (xvc_settck d) :=
  fun s => (xvc_settck_takes d s).mono fun _ _ ht => (congrArg Sock.client_fd ht).trans rfl

theorem xvc_shift_stays : Stays (xvc_shift d) := by
  have hcopied : ∀ tms tdi, Stays (modify fun s => { s with tms := tms, tdi := tdi } : XvcProg δ Unit) :=
    fun _ _ => keeps_modify fun _ => rfl
  unfold xvc_shift
  refine Keeps.get_bind fun s => (keeps_of_same fun t => (bytes_at_spec _ _ _ t).mono fun _ _ h => h.1).bind fun _ => ?_
  refine keeps_ite (keeps_pure _) ?_
  refine (keeps_of_same fun t => (bytes_at_spec _ _ _ t).mono fun _ _ h => h.1).bind fun _ => ?_
  refine (keeps_of_same fun t => (memcpy_spec _ _ _ t).mono fun _ _ h => h.1).bind fun _ => ?_
  refine (keeps_of_same fun t => (bytes_at_spec _ _ _ t).mono fun _ _ h => h.1).bind fun _ => ?_
  refine (keeps_of_same fun t => (memcpy_spec _ _ _ t).mono fun _ _ h => h.1).bind fun _ => ?_
  refine (hcopied _ _).bind fun _ => (xvc_consume_stays _).bind fun _ => ?_
  refine (analyze_bitbang_keeps _ _ _).bind fun p => ?_
  refine (keeps_forM fun r => (xvc_region_aside d _ r).stays).bind fun _ => Keeps.get_bind fun _ => ?_
  exact (assert_keeps _).bind fun _ => keeps_pure _

theorem xvc_parse_stays (fuel : Nat) (acc : List ShiftCommand) : Stays (xvc_parse d fuel acc) := by
  induction fuel generalizing acc with
  | zero => exact keeps_throw _
  | succ fuel ih =>
    unfold xvc_parse
    refine Keeps.get_bind fun s => keeps_ite (xvc_getinfo_stays.bind fun _ => ih acc) ?_
    refine keeps_ite ((xvc_settck_stays d).bind fun _ => ih acc) (keeps_ite ?_ (keeps_pure _))
    refine (xvc_shift_stays d).bind fun r => ?_
    cases r with
    | none => exact keeps_pure _
    | some c => exact ih _

theorem read_backs_stays (cs : List ShiftCommand) : Stays (cs.forM (xvc_read_back d)) :=
  fun s => (read_backs_sock d cs s).mono fun _ _ ht => (congrArg Sock.client_fd ht).trans rfl

theorem tick_stays {s : Xvc δ} {net : Net} {cmds : List Command} {rest : List Byte} (h : Arrives s net cmds rest) :
    Ensures (jtag_xvc_tick d net) s fun _ t => t.sock.client_fd = s.sock.client_fd := by
  obtain ⟨sock, hread, -⟩ := h.read
  obtain ⟨_, _, hread', -, -, -, htrue, -⟩ := h.globals.sock.read_socket_ok net.recv
  rw [hread] at hread'
  cases hread'
  have hparse := (xvc_parse_stays d (BUFFER_SIZE + 1) []).bind (read_backs_stays d)
  rw [Ensures, tick_connected h.connected, bind_of_ok (xvc_sock_ok hread)]
  exact (hparse { s with sock := sock }).mono fun _ t ht => ht.trans (htrue rfl).1

end

/-! ## Batch after batch -/

/-- Tick after tick, each of which reads one batch. -/
def serve {δ : Type} (d : driver δ) (batches : List (List Command)) : XvcProg δ Unit :=
  batches.forM fun cmds => jtag_xvc_tick d ⟨deliver (encodeAll cmds), false⟩

section

variable {σ δ : Type} {T : Target σ} {q₀ q : JtagState × σ} {noise : List Cycle → Byte} {d : driver δ}
  (A : Adapter (T.board q₀ noise) d) {s : Xvc δ}

/-- A client is there, the window is empty, and `q` is where the target is. -/
structure Serving (s : Xvc δ) (q : JtagState × σ) : Prop where
  globals : Ok s
  connected : 0 ≤ s.sock.client_fd
  empty : s.sock.window = []
  state : s.jtag.state = q.1
  stands : ∃ log tms, A.Stands s.jtag.state s.jtag.dev ⟨log, tms, []⟩ ∧ T.machine.run q₀ (log.map Cycle.pins) = q

theorem Serving.tick (hroom : ∀ k, A.Room k) (hticks : ∀ n, A.ticks n = n) (h : Serving A s q) {cmds : List Command}
    (hfits : (encodeAll cmds).length ≤ BUFFER_SIZE) (hperiods : PeriodsOk A.Accepts cmds) :
    Returns (jtag_xvc_tick d ⟨deliver (encodeAll cmds), false⟩) s fun _ t => Serving A t ((cable T).step q cmds) ∧
      t.sock.written = s.sock.written ++ (cable T).out q cmds := by
  obtain ⟨log, tms, hstands, rfl⟩ := h.stands
  have harrives := arrives_of_empty h.globals h.connected h.empty hfits
  have hruns : Runs A s.jtag.state 0 cmds := (runs_iff A _ _ _).mpr ⟨hperiods, fun j _ _ => hroom j⟩
  obtain ⟨_, t, hrun, xs, hticked, hwritten⟩ := tick_spec A harrives hstands rfl hruns
  have hexact := hticked.session.exact hticks
  have hran := hticked.ran
  rw [hticked.shifts] at hexact
  rw [List.flatMap_def] at hran
  obtain ⟨hreplies, hend⟩ := hexact.answered hran h.state
  obtain ⟨tms', hstands'⟩ := hticked.stands
  refine ⟨(), t, hrun, ⟨hticked.globals, ?_, hticked.window, ?_, _, tms', hstands', ?_⟩, ?_⟩
  · rw [tick_stays d harrives () t hrun]
    exact h.connected
  · show t.jtag.state = (T.machine.run _ (pinsOf cmds)).1
    rw [hticked.state, stateAfterAll_eq, Target.run_tap, pinsOf_tms, ← h.state]
  · rw [List.flatMap_def]
    exact hend
  · rw [hwritten, List.flatMap_def, hreplies]
    rfl

theorem serve_spec (hroom : ∀ k, A.Room k) (hticks : ∀ n, A.ticks n = n) (h : Serving A s q)
    {batches : List (List Command)} (hfits : ∀ cmds ∈ batches, (encodeAll cmds).length ≤ BUFFER_SIZE)
    (hperiods : ∀ cmds ∈ batches, PeriodsOk A.Accepts cmds) :
    Returns (serve d batches) s fun _ t => Serving A t ((cable T).run q batches) ∧
      t.sock.written = s.sock.written ++ ((cable T).outs q batches).flatten := by
  have hall : Follows (cable T) (fun t => t.sock.written) (Serving A) (serve d batches) s q
      (batches.flatMap fun cmds => [cmds]) := by
    apply Follows.forM (fun _ l => ∀ cmds ∈ l, (encodeAll cmds).length ≤ BUFFER_SIZE ∧ PeriodsOk A.Accepts cmds)
    · intro _ cmds l hgood
      exact (List.forall_mem_cons.mp hgood).2
    · intro s q cmds l hserving hgood
      obtain ⟨hfit, hperiod⟩ := (List.forall_mem_cons.mp hgood).1
      exact follows_one (hserving.tick A hroom hticks hfit hperiod)
    · exact h
    · exact fun cmds hmem => ⟨hfits cmds hmem, hperiods cmds hmem⟩
  rw [List.flatMap_singleton'] at hall
  exact hall

/-! ## Client after client -/

/-- No client is there, and nothing of the last one. -/
structure Alone (s : Xvc δ) (q : JtagState × σ) : Prop where
  sized : Sized s
  alone : s.sock.client_fd < 0
  empty : s.sock.window = []
  state : s.jtag.state = q.1
  stands : ∃ log tms, A.Stands s.jtag.state s.jtag.dev ⟨log, tms, []⟩ ∧ T.machine.run q₀ (log.map Cycle.pins) = q

theorem Alone.accept (h : Alone A s q) :
    Returns (jtag_xvc_tick d ⟨.failed, true⟩) s fun _ t => Serving A t q ∧ t.sock.written = s.sock.written := by
  have hok : Ok { s with sock := { s.sock with client_fd := 4, alive := true } } :=
    ⟨⟨h.sized.sock.size, h.sized.sock.order, h.sized.sock.bound⟩, rfl, h.sized.tms, h.sized.tdi, h.sized.tdo⟩
  rw [Returns, tick_alone (Int.not_le.mpr h.alone)]
  exact ⟨(), _, rfl, ⟨hok, (by decide : (0 : Int) ≤ 4), h.empty, h.state, h.stands⟩, rfl⟩

theorem Serving.close (h : Serving A s q) :
    Returns (jtag_xvc_tick d ⟨.closed, false⟩) s fun _ t => Alone A t q ∧ t.sock.written = s.sock.written := by
  obtain ⟨k, hread, hok, hwritten, hfd, hempty⟩ := h.globals.sock.read_closed h.empty
  rw [Returns, tick_connected h.connected, bind_of_ok (xvc_sock_ok hread)]
  refine ⟨(), _, rfl, ⟨⟨hok, h.globals.tms, h.globals.tdi, h.globals.tdo⟩, ?_, hempty, h.state, h.stands⟩, hwritten⟩
  show k.client_fd < 0
  rw [hfd]
  decide

/-- A client comes, sends its batches, and leaves. -/
def visit {δ : Type} (d : driver δ) (batches : List (List Command)) : XvcProg δ Unit := do
  jtag_xvc_tick d ⟨.failed, true⟩
  serve d batches
  jtag_xvc_tick d ⟨.closed, false⟩

theorem visit_spec (hroom : ∀ k, A.Room k) (hticks : ∀ n, A.ticks n = n) (h : Alone A s q)
    {batches : List (List Command)} (hfits : ∀ cmds ∈ batches, (encodeAll cmds).length ≤ BUFFER_SIZE)
    (hperiods : ∀ cmds ∈ batches, PeriodsOk A.Accepts cmds) :
    Follows (cable T) (fun t => t.sock.written) (Alone A) (visit d batches) s q batches := by
  have hvisit : Follows (cable T) (fun t => t.sock.written) (Alone A) (visit d batches) s q
      ([] ++ (batches ++ [])) := by
    unfold visit
    apply Follows.bind (follows_quiet h.accept)
    intro _ t hserving
    apply Follows.bind (serve_spec A hroom hticks hserving hfits hperiods)
    intro _ u hserving'
    exact follows_quiet hserving'.close
  rwa [List.nil_append, List.append_nil] at hvisit

/-- Over a driver that keeps any number of scans and whose idle clock is worth its cycles, the server is
the cable: each client finds the target as the one before left it. -/
theorem xvc_refines_cable (hroom : ∀ k, A.Room k) (hticks : ∀ n, A.ticks n = n) (h : Alone A s q)
    {visits : List (List (List Command))}
    (hfits : ∀ batches ∈ visits, ∀ cmds ∈ batches, (encodeAll cmds).length ≤ BUFFER_SIZE)
    (hperiods : ∀ batches ∈ visits, ∀ cmds ∈ batches, PeriodsOk A.Accepts cmds) :
    Returns (visits.forM (visit d)) s fun _ t => Alone A t ((cable T).run q visits.flatten) ∧
      t.sock.written = s.sock.written ++ ((cable T).outs q visits.flatten).flatten := by
  have hall : Follows (cable T) (fun t => t.sock.written) (Alone A) (visits.forM (visit d)) s q
      (visits.flatMap id) := by
    apply Follows.forM (fun _ l => ∀ batches ∈ l, ∀ cmds ∈ batches,
      (encodeAll cmds).length ≤ BUFFER_SIZE ∧ PeriodsOk A.Accepts cmds)
    · intro _ batches l hgood
      exact (List.forall_mem_cons.mp hgood).2
    · intro s q batches l halone hgood
      have hfirst := (List.forall_mem_cons.mp hgood).1
      exact visit_spec A hroom hticks halone (fun cmds hmem => (hfirst cmds hmem).1) fun cmds hmem => (hfirst cmds hmem).2
    · exact h
    · exact fun batches hb cmds hmem => ⟨hfits batches hb cmds hmem, hperiods batches hb cmds hmem⟩
  rw [List.flatMap_id] at hall
  exact hall

end

/-! ## What the client reads -/

/-- The TDO bits that a client takes from the replies to its shifts. -/
def tdoBits : List Shift → List Byte → List Bool
  | [], _ => []
  | sh :: shs, bytes => bitsOf bytes sh.bits ++ tdoBits shs (bytes.drop sh.bytes)

theorem bitsOf_packed (bs : List Bool) (x : List Byte) : bitsOf (packBits bs ++ x) bs.length = bs := by
  have hsame : bitsOf (packBits bs ++ x) bs.length = bitsOf (packBits bs) bs.length := by
    apply bitsOf_congr
    intro i hi
    rw [bitAt_append, if_pos (by rw [packBits_length]; omega)]
  rw [hsame, bitsOf_packBits]

theorem tdoBits_replies {σ : Type} (T : Target σ) (q : JtagState × σ) (shs : List Shift) (x : List Byte) :
    tdoBits shs (replies T q shs ++ x) = T.machine.outs q (shs.flatMap Shift.pins) := by
  induction shs generalizing q with
  | nil => rfl
  | cons sh shs ih =>
    have hlen : (T.machine.outs q sh.pins).length = sh.bits := by rw [Mealy.outs_length, Shift.pins_length]
    have hbytes : (packBits (T.machine.outs q sh.pins)).length = sh.bytes := by
      rw [packBits_length, hlen, Shift.bytes]
    have hfront := bitsOf_packed (T.machine.outs q sh.pins) (replies T (T.machine.run q sh.pins) shs ++ x)
    rw [hlen] at hfront
    rw [tdoBits, replies, List.append_assoc, hfront, List.drop_left' hbytes, ih, List.flatMap_cons, Mealy.outs_append]

theorem replies_append {σ : Type} (T : Target σ) (q : JtagState × σ) (shs shs' : List Shift) :
    replies T q (shs ++ shs') = replies T q shs ++ replies T (T.machine.run q (shs.flatMap Shift.pins)) shs' := by
  induction shs generalizing q with
  | nil => rfl
  | cons sh shs ih => simp [replies, ih, Mealy.run_append]

theorem shifts_of_shifts (shs : List Shift) : shifts (shs.map Command.shift) = shs := by
  induction shs with
  | nil => rfl
  | cons sh shs ih => simp [shifts, ih]

theorem early_of_shifts (shs : List Shift) : early (shs.map Command.shift) = [] := by
  induction shs with
  | nil => rfl
  | cons sh shs ih => simp [early, ih]

/-- Batches of shifts alone are answered with the replies one after the other. -/
theorem cable_shifts {σ : Type} (T : Target σ) (q : JtagState × σ) (batches : List (List Shift)) :
    ((cable T).outs q (batches.map (List.map Command.shift))).flatten = replies T q batches.flatten ∧
      (cable T).run q (batches.map (List.map Command.shift)) =
        T.machine.run q (batches.flatten.flatMap Shift.pins) := by
  induction batches generalizing q with
  | nil => exact ⟨rfl, rfl⟩
  | cons shs batches ih =>
    obtain ⟨houts, hrun⟩ := ih (T.machine.run q (shs.flatMap Shift.pins))
    have hshifts : shifts (shs.map Command.shift) = shs := shifts_of_shifts shs
    have hearly : early (shs.map Command.shift) = [] := early_of_shifts shs
    have hpins : pinsOf (shs.map Command.shift) = shs.flatMap Shift.pins := by rw [pinsOf, hshifts]
    rw [List.map_cons, Mealy.outs_cons, Mealy.run_cons, List.flatten_cons, List.flatten_cons, List.flatMap_append,
      Mealy.run_append, replies_append]
    simp only [cable, hshifts, hearly, hpins, List.nil_append] at houts hrun ⊢
    exact ⟨by rw [houts], hrun⟩

section

variable {σ δ : Type} {T : Target σ} {q₀ q : JtagState × σ} {noise : List Cycle → Byte} {d : driver δ}
  (A : Adapter (T.board q₀ noise) d) {s : Xvc δ}

theorem serve_shifts_spec (hroom : ∀ k, A.Room k) (hticks : ∀ n, A.ticks n = n) (h : Serving A s q)
    {batches : List (List Shift)}
    (hfits : ∀ shs ∈ batches, (encodeAll (shs.map Command.shift)).length ≤ BUFFER_SIZE) :
    Returns (serve d (batches.map (List.map Command.shift))) s fun _ t => ∃ bytes,
      t.sock.written = s.sock.written ++ bytes ∧
      tdoBits batches.flatten bytes = T.machine.outs q (batches.flatten.flatMap Shift.pins) ∧
      Serving A t (T.machine.run q (batches.flatten.flatMap Shift.pins)) := by
  have hperiods : ∀ cmds ∈ batches.map (List.map Command.shift), PeriodsOk A.Accepts cmds := by
    intro cmds hcmds period hmem
    obtain ⟨shs, -, rfl⟩ := List.mem_map.mp hcmds
    simp at hmem
  obtain ⟨houts, hrun⟩ := cable_shifts T q batches
  apply (serve_spec A hroom hticks h (by simpa using hfits) hperiods).mono
  rintro _ t ⟨hserving, hwritten⟩
  rw [houts] at hwritten
  rw [hrun] at hserving
  refine ⟨_, hwritten, ?_, hserving⟩
  have := tdoBits_replies T q batches.flatten []
  rwa [List.append_nil] at this

/-- However a client cuts its cycles into shifts and batches, and whatever it puts on TDI while nothing is
shifted: it reads the same bits, and leaves the target in the same state. -/
theorem xvc_cuts_alike (hroom : ∀ k, A.Room k) (hticks : ∀ n, A.ticks n = n) (h : Serving A s q)
    {one two : List (List Shift)}
    (hone : ∀ shs ∈ one, (encodeAll (shs.map Command.shift)).length ≤ BUFFER_SIZE)
    (htwo : ∀ shs ∈ two, (encodeAll (shs.map Command.shift)).length ≤ BUFFER_SIZE)
    (hsame : SameAsked q.1 (one.flatten.flatMap Shift.pins) (two.flatten.flatMap Shift.pins)) :
    ∃ t t' bytes bytes' q', serve d (one.map (List.map Command.shift)) s = .ok () t ∧
      serve d (two.map (List.map Command.shift)) s = .ok () t' ∧
      t.sock.written = s.sock.written ++ bytes ∧ t'.sock.written = s.sock.written ++ bytes' ∧
      tdoBits one.flatten bytes = tdoBits two.flatten bytes' ∧ Serving A t q' ∧ Serving A t' q' := by
  obtain ⟨_, t, hrun, bytes, hwritten, hbits, hserving⟩ := serve_shifts_spec A hroom hticks h hone
  obtain ⟨_, t', hrun', bytes', hwritten', hbits', hserving'⟩ := serve_shifts_spec A hroom hticks h htwo
  have halike := Target.alike (T := T) hsame
  rw [← halike.outs] at hbits'
  rw [← halike.run] at hserving'
  exact ⟨t, t', bytes, bytes', _, hrun, hrun', hwritten, hwritten', hbits.trans hbits'.symm, hserving, hserving'⟩

end

/-! ## On a bench -/

theorem bypass_serving (st : JtagState) :
    Serving (T := bypassTarget) (benchMpsseAdapter (bypassBoard st)) (fresh (benchMpsse st)) (st, false) :=
  ⟨fresh_ok _, (by decide : (0 : Int) ≤ 4), rfl, rfl, [], false, benchMpsse_stands (bypassBoard st) st, rfl⟩

theorem bypass_alone (st : JtagState) :
    Alone (T := bypassTarget) (benchMpsseAdapter (bypassBoard st)) (bootXvc (benchMpsse st)) (st, false) :=
  ⟨⟨bootSock_ok, List.length_replicate, List.length_replicate, List.length_replicate⟩,
    (by decide : (-1 : Int) < 0), rfl, rfl, [], false, benchMpsse_stands (bypassBoard st) st, rfl⟩

/-- A client asks for the info and shifts two bits, and the next one goes on from there. -/
def twoVisits : List (List (List Command)) := [[[.getinfo, .shift idcodeShift]], [[.shift stayShift], []]]

theorem xvc_refines_cable_two :
    Returns (twoVisits.forM (visit (mpsse_driver (mpsseUsb (bypassBoard .RunTestIdle) Mpsse.idleEngine) (100 + 0) 15)))
      (bootXvc (benchMpsse .RunTestIdle)) fun _ t =>
        Alone (T := bypassTarget) (benchMpsseAdapter (bypassBoard .RunTestIdle)) t
          ((cable bypassTarget).run (.RunTestIdle, false) twoVisits.flatten) ∧
        t.sock.written = [] ++ ((cable bypassTarget).outs (.RunTestIdle, false) twoVisits.flatten).flatten := by
  have hfits : ∀ batches ∈ twoVisits, ∀ cmds ∈ batches, (encodeAll cmds).length ≤ BUFFER_SIZE := by decide
  have hperiods : ∀ batches ∈ twoVisits, ∀ cmds ∈ batches,
      PeriodsOk (benchMpsseAdapter (bypassBoard .RunTestIdle)).Accepts cmds := by
    intro batches hbatches cmds hcmds period hmem
    simp only [twoVisits, List.mem_cons, List.not_mem_nil, or_false] at hbatches
    rcases hbatches with rfl | rfl <;> simp at hcmds <;> rcases hcmds with rfl | rfl <;> simp at hmem
  exact xvc_refines_cable (benchMpsseAdapter (bypassBoard .RunTestIdle)) (fun _ => trivial) (fun _ => rfl)
    (bypass_alone .RunTestIdle) hfits hperiods

/-- Seven cycles in two shifts, or in eight of one bit each, and one shift in each batch then. -/
def fewShifts : List (List Shift) := [[idcodeShift, stayShift]]

/-- A shift of one bit. -/
theorem bitShift_fits : 1 ≤ MAX_BITS := by decide

theorem bitShift_size (b : Bool) : (packBits [b]).length = (1 + 7) / 8 := packBits_length [b]

def bitShift (tms tdi : Bool) : Shift :=
  ⟨1, packBits [tms], packBits [tdi], bitShift_fits, bitShift_size tms, bitShift_size tdi⟩

def manyShifts : List (List Shift) :=
  (idcodeShift.pins ++ stayShift.pins).map fun p => [bitShift p.tms p.tdi]

theorem xvc_cuts_alike_bits : ∃ t t' bytes bytes' q',
    serve (mpsse_driver (mpsseUsb (bypassBoard .RunTestIdle) Mpsse.idleEngine) (100 + 0) 15)
      (fewShifts.map (List.map Command.shift)) (fresh (benchMpsse .RunTestIdle)) = .ok () t ∧
    serve (mpsse_driver (mpsseUsb (bypassBoard .RunTestIdle) Mpsse.idleEngine) (100 + 0) 15)
      (manyShifts.map (List.map Command.shift)) (fresh (benchMpsse .RunTestIdle)) = .ok () t' ∧
    t.sock.written = [] ++ bytes ∧ t'.sock.written = [] ++ bytes' ∧
    tdoBits fewShifts.flatten bytes = tdoBits manyShifts.flatten bytes' ∧
    Serving (T := bypassTarget) (benchMpsseAdapter (bypassBoard .RunTestIdle)) t q' ∧
    Serving (T := bypassTarget) (benchMpsseAdapter (bypassBoard .RunTestIdle)) t' q' := by
  have hpins : fewShifts.flatten.flatMap Shift.pins = manyShifts.flatten.flatMap Shift.pins := by decide
  have hsame : SameAsked .RunTestIdle (fewShifts.flatten.flatMap Shift.pins)
      (manyShifts.flatten.flatMap Shift.pins) := by
    rw [hpins]
    exact .refl _ _
  exact xvc_cuts_alike (benchMpsseAdapter (bypassBoard .RunTestIdle)) (fun _ => trivial) (fun _ => rfl)
    (bypass_serving .RunTestIdle) (by decide) (by decide) hsame

end JtagRemote.Xvc
