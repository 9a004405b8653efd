import JtagRemote.Hardware.Target
import JtagRemote.Rbb.Split
import JtagRemote.Stream

/-!
# Remote bitbang as a cable

What the protocol says: every command of '4' to '7' clocks the target, and every 'R'
samples TDO as it is at that moment. The server collects whole reads, cuts them into
scans and samples later; for the streams of a client it is the cable all the same.
-/

namespace JtagRemote.Rbb

/-! ## The cable -/

/-- What a client gets for a sample. -/
def sampleChar (b : Bool) : Byte := if b then CHAR_1 else CHAR_0

section

variable {σ : Type} (T : Target σ)

/-- Command after command, with nothing in between. -/
def bitbang : Mealy (JtagState × σ) Byte (List Byte) where
  step q c := match clock c with
    | some p => T.machine.step q p
    | none => q
  out q c := if (clock c).isNone ∧ c = CHAR_R then [sampleChar (T.tdo q.1 q.2)] else []

theorem bitbang_run (q : JtagState × σ) (cs : List Byte) : (bitbang T).run q cs = T.machine.run q (pins cs) := by
  induction cs generalizing q with
  | nil => rfl
  | cons c cs ih =>
    rw [Mealy.run_cons, ih, pins, pins, List.filterMap_cons]
    cases hc : clock c <;> simp [bitbang, hc]

theorem marks_cons (c : Byte) (cs : List Byte) : marks (c :: cs) =
    if (clock c).isSome then (marks cs).map (1 + ·) else if c = CHAR_R then 0 :: marks cs else marks cs := by
  rw [marks, marksFrom, marksFrom_shift (0 + 1) cs]
  rfl

/-- The samples are those before the marked cycles. -/
theorem bitbang_outs (q : JtagState × σ) (cs : List Byte) : ((bitbang T).outs q cs).flatten = (marks cs).map fun p =>
    sampleChar (T.tdo (T.machine.run q ((pins cs).take p)).1 (T.machine.run q ((pins cs).take p)).2) := by
  induction cs generalizing q with
  | nil => rfl
  | cons c cs ih =>
    have hpins : pins (c :: cs) = (clock c).toList ++ pins cs := by
      rw [pins, pins, List.filterMap_cons]
      cases clock c <;> rfl
    rw [Mealy.outs_cons, List.flatten_cons, ih, marks_cons, hpins]
    cases hc : clock c with
    | some p => simp [bitbang, hc, Function.comp_def, Nat.add_comm 1]
    | none =>
      by_cases hread : c = CHAR_R
      · subst hread
        simp [bitbang, hc]
      · simp [bitbang, hc, hread]

end

/-! ## What is played -/

theorem shifts_eq (st : JtagState) (cs : List Byte) {i : Nat} (hi : i ≤ (pins cs).length) :
    shifts st cs i = (stateAfter st (((pins cs).map Pins.tms).take i)).isShift := by
  rw [← bitsOf_tmsOf, bitsOf_take, Nat.min_eq_left hi]
  rfl

theorem Plays.same_asked {st : JtagState} {cs : List Byte} {cyc : List Cycle} (h : Plays st cs cyc) :
    SameAsked st (cyc.map Cycle.pins) (pins cs) := by
  have htms : (cyc.map Cycle.pins).map Pins.tms = (pins cs).map Pins.tms := by rw [← map_tms_eq, h.tms]
  refine ⟨htms, ?_⟩
  intro i hshift
  rw [List.getElem?_map, Option.map_map]
  by_cases hi : i < (pins cs).length
  · rw [htms, ← shifts_eq st cs (Nat.le_of_lt hi)] at hshift
    exact h.tdi i hshift
  · have hlen : cyc.length = (pins cs).length := by simpa using congrArg List.length h.tms
    rw [List.getElem?_eq_none (Nat.le_of_not_lt hi), List.getElem?_eq_none (hlen ▸ Nat.le_of_not_lt hi)]
    rfl

/-- No mark is left without its cycle. -/
theorem not_cut_stream {turns : List Turn} (hcuts : ∀ t ∈ turns, ¬ Cut t.bytes) : ¬ Cut (stream turns) := by
  induction turns with
  | nil => exact List.not_mem_nil
  | cons t turns ih =>
    rw [List.forall_mem_cons] at hcuts
    have hstream : stream (t :: turns) = t.bytes ++ stream turns := List.flatMap_cons
    rw [hstream, Cut, pins_append, List.length_append, mem_marks_right _ hcuts.1]
    exact ih hcuts.2

section

variable {σ δ : Type} {T : Target σ} {q₀ q : JtagState × σ} {noise : List Cycle → Byte} {d : driver δ}
  (A : Adapter (T.board q₀ noise) d) {s t : Rbb δ} {l : Line} {cs : List Byte} {cyc : List Cycle} {reply : List Byte}

/-- The TDO of a marked cycle is what the target drove just before it. -/
theorem Executed.sampled (h : Executed A s l cs t cyc reply)
    (hst : s.jtag.state = (T.machine.run q₀ (l.log.map Cycle.pins)).1) :
    reply = ((bitbang T).outs (T.machine.run q₀ (l.log.map Cycle.pins)) cs).flatten ∧
      T.machine.run q₀ ((l.log ++ cyc).map Cycle.pins) =
        (bitbang T).run (T.machine.run q₀ (l.log.map Cycle.pins)) cs := by
  have hsame := h.plays.same_asked
  rw [hst] at hsame
  constructor
  · apply List.map_injective_iff.mpr (Option.some_injective _)
    rw [h.answers, bitbang_outs, List.map_map]
    apply List.map_congr_left
    intro p hp
    have hlt := h.answers.lt p hp
    have htake := Target.alike (T := T) (hsame.take p)
    rw [List.getElem?_eq_getElem hlt, Option.map_some, tdoChar, h.ran.tdo (List.getElem?_eq_getElem hlt)]
    rw [Function.comp_apply, ← htake.run, ← List.map_take, ← Mealy.run_append, ← List.map_append]
    rfl
  · rw [bitbang_run, List.map_append, Mealy.run_append, (Target.alike hsame).run]

/-- A client is there, and `q` is where the target is. -/
structure Serving (s : Rbb δ) (q : JtagState × σ) : Prop where
  state : s.jtag.state = q.1
  serves : ∃ log tms, Serves A s ⟨log, tms, []⟩ ∧ T.machine.run q₀ (log.map Cycle.pins) = q

theorem Serving.turns (hroom : A.Room 0) (h : Serving A s q) {turns : List Turn} (hsteady : Steady q.1 (stream turns))
    (hcuts : ∀ t ∈ turns, ¬ Cut t.bytes) :
    Returns (serve d turns) s fun _ t => Serving A t ((bitbang T).run q (stream turns)) ∧
      t.sock = wrote s.sock ((bitbang T).outs q (stream turns)).flatten := by
  obtain ⟨log, tms, hserves, rfl⟩ := h.serves
  have hst := h.state
  rw [← hst] at hsteady
  apply (serve_spec A hroom hserves hsteady hcuts).mono
  rintro _ t ⟨cyc, reply, hexec⟩
  obtain ⟨hreply, hrun⟩ := hexec.sampled A hst
  obtain ⟨tms', hserves'⟩ := hexec.serves A hserves
  refine ⟨⟨?_, _, tms', hserves', hrun⟩, ?_⟩
  · rw [hexec.state, hst, bitbang_run]
    exact (T.run_tap _ _).symm
  · rw [hexec.sock, hreply]

/-! ## Client after client -/

/-- No client is there. -/
structure Alone (s : Rbb δ) (q : JtagState × σ) : Prop where
  alone : s.sock.client_fd < 0
  state : s.jtag.state = q.1
  stands : ∃ log tms, A.Stands s.jtag.state s.jtag.dev ⟨log, tms, []⟩ ∧ T.machine.run q₀ (log.map Cycle.pins) = q

theorem Alone.accept (junk : Junk) (h : Alone A s q) :
    Returns (jtag_rbb_tick d junk ⟨.failed, true⟩) s fun _ t => Serving A t q ∧ t.sock.written = s.sock.written := by
  obtain ⟨log, tms, hstands, hq⟩ := h.stands
  unfold jtag_rbb_tick
  rw [Returns, bind_of_ok (get_apply s)]
  refine ⟨(), _, congrFun (if_neg (Int.not_le.mpr h.alone)) s, ⟨h.state, log, tms, ?_, hq⟩, rfl⟩
  exact ⟨(by decide : (0 : Int) ≤ 4), rfl, hstands, rfl⟩

theorem Serving.close (junk : Junk) (h : Serving A s q) :
    Returns (jtag_rbb_tick d junk ⟨.closed, false⟩) s fun _ t => Alone A t q ∧ t.sock.written = s.sock.written := by
  obtain ⟨log, tms, hserves, hq⟩ := h.serves
  unfold jtag_rbb_tick
  rw [Returns, bind_of_ok (get_apply s)]
  refine ⟨(), _, congrFun (if_pos hserves.connected) s, ⟨?_, h.state, log, tms, hserves.stands, hq⟩, rfl⟩
  exact (by decide : (-1 : Int) < 0)

/-- A client comes, sends its bytes, and leaves. -/
def visit {δ : Type} (d : driver δ) (junk : Junk) (turns : List Turn) : RbbProg δ Unit := do
  jtag_rbb_tick d junk ⟨.failed, true⟩
  serve d turns
  jtag_rbb_tick d junk ⟨.closed, false⟩

theorem visit_spec (junk : Junk) (hroom : A.Room 0) (h : Alone A s q) {turns : List Turn}
    (hsteady : Steady q.1 (stream turns)) (hcuts : ∀ t ∈ turns, ¬ Cut t.bytes) :
    Follows (bitbang T) (fun t => t.sock.written) (Alone A) (visit d junk turns) s q (stream turns) := by
  have hturns : ∀ t, Serving A t q →
      Follows (bitbang T) (fun t => t.sock.written) (Serving A) (serve d turns) t q (stream turns) := by
    intro t hserving
    apply (hserving.turns A hroom hsteady hcuts).mono
    rintro _ u ⟨hserving', hsock⟩
    exact ⟨hserving', congrArg Sock.written hsock⟩
  have hvisit : Follows (bitbang T) (fun t => t.sock.written) (Alone A) (visit d junk turns) s q
      ([] ++ (stream turns ++ [])) := by
    unfold visit
    apply Follows.bind (follows_quiet (h.accept A junk))
    intro _ t hserving
    apply Follows.bind (hturns t hserving)
    intro _ u hserving'
    exact follows_quiet (hserving'.close A junk)
  rwa [List.nil_append, List.append_nil] at hvisit

/-- Each client reads data in the Shift states, a scan as a whole or not at all, and no read parts an 'R'
from its clock. -/
def Orderly : JtagState → List (List Turn) → Prop
  | _, [] => True
  | st, turns :: visits => Steady st (stream turns) ∧ (∀ t ∈ turns, ¬ Cut t.bytes) ∧
      Orderly (afterCommands st (stream turns)) visits

/-- The server samples as the protocol says, for each client from where the one before left the target. -/
theorem rbb_refines_cable (junk : Junk) (hroom : A.Room 0) (h : Alone A s q) {visits : List (List Turn)}
    (horderly : Orderly q.1 visits) :
    Returns (visits.forM (visit d junk)) s fun _ t => Alone A t ((bitbang T).run q (visits.flatMap stream)) ∧
      t.sock.written = s.sock.written ++ ((bitbang T).outs q (visits.flatMap stream)).flatten := by
  show Follows (bitbang T) (fun t => t.sock.written) (Alone A) (visits.forM (visit d junk)) s q _
  apply Follows.forM (fun q l => Orderly q.1 l)
  · rintro q turns l ⟨-, -, hrest⟩
    have hafter : ((bitbang T).run q (stream turns)).1 = afterCommands q.1 (stream turns) := by
      rw [bitbang_run, Target.run_tap, afterCommands]
    rwa [hafter]
  · rintro s q turns l halone ⟨hsteady, hcuts, -⟩
    exact visit_spec A junk hroom halone hsteady hcuts
  · exact h
  · exact horderly

end

/-! ## On a bench -/

def bootRbb {δ : Type} (c : Jtag δ) : Rbb δ := ⟨c, bootSock⟩

theorem bypass_alone (st : JtagState) :
    Alone (T := bypassTarget) (benchMpsseAdapter (bypassBoard st)) (bootRbb (benchMpsse st)) (st, false) :=
  ⟨(by decide : (-1 : Int) < 0), rfl, [], false, benchMpsse_stands (bypassBoard st) st, rfl⟩

/-- A bit is read twice, by two clients, and the second one needs two reads for it. -/
def twoVisits : List (List Turn) := [[wholeTurn], safeTurns]

theorem twoVisits_orderly : Orderly .ShiftDR twoVisits := by
  have hsteady := oneRead_wellMarked.steady.1
  exact ⟨hsteady, fun t ht => (wholeTurn_whole t ht).not_cut, hsteady, by decide, trivial⟩

theorem rbb_refines_cable_two :
    Returns (twoVisits.forM (visit (mpsse_driver (mpsseUsb (bypassBoard .ShiftDR) Mpsse.idleEngine) (100 + 0) 15)
        zeroJunk)) (bootRbb (benchMpsse .ShiftDR)) fun _ t =>
      Alone (T := bypassTarget) (benchMpsseAdapter (bypassBoard .ShiftDR)) t
        ((bitbang bypassTarget).run (.ShiftDR, false) (twoVisits.flatMap stream)) ∧
      t.sock.written = [] ++ ((bitbang bypassTarget).outs (.ShiftDR, false) (twoVisits.flatMap stream)).flatten :=
  rbb_refines_cable (benchMpsseAdapter (bypassBoard .ShiftDR)) zeroJunk trivial (bypass_alone .ShiftDR)
    twoVisits_orderly

end JtagRemote.Rbb
