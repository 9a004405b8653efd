import JtagRemote.Xvc.Exact
import JtagRemote.Xvc.Full

/-!
# A TAP in an unknown state

The server cuts the shifts with the state that it assumes. The board sees the TMS bits
of the client all the same, and five ones in a row take any TAP to Test-Logic-Reset.
-/

namespace JtagRemote

/-- From there on the state before does not matter. -/
theorem stateAfter_merges {tms : List Bool} (h : List.replicate 5 true <:+: tms) (st st' : JtagState) :
    stateAfter st tms = stateAfter st' tms := by
  obtain ⟨us, vs, rfl⟩ := h
  rw [stateAfter_append, stateAfter_append, stateAfter_append, stateAfter_append, five_ones, five_ones]

namespace Xvc

/-! ## The TMS bits of the client -/

def Shift.tmsBits (sh : Shift) : List Bool := bitsOf sh.tms sh.bits

/-- The TMS bits of all the shifts, one after the other. -/
def tmsOf (cmds : List Command) : List Bool := (shifts cmds).flatMap Shift.tmsBits

theorem shifts_append (cmds more : List Command) : shifts (cmds ++ more) = shifts cmds ++ shifts more := by
  induction cmds with
  | nil => rfl
  | cons c cmds ih =>
    cases c with
    | getinfo => exact ih
    | settck period => exact ih
    | shift sh => exact congrArg (sh :: ·) ih

theorem tmsOf_append (cmds more : List Command) : tmsOf (cmds ++ more) = tmsOf cmds ++ tmsOf more := by
  rw [tmsOf, shifts_append, List.flatMap_append]
  rfl

theorem stateAfterAll_eq (st : JtagState) (cmds : List Command) :
    stateAfterAll st cmds = stateAfter st (tmsOf cmds) := by
  unfold stateAfterAll tmsOf
  induction shifts cmds generalizing st with
  | nil => rfl
  | cons sh shs ih =>
    rw [List.foldl_cons, ih, List.flatMap_cons, stateAfter_append]
    rfl

/-- Data, flip and clock-only cycles carry the TMS bits of the shift. -/
theorem ShiftExact.tmsBits {st : JtagState} {sh : Shift} {cs : List Cycle} {reply : List Byte}
    (h : ShiftExact st sh cs reply) : cs.map Cycle.tms = sh.tmsBits := by
  apply List.ext_getElem
  · rw [List.length_map, h.cycles, Shift.tmsBits, bitsOf_length]
  · intro i hi hi'
    rw [List.length_map] at hi
    rw [List.getElem_map, (h.exact i hi).tms]
    simp [Shift.tmsBits, bitsOf]

theorem AllExact.tmsBits {st : JtagState} {shs : List Shift} {css : List (List Cycle)}
    {replies : List (List Byte)} (h : AllExact st shs css replies) :
    css.flatten.map Cycle.tms = shs.flatMap Shift.tmsBits := by
  induction h with
  | nil st => rfl
  | cons hexact _ ih => rw [List.flatten_cons, List.map_append, hexact.tmsBits, ih, List.flatMap_cons]

/-! ## Runs of the server -/

section

variable {δ : Type} {board : Board} {d : driver δ} (A : Adapter board d) (s₀ : Xvc δ)

/-- There is no client, or nothing comes from it. -/
def Quiet (s : Xvc δ) (net : Net) : Prop :=
  ¬ s.sock.client_fd ≥ 0 ∨ ∃ sock, read_socket net.recv s.sock = .ok false sock

/-- The server from `s₀` on, a tick after the other, and the commands that it took. -/
inductive History : List Command → Xvc δ → Prop
  | start : History [] s₀
  | quiet {cmds : List Command} {s s' : Xvc δ} {net : Net} : History cmds s → Quiet s net →
      jtag_xvc_tick d net s = .ok () s' → History cmds s'
  | tick {cmds more : List Command} {rest : List Byte} {s s' : Xvc δ} {net : Net} : History cmds s →
      Arrives s net more rest → jtag_xvc_tick d net s = .ok () s' → History (cmds ++ more) s'

/-- The parser took `cmds` off the window of `s`, and goes on from `t`. -/
def GoesOn (d : driver δ) (s : Xvc δ) (cmds : List Command) (t : Xvc δ) : Prop :=
  ∃ acc, ∀ fuel, xvc_parse d (fuel + cmds.length) [] s = xvc_parse d fuel acc t

/-- The server after a command: between two ticks, or in the middle of one. -/
inductive After : List Command → Xvc δ → Prop
  | between {cmds : List Command} {s : Xvc δ} : History (d := d) s₀ cmds s → After cmds s
  | within {cmds some more : List Command} {rest : List Byte} {s t : Xvc δ} {net : Net} {sock : Sock} :
      History (d := d) s₀ cmds s → Arrives s net (some ++ more) rest →
      read_socket net.recv s.sock = .ok true sock → Runs A s.jtag.state 0 some →
      GoesOn d { s with sock := sock } some t → After (cmds ++ some) t

/-- Whatever the TAP's state was at the start, it is now the one that the server assumes. -/
def InStep (seen : Jtag δ → List Cycle) (s₀ s : Xvc δ) : Prop :=
  ∀ real, stateAfter real (((seen s.jtag).drop (seen s₀.jtag).length).map Cycle.tms) = s.jtag.state

/-- The board saw the TMS bits of the commands, and so did the server. -/
structure Mirrors (l₀ l : Line) (cmds : List Command) (s : Xvc δ) : Prop where
  stands : A.Stands s.jtag.state s.jtag.dev l
  log : ∃ cs, l.log = l₀.log ++ cs ∧ cs.map Cycle.tms = tmsOf cmds
  state : s.jtag.state = stateAfter s₀.jtag.state (tmsOf cmds)

variable {A s₀} {l₀ l : Line} {cmds more : List Command} {s s' : Xvc δ} {net : Net} {rest : List Byte}

theorem Quiet.jtag (h : Quiet s net) (hrun : jtag_xvc_tick d net s = .ok () s') : s'.jtag = s.jtag := by
  by_cases hfd : s.sock.client_fd ≥ 0
  · obtain ⟨sock, hread⟩ := h.resolve_left (not_not_intro hfd)
    rw [tick_connected hfd, bind_of_ok (xvc_sock_ok hread)] at hrun
    cases hrun
    rfl
  · have haccept : Keeps (fun s : Xvc δ => s.jtag) (xvc_sock (try_accept net.accept) : XvcProg δ Bool) :=
      keeps_focus fun _ _ => rfl
    rw [tick_alone hfd] at hrun
    exact haccept.bind (fun _ => keeps_pure ()) s () s' hrun

/-- One more batch of shifts, in whatever state the server cuts them. -/
theorem Mirrors.append (h : Mirrors A s₀ l₀ l cmds s) {css : List (List Cycle)} {replies : List (List Byte)}
    (hexact : AllExact s.jtag.state (shifts more) css replies)
    (hstate : s'.jtag.state = stateAfterAll s.jtag.state more) {l' : Line} (hlog : l'.log = l.log ++ css.flatten)
    (hstands : A.Stands s'.jtag.state s'.jtag.dev l') : Mirrors A s₀ l₀ l' (cmds ++ more) s' := by
  obtain ⟨cs, hcs, htms⟩ := h.log
  refine ⟨hstands, ⟨cs ++ css.flatten, ?_, ?_⟩, ?_⟩
  · rw [hlog, hcs, List.append_assoc]
  · rw [List.map_append, htms, hexact.tmsBits, tmsOf_append]
    rfl
  · rw [hstate, stateAfterAll_eq, h.state, tmsOf_append, stateAfter_append]

theorem History.mirrors (hticks : ∀ n, A.ticks n = n) (hA : A.Stands s₀.jtag.state s₀.jtag.dev l₀)
    (hnone : l₀.pending = []) (h : History (d := d) s₀ cmds s) :
    ∃ l, l.pending = [] ∧ Mirrors A s₀ l₀ l cmds s := by
  induction h with
  | start => exact ⟨l₀, hnone, hA, ⟨[], (List.append_nil _).symm, rfl⟩, rfl⟩
  | quiet _ hquiet hrun ih =>
    obtain ⟨l, hpending, hm⟩ := ih
    have hjtag := hquiet.jtag hrun
    refine ⟨l, hpending, ?_, hm.log, ?_⟩
    · rw [hjtag]
      exact hm.stands
    · rw [hjtag]
      exact hm.state
  | @tick cmds more rest s s' net _ harrives hrun ih =>
    obtain ⟨l, hpending, hm⟩ := ih
    have hruns : Runs A s.jtag.state 0 more := by
      by_contra hstops
      obtain ⟨e, hfault⟩ := tick_fails A harrives hm.stands hpending hstops
      exact hfault.not_ok hrun
    obtain ⟨_, s'', hrun', xs, hticked, -⟩ := tick_spec A harrives hm.stands hpending hruns
    rw [hrun] at hrun'
    cases hrun'
    have hexact := hticked.session.exact hticks
    rw [hticked.shifts] at hexact
    obtain ⟨tms, hstands⟩ := hticked.stands
    exact ⟨_, rfl, hm.append hexact hticked.state (by rw [← List.flatMap_def]) hstands⟩

/-- The commands at the front of a window, with more behind them. -/
theorem Arrives.steps {cmds more : List Command} {sock : Sock} (h : Arrives s net (cmds ++ more) rest)
    (hread : read_socket net.recv s.sock = .ok true sock) (hA : A.Stands s.jtag.state s.jtag.dev l)
    (hnone : l.pending = []) (hruns : Runs A s.jtag.state 0 cmds) :
    ∃ t xs, (∀ fuel acc, xvc_parse d (fuel + cmds.length) acc { s with sock := sock } =
      xvc_parse d fuel (acc ++ xs.map Done.command) t) ∧
      Parsed A { s with sock := sock } l cmds (encodeAll more ++ rest) t xs := by
  obtain ⟨_, hread', hwin⟩ := h.read
  rw [hread] at hread'
  cases hread'
  have hwin' : sock.window = encodeAll cmds ++ (encodeAll more ++ rest) := by
    rw [hwin, encodeAll, List.flatMap_append, List.append_assoc]
    rfl
  have hruns' : Runs A s.jtag.state l.pending.length cmds := by rwa [hnone]
  exact xvc_parse_steps A (s := { s with sock := sock }) (h.globals.read hread) hwin' hA hruns'

theorem After.mirrors (hticks : ∀ n, A.ticks n = n) (hA : A.Stands s₀.jtag.state s₀.jtag.dev l₀)
    (hnone : l₀.pending = []) (h : After A s₀ cmds s) : ∃ l, Mirrors A s₀ l₀ l cmds s := by
  cases h with
  | between hhistory =>
    obtain ⟨l, -, hm⟩ := hhistory.mirrors hticks hA hnone
    exact ⟨l, hm⟩
  | @within cmds some more rest s₁ _ net sock hhistory harrives hread hruns hgoes =>
    obtain ⟨l, hpending, hm⟩ := hhistory.mirrors hticks hA hnone
    obtain ⟨t', xs, hsteps, hparsed⟩ := harrives.steps hread hm.stands hpending hruns
    obtain ⟨acc, hgoes⟩ := hgoes
    -- With no fuel left the parser stops where it is.
    have hstop : (.error .out_of_fuel t' : EStateM.Result Fault (Xvc δ) (List ShiftCommand)) =
        .error .out_of_fuel s := (hsteps 0 []).symm.trans (hgoes 0)
    cases hstop
    have hexact := hparsed.session.exact hticks
    rw [hparsed.shifts] at hexact
    obtain ⟨tms, hstands⟩ := hparsed.stands
    exact ⟨_, hm.append hexact hparsed.state (by rw [← List.flatMap_def]) hstands⟩

/-! ## Five ones -/

theorem Mirrors.in_step {seen : Jtag δ → List Cycle} (hseen : ∀ c l, A.Stands c.state c.dev l → seen c = l.log)
    (hA : A.Stands s₀.jtag.state s₀.jtag.dev l₀) (h : Mirrors A s₀ l₀ l cmds s)
    (hones : List.replicate 5 true <:+: tmsOf cmds) : InStep seen s₀ s := by
  obtain ⟨cs, hcs, htms⟩ := h.log
  intro real
  rw [hseen _ _ h.stands, hseen _ _ hA, hcs, List.drop_left, htms, h.state]
  exact stateAfter_merges hones real _

/-- The server does not stop, and once the TMS bits of the shifts had five ones in a row, its state is
the TAP's after every command. -/
theorem resynchronises (A : Adapter board d) (hticks : ∀ n, A.ticks n = n) {seen : Jtag δ → List Cycle}
    (hseen : ∀ c l, A.Stands c.state c.dev l → seen c = l.log) (s₀ : Xvc δ) {l₀ : Line}
    (hA : A.Stands s₀.jtag.state s₀.jtag.dev l₀) (hnone : l₀.pending = []) :
    (∀ cmds t, After A s₀ cmds t → List.replicate 5 true <:+: tmsOf cmds → InStep seen s₀ t) ∧
    ∀ cmds s, History (d := d) s₀ cmds s → ∀ net some more rest, Arrives s net (some ++ more) rest →
      (Runs A s.jtag.state 0 some → ∃ t, After A s₀ (cmds ++ some) t) ∧
      (Runs A s.jtag.state 0 (some ++ more) → ∃ s', jtag_xvc_tick d net s = .ok () s') := by
  constructor
  · intro cmds t hafter hones
    obtain ⟨l, hm⟩ := hafter.mirrors hticks hA hnone
    exact hm.in_step hseen hA hones
  · intro cmds s hhistory net some more rest harrives
    obtain ⟨l, hpending, hm⟩ := hhistory.mirrors hticks hA hnone
    constructor
    · intro hruns
      obtain ⟨sock, hread, -⟩ := harrives.read
      obtain ⟨t, xs, hsteps, -⟩ := harrives.steps hread hm.stands hpending hruns
      exact ⟨t, .within hhistory harrives hread hruns ⟨_, fun fuel => hsteps fuel []⟩⟩
    · intro hruns
      obtain ⟨_, s', hrun, -⟩ := tick_spec A harrives hm.stands hpending hruns
      exact ⟨s', hrun⟩

end

/-! ## On a bench -/

/-- Five cycles with TMS high. -/
def onesShift : Shift := ⟨5, [0x1F], [0x00], by decide, by decide, by decide⟩

theorem resynchronises_five_ones :
    ∃ s', History (d := mpsse_driver (mpsseUsb Mpsse.blinkBoard Mpsse.idleEngine) (100 + 0) 15)
        (fresh (benchMpsse .TestLogicReset)) [.shift onesShift] s' ∧
      InStep (mpsseSeen Mpsse.blinkBoard Mpsse.idleEngine) (fresh (benchMpsse .TestLogicReset)) s' := by
  have harrives : Arrives (fresh (benchMpsse .TestLogicReset)) ⟨deliver (encodeAll [.shift onesShift]), false⟩
      [.shift onesShift] [] := fresh_arrives _ _ (by decide)
  have hperiods : PeriodsOk (benchMpsseAdapter Mpsse.blinkBoard).Accepts [.shift onesShift] := by
    intro period h
    simp at h
  have hruns : Runs (benchMpsseAdapter Mpsse.blinkBoard) .TestLogicReset 0 [.shift onesShift] :=
    (runs_iff _ _ _ _).mpr ⟨hperiods, fun _ _ _ => trivial⟩
  obtain ⟨hstep, hgoes⟩ := resynchronises (benchMpsseAdapter Mpsse.blinkBoard) (fun _ => rfl)
    (fun _ _ => mpsseSeen_eq) (fresh (benchMpsse .TestLogicReset))
    (benchMpsse_stands Mpsse.blinkBoard .TestLogicReset) rfl
  obtain ⟨s', hrun⟩ := (hgoes [] _ .start _ [] _ _ harrives).2 hruns
  have hhistory := History.tick .start harrives hrun
  exact ⟨s', hhistory, hstep _ _ (.between hhistory) (by decide)⟩

end Xvc

end JtagRemote
