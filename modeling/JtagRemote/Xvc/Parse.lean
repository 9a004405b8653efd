import JtagRemote.Xvc.Shift

/-!
# Parsing a window

Commands are taken off the front of the window and executed, until no complete one
is left. All replies but those of the shifts are written on the way.
-/

namespace JtagRemote.Xvc

section

variable {δ : Type} {board : Board} {d : driver δ} (A : Adapter board d) {s : Xvc δ} {l : Line}
  {rest : List Byte}

/-! ## getinfo and settck -/

/-- `s` after `n` bytes of the window are consumed. -/
def taken (s : Xvc δ) (n : Nat) : Xvc δ := { s with sock := s.sock.consume n }

theorem xvc_getinfo_ok (h : Ok s) (hwin : s.sock.window = Command.getinfo.encode ++ rest) :
    xvc_getinfo s = .ok () (replied (taken s Command.getinfo.encode.length) INFO) := by
  have hlen : Command.getinfo.encode.length ≤ s.sock.window.length := by
    rw [hwin, List.length_append]
    omega
  exact xvc_reply_ok (h.consume hlen) INFO

theorem settck_window (h : s.sock.Ok) {period : BitVec 32}
    (hwin : s.sock.window = (Command.settck period).encode ++ rest) :
    (Command.settck period).encode.length ≤ s.sock.window.length ∧
    (bytes_at s.sock.buffer (s.sock.buffer_begin + SETTCK.length) 4 : XvcProg δ (List Byte)) s =
      .ok (le_bytes period) s := by
  have hlen : (Command.settck period).encode.length ≤ s.sock.window.length := by
    rw [hwin, List.length_append]
    omega
  have hfits : SETTCK.length + 4 ≤ s.sock.window.length := hlen
  refine ⟨hlen, ?_⟩
  rw [h.bytes_at_window hfits s, hwin, Command.encode, List.append_assoc, List.drop_left,
    List.take_left' (le_bytes_length period)]

theorem period_zero {period : BitVec 32} : period.toNat = 0 ↔ period = 0 :=
  ⟨fun h => BitVec.eq_of_toNat_eq h, fun h => congrArg BitVec.toNat h⟩

theorem xvc_settck_spec (h : Ok s) {period : BitVec 32}
    (hwin : s.sock.window = (Command.settck period).encode ++ rest)
    (hA : A.Stands s.jtag.state s.jtag.dev l) (hne : period ≠ 0)
    (haccepts : A.Accepts (xvc_freq period.toNat)) :
    Returns (xvc_settck d) s fun _ s' => ∃ c, c.state = s.jtag.state ∧ A.Stands c.state c.dev l ∧
      s' = replied { taken s (Command.settck period).encode.length with jtag := c } (le_bytes period) := by
  obtain ⟨hlen, harg⟩ := settck_window h.sock hwin
  unfold xvc_settck
  refine Returns.get_bind (Returns.of_eq_bind harg (Returns.modify_bind ?_))
  rw [le32_word, if_neg (fun h0 => hne (period_zero.mp h0))]
  refine Returns.bind (Returns.focus (A.freq hA haccepts)) ?_
  rintro _ _ ⟨c, ⟨hst, hstands⟩, rfl⟩
  have hok : Ok { taken s (Command.settck period).encode.length with jtag := c } :=
    (h.consume hlen).relinked c
  exact ⟨_, _, xvc_reply_ok hok (le_bytes period), c, hst, hstands, rfl⟩

theorem xvc_freq_le {tck : Nat} (h : tck ≠ 0) : xvc_freq tck ≤ MAX_FREQ := by
  unfold xvc_freq MAX_FREQ
  apply Nat.le_of_lt_succ
  rw [Nat.div_lt_iff_lt_mul (by omega)]
  omega

theorem xvc_settck_fails (h : Ok s) {period : BitVec 32}
    (hwin : s.sock.window = (Command.settck period).encode ++ rest)
    (hA : A.Stands s.jtag.state s.jtag.dev l)
    (hbad : ¬ (period ≠ 0 ∧ A.Accepts (xvc_freq period.toNat))) : ∃ e, Faults (xvc_settck d) s e := by
  obtain ⟨hlen, harg⟩ := settck_window h.sock hwin
  unfold xvc_settck Faults
  rw [bind_of_ok (get_apply s), bind_of_ok harg, xvc_consume, bind_of_ok (modify_apply _ s), le32_word]
  by_cases h0 : period = 0
  · rw [if_pos (period_zero.mpr h0)]
    exact ⟨_, _, rfl⟩
  · rw [if_neg (fun hz => h0 (period_zero.mp hz))]
    have hrejects : ¬ A.Accepts (xvc_freq period.toNat) := fun ha => hbad ⟨h0, ha⟩
    have hle := xvc_freq_le (fun hz => h0 (period_zero.mp hz))
    obtain ⟨e, hfault⟩ := A.freq_fails hA hle hrejects
    exact ⟨e, Faults.bind (Faults.focus (s := taken s _) hfault)⟩

/-! ## One round of the parser -/

variable {cmds : List Command} {acc : List ShiftCommand} {fuel : Nat}

theorem parse_getinfo (h : s.sock.Ok) (hpre : GETINFO <+: s.sock.window) :
    xvc_parse d (fuel + 1) acc s = (xvc_getinfo >>= fun _ => xvc_parse d fuel acc) s := by
  have hstarts : window_starts s.sock GETINFO 0 = true := by
    rw [window_starts_eq h, decide_eq_true_eq]
    exact ⟨hpre, hpre.length_le⟩
  rw [xvc_parse, bind_of_ok (get_apply s), if_pos hstarts]

theorem parse_settck (h : s.sock.Ok) (hpre : SETTCK <+: s.sock.window)
    (hlen : SETTCK.length + 4 ≤ s.sock.window.length) :
    xvc_parse d (fuel + 1) acc s = (xvc_settck d >>= fun _ => xvc_parse d fuel acc) s := by
  have hstarts : window_starts s.sock SETTCK 4 = true := by
    rw [window_starts_eq h, decide_eq_true_eq]
    exact ⟨hpre, hlen⟩
  have hnot : ¬ window_starts s.sock GETINFO 0 = true := by
    rw [window_starts_eq h, decide_eq_true_eq]
    exact fun hg => starts_not_getinfo (Or.inl hpre) hg.1
  rw [xvc_parse, bind_of_ok (get_apply s), if_neg hnot, if_pos hstarts]

theorem parse_shift (h : s.sock.Ok) (hpre : SHIFT <+: s.sock.window)
    (hlen : SHIFT.length + 4 ≤ s.sock.window.length) :
    xvc_parse d (fuel + 1) acc s = (xvc_shift d >>= fun r =>
      match r with
      | some shift_command => xvc_parse d fuel (acc ++ [shift_command])
      | none => pure acc) s := by
  have hstarts : window_starts s.sock SHIFT 4 = true := by
    rw [window_starts_eq h, decide_eq_true_eq]
    exact ⟨hpre, hlen⟩
  have hnot : ¬ window_starts s.sock GETINFO 0 = true := by
    rw [window_starts_eq h, decide_eq_true_eq]
    exact fun hg => starts_not_getinfo (Or.inr hpre) hg.1
  have hnot' : ¬ window_starts s.sock SETTCK 4 = true := by
    rw [window_starts_eq h, decide_eq_true_eq]
    exact fun hg => starts_not_settck hpre hg.1
  rw [xvc_parse, bind_of_ok (get_apply s), if_neg hnot, if_neg hnot']
  exact congrFun (if_pos hstarts) s

/-- The parser stops at a window with no complete command. -/
theorem parse_stop (h : s.sock.Ok) (hnone : nextLen s.sock.window = none) :
    xvc_parse d (fuel + 1) acc s = .ok acc s := by
  unfold nextLen at hnone
  split at hnone
  · cases hnone
  rename_i hgetinfo
  split at hnone
  · cases hnone
  rename_i hsettck
  split at hnone
  · cases hnone
  rename_i hshift
  by_cases hstarts : SHIFT <+: s.sock.window ∧ SHIFT.length + 4 ≤ s.sock.window.length
  · have hwlen := h.window_length
    have horder := h.order
    have htotal : ¬ shift_total_len (le32 (s.sock.window.drop SHIFT.length)) ≤ s.sock.window.length :=
      fun hle => hshift ⟨hstarts.1, hstarts.2, hle⟩
    have harg : le32 ((s.sock.window.drop SHIFT.length).take 4) = le32 (s.sock.window.drop SHIFT.length) := by
      rw [le32, le32, List.take_take]
      rfl
    have hnone : xvc_shift d s = .ok none s := by
      unfold xvc_shift
      rw [bind_of_ok (get_apply s), bind_of_ok (h.bytes_at_window hstarts.2 s), harg,
        if_pos (by omega)]
      rfl
    rw [parse_shift h hstarts.1 hstarts.2, bind_of_ok hnone]
    rfl
  · have hnot : ¬ window_starts s.sock GETINFO 0 = true := by
      rw [window_starts_eq h, decide_eq_true_eq]
      exact fun hg => hgetinfo hg.1
    have hnot' : ¬ window_starts s.sock SETTCK 4 = true := by
      rw [window_starts_eq h, decide_eq_true_eq]
      exact hsettck
    have hnot'' : ¬ window_starts s.sock SHIFT 4 = true := by
      rw [window_starts_eq h, decide_eq_true_eq]
      exact hstarts
    rw [xvc_parse, bind_of_ok (get_apply s), if_neg hnot, if_neg hnot', if_neg hnot'']
    rfl

/-! ## The whole window -/

/-- Nothing stops the server: the periods are good, and there is room for the scans, of which
`k` wait already. -/
def Runs : JtagState → Nat → List Command → Prop
  | _, _, [] => True
  | st, k, .getinfo :: cmds => Runs st k cmds
  | st, k, .settck period :: cmds =>
    (period ≠ 0 ∧ A.Accepts (xvc_freq period.toNat)) ∧ Runs st k cmds
  | st, k, .shift sh :: cmds =>
    RoomFor A k (visits st sh.tms sh.bits) ∧ Runs (sh.after st) (k + visits st sh.tms sh.bits) cmds

/-- What is true when the window is parsed. -/
structure Parsed (s : Xvc δ) (l : Line) (cmds : List Command) (rest : List Byte) (s' : Xvc δ)
    (xs : List Done) : Prop where
  shifts : xs.map Done.shift = shifts cmds
  session : Session A.ticks s.jtag.state xs
  globals : Ok s'
  window : s'.sock.window = rest
  written : s'.sock.written = s.sock.written ++ early cmds
  state : s'.jtag.state = stateAfterAll s.jtag.state cmds
  ran : board.Ran l.log (xs.flatMap Done.cycles)
  stands : ∃ tms, A.Stands s'.jtag.state s'.jtag.dev
    ⟨l.log ++ xs.flatMap Done.cycles, tms, l.pending ++ xs.flatMap Done.scans⟩

/-- The commands are executed one by one, and the parser goes on with the rest of the window. -/
theorem xvc_parse_steps (h : Ok s) (hwin : s.sock.window = encodeAll cmds ++ rest)
    (hA : A.Stands s.jtag.state s.jtag.dev l) (hruns : Runs A s.jtag.state l.pending.length cmds) :
    ∃ s' xs, (∀ fuel acc, xvc_parse d (fuel + cmds.length) acc s =
      xvc_parse d fuel (acc ++ xs.map Done.command) s') ∧ Parsed A s l cmds rest s' xs := by
  induction cmds generalizing s l with
  | nil =>
    have hwin' : s.sock.window = rest := hwin
    refine ⟨s, [], fun _ acc => by simp, rfl, .nil _, h, hwin', ?_, rfl, rfl, l.tms, ?_⟩
    · simp [early]
    · simpa using hA
  | cons c cmds ih =>
    have hwin' : s.sock.window = c.encode ++ (encodeAll cmds ++ rest) := by
      rw [hwin, encodeAll, List.flatMap_cons, List.append_assoc]
      rfl
    have hclen : c.encode.length ≤ s.sock.window.length := by
      rw [hwin', List.length_append]
      omega
    have htail : (s.sock.consume c.encode.length).window = encodeAll cmds ++ rest := by
      rw [Sock.window_consume, hwin', List.drop_left]
    simp only [List.length_cons, ← Nat.add_assoc]
    cases c with
    | getinfo =>
      have hpre : GETINFO <+: s.sock.window := by
        rw [hwin']
        exact List.prefix_append _ _
      obtain ⟨s', xs, hrun, hp⟩ := ih (s := replied (taken s _) INFO) (l := l)
        ((h.consume hclen).replied INFO) htail hA hruns
      refine ⟨s', xs, fun n acc => ?_, hp.shifts, hp.session, hp.globals, hp.window, ?_, hp.state, hp.ran, hp.stands⟩
      · rw [parse_getinfo h.sock hpre, bind_of_ok (xvc_getinfo_ok h hwin')]
        exact hrun n acc
      · rw [hp.written]
        exact List.append_assoc _ _ _
    | settck period =>
      have hpre : SETTCK <+: s.sock.window := by
        rw [hwin']
        exact (List.prefix_append SETTCK _).trans (List.prefix_append _ _)
      obtain ⟨_, _, hset, c, hst, hstands, rfl⟩ := xvc_settck_spec A h hwin' hA hruns.1.1 hruns.1.2
      have hok : Ok (replied { taken s (Command.settck period).encode.length with jtag := c }
          (le_bytes period)) := ((h.consume hclen).relinked c).replied _
      have hruns' : Runs A c.state l.pending.length cmds := by
        rw [hst]
        exact hruns.2
      obtain ⟨s', xs, hrun, hp⟩ := ih (l := l) hok htail hstands hruns'
      refine ⟨s', xs, fun n acc => ?_, hp.shifts, ?_, hp.globals, hp.window, ?_, ?_, hp.ran, hp.stands⟩
      · rw [parse_settck h.sock hpre hclen, bind_of_ok hset]
        exact hrun n acc
      · rw [← hst]
        exact hp.session
      · rw [hp.written]
        exact List.append_assoc _ _ _
      · rw [hp.state, stateAfterAll, stateAfterAll, shifts]
        exact congrArg (fun st => (shifts cmds).foldl (fun st sh => sh.after st) st) hst
    | shift sh =>
      have hpre : SHIFT <+: s.sock.window := by
        rw [hwin']
        exact (List.prefix_append SHIFT _).trans (List.prefix_append _ _)
      have hlen : SHIFT.length + 4 ≤ s.sock.window.length := by
        rw [sh.encode_length] at hclen
        omega
      obtain ⟨_, s₁, hshift, x, rfl, hsent⟩ := xvc_shift_spec A h hwin' hA hruns.1
      obtain ⟨tms, hstands⟩ := hsent.stands
      have hwin₁ : s₁.sock.window = encodeAll cmds ++ rest := by rw [hsent.sock, htail]
      have hruns₁ : Runs A s₁.jtag.state (l.pending ++ x.scans).length cmds := by
        rw [List.length_append, hsent.scans, hsent.state]
        exact hruns.2
      obtain ⟨s', xs, hrun, hp⟩ := ih (l := ⟨l.log ++ x.cycles, tms, l.pending ++ x.scans⟩)
        hsent.globals hwin₁ hstands hruns₁
      refine ⟨s', x :: xs, fun n acc => ?_, ?_, .cons hsent.ok ?_, hp.globals, hp.window, ?_, ?_, ?_, ?_⟩
      · rw [parse_shift h.sock hpre hlen, bind_of_ok hshift, List.map_cons, List.append_cons]
        exact hrun n (acc ++ [x.command])
      · rw [List.map_cons, hsent.shift, hp.shifts, Xvc.shifts]
      · rw [hsent.shift, ← hsent.state]
        exact hp.session
      · rw [hp.written, hsent.sock]
        rfl
      · rw [hp.state, hsent.state]
        rfl
      · rw [List.flatMap_cons]
        exact hsent.ran.append hp.ran
      · simpa only [List.flatMap_cons, List.append_assoc] using hp.stands

theorem xvc_parse_spec (h : Ok s) (hwin : s.sock.window = encodeAll cmds ++ rest)
    (hrest : nextLen rest = none) (hA : A.Stands s.jtag.state s.jtag.dev l)
    (hruns : Runs A s.jtag.state l.pending.length cmds) (hfuel : cmds.length < fuel) :
    Returns (xvc_parse d fuel acc) s fun r s' => ∃ xs, r = acc ++ xs.map Done.command ∧
      Parsed A s l cmds rest s' xs := by
  obtain ⟨k, rfl⟩ : ∃ k, fuel = k + 1 + cmds.length := ⟨fuel - 1 - cmds.length, by omega⟩
  obtain ⟨s', xs, hrun, hp⟩ := xvc_parse_steps A h hwin hA hruns
  refine ⟨_, s', (hrun (k + 1) acc).trans (parse_stop hp.globals.sock ?_), xs, rfl, hp⟩
  rw [hp.window, hrest]

/-- Anything that stops the server stops it. -/
theorem xvc_parse_fails (h : Ok s) (hwin : s.sock.window = encodeAll cmds ++ rest)
    (hA : A.Stands s.jtag.state s.jtag.dev l) (hruns : ¬ Runs A s.jtag.state l.pending.length cmds)
    (hfuel : cmds.length < fuel) : ∃ e, Faults (xvc_parse d fuel acc) s e := by
  induction cmds generalizing s l acc fuel with
  | nil => exact absurd trivial hruns
  | cons c cmds ih =>
    obtain ⟨fuel, rfl⟩ : ∃ n, fuel = n + 1 := ⟨fuel - 1, by omega⟩
    have hfuel' : cmds.length < fuel := by
      rw [List.length_cons] at hfuel
      omega
    have hwin' : s.sock.window = c.encode ++ (encodeAll cmds ++ rest) := by
      rw [hwin, encodeAll, List.flatMap_cons, List.append_assoc]
      rfl
    have hclen : c.encode.length ≤ s.sock.window.length := by
      rw [hwin', List.length_append]
      omega
    have htail : (s.sock.consume c.encode.length).window = encodeAll cmds ++ rest := by
      rw [Sock.window_consume, hwin', List.drop_left]
    cases c with
    | getinfo =>
      have hpre : GETINFO <+: s.sock.window := by
        rw [hwin']
        exact List.prefix_append _ _
      unfold Faults
      rw [parse_getinfo h.sock hpre, bind_of_ok (xvc_getinfo_ok h hwin')]
      exact ih (s := replied (taken s _) INFO) (l := l) ((h.consume hclen).replied INFO) htail hA hruns hfuel'
    | settck period =>
      have hpre : SETTCK <+: s.sock.window := by
        rw [hwin']
        exact (List.prefix_append SETTCK _).trans (List.prefix_append _ _)
      unfold Faults
      rw [parse_settck h.sock hpre hclen]
      by_cases hgood : period ≠ 0 ∧ A.Accepts (xvc_freq period.toNat)
      · obtain ⟨_, _, hrun, c, hst, hstands, rfl⟩ := xvc_settck_spec A h hwin' hA hgood.1 hgood.2
        have hok : Ok (replied { taken s (Command.settck period).encode.length with jtag := c }
            (le_bytes period)) := ((h.consume hclen).relinked c).replied _
        have hruns' : ¬ Runs A c.state l.pending.length cmds := by
          rw [hst]
          exact fun hr => hruns ⟨hgood, hr⟩
        rw [bind_of_ok hrun]
        exact ih (l := l) hok htail hstands hruns' hfuel'
      · obtain ⟨e, hfault⟩ := xvc_settck_fails A h hwin' hA hgood
        exact ⟨e, hfault.bind⟩
    | shift sh =>
      have hpre : SHIFT <+: s.sock.window := by
        rw [hwin']
        exact (List.prefix_append SHIFT _).trans (List.prefix_append _ _)
      have hlen : SHIFT.length + 4 ≤ s.sock.window.length := by
        rw [sh.encode_length] at hclen
        omega
      unfold Faults
      rw [parse_shift h.sock hpre hlen]
      by_cases hroom : RoomFor A l.pending.length (visits s.jtag.state sh.tms sh.bits)
      · obtain ⟨_, s₁, hrun, x, rfl, hsent⟩ := xvc_shift_spec A h hwin' hA hroom
        obtain ⟨tms, hstands⟩ := hsent.stands
        have hwin₁ : s₁.sock.window = encodeAll cmds ++ rest := by rw [hsent.sock, htail]
        rw [bind_of_ok hrun]
        refine ih (l := ⟨l.log ++ x.cycles, tms, l.pending ++ x.scans⟩) hsent.globals hwin₁ hstands ?_ hfuel'
        rw [List.length_append, hsent.scans, hsent.state]
        exact fun hr => hruns ⟨hroom, hr⟩
      · exact ⟨_, (xvc_shift_fails A h hwin' hA hroom).bind⟩

end

end JtagRemote.Xvc
