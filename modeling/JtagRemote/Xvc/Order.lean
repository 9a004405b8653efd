import JtagRemote.Xvc.Exact

/-!
# The order of the replies

The replies of the shifts are written when the whole window has been parsed, so a
`getinfo` or a `settck` that comes after a shift is answered before it.
-/

namespace JtagRemote.Xvc

/-! ## Orders -/

/-- The replies in the order of the commands; `rs` are those of the shifts. -/
def inOrder : List Command → List (List Byte) → List Byte
  | [], _ => []
  | .getinfo :: cmds, rs => INFO ++ inOrder cmds rs
  | .settck period :: cmds, rs => le_bytes period ++ inOrder cmds rs
  | .shift _ :: cmds, [] => inOrder cmds []
  | .shift _ :: cmds, r :: rs => r ++ inOrder cmds rs

def Command.isShift : Command → Bool
  | .shift _ => true
  | .getinfo => false
  | .settck _ => false

/-- Behind a shift that has a reply, there are only shifts. -/
def ShiftsLast : List Command → Prop
  | [] => True
  | .shift sh :: cmds => (1 ≤ sh.bits → ∀ c ∈ cmds, c.isShift = true) ∧ ShiftsLast cmds
  | .getinfo :: cmds => ShiftsLast cmds
  | .settck _ :: cmds => ShiftsLast cmds

theorem inOrder_shifts {cmds : List Command} (h : ∀ c ∈ cmds, c.isShift = true) {rs : List (List Byte)}
    (hlen : rs.length = (shifts cmds).length) : inOrder cmds rs = rs.flatten ∧ early cmds = [] := by
  induction cmds generalizing rs with
  | nil =>
    obtain rfl := List.length_eq_zero_iff.mp hlen
    exact ⟨rfl, rfl⟩
  | cons c cmds ih =>
    have hc := h c List.mem_cons_self
    have htail := fun c hmem => h c (List.mem_cons_of_mem _ hmem)
    cases c with
    | getinfo => cases hc
    | settck period => cases hc
    | shift sh =>
      cases rs with
      | nil => cases hlen
      | cons r rs =>
        obtain ⟨heq, hnone⟩ := ih htail (Nat.succ.inj hlen)
        exact ⟨by rw [inOrder, heq, List.flatten_cons], hnone⟩

/-- The bytes of a shift's reply. -/
def Shift.bytes (sh : Shift) : Nat := (sh.bits + 7) / 8

theorem shiftsLast_of_shifts {cmds : List Command} (h : ∀ c ∈ cmds, c.isShift = true) : ShiftsLast cmds := by
  induction cmds with
  | nil => trivial
  | cons c cmds ih =>
    have htail := fun c hmem => h c (List.mem_cons_of_mem _ hmem)
    cases c with
    | getinfo => exact ih htail
    | settck period => exact ih htail
    | shift sh => exact ⟨fun _ => htail, ih htail⟩

theorem inOrder_of_last {cmds : List Command} (h : ShiftsLast cmds) {rs : List (List Byte)}
    (hrs : rs.map List.length = (shifts cmds).map Shift.bytes) :
    inOrder cmds rs = early cmds ++ rs.flatten := by
  have hcount : ∀ cmds (rs : List (List Byte)), rs.map List.length = (shifts cmds).map Shift.bytes →
      rs.length = (shifts cmds).length := by
    intro cmds rs heq
    simpa using congrArg List.length heq
  induction cmds generalizing rs with
  | nil =>
    obtain rfl := List.map_eq_nil_iff.mp hrs
    rfl
  | cons c cmds ih =>
    cases c with
    | getinfo => rw [inOrder, early, ih h hrs, List.append_assoc]
    | settck period => rw [inOrder, early, ih h hrs, List.append_assoc]
    | shift sh =>
      cases rs with
      | nil => cases hrs
      | cons r rs =>
        rw [shifts, List.map_cons, List.map_cons, List.cons.injEq] at hrs
        rw [inOrder, early]
        by_cases hbits : 1 ≤ sh.bits
        · obtain ⟨heq, hnone⟩ := inOrder_shifts (h.1 hbits) (hcount _ _ hrs.2)
          rw [heq, hnone, List.flatten_cons, List.nil_append]
        · have hempty : r = [] := by
            rw [← List.length_eq_zero_iff, hrs.1, Shift.bytes]
            omega
          rw [ih h.2 hrs.2, hempty, List.flatten_cons, List.nil_append, List.nil_append]

/-! ## Where the last byte that is not zero stands -/

/-- The number of bytes up to the last one that is not zero. -/
def trimmed : List Byte → Nat
  | [] => 0
  | b :: l => if trimmed l = 0 then (if b = 0 then 0 else 1) else trimmed l + 1

theorem trimmed_zero {l : List Byte} : trimmed l = 0 ↔ ∀ b ∈ l, b = 0 := by
  induction l with
  | nil => simp [trimmed]
  | cons b l ih =>
    rw [trimmed, List.forall_mem_cons, ← ih]
    split
    · split <;> simp_all
    · simp_all

theorem trimmed_mono (l : List Byte) {m m' : List Byte} (h : trimmed m ≤ trimmed m') :
    trimmed (l ++ m) ≤ trimmed (l ++ m') := by
  induction l with
  | nil => exact h
  | cons b l ih =>
    simp only [List.cons_append, trimmed]
    split <;> split <;> try split
    all_goals omega

theorem trimmed_append_le (l m : List Byte) : trimmed m ≤ trimmed (l ++ m) := by
  induction l with
  | nil => exact Nat.le_refl _
  | cons b l ih =>
    simp only [List.cons_append, trimmed]
    split <;> try split
    all_goals omega

theorem trimmed_append {l m : List Byte} (h : trimmed m ≠ 0) : trimmed (l ++ m) = l.length + trimmed m := by
  induction l with
  | nil => simp
  | cons b l ih =>
    simp only [List.cons_append, trimmed, ih, List.length_cons]
    rw [if_neg (by omega)]
    omega

theorem trimmed_append_zeros (l : List Byte) (n : Nat) : trimmed (l ++ List.replicate n 0) = trimmed l := by
  induction l with
  | nil =>
    rw [List.nil_append]
    exact trimmed_zero.mpr fun b hb => List.eq_of_mem_replicate hb
  | cons b l ih => simp only [List.cons_append, trimmed, ih]

theorem trimmed_info (l : List Byte) : trimmed (INFO ++ l) ≠ 0 := by
  intro h
  have := trimmed_zero.mp h 0x78 (List.mem_append_left _ (by decide))
  exact absurd this (by decide)

theorem trimmed_period {period : BitVec 32} (hne : period ≠ 0) (l : List Byte) :
    trimmed (le_bytes period ++ l) ≠ 0 := by
  intro h
  apply hne
  have hz := fun b hb => trimmed_zero.mp h b (List.mem_append_left _ hb)
  have h0 := hz (period.setWidth 8) (by simp [le_bytes])
  have h1 := hz ((period >>> 8).setWidth 8) (by simp [le_bytes])
  have h2 := hz ((period >>> 16).setWidth 8) (by simp [le_bytes])
  have h3 := hz ((period >>> 24).setWidth 8) (by simp [le_bytes])
  have hval := le32_word period
  rw [le_bytes, h0, h1, h2, h3] at hval
  exact period_zero.mp hval.symm

/-- The reply of a shift over a board whose TDO is low. -/
def Shift.zeros (sh : Shift) : List Byte := List.replicate sh.bytes 0

section

variable {cmds : List Command}

theorem early_not_zero (hperiods : ∀ period, Command.settck period ∈ cmds → period ≠ 0)
    (h : ¬ ∀ c ∈ cmds, c.isShift = true) : trimmed (early cmds) ≠ 0 := by
  induction cmds with
  | nil => exact absurd (by simp) h
  | cons c cmds ih =>
    cases c with
    | getinfo => exact trimmed_info _
    | settck period => exact trimmed_period (hperiods period List.mem_cons_self) _
    | shift sh =>
      refine ih (fun period hmem => hperiods period (List.mem_cons_of_mem _ hmem)) ?_
      intro hall
      apply h
      intro c hc
      rcases List.mem_cons.mp hc with rfl | hc
      · rfl
      · exact hall c hc

/-- In order, the last byte that is not zero stands no earlier. -/
theorem trimmed_early_le (cmds : List Command) :
    trimmed (early cmds) ≤ trimmed (inOrder cmds ((shifts cmds).map Shift.zeros)) := by
  induction cmds with
  | nil => exact Nat.le_refl _
  | cons c cmds ih =>
    cases c with
    | getinfo => exact trimmed_mono INFO ih
    | settck period => exact trimmed_mono (le_bytes period) ih
    | shift sh => exact ih.trans (trimmed_append_le _ _)

/-- The zeros of a shift that come before another reply show. -/
theorem shiftsLast_of_inOrder (hperiods : ∀ period, Command.settck period ∈ cmds → period ≠ 0) {n : Nat}
    (h : inOrder cmds ((shifts cmds).map Shift.zeros) = early cmds ++ List.replicate n 0) :
    ShiftsLast cmds := by
  induction cmds generalizing n with
  | nil => trivial
  | cons c cmds ih =>
    have htail := fun period hmem => hperiods period (List.mem_cons_of_mem c hmem)
    cases c with
    | getinfo =>
      rw [shifts, inOrder, early, List.append_assoc, List.append_cancel_left_eq] at h
      exact ih htail h
    | settck period =>
      rw [shifts, inOrder, early, List.append_assoc, List.append_cancel_left_eq] at h
      exact ih htail h
    | shift sh =>
      rw [shifts, List.map_cons, inOrder, early] at h
      by_cases hall : ∀ c ∈ cmds, c.isShift = true
      · exact ⟨fun _ => hall, shiftsLast_of_shifts hall⟩
      · have hearly := early_not_zero htail hall
        have hle := trimmed_early_le cmds
        have hlen := congrArg trimmed h
        rw [trimmed_append_zeros, trimmed_append (by omega), Shift.zeros, List.length_replicate] at hlen
        have hnone : sh.bytes = 0 := by omega
        rw [Shift.zeros, hnone, List.replicate_zero, List.nil_append] at h
        refine ⟨?_, ih htail h⟩
        intro hbits
        unfold Shift.bytes at hnone
        omega

end

/-! ## A board that keeps TDO low -/

def silentBoard : Board := ⟨fun _ => false, fun _ => 0⟩

theorem silent_cycles (log : List Cycle) (ps : List Pins) :
    ∀ c ∈ silentBoard.cycles log ps, c.tdo = false := by
  induction ps generalizing log with
  | nil => simp
  | cons p ps ih =>
    intro c hc
    rw [Board.cycles, List.mem_cons] at hc
    rcases hc with rfl | hc
    · rfl
    · exact ih _ c hc

theorem silent_tdo {log cs : List Cycle} (h : silentBoard.Ran log cs) : ∀ c ∈ cs, c.tdo = false := by
  rw [← h]
  exact silent_cycles log _

theorem packBits_false {bs : List Bool} (h : ∀ b ∈ bs, b = false) :
    packBits bs = List.replicate ((bs.length + 7) / 8) 0 := by
  symm
  refine eq_packBits List.length_replicate ?_
  intro i _
  rw [bitAt_replicate_zero, List.getD_eq_getElem?_getD]
  cases hi : bs[i]? with
  | none => rfl
  | some b => exact (h b (List.mem_of_getElem? hi)).symm

theorem Done.Ok.silent_reply {ticks : Nat → Nat} {st : JtagState} {x : Done} (h : x.Ok ticks st)
    (hlow : ∀ c ∈ x.cycles, c.tdo = false) : x.reply = x.shift.zeros := by
  have hbits : ∀ b ∈ x.parts.flatMap Part.reply, b = false := by
    intro b hb
    obtain ⟨p, hp, hb⟩ := List.mem_flatMap.mp hb
    unfold Part.reply at hb
    split at hb
    · exact List.eq_of_mem_replicate hb
    · obtain ⟨c, hc, rfl⟩ := List.mem_map.mp hb
      exact hlow c (List.mem_flatMap.mpr ⟨p, hp, hc⟩)
  rw [Done.reply, packBits_false hbits, h.reply_length]
  rfl

theorem Session.silent_replies {ticks : Nat → Nat} {st : JtagState} {xs : List Done}
    (h : Session ticks st xs) (hlow : ∀ c ∈ xs.flatMap Done.cycles, c.tdo = false) :
    xs.map Done.reply = (xs.map Done.shift).map Shift.zeros := by
  induction h with
  | nil st => rfl
  | cons hx _ ih =>
    rw [List.flatMap_cons] at hlow
    rw [List.map_cons, List.map_cons, List.map_cons,
      hx.silent_reply fun c hc => hlow c (List.mem_append_left _ hc),
      ih fun c hc => hlow c (List.mem_append_right _ hc)]

theorem Session.reply_lengths {ticks : Nat → Nat} {st : JtagState} {xs : List Done}
    (h : Session ticks st xs) :
    (xs.map Done.reply).map List.length = (xs.map Done.shift).map Shift.bytes := by
  induction h with
  | nil st => rfl
  | cons hx _ ih =>
    simp only [List.map_cons, ih]
    rw [Done.reply, packBits_length, hx.reply_length]
    rfl

theorem zeros_flatten (shs : List Shift) :
    (shs.map Shift.zeros).flatten = List.replicate (shs.map Shift.bytes).sum 0 := by
  induction shs with
  | nil => rfl
  | cons sh shs ih =>
    rw [List.map_cons, List.flatten_cons, ih, List.map_cons, List.sum_cons, List.replicate_add]
    rfl

/-! ## The tick -/

section

variable {δ : Type} {board : Board} {d : driver δ} {s : Xvc δ} {l : Line} {cmds : List Command} {net : Net}
  {rest : List Byte}

/-- The tick gets through, and what it writes are the replies in the order of the commands. -/
def AnswersInOrder (A : Adapter board d) (s : Xvc δ) (l : Line) (net : Net) (cmds : List Command)
    (rest : List Byte) : Prop :=
  Returns (jtag_xvc_tick d net) s fun _ s' => ∃ xs, Ticked A s l cmds rest s' xs ∧
    s'.sock.written = s.sock.written ++ inOrder cmds (xs.map Done.reply)

theorem answers_of_last (A : Adapter board d) (h : Arrives s net cmds rest)
    (hA : A.Stands s.jtag.state s.jtag.dev l) (hnone : l.pending = [])
    (hruns : Runs A s.jtag.state 0 cmds) (hlast : ShiftsLast cmds) : AnswersInOrder A s l net cmds rest := by
  refine (tick_spec A h hA hnone hruns).mono ?_
  rintro _ s' ⟨xs, hticked, hwritten⟩
  have hlengths := hticked.session.reply_lengths
  rw [hticked.shifts] at hlengths
  refine ⟨xs, hticked, ?_⟩
  rw [hwritten, inOrder_of_last hlast hlengths, List.flatMap_def]

theorem runs_of_answers (A : Adapter board d) (h : Arrives s net cmds rest)
    (hA : A.Stands s.jtag.state s.jtag.dev l) (hnone : l.pending = [])
    (hanswers : AnswersInOrder A s l net cmds rest) : Runs A s.jtag.state 0 cmds := by
  by_contra hnot
  obtain ⟨_, hfault⟩ := tick_fails A h hA hnone hnot
  exact hfault.not_returns _ hanswers

/-- With TDO low, the order shows. -/
theorem last_of_answers {d : driver δ} (A : Adapter silentBoard d) (h : Arrives s net cmds rest)
    (hA : A.Stands s.jtag.state s.jtag.dev l) (hnone : l.pending = [])
    (hanswers : AnswersInOrder A s l net cmds rest) : ShiftsLast cmds := by
  have hruns := runs_of_answers A h hA hnone hanswers
  have hperiods := ((runs_iff A _ _ _).mp hruns).1
  obtain ⟨_, s₁, hrun, xs, hticked, hwritten⟩ := tick_spec A h hA hnone hruns
  obtain ⟨_, s₂, hrun', xs', hticked', hwritten'⟩ := hanswers
  rw [hrun] at hrun'
  cases hrun'
  have hzeros := hticked.session.silent_replies (silent_tdo hticked.ran)
  have hzeros' := hticked'.session.silent_replies (silent_tdo hticked'.ran)
  rw [hticked.shifts] at hzeros
  rw [hticked'.shifts] at hzeros'
  rw [hwritten, List.append_cancel_left_eq, List.flatMap_def, hzeros, hzeros', zeros_flatten] at hwritten'
  exact shiftsLast_of_inOrder (fun period hmem => (hperiods period hmem).1) hwritten'.symm

end

/-- Over every board, from every state of the server with this TAP state: the replies are in order
just if nothing stops the server and no other command comes after a shift. -/
theorem replies_in_order_iff {δ : Type} {d : Board → driver δ} (A : ∀ board, Adapter board (d board))
    (st : JtagState) (cmds : List Command) (hfits : (encodeAll cmds).length ≤ BUFFER_SIZE)
    (hstart : ∀ board, ∃ (c : Jtag δ) (l : Line), c.state = st ∧ (A board).Stands c.state c.dev l ∧ l.pending = []) :
    (∀ board s l net rest, Arrives s net cmds rest → s.jtag.state = st →
      (A board).Stands s.jtag.state s.jtag.dev l → l.pending = [] →
      AnswersInOrder (A board) s l net cmds rest) ↔
    (∀ board, PeriodsOk (A board).Accepts cmds ∧ RoomFor (A board) 0 (totalVisits st cmds)) ∧
      ShiftsLast cmds := by
  constructor
  · intro hall
    constructor
    · intro board
      obtain ⟨c, l, rfl, hA, hnone⟩ := hstart board
      have harrives := fresh_arrives c cmds hfits
      have hanswers := hall board (fresh c) l _ _ harrives rfl hA hnone
      exact (runs_iff (A board) _ _ _).mp (runs_of_answers (A board) harrives hA hnone hanswers)
    · obtain ⟨c, l, hst, hA, hnone⟩ := hstart silentBoard
      have harrives := fresh_arrives c cmds hfits
      exact last_of_answers (A silentBoard) harrives hA hnone
        (hall silentBoard (fresh c) l _ _ harrives hst hA hnone)
  · rintro ⟨hruns, hlast⟩ board s l net rest harrives rfl hA hnone
    exact answers_of_last (A board) harrives hA hnone ((runs_iff (A board) _ _ _).mpr (hruns board)) hlast

def infoThenShifts : List Command := [.getinfo, .settck 100, .getinfo, .shift idcodeShift, .shift stayShift]

theorem replies_in_order_iff_last : AnswersInOrder (benchMpsseAdapter Mpsse.blinkBoard) (fresh (benchMpsse .RunTestIdle))
    ⟨[], false, []⟩ ⟨deliver (encodeAll infoThenShifts), false⟩ infoThenShifts [] := by
  have hperiods : ∀ board, PeriodsOk (benchMpsseAdapter board).Accepts infoThenShifts := by
    intro board period hmem
    obtain rfl : period = 100 := by simpa [infoThenShifts] using hmem
    exact ⟨by decide, by decide, by decide⟩
  have hlast : ShiftsLast infoThenShifts := by simp [ShiftsLast, infoThenShifts, Command.isShift]
  have hall := (replies_in_order_iff benchMpsseAdapter .RunTestIdle infoThenShifts (by decide) fun board =>
    ⟨benchMpsse .RunTestIdle, _, rfl, benchMpsse_stands board .RunTestIdle, rfl⟩).mpr
    ⟨fun board => ⟨hperiods board, fun _ _ _ => trivial⟩, hlast⟩
  exact hall Mpsse.blinkBoard _ _ _ _ (fresh_arrives _ _ (by decide)) rfl
    (benchMpsse_stands Mpsse.blinkBoard .RunTestIdle) rfl

/-- One bit in ShiftDR and a `getinfo`: the information comes first. -/
theorem info_overtakes_shift :
    ¬ AnswersInOrder (benchMpsseAdapter silentBoard) (fresh (benchMpsse .ShiftDR)) ⟨[], false, []⟩
      ⟨deliver (encodeAll [.shift stayShift, .getinfo]), false⟩ [.shift stayShift, .getinfo] [] := by
  intro hanswers
  have harrives : Arrives (fresh (benchMpsse .ShiftDR))
      ⟨deliver (encodeAll [.shift stayShift, .getinfo]), false⟩ [.shift stayShift, .getinfo] [] :=
    fresh_arrives _ _ (by decide)
  have hlast := last_of_answers _ harrives (benchMpsse_stands silentBoard .ShiftDR) rfl hanswers
  exact absurd (hlast.1 (by decide) .getinfo (by simp)) (by decide)

end JtagRemote.Xvc
