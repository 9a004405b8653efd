import JtagRemote.Xvc.Tick
import JtagRemote.Drivers

/-!
# XVC is bit-exact

Over a driver that keeps any number of scans pending, and whose idle clock is worth
its cycles, the board sees the cycles that the client asked for, and the client gets
their TDO.
-/

namespace JtagRemote.Xvc

/-! ## Cycle by cycle -/

/-- What a cycle and its bit of the reply must be. -/
structure CycleExact (st : JtagState) (sh : Shift) (i : Nat) (c : Cycle) (reply : Bool) : Prop where
  tms : c.tms = bitAt sh.tms i
  tdi : shiftsAt st sh.tms i = true → c.tdi = bitAt sh.tdi i
  reply : reply = (shiftsAt st sh.tms i && c.tdo)

/-- The cycles of a shift that starts in `st`, and its reply. -/
structure ShiftExact (st : JtagState) (sh : Shift) (cs : List Cycle) (reply : List Byte) : Prop where
  cycles : cs.length = sh.bits
  bytes : reply.length = (sh.bits + 7) / 8
  exact : ∀ i (h : i < cs.length), CycleExact st sh i cs[i] (bitAt reply i)
  padding : ∀ i, sh.bits ≤ i → bitAt reply i = false

/-- The shifts of a tick, each from the TAP state that the one before left. -/
inductive AllExact : JtagState → List Shift → List (List Cycle) → List (List Byte) → Prop
  | nil (st : JtagState) : AllExact st [] [] []
  | cons {st : JtagState} {sh : Shift} {shs : List Shift} {cs : List Cycle} {css : List (List Cycle)}
      {reply : List Byte} {replies : List (List Byte)} : ShiftExact st sh cs reply →
      AllExact (sh.after st) shs css replies → AllExact st (sh :: shs) (cs :: css) (reply :: replies)

theorem Part.Ok.exact {st : JtagState} {ticks : Nat → Nat} {sh : Shift} {p : Part} (h : p.Ok ticks sh)
    (hticks : ∀ n, ticks n = n) (hr : RegionOk st sh.tms p.region) {k : Nat} (hk : k < p.size) :
    ∃ c b, p.cycles[k]? = some c ∧ p.reply[k]? = some b ∧ CycleExact st sh (p.region.begin_ + k) c b := by
  have hlen := h.length (Or.inr hticks)
  have hkind := hr.kind (p.region.begin_ + k) (Nat.le_add_right _ _) (by unfold Part.size at hk; omega)
  have htms := congrArg (fun bs : List Bool => bs[k]?) (h.tms (Or.inr hticks))
  obtain ⟨c, hc⟩ : ∃ c, p.cycles[k]? = some c := ⟨_, List.getElem?_eq_getElem (by omega)⟩
  have hcut : ∀ data, (p.region.cut data)[k]? = some (bitAt data (p.region.begin_ + k)) := by
    intro data
    unfold Part.size at hk
    simp [Region.cut, bitsFrom, hk]
  simp only [List.getElem?_map, hc, hcut, Option.map_some, Option.some.injEq] at htms
  cases hdata : p.region.is_tms with
  | true =>
    rw [hdata] at hkind
    refine ⟨c, false, hc, ?_, htms, ?_, ?_⟩
    · rw [Part.reply, if_pos hdata, List.getElem?_replicate, if_pos hk]
    · intro hshift
      rw [hkind] at hshift
      cases hshift
    · rw [hkind]
      rfl
  | false =>
    have htdi := congrArg (fun bs : List Bool => bs[k]?) (h.tdi hdata)
    simp only [List.getElem?_map, hc, hcut, Option.map_some, Option.some.injEq] at htdi
    rw [hdata] at hkind
    refine ⟨c, c.tdo, hc, ?_, htms, fun _ => htdi, ?_⟩
    · rw [Part.reply, if_neg (by simp [hdata]), List.getElem?_map, hc]
      rfl
    · rw [hkind]
      rfl

theorem parts_exact {st : JtagState} {ticks : Nat → Nat} {sh : Shift} (hticks : ∀ n, ticks n = n) {a b : Nat}
    {parts : List Part} (htiles : Tiles st sh.tms a (parts.map Part.region) b)
    (hok : ∀ p ∈ parts, p.Ok ticks sh) {i : Nat} (hi : a ≤ i) (hi' : i < b) :
    ∃ c x, (parts.flatMap Part.cycles)[i - a]? = some c ∧ (parts.flatMap Part.reply)[i - a]? = some x ∧
      CycleExact st sh i c x := by
  induction parts generalizing a with
  | nil =>
    cases htiles
    omega
  | cons p parts ih =>
    rw [List.map_cons] at htiles
    cases htiles with
    | cons hr htail =>
      have hne := hr.nonempty
      have hp := hok p List.mem_cons_self
      have hcycles := hp.length (Or.inr hticks)
      have hreply := hp.reply_length
      rw [List.flatMap_cons, List.flatMap_cons]
      have hsize : p.size = p.region.end_ - p.region.begin_ := rfl
      rcases Nat.lt_or_ge i p.region.end_ with hlt | hge
      · obtain ⟨c, x, hc, hx, hexact⟩ := hp.exact hticks hr (k := i - p.region.begin_) (by omega)
        rw [Nat.add_sub_cancel' hi] at hexact
        refine ⟨c, x, ?_, ?_, hexact⟩
        · rw [List.getElem?_append_left (by omega), hc]
        · rw [List.getElem?_append_left (by omega), hx]
      · obtain ⟨c, x, hc, hx, hexact⟩ := ih htail (fun q hq => hok q (List.mem_cons_of_mem _ hq)) hge
        refine ⟨c, x, ?_, ?_, hexact⟩
        · rw [List.getElem?_append_right (by omega), hcycles, ← hc]
          congr 1
          omega
        · rw [List.getElem?_append_right (by omega), hreply, ← hx]
          congr 1
          omega

theorem flatMap_cycles_length {st : JtagState} {ticks : Nat → Nat} {sh : Shift} (hticks : ∀ n, ticks n = n)
    {a b : Nat} {parts : List Part} (htiles : Tiles st sh.tms a (parts.map Part.region) b)
    (hok : ∀ p ∈ parts, p.Ok ticks sh) : (parts.flatMap Part.cycles).length = b - a := by
  have hreply := flatMap_reply_length htiles hok
  rw [← hreply, List.length_flatMap, List.length_flatMap]
  congr 1
  apply List.map_congr_left
  intro p hp
  rw [(hok p hp).length (Or.inr hticks), (hok p hp).reply_length]

theorem Done.Ok.exact {st : JtagState} {ticks : Nat → Nat} {x : Done} (h : x.Ok ticks st)
    (hticks : ∀ n, ticks n = n) : ShiftExact st x.shift x.cycles x.reply := by
  have hlen : x.cycles.length = x.shift.bits := flatMap_cycles_length hticks h.tiles h.parts
  refine ⟨hlen, ?_, ?_, ?_⟩
  · rw [Done.reply, packBits_length, h.reply_length]
  · intro i hi
    obtain ⟨c, b, hc, hb, hexact⟩ := parts_exact hticks h.tiles h.parts (Nat.zero_le i) (by omega)
    rw [Nat.sub_zero] at hc hb
    have hcycle : x.cycles[i] = c := by
      have hget : x.cycles[i]? = some c := hc
      rwa [List.getElem?_eq_getElem hi, Option.some.injEq] at hget
    have hbit : bitAt x.reply i = b := by
      rw [Done.reply, bitAt_packBits, List.getD_eq_getElem?_getD, hb]
      rfl
    rwa [hcycle, hbit]
  · intro i hi
    rw [Done.reply, bitAt_packBits, List.getD_eq_default _ _ (by rw [h.reply_length]; exact hi)]

theorem Session.exact {st : JtagState} {ticks : Nat → Nat} {xs : List Done} (h : Session ticks st xs)
    (hticks : ∀ n, ticks n = n) :
    AllExact st (xs.map Done.shift) (xs.map Done.cycles) (xs.map Done.reply) := by
  induction h with
  | nil st => exact .nil st
  | cons hx _ ih => exact .cons (hx.exact hticks) ih

/-! ## The tick -/

section

variable {δ : Type} {board : Board} {d : driver δ} (A : Adapter board d) {s : Xvc δ} {l : Line}
  {cmds : List Command} {net : Net} {rest : List Byte}

/-- No assert fails; the shifts are played cycle by cycle, and answered. -/
theorem xvc_shifts_exact (hroom : ∀ k, A.Room k) (hticks : ∀ n, A.ticks n = n) (h : Arrives s net cmds rest)
    (hA : A.Stands s.jtag.state s.jtag.dev l) (hnone : l.pending = [])
    (hperiods : PeriodsOk A.Accepts cmds) :
    Returns (jtag_xvc_tick d net) s fun _ s' => ∃ css replies,
      AllExact s.jtag.state (shifts cmds) css replies ∧ board.Ran l.log css.flatten ∧
      s'.jtag.state = stateAfterAll s.jtag.state cmds ∧
      (∃ tms, A.Stands s'.jtag.state s'.jtag.dev ⟨l.log ++ css.flatten, tms, []⟩) ∧
      s'.sock.written = s.sock.written ++ (early cmds ++ replies.flatten) := by
  have hruns : Runs A s.jtag.state 0 cmds := (runs_iff A _ _ _).mpr ⟨hperiods, fun j _ _ => hroom j⟩
  refine (tick_spec A h hA hnone hruns).mono ?_
  rintro _ s' ⟨xs, hticked, hwritten⟩
  have hexact := hticked.session.exact hticks
  rw [hticked.shifts] at hexact
  refine ⟨xs.map Done.cycles, xs.map Done.reply, hexact, ?_, hticked.state, ?_, ?_⟩
  · rw [← List.flatMap_def]
    exact hticked.ran
  · rw [← List.flatMap_def]
    exact hticked.stands
  · rw [← List.flatMap_def]
    exact hwritten

end

/-! ## On a bench -/

/-- A server with a client and an empty window. -/
def fresh {δ : Type} (c : Jtag δ) : Xvc δ where
  jtag := c
  sock := ⟨4, List.replicate BUFFER_SIZE 0, 0, 0, true, []⟩
  tms := List.replicate BUFFER_SIZE 0
  tdi := List.replicate BUFFER_SIZE 0
  tdo := List.replicate BUFFER_SIZE 0

theorem fresh_ok {δ : Type} (c : Jtag δ) : Ok (fresh c) :=
  ⟨⟨List.length_replicate, Nat.le_refl 0, Nat.zero_le _⟩, rfl, List.length_replicate, List.length_replicate,
    List.length_replicate⟩

theorem fresh_arrives {δ : Type} (c : Jtag δ) (cmds : List Command)
    (hfits : (encodeAll cmds).length ≤ BUFFER_SIZE) :
    Arrives (fresh c) ⟨deliver (encodeAll cmds), false⟩ cmds [] :=
  arrives_of_empty (fresh_ok c) (show (0 : Int) ≤ 4 by decide) rfl hfits

/-- From RunTestIdle into ShiftDR, two bits, and out again. -/
def idcodeShift : Shift := ⟨6, [0x21], [0x18], by decide, by decide, by decide⟩

/-- One more bit in ShiftDR. -/
def stayShift : Shift := ⟨1, [0x00], [0x00], by decide, by decide, by decide⟩

theorem xvc_shifts_exact_idcode :
    Returns (jtag_xvc_tick (mpsse_driver (mpsseUsb Mpsse.blinkBoard Mpsse.idleEngine) (100 + 0) 15)
        ⟨deliver (encodeAll [.shift idcodeShift]), false⟩) (fresh (benchMpsse .RunTestIdle))
      fun _ s' => ∃ css replies,
        AllExact .RunTestIdle (shifts [.shift idcodeShift]) css replies ∧
        Mpsse.blinkBoard.Ran [] css.flatten ∧
        s'.jtag.state = stateAfterAll .RunTestIdle [.shift idcodeShift] ∧
        (∃ tms, (benchMpsseAdapter Mpsse.blinkBoard).Stands s'.jtag.state s'.jtag.dev
          ⟨[] ++ css.flatten, tms, []⟩) ∧
        s'.sock.written = (fresh (benchMpsse .RunTestIdle)).sock.written ++
          (early [.shift idcodeShift] ++ replies.flatten) := by
  have harrives : Arrives (fresh (benchMpsse .RunTestIdle)) ⟨deliver (encodeAll [.shift idcodeShift]), false⟩
      [.shift idcodeShift] [] := fresh_arrives _ _ (by decide)
  have hperiods : PeriodsOk (benchMpsseAdapter Mpsse.blinkBoard).Accepts [.shift idcodeShift] := by
    intro period h
    simp at h
  exact xvc_shifts_exact (benchMpsseAdapter Mpsse.blinkBoard) (fun _ => trivial) (fun _ => rfl) harrives
    (benchMpsse_stands Mpsse.blinkBoard .RunTestIdle) rfl hperiods

end JtagRemote.Xvc
