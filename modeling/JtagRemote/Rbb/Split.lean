import JtagRemote.Rbb.Checks
import JtagRemote.Rbb.Steady

/-!
# A stream in several reads

The bit vectors of a tick do not outlive it. A stream may be cut anywhere but between
an 'R' and its clock.
-/

namespace JtagRemote.Rbb

open JtagState

/-- What one tick reads. -/
structure Turn where
  junk : Junk
  accept : Bool
  bytes : List Byte
  nonempty : bytes ≠ []
  fits : bytes.length ≤ BUFFER_SIZE

def Turn.net (t : Turn) : Net := ⟨deliver t.bytes, t.accept⟩

/-- The bytes of all reads. -/
def stream (turns : List Turn) : List Byte := turns.flatMap Turn.bytes

/-- Tick after tick. -/
def serve {δ : Type} (d : driver δ) (turns : List Turn) : RbbProg δ Unit :=
  turns.forM fun t => jtag_rbb_tick d t.junk t.net

section

variable {δ : Type} {board : Board} {d : driver δ} (A : Adapter board d) {s s₁ s₂ : Rbb δ} {l : Line}
  {us vs cs : List Byte} {cyc cyc' : List Cycle} {reply reply' : List Byte}

/-! ## Reads one after the other -/

theorem Executed.length (h : Executed A s l cs s₁ cyc reply) : cyc.length = (pins cs).length := by
  have := congrArg List.length h.plays.tms
  rwa [List.length_map, List.length_map] at this

theorem Executed.serves (h : Executed A s l cs s₁ cyc reply) (hserves : Serves A s l) :
    ∃ tms, Serves A s₁ ⟨l.log ++ cyc, tms, []⟩ := by
  obtain ⟨tms, hstands⟩ := h.stands
  refine ⟨tms, ?_, ?_, hstands, rfl⟩
  · rw [h.sock]
    exact hserves.connected
  · rw [h.sock]
    exact hserves.alive

theorem Executed.nil (hserves : Serves A s l) : Executed A s l [] s [] [] := by
  refine ⟨⟨rfl, fun i _ => rfl⟩, rfl, ⟨l.tms, ?_⟩, rfl, rfl, (wrote_nil _).symm⟩
  have hline : (⟨l.log ++ [], l.tms, []⟩ : Line) = l := by
    rw [List.append_nil, ← hserves.idle]
  rw [hline]
  exact hserves.stands

theorem Answers.shift (h : Answers cyc' (marks vs) reply') (cyc : List Cycle) :
    Answers (cyc ++ cyc') ((marks vs).map (cyc.length + ·)) reply' := by
  unfold Answers at *
  rw [h, List.map_map]
  apply List.map_congr_left
  intro p _
  simp [List.getElem?_append_right]

theorem Plays.append {st : JtagState} (h : Plays st us cyc) (h' : Plays (afterCommands st us) vs cyc') :
    Plays st (us ++ vs) (cyc ++ cyc') := by
  have hlen : cyc.length = (pins us).length := by
    have := congrArg List.length h.tms
    rwa [List.length_map, List.length_map] at this
  refine ⟨by rw [List.map_append, h.tms, h'.tms, pins_append, List.map_append], ?_⟩
  intro i hshift
  have hshift : shifts st (us ++ vs) i = true := hshift
  rw [pins_append]
  rcases Nat.lt_or_ge i (pins us).length with hlt | hge
  · rw [shifts_left vs (Nat.le_of_lt hlt)] at hshift
    rw [List.getElem?_append_left (by omega), List.getElem?_append_left hlt]
    exact h.tdi i hshift
  · rw [show i = (pins us).length + (i - (pins us).length) by omega, shifts_right] at hshift
    rw [List.getElem?_append_right (by omega), List.getElem?_append_right hge, hlen]
    exact h'.tdi _ hshift

theorem Executed.append {tms : Bool} (h : Executed A s l us s₁ cyc reply)
    (h' : Executed A s₁ ⟨l.log ++ cyc, tms, []⟩ vs s₂ cyc' reply') :
    Executed A s l (us ++ vs) s₂ (cyc ++ cyc') (reply ++ reply') := by
  have hstate : s₁.jtag.state = afterCommands s.jtag.state us := h.state
  refine ⟨?_, h.ran.append h'.ran, ?_, ?_, ?_, ?_⟩
  · have := h'.plays
    rw [hstate] at this
    exact h.plays.append this
  · obtain ⟨tms', hstands⟩ := h'.stands
    refine ⟨tms', ?_⟩
    rw [← List.append_assoc]
    exact hstands
  · rw [h'.state, hstate]
    exact (afterCommands_append s.jtag.state us vs).symm
  · have := h'.answers.shift cyc
    rw [h.length] at this
    rw [marks_append]
    exact (h.answers.extend cyc').append this
  · rw [h'.sock, h.sock, wrote_append]

/-- Without a cut, all of the stream is executed. -/
theorem serve_spec (hroom : A.Room 0) {turns : List Turn} (hserves : Serves A s l)
    (hsteady : Steady s.jtag.state (stream turns)) (hcuts : ∀ t ∈ turns, ¬ Cut t.bytes) :
    Returns (serve d turns) s fun _ s' => ∃ cyc reply, Executed A s l (stream turns) s' cyc reply := by
  induction turns generalizing s l with
  | nil => exact returns_pure ⟨[], [], Executed.nil A hserves⟩
  | cons t turns ih =>
    have hstream : stream (t :: turns) = t.bytes ++ stream turns := List.flatMap_cons
    rw [hstream] at hsteady ⊢
    have hcut := hcuts t List.mem_cons_self
    refine Returns.bind (rbb_tick_exact A t.junk t.accept hroom hserves t.nonempty t.fits
      (hsteady.left.wellMarked hcut)) ?_
    rintro _ s₁ ⟨cyc, reply, hexec⟩
    obtain ⟨tms, hserves'⟩ := hexec.serves A hserves
    have hsteady' : Steady s₁.jtag.state (stream turns) := by
      rw [hexec.state]
      exact hsteady.right hcut
    refine (ih hserves' hsteady' fun x hx => hcuts x (List.mem_cons_of_mem _ hx)).mono ?_
    rintro _ s₂ ⟨cyc', reply', hexec'⟩
    exact ⟨_, _, hexec.append A hexec'⟩

/-- The first cut stops the server. -/
theorem serve_fails (hroom : A.Room 0) {turns : List Turn} (hserves : Serves A s l)
    (hsteady : Steady s.jtag.state (stream turns)) (hcuts : ¬ ∀ t ∈ turns, ¬ Cut t.bytes) :
    Faults (serve d turns) s .assert_failed := by
  induction turns generalizing s l with
  | nil => exact absurd (fun t ht => by cases ht) hcuts
  | cons t turns ih =>
    have hstream : stream (t :: turns) = t.bytes ++ stream turns := List.flatMap_cons
    rw [hstream] at hsteady
    by_cases hcut : Cut t.bytes
    · refine Faults.bind ?_
      show Faults (jtag_rbb_tick d t.junk ⟨deliver t.bytes, t.accept⟩) s .assert_failed
      rw [Faults, jtag_rbb_tick_eq hserves.connected t.junk t.accept t.nonempty t.fits]
      exact rbb_execute_fails A t.junk hroom hserves t.fits (hsteady.left.not_passes hcut)
    · refine Returns.bind_faults (rbb_tick_exact A t.junk t.accept hroom hserves t.nonempty t.fits
        (hsteady.left.wellMarked hcut)) ?_
      rintro _ s₁ ⟨cyc, reply, hexec⟩
      obtain ⟨tms, hserves'⟩ := hexec.serves A hserves
      have hsteady' : Steady s₁.jtag.state (stream turns) := by
        rw [hexec.state]
        exact hsteady.right hcut
      refine ih hserves' hsteady' fun hall => hcuts ?_
      intro x hx
      rcases List.mem_cons.mp hx with rfl | hx
      · exact hcut
      · exact hall x hx

/-! ## Against whole cycles -/

/-- The same TMS bits, and the same TDI bits where the TAP shifts data. -/
structure SameCycles (st : JtagState) (cyc cyc' : List Cycle) : Prop where
  tms : cyc.map Cycle.tms = cyc'.map Cycle.tms
  tdi : ∀ i, (stateAfter st ((cyc.map Cycle.tms).take i)).isShift = true →
    (cyc[i]?).map Cycle.tdi = (cyc'[i]?).map Cycle.tdi

/-- A chain whose TAP is in `st` after `log`, and that takes TDI only where it shifts data. -/
def Chain (board : Board) (st : JtagState) (log : List Cycle) : Prop :=
  ∀ cyc cyc', SameCycles st cyc cyc' → board.tdo (log ++ cyc) = board.tdo (log ++ cyc')

theorem SameCycles.take {st : JtagState} (h : SameCycles st cyc cyc') (n : Nat) :
    SameCycles st (cyc.take n) (cyc'.take n) := by
  refine ⟨by rw [List.map_take, List.map_take, h.tms], ?_⟩
  intro i hshift
  rcases Nat.lt_or_ge i n with hlt | hge
  · rw [List.map_take, List.take_take, Nat.min_eq_left (Nat.le_of_lt hlt)] at hshift
    rw [List.getElem?_take_of_lt hlt, List.getElem?_take_of_lt hlt]
    exact h.tdi i hshift
  · rw [List.getElem?_eq_none (by rw [List.length_take]; omega), List.getElem?_eq_none (by rw [List.length_take]; omega)]

/-- On a chain, the same cycles have the same answers. -/
theorem SameCycles.answers {st : JtagState} {ps : List Nat} (h : SameCycles st cyc cyc')
    (hchain : Chain board st l.log) (hran : board.Ran l.log cyc) (hran' : board.Ran l.log cyc')
    (hreply : Answers cyc ps reply) (hreply' : Answers cyc' ps reply') : reply = reply' := by
  have hlen : cyc.length = cyc'.length := by
    have := congrArg List.length h.tms
    rwa [List.length_map, List.length_map] at this
  have hsome : reply.map some = reply'.map some := by
    rw [hreply, hreply']
    apply List.map_congr_left
    intro p hp
    have hlt := hreply.lt p hp
    have htdo := hran.tdo (List.getElem?_eq_getElem hlt)
    have htdo' := hran'.tdo (List.getElem?_eq_getElem (show p < cyc'.length by omega))
    rw [hchain _ _ (h.take p)] at htdo
    rw [List.getElem?_eq_getElem hlt, List.getElem?_eq_getElem (by omega), Option.map_some, Option.map_some,
      tdoChar, tdoChar, htdo, htdo']
  exact List.map_injective_iff.mpr (Option.some_injective _) hsome

theorem Plays.same {st : JtagState} (h : Plays st cs cyc) (h' : Plays st cs cyc') : SameCycles st cyc cyc' := by
  refine ⟨h.tms.trans h'.tms.symm, ?_⟩
  intro i hshift
  have hlen : cyc.length = (pins cs).length := by
    have := congrArg List.length h.tms
    rwa [List.length_map, List.length_map] at this
  rcases Nat.lt_or_ge i (pins cs).length with hlt | hge
  · have hbits : bitsOf (tmsOf cs) i = ((pins cs).map Pins.tms).take i := by
      rw [← bitsOf_tmsOf, bitsOf_take, Nat.min_eq_left (Nat.le_of_lt hlt)]
    have hin : shiftsAt st (tmsOf cs) i = true := by
      rw [shiftsAt, stateAt, hbits, ← h.tms]
      exact hshift
    rw [h.tdi i hin, h'.tdi i hin]
  · have hlen' := congrArg List.length h'.tms
    rw [List.length_map, List.length_map] at hlen'
    rw [List.getElem?_eq_none (by omega), List.getElem?_eq_none (by omega)]

/-- The read ends with a clock, and so with a whole cycle. -/
def Whole (cs : List Byte) : Prop := ∃ c, cs.getLast? = some c ∧ (clock c).isSome = true

theorem Whole.not_cut (h : Whole cs) : ¬ Cut cs := by
  obtain ⟨c, hlast, hclock⟩ := h
  obtain ⟨us, rfl⟩ := List.getLast?_eq_some_iff.mp hlast
  obtain ⟨p, hp⟩ := Option.isSome_iff_exists.mp hclock
  intro hcut
  rw [Cut, pins_snoc, marks_snoc, hp] at hcut
  simp only [Option.toList_some, List.length_append, List.length_singleton, Option.isNone_some,
    Bool.false_eq_true, false_and, if_false, List.append_nil] at hcut
  have := marks_le _ hcut
  omega

/-- Both ways of reading a stream end, no assert fails, and they do the same. -/
def ServedAlike (s : Rbb δ) (l : Line) (turns ref : List Turn) : Prop :=
  ∃ s₁ s₂ cyc₁ cyc₂ reply₁ reply₂, serve d turns s = .ok () s₁ ∧ serve d ref s = .ok () s₂ ∧
    Executed A s l (stream turns) s₁ cyc₁ reply₁ ∧ Executed A s l (stream turns) s₂ cyc₂ reply₂ ∧
    SameCycles s.jtag.state cyc₁ cyc₂ ∧ (Chain board s.jtag.state l.log → reply₁ = reply₂)

theorem served_alike (hroom : A.Room 0) (hserves : Serves A s l) {turns ref : List Turn}
    (hstream : stream ref = stream turns) (hwhole : ∀ t ∈ ref, Whole t.bytes)
    (hmarks : WellMarked s.jtag.state (stream turns)) (hcuts : ∀ t ∈ turns, ¬ Cut t.bytes) :
    ServedAlike A s l turns ref := by
  have hsteady := hmarks.steady.1
  obtain ⟨_, s₁, hrun₁, cyc₁, reply₁, h₁⟩ := serve_spec A hroom hserves hsteady hcuts
  rw [← hstream] at hsteady
  obtain ⟨_, s₂, hrun₂, cyc₂, reply₂, h₂⟩ := serve_spec A hroom hserves hsteady fun t ht => (hwhole t ht).not_cut
  rw [hstream] at h₂
  have hsame := h₁.plays.same h₂.plays
  exact ⟨s₁, s₂, cyc₁, cyc₂, reply₁, reply₂, hrun₁, hrun₂, h₁, h₂, hsame,
    fun hchain => hsame.answers hchain h₁.ran h₂.ran h₁.answers h₂.answers⟩

theorem not_served_alike (hroom : A.Room 0) (hserves : Serves A s l) {turns ref : List Turn}
    (hmarks : WellMarked s.jtag.state (stream turns)) (hcuts : ¬ ∀ t ∈ turns, ¬ Cut t.bytes) :
    ¬ ServedAlike A s l turns ref := by
  rintro ⟨s₁, -, -, -, -, -, hrun₁, -⟩
  exact (serve_fails A hroom hserves hmarks.steady.1 hcuts).not_ok hrun₁

/-- A stream whose scans are marked as a whole or not at all may be cut just where no 'R' is parted
from its clock. -/
theorem rbb_split_iff (hroom : A.Room 0) (hserves : Serves A s l) {turns ref : List Turn}
    (hstream : stream ref = stream turns) (hwhole : ∀ t ∈ ref, Whole t.bytes)
    (hmarks : WellMarked s.jtag.state (stream turns)) :
    ServedAlike A s l turns ref ↔ ∀ t ∈ turns, ¬ Cut t.bytes := by
  constructor
  · intro halike
    by_contra hcuts
    exact not_served_alike A hroom hserves hmarks hcuts halike
  · exact served_alike A hroom hserves hstream hwhole hmarks

end

/-! ## On a bench -/

/-- A read of these bytes. -/
def turn (bytes : List Byte) (nonempty : bytes ≠ []) (fits : bytes.length ≤ BUFFER_SIZE) : Turn :=
  ⟨zeroJunk, false, bytes, nonempty, fits⟩

def wholeTurn : Turn := turn (ascii ['0', 'R', '4']) (by decide) (by decide)

/-- The same bytes, cut behind the 'R'. -/
def cutTurns : List Turn :=
  [turn (ascii ['0', 'R']) (by decide) (by decide), turn (ascii ['4']) (by decide) (by decide)]

/-- And cut before it. -/
def safeTurns : List Turn :=
  [turn (ascii ['0']) (by decide) (by decide), turn (ascii ['R', '4']) (by decide) (by decide)]

theorem oneRead_wellMarked : WellMarked ShiftDR (ascii ['0', 'R', '4']) := by
  refine ⟨?_, ?_, ?_⟩ <;> decide +kernel

theorem wholeTurn_whole : ∀ t ∈ [wholeTurn], Whole t.bytes := by
  intro t ht
  rw [List.mem_singleton] at ht
  subst ht
  exact ⟨0x34, by decide, by decide⟩

theorem rbb_split_iff_safe :
    ServedAlike (benchMpsseAdapter Mpsse.blinkBoard) (served (benchMpsse ShiftDR)) ⟨[], false, []⟩ safeTurns
      [wholeTurn] ↔ ∀ t ∈ safeTurns, ¬ Cut t.bytes :=
  rbb_split_iff (benchMpsseAdapter Mpsse.blinkBoard) trivial (served_bench Mpsse.blinkBoard ShiftDR) rfl
    wholeTurn_whole oneRead_wellMarked

/-- A read that ends behind the 'R' stops the server. -/
theorem cut_read_stops : stream cutTurns = stream [wholeTurn] ∧ WellMarked ShiftDR (stream cutTurns) ∧
    ¬ ServedAlike (benchMpsseAdapter Mpsse.blinkBoard) (served (benchMpsse ShiftDR)) ⟨[], false, []⟩ cutTurns
      [wholeTurn] := by
  have hcuts : ¬ ∀ t ∈ cutTurns, ¬ Cut t.bytes := by decide
  exact ⟨rfl, oneRead_wellMarked, not_served_alike (benchMpsseAdapter Mpsse.blinkBoard) trivial
    (served_bench Mpsse.blinkBoard ShiftDR) oneRead_wellMarked hcuts⟩

end JtagRemote.Rbb
