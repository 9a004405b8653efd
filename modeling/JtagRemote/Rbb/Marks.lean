import JtagRemote.Rbb.Tick
import JtagRemote.Drivers
import Mathlib.Data.List.Perm.Subperm

/-!
# Where the marks stand

A read is answered rightly just if the cycles sent back are the marked ones. Reads
whose marks cover whole regions are; the checks let others through.
-/

namespace JtagRemote.Rbb

open JtagState

variable {st : JtagState} {cs : List Byte}

/-- All cycles of each data region are marked, or none is. -/
def Uniform (st : JtagState) (cs : List Byte) : Prop := ∀ r ∈ regions st cs, r.is_tms = false →
  (∀ i, r.begin_ ≤ i → i < r.end_ → i ∈ marks cs) ∨ (∀ i, r.begin_ ≤ i → i < r.end_ → i ∉ marks cs)

instance (st : JtagState) (cs : List Byte) : Decidable (Uniform st cs) :=
  inferInstanceAs (Decidable (∀ r ∈ regions st cs, r.is_tms = false →
    (∀ i, r.begin_ ≤ i → i < r.end_ → i ∈ marks cs) ∨ (∀ i, r.begin_ ≤ i → i < r.end_ → i ∉ marks cs)))

structure WellMarked (st : JtagState) (cs : List Byte) : Prop where
  uniform : Uniform st cs
  inside : ∀ p ∈ marks cs, ∃ r ∈ regions st cs, r.is_tms = false ∧ r.begin_ ≤ p ∧ p < r.end_
  once : (marks cs).Nodup

/-! ## The cycles that are sent back -/

theorem mem_answered {ms : List Nat} {r : Region} (hne : r.begin_ < r.end_) {p : Nat} :
    p ∈ answered ms r ↔ isRead ms r = true ∧ r.begin_ ≤ p ∧ p < r.end_ := by
  unfold answered
  split
  · rename_i hread
    rw [List.mem_range'_1]
    simp only [hread, true_and]
    omega
  · rename_i hread
    simp [hread]

theorem mem_replied {p : Nat} :
    p ∈ replied st cs ↔ ∃ r ∈ regions st cs, isRead (marks cs) r = true ∧ r.begin_ ≤ p ∧ p < r.end_ := by
  have hne : ∀ r ∈ regions st cs, r.begin_ < r.end_ := by
    intro r hr
    obtain ⟨htiles, -⟩ := regions_tiles st cs
    exact (htiles.ok hr).nonempty
  rw [replied, List.mem_flatMap]
  constructor
  · rintro ⟨r, hr, hp⟩
    exact ⟨r, hr, (mem_answered (hne r hr)).mp hp⟩
  · rintro ⟨r, hr, hp⟩
    exact ⟨r, hr, (mem_answered (hne r hr)).mpr hp⟩

theorem Tiles.answered_sorted {tms : List Byte} {a b : Nat} {rs : List Region} (h : Tiles st tms a rs b)
    (ms : List Nat) : (rs.flatMap (answered ms)).Pairwise (· < ·) ∧ ∀ p ∈ rs.flatMap (answered ms), a ≤ p := by
  induction h with
  | nil a => simp
  | @cons r rs b hok htail ih =>
    have hne := hok.nonempty
    have hle := htail.le
    obtain ⟨hsort, hfrom⟩ := ih
    rw [List.flatMap_cons]
    refine ⟨List.pairwise_append.mpr ⟨?_, hsort, ?_⟩, ?_⟩
    · unfold answered
      split
      · exact List.pairwise_lt_range'
      · exact .nil
    · intro p hp q hq
      have := ((mem_answered hne).mp hp).2.2
      have := hfrom q hq
      omega
    · intro p hp
      rcases List.mem_append.mp hp with hp | hp
      · exact ((mem_answered hne).mp hp).2.1
      · have := hfrom p hp
        omega

theorem replied_sorted (st : JtagState) (cs : List Byte) : (replied st cs).Pairwise (· < ·) :=
  (Tiles.answered_sorted (regions_tiles st cs).1 _).1

theorem replied_nodup (st : JtagState) (cs : List Byte) : (replied st cs).Nodup :=
  (replied_sorted st cs).imp fun h => Nat.ne_of_lt h

theorem Uniform.replied_subset (h : Uniform st cs) : replied st cs ⊆ marks cs := by
  intro p hp
  obtain ⟨r, hr, hread, hbegin, hend⟩ := mem_replied.mp hp
  rw [isRead, Bool.and_eq_true, Bool.not_eq_true', decide_eq_true_eq] at hread
  rcases h r hr hread.1 with hall | hnone
  · exact hall p hbegin hend
  · exact absurd hread.2 (hnone _ (by omega) (by omega))

/-- As many cycles as marks, and only marked ones: these are the marks. -/
theorem Uniform.replied_eq (h : Uniform st cs) (htotal : (marks cs).length = (replied st cs).length) :
    replied st cs = marks cs := by
  have hsub : List.Subperm (replied st cs) (marks cs) := List.Nodup.subperm (replied_nodup st cs) h.replied_subset
  have hperm := hsub.perm_of_length_le (Nat.le_of_eq htotal)
  have hle : (replied st cs).Pairwise (· ≤ ·) := (replied_sorted st cs).imp Nat.le_of_lt
  exact hperm.eq_of_pairwise (fun p q _ _ hpq hqp => Nat.le_antisymm hpq hqp) hle (marks_sorted cs)

/-- Conversely, a region that is sent back is marked as a whole. -/
theorem uniform_of_replied_eq (hpass : Passes st cs) (h : replied st cs = marks cs) : Uniform st cs := by
  intro r hr hdata
  by_cases hlast : r.end_ - 1 ∈ marks cs
  · left
    intro i hi hi'
    rw [← h, mem_replied]
    exact ⟨r, hr, by simp [isRead, hdata, hlast], hi, hi'⟩
  · right
    intro i hi hi' hmem
    exact hlast (hpass.rising r hr hdata i _ hi (by omega) (by omega) hmem)

theorem WellMarked.total (h : WellMarked st cs) : (marks cs).length = (replied st cs).length := by
  have hsub : marks cs ⊆ replied st cs := by
    intro p hp
    obtain ⟨r, hr, hdata, hbegin, hend⟩ := h.inside p hp
    refine mem_replied.mpr ⟨r, hr, ?_, hbegin, hend⟩
    rcases h.uniform r hr hdata with hall | hnone
    · simp [isRead, hdata, hall _ (show r.begin_ ≤ r.end_ - 1 by omega) (by omega)]
    · exact absurd hp (hnone p hbegin hend)
  exact Nat.le_antisymm (List.Nodup.subperm h.once hsub).length_le
    (List.Nodup.subperm (replied_nodup st cs) h.uniform.replied_subset).length_le

theorem WellMarked.passes (h : WellMarked st cs) : Passes st cs := by
  refine ⟨?_, h.total⟩
  intro r hr hdata i j hi hij hj hmem
  have hne : r.begin_ < r.end_ := by
    have := (regions_tiles st cs).1
    exact (this.ok hr).nonempty
  rcases h.uniform r hr hdata with hall | hnone
  · exact hall j (by omega) (by omega)
  · exact absurd hmem (hnone i hi (by omega))

/-! ## What a read does -/

/-- One cycle for each command that clocks, with its TMS bit, and with its TDI bit where the TAP
shifts data. -/
structure Plays (st : JtagState) (cs : List Byte) (cyc : List Cycle) : Prop where
  tms : cyc.map Cycle.tms = (pins cs).map Pins.tms
  tdi : ∀ i, shiftsAt st (tmsOf cs) i = true → (cyc[i]?).map Cycle.tdi = ((pins cs)[i]?).map Pins.tdi

/-- The commands were played since `s`, and each 'R' answered with the TDO of its cycle. -/
structure Executed {δ : Type} {board : Board} {d : driver δ} (A : Adapter board d) (s : Rbb δ) (l : Line)
    (cs : List Byte) (s' : Rbb δ) (cyc : List Cycle) (reply : List Byte) : Prop where
  plays : Plays s.jtag.state cs cyc
  ran : board.Ran l.log cyc
  stands : ∃ tms, A.Stands s'.jtag.state s'.jtag.dev ⟨l.log ++ cyc, tms, []⟩
  state : s'.jtag.state = stateAfter s.jtag.state ((pins cs).map Pins.tms)
  answers : Answers cyc (marks cs) reply
  sock : s'.sock = wrote s.sock reply

section

variable {δ : Type} {board : Board} {d : driver δ} (A : Adapter board d) {s s' : Rbb δ} {l : Line}
  {cyc : List Cycle} {ps : List Nat}

theorem bitsOf_tmsOf (cs : List Byte) : bitsOf (tmsOf cs) (pins cs).length = (pins cs).map Pins.tms := by
  have := bitsOf_packBits ((pins cs).map Pins.tms)
  rwa [List.length_map] at this

theorem Playing.plays (h : Playing A s l st cs (pins cs).length ps s' cyc) : Plays st cs cyc := by
  have hlen := h.length
  refine ⟨h.tms.trans (bitsOf_tmsOf cs), ?_⟩
  intro i hshift
  rcases Nat.lt_or_ge i (pins cs).length with hlt | hge
  · rw [h.tdi i hlt hshift, tdiOf, bitAt_packBits, List.getD_eq_getElem?_getD, List.getElem?_map,
      List.getElem?_eq_getElem hlt]
    rfl
  · rw [List.getElem?_eq_none (by omega), List.getElem?_eq_none hge]
    rfl

theorem Playing.executed (h : Playing A s l s.jtag.state cs (pins cs).length ps s' cyc) (hps : ps = marks cs) :
    ∃ reply, Executed A s l cs s' cyc reply := by
  obtain ⟨reply, hreply, hsock⟩ := h.sock
  rw [hps] at hreply
  refine ⟨reply, h.plays, h.ran, h.stands, ?_, hreply, hsock⟩
  rw [h.state, stateAt, bitsOf_tmsOf]

/-- The commands of a well-marked read are played, one cycle for each that clocks, and each 'R' is
answered. No assert fails. -/
theorem rbb_tick_exact (junk : Junk) (accept : Bool) (hroom : A.Room 0) (h : Serves A s l) (hne : cs ≠ [])
    (hlen : cs.length ≤ BUFFER_SIZE) (hmarks : WellMarked s.jtag.state cs) :
    Returns (jtag_rbb_tick d junk ⟨deliver cs, accept⟩) s fun _ s' =>
      ∃ cyc reply, Executed A s l cs s' cyc reply := by
  rw [Returns, jtag_rbb_tick_eq h.connected junk accept hne hlen]
  refine (rbb_execute_spec A junk hroom h hlen hmarks.passes).mono ?_
  rintro _ s' ⟨cyc, hplay⟩
  exact ⟨cyc, hplay.executed A (hmarks.uniform.replied_eq hmarks.total)⟩

end

/-! ## On a bench -/

/-- A server with a client. -/
def served {δ : Type} (c : Jtag δ) : Rbb δ := ⟨c, ⟨4, List.replicate BUFFER_SIZE 0, 0, 0, true, []⟩⟩

theorem served_bench (board : Board) (st : JtagState) :
    Serves (benchMpsseAdapter board) (served (benchMpsse st)) ⟨[], false, []⟩ :=
  ⟨show (0 : Int) ≤ 4 by decide, rfl, benchMpsse_stands board st, rfl⟩

def zeroJunk : Junk := ⟨fun _ => 0, fun _ => 0, fun _ => 0, fun _ => 0⟩

/-- Two bits in ShiftDR, both read, and out. -/
def twoReads : List Byte := ascii ['0', 'R', '4', '2', 'R', '6']

theorem rbb_tick_exact_two :
    Returns (jtag_rbb_tick (mpsse_driver (mpsseUsb Mpsse.blinkBoard Mpsse.idleEngine) (100 + 0) 15) zeroJunk
      ⟨deliver twoReads, false⟩) (served (benchMpsse ShiftDR)) fun _ s' => ∃ cyc reply,
        Executed (benchMpsseAdapter Mpsse.blinkBoard) (served (benchMpsse ShiftDR)) ⟨[], false, []⟩ twoReads
          s' cyc reply := by
  have hmarks : WellMarked ShiftDR twoReads := by
    refine ⟨?_, ?_, ?_⟩ <;> decide +kernel
  exact rbb_tick_exact (benchMpsseAdapter Mpsse.blinkBoard) zeroJunk false trivial
    (served_bench Mpsse.blinkBoard ShiftDR) (by decide) (by decide) hmarks

end JtagRemote.Rbb
