import JtagRemote.Rbb.Marks

/-!
# What the checks miss

An 'R' too many makes up for a cycle that is not marked: the totals agree, and the
TDO bits that are sent back are those of other cycles.
-/

namespace JtagRemote.Rbb

open JtagState

variable {st : JtagState} {cs : List Byte}

/-- The marks of each data region run up to its end, as many in all as the marked regions have
cycles; yet one of them begins behind the start of its region. -/
structure Masked (st : JtagState) (cs : List Byte) : Prop where
  rising : ∀ r ∈ regions st cs, r.is_tms = false → Rising (marks cs) r.begin_ (r.end_ - r.begin_)
  total : (marks cs).length =
    ((regions st cs).map fun r => if isRead (marks cs) r then r.end_ - r.begin_ else 0).sum
  late : ∃ r ∈ regions st cs, isRead (marks cs) r = true ∧ r.begin_ ∉ marks cs

theorem replied_length (st : JtagState) (cs : List Byte) : (replied st cs).length =
    ((regions st cs).map fun r => if isRead (marks cs) r then r.end_ - r.begin_ else 0).sum := by
  rw [replied, List.length_flatMap]
  congr 1
  apply List.map_congr_left
  intro r _
  unfold answered
  split
  · exact List.length_range'
  · rfl

theorem masked_iff : Masked st cs ↔ Passes st cs ∧ ¬ Uniform st cs := by
  constructor
  · rintro ⟨hrising, htotal, r, hr, hread, hlate⟩
    refine ⟨⟨hrising, htotal.trans (replied_length st cs).symm⟩, fun huniform => hlate ?_⟩
    have hne := ((regions_tiles st cs).1.ok hr).nonempty
    exact huniform.replied_subset (mem_replied.mpr ⟨r, hr, hread, Nat.le_refl _, hne⟩)
  · rintro ⟨hpass, hno⟩
    refine ⟨hpass.rising, hpass.total.trans (replied_length st cs), ?_⟩
    by_contra hlate
    refine hno fun r hr hdata => ?_
    have hne := ((regions_tiles st cs).1.ok hr).nonempty
    by_cases hread : isRead (marks cs) r = true
    · left
      have hfirst : r.begin_ ∈ marks cs := by
        by_contra hfirst
        exact hlate ⟨r, hr, hread, hfirst⟩
      intro i hi hi'
      exact hpass.rising r hr hdata r.begin_ i (Nat.le_refl _) hi (by omega) hfirst
    · right
      intro i hi hi' hmem
      refine hread ?_
      have hlast := hpass.rising r hr hdata i (r.end_ - 1) hi (by omega) (by omega) hmem
      simp [isRead, hdata, hlast]

/-- Each tick that ends has answered every 'R' with the TDO of its cycle. -/
def AlwaysAnswered (st : JtagState) (cs : List Byte) : Prop :=
  ∀ (δ : Type) (board : Board) (d : driver δ) (A : Adapter board d) (junk : Junk) (accept : Bool)
    (s s' : Rbb δ) (l : Line), A.Room 0 → Serves A s l → s.jtag.state = st →
    jtag_rbb_tick d junk ⟨deliver cs, accept⟩ s = .ok () s' → ∃ cyc reply, Executed A s l cs s' cyc reply

/-- What passes the checks is right where the marks cover whole regions. -/
theorem answered_of_not_masked (hne : cs ≠ []) (hlen : cs.length ≤ BUFFER_SIZE) (h : ¬ Masked st cs) :
    AlwaysAnswered st cs := by
  rintro δ board d A junk accept s s' l hroom hserves rfl hrun
  rw [jtag_rbb_tick_eq hserves.connected junk accept hne hlen] at hrun
  by_cases hpass : Passes s.jtag.state cs
  · obtain ⟨_, t, hrun', cyc, hplay⟩ := rbb_execute_spec A junk hroom hserves hlen hpass
    rw [hrun] at hrun'
    cases hrun'
    have huniform : Uniform s.jtag.state cs := by
      by_contra hno
      exact h (masked_iff.mpr ⟨hpass, hno⟩)
    exact ⟨cyc, hplay.executed A (huniform.replied_eq hpass.total)⟩
  · exact absurd hrun (rbb_execute_fails A junk hroom hserves hlen hpass).not_ok

/-! ## A board that tells the cycles apart -/

/-- TDO is high in cycle `p` only. -/
def pickBoard (p : Nat) : Board := ⟨fun log => decide (log.length = p), fun _ => 0⟩

theorem pickBoard_tdo {p : Nat} {cyc : List Cycle} (h : (pickBoard p).Ran [] cyc) {i : Nat} {c : Cycle}
    (hc : cyc[i]? = some c) : c.tdo = decide (i = p) := by
  have hcycles : ∀ (log : List Cycle) (ps : List Pins) (i : Nat) (c : Cycle),
      ((pickBoard p).cycles log ps)[i]? = some c → c.tdo = decide (log.length + i = p) := by
    intro log ps
    induction ps generalizing log with
    | nil =>
      intro i c hc
      simp at hc
    | cons q ps ih =>
      intro i c hc
      rw [Board.cycles] at hc
      cases i with
      | zero =>
        rw [List.getElem?_cons_zero, Option.some.injEq] at hc
        rw [← hc]
        rfl
      | succ i =>
        rw [List.getElem?_cons_succ] at hc
        rw [ih _ i c hc, List.length_append, List.length_singleton, Nat.add_assoc, Nat.add_comm 1]
  rw [Board.Ran] at h
  rw [← h] at hc
  have := hcycles [] _ i c hc
  rwa [List.length_nil, Nat.zero_add] at this

theorem wrote_inj {s : Sock} {data data' : List Byte} (h : wrote s data = wrote s data') : data = data' :=
  List.append_cancel_left (congrArg Sock.written h)

/-- On that board, a masked read is answered with the TDO of another cycle. -/
theorem not_answered_of_masked (hne : cs ≠ []) (hlen : cs.length ≤ BUFFER_SIZE) (h : Masked st cs) :
    ¬ AlwaysAnswered st cs := by
  obtain ⟨hpass, hno⟩ := masked_iff.mp h
  have hdiff : replied st cs ≠ marks cs := fun heq => hno (uniform_of_replied_eq hpass heq)
  obtain ⟨k, hk, hk', hkne⟩ : ∃ k, ∃ (hk : k < (replied st cs).length) (hk' : k < (marks cs).length),
      (replied st cs)[k] ≠ (marks cs)[k] := by
    by_contra hall
    push Not at hall
    exact hdiff (List.ext_getElem hpass.total.symm fun k hk hk' => hall k hk hk')
  intro halways
  have hserves := served_bench (pickBoard (replied st cs)[k]) st
  obtain ⟨_, s', hrun, cyc, hplay⟩ := rbb_execute_spec (benchMpsseAdapter (pickBoard (replied st cs)[k])) zeroJunk
    trivial hserves hlen hpass
  obtain ⟨cyc', reply', hexec⟩ := halways _ _ _ _ zeroJunk false _ s' _ trivial hserves rfl
    (by rw [jtag_rbb_tick_eq hserves.connected zeroJunk false hne hlen, hrun])
  obtain ⟨reply, hreply, hsock⟩ := hplay.sock
  obtain rfl : reply = reply' := wrote_inj (hsock.symm.trans hexec.sock)
  have hreply : Answers cyc (replied st cs) reply := hreply
  obtain ⟨c, hc, hread⟩ := hreply.get hk
  obtain ⟨c', hc', hasked⟩ := hexec.answers.get hk'
  have htdo := pickBoard_tdo hplay.ran hc
  have htdo' := pickBoard_tdo hexec.ran hc'
  rw [hread, Option.some.injEq, tdoChar, tdoChar, htdo, htdo', decide_eq_true rfl,
    decide_eq_false hkne.symm] at hasked
  exact absurd hasked (by decide)

/-- Just the masked reads get through with a wrong answer. -/
theorem rbb_answered_iff (hne : cs ≠ []) (hlen : cs.length ≤ BUFFER_SIZE) :
    AlwaysAnswered st cs ↔ ¬ Masked st cs :=
  ⟨fun h hmasked => not_answered_of_masked hne hlen hmasked h, answered_of_not_masked hne hlen⟩

theorem rbb_answered_iff_two : AlwaysAnswered ShiftDR twoReads ↔ ¬ Masked ShiftDR twoReads :=
  rbb_answered_iff (by decide) (by decide)

/-- Two cycles in ShiftDR, the second one marked twice. -/
def doubleRead : List Byte := ascii ['4', 'R', 'R', '4']

/-- The first answer is the TDO of the cycle that was not marked. -/
theorem double_read_misread : doubleRead.length ≤ BUFFER_SIZE ∧ ¬ AlwaysAnswered ShiftDR doubleRead := by
  refine ⟨by decide, not_answered_of_masked (by decide) (by decide) ⟨?_, by decide +kernel, by decide +kernel⟩⟩
  have hregions : regions ShiftDR doubleRead = [⟨false, false, 0, 2⟩] := by decide +kernel
  have hmarks : marks doubleRead = [1, 1] := by decide +kernel
  intro r hr hdata i j hi hij hj hmem
  rw [hregions, List.mem_singleton] at hr
  subst hr
  dsimp only at hi hj
  rw [hmarks] at hmem ⊢
  simp only [List.mem_cons, List.not_mem_nil, or_false, or_self] at hmem ⊢
  omega

end JtagRemote.Rbb
