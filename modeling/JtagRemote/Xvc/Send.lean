import JtagRemote.Xvc.Command
import JtagRemote.Regions

/-!
# Sending a shift

Region by region: TMS bits as they are, or as one bit and the idle clock; data as
a scan whose answer is received later.
-/

namespace JtagRemote

namespace Xvc

/-! ## The parts of a shift -/

/-- A region, and the cycles that the board saw for it. -/
structure Part where
  region : Region
  cycles : List Cycle
  deriving DecidableEq

def Part.size (p : Part) : Nat := p.region.end_ - p.region.begin_

/-- The scan that waits to be received. -/
def Part.scans (p : Part) : List Scan :=
  if p.region.is_tms then [] else [⟨p.size, p.region.flip_tms, p.cycles.map Cycle.tdo⟩]

/-- The bits of the reply that the region gives. -/
def Part.reply (p : Part) : List Bool :=
  if p.region.is_tms then List.replicate p.size false else p.cycles.map Cycle.tdo

/-- The cycles are those that the client asked for; for TMS bits in RunTestIdle, if the idle
clock is worth its cycles. -/
structure Part.Ok (ticks : Nat → Nat) (sh : Shift) (p : Part) : Prop where
  tms : p.region.is_tms = false ∨ (∀ n, ticks n = n) → p.cycles.map Cycle.tms = p.region.cut sh.tms
  tdi : p.region.is_tms = false → p.cycles.map Cycle.tdi = p.region.cut sh.tdi

theorem Part.Ok.length {ticks : Nat → Nat} {sh : Shift} {p : Part} (h : p.Ok ticks sh)
    (hexact : p.region.is_tms = false ∨ (∀ n, ticks n = n)) : p.cycles.length = p.size := by
  have := congrArg List.length (h.tms hexact)
  rwa [List.length_map, Region.cut, bitsFrom_length] at this

theorem Part.Ok.reply_length {ticks : Nat → Nat} {sh : Shift} {p : Part} (h : p.Ok ticks sh) :
    p.reply.length = p.size := by
  unfold Part.reply
  split
  · exact List.length_replicate
  · rename_i hdata
    rw [List.length_map]
    exact h.length (Or.inl (by simpa using hdata))

/-- The globals that hold the bits of a shift. -/
structure Loaded {δ : Type} (s : Xvc δ) (sh : Shift) : Prop where
  tms_size : s.tms.length = BUFFER_SIZE
  tdi_size : s.tdi.length = BUFFER_SIZE
  tms : ∀ i, i < sh.bits → bitAt s.tms i = bitAt sh.tms i
  tdi : ∀ i, i < sh.bits → bitAt s.tdi i = bitAt sh.tdi i

section

variable {δ : Type} {board : Board} {d : driver δ} (A : Adapter board d) {s : Xvc δ} {l : Line}
  {st : JtagState} {sh : Shift} {r : Region}

/-- The state that an adapter call leaves. -/
structure Sent (s : Xvc δ) (l : Line) (st : JtagState) (sh : Shift) (r : Region) (s' : Xvc δ) (p : Part) :
    Prop where
  rest : s' = { s with jtag := s'.jtag }
  region : p.region = r
  ok : p.Ok A.ticks sh
  ran : board.Ran l.log p.cycles
  state : s'.jtag.state = stateAt st sh.tms r.end_
  stands : ∃ tms, A.Stands s'.jtag.state s'.jtag.dev ⟨l.log ++ p.cycles, tms, l.pending ++ p.scans⟩

/-! ## TMS regions -/

open JtagState

/-- The repacked bits, and whether the clock alone will do. -/
theorem tms_buffer_spec (hload : Loaded s sh) (hr : r.begin_ < r.end_) (hend : r.end_ ≤ sh.bits) (idle : Bool) :
    Returns (forUpto (r.end_ - r.begin_) (List.replicate BUFFER_SIZE 0, idle) fun off (b, clock_only) => do
      let tms_bit ← bit_of s.tms (r.begin_ + off)
      let b ← or_bit b off tms_bit
      pure (b, clock_only && !tms_bit) : XvcProg δ (List Byte × Bool)) s fun x s' => s' = s ∧
        x.1.length = BUFFER_SIZE ∧ Holds x.1 (r.cut sh.tms) ∧
        x.2 = (idle && (r.cut sh.tms).all (fun b => !b)) := by
  have hfits := sh.fits
  have hsize := hload.tms_size
  unfold MAX_BITS at hfits
  unfold Region.cut
  refine Returns.forUpto (fun n (x : List Byte × Bool) s' => s' = s ∧ x.1.length = BUFFER_SIZE ∧
    Holds x.1 (bitsFrom sh.tms r.begin_ n) ∧ x.2 = (idle && (bitsFrom sh.tms r.begin_ n).all (fun b => !b)))
    ⟨rfl, List.length_replicate, holds_replicate _, by simp [bitsFrom]⟩ ?_
  rintro off ⟨b, clock_only⟩ t hoff ⟨ht, hlen, hholds, hclock⟩
  simp only at hlen hholds hclock ⊢
  unfold BUFFER_SIZE at hlen hsize
  have hbit := hload.tms (r.begin_ + off) (by omega)
  have hnext := hholds.orBit (bitAt s.tms (r.begin_ + off)) (by rw [bitsFrom_length]; omega)
  rw [bitsFrom_length] at hnext
  refine Returns.of_eq_bind (bit_of_ok (by omega) _) ?_
  refine Returns.of_eq_bind (or_bit_ok (by omega) _ _) ?_
  refine returns_pure ⟨ht, ?_, ?_, ?_⟩
  · rw [orBit_length, hlen]
    rfl
  · rw [bitsFrom_succ, ← hbit]
    exact hnext
  · rw [bitsFrom_succ, ← hbit, hclock, List.all_append, Bool.and_assoc]
    simp

theorem all_low {bs : List Bool} (h : bs.all (fun b => !b) = true) :
    bs = List.replicate bs.length false := by
  rw [List.eq_replicate_iff]
  refine ⟨rfl, ?_⟩
  intro b hb
  simpa using List.all_eq_true.mp h b hb

theorem xvc_tms_region_spec (h : A.Stands s.jtag.state s.jtag.dev l)
    (hst : s.jtag.state = stateAt st sh.tms r.begin_) (hload : Loaded s sh) (hr : RegionOk st sh.tms r)
    (htms : r.is_tms = true) (hend : r.end_ ≤ sh.bits) :
    Returns (xvc_tms_region d r) s fun _ s' => ∃ p, Sent A s l st sh r s' p := by
  have hne := hr.nonempty
  have hfits := sh.fits
  have hcut : (r.cut sh.tms).length = r.end_ - r.begin_ := bitsFrom_length _ _ _
  unfold xvc_tms_region
  refine Returns.get_bind ?_
  refine Returns.bind (tms_buffer_spec hload hne hend _) ?_
  rintro ⟨buf, clock_only⟩ _ ⟨rfl, hlen, hholds, hclock⟩
  simp only at hlen hholds hclock ⊢
  have hbits : bitsOf buf (r.end_ - r.begin_) = r.cut sh.tms := by
    have := hholds.bitsOf
    rwa [hcut] at this
  have hroom : r.end_ - r.begin_ ≤ 8 * buf.length := by
    unfold MAX_BITS at hfits
    unfold BUFFER_SIZE at hlen
    omega
  refine Returns.of_eq_bind (Region.length_ok hne _) ?_
  split
  · -- one bit, and the clock for the others
    rename_i hc
    rw [hclock, Bool.and_eq_true, decide_eq_true_eq] at hc
    have hlow := all_low hc.2
    rw [hcut] at hlow
    have hone : bitsOf buf 1 = [false] := by
      obtain ⟨n, hn⟩ : ∃ n, r.end_ - r.begin_ = n + 1 := ⟨r.end_ - r.begin_ - 1, by omega⟩
      have := congrArg (List.take 1) (hbits.trans hlow)
      rw [bitsOf_take, hn, Nat.min_eq_left (by omega)] at this
      rw [this]
      simp [List.replicate_succ]
    refine Returns.bind (Returns.focus (A.tms_seq_spec buf h (Nat.le_refl 1) (by omega) (by omega))) ?_
    rintro _ _ ⟨c₁, ⟨-, hst₁, ps₁, hps₁, h₁⟩, rfl⟩
    refine Returns.bind (Returns.focus (A.clock_spec (n := r.end_ - r.begin_ - 1) h₁ (by omega))) ?_
    rintro _ _ ⟨c₂, ⟨-, hst₂, ps₂, hps₂, h₂⟩, rfl⟩
    have htms₂ : ps₂.map Pins.tms = List.replicate (A.ticks (r.end_ - r.begin_ - 1)) false := by
      rw [hps₂, Line.clock, hps₁, hone]
      rfl
    refine returns_pure ⟨⟨r, board.cycles l.log (ps₁ ++ ps₂)⟩, rfl, rfl, ⟨?_, ?_⟩, cycles_ran _ _ _, ?_, ?_⟩
    · intro hexact
      have hticks := hexact.resolve_left (by simp [htms])
      rw [cycles_tms, List.map_append, hps₁, hone, htms₂, hticks, hlow,
        show r.end_ - r.begin_ = r.end_ - r.begin_ - 1 + 1 by omega, List.replicate_succ]
      rfl
    · intro hdata
      rw [htms] at hdata
      cases hdata
    · show c₂.state = _
      rw [hst₂, hst₁, hone, hr.stateAt_end, ← hst, hc.1, hlow, stateAfter_idle]
      rfl
    · refine ⟨((l.clock board ps₁).clock board ps₂).tms, ?_⟩
      have hline : ((l.clock board ps₁).clock board ps₂) =
          ⟨l.log ++ board.cycles l.log (ps₁ ++ ps₂), ((l.clock board ps₁).clock board ps₂).tms, l.pending⟩ := by
        rw [cycles_append, ← List.append_assoc]
        rfl
      rw [hline] at h₂
      simpa [Part.scans, htms] using h₂
  · refine Returns.bind (Returns.focus (A.tms_seq_spec buf h (by omega) (by omega) hroom)) ?_
    rintro _ _ ⟨c₁, ⟨-, hst₁, ps₁, hps₁, h₁⟩, rfl⟩
    refine returns_pure ⟨⟨r, board.cycles l.log ps₁⟩, rfl, rfl, ⟨?_, ?_⟩, cycles_ran _ _ _, ?_, ?_⟩
    · intro _
      rw [cycles_tms, hps₁, hbits]
    · intro hdata
      rw [htms] at hdata
      cases hdata
    · show c₁.state = _
      rw [hst₁, hbits, hst, hr.stateAt_end]
    · refine ⟨(l.clock board ps₁).tms, ?_⟩
      have hnone : (⟨r, board.cycles l.log ps₁⟩ : Part).scans = [] := by simp [Part.scans, htms]
      rw [hnone, List.append_nil]
      exact h₁

/-! ## Data regions -/

theorem tdi_buffer_spec (hload : Loaded s sh) (hr : r.begin_ < r.end_) (hend : r.end_ ≤ sh.bits) :
    Returns (forUpto (r.end_ - r.begin_) (List.replicate BUFFER_SIZE 0) fun off b => do
      let tdi_bit ← bit_of s.tdi (r.begin_ + off)
      or_bit b off tdi_bit : XvcProg δ (List Byte)) s fun b s' => s' = s ∧
        b.length = BUFFER_SIZE ∧ Holds b (r.cut sh.tdi) :=
  repack_spec hload.tdi_size hload.tdi hr hend (Nat.le_trans sh.fits (by decide)) s

theorem xvc_data_region_spec (h : A.Stands s.jtag.state s.jtag.dev l)
    (hst : s.jtag.state = stateAt st sh.tms r.begin_) (hload : Loaded s sh) (hr : RegionOk st sh.tms r)
    (hdata : r.is_tms = false) (hend : r.end_ ≤ sh.bits) (hroom : A.Room l.pending.length) :
    Returns (xvc_data_region d r) s fun _ s' => ∃ p, Sent A s l st sh r s' p := by
  have hne := hr.nonempty
  have hfits := sh.fits
  have hcut : (r.cut sh.tdi).length = r.end_ - r.begin_ := bitsFrom_length _ _ _
  have hshift : s.jtag.state.isShift = true := by
    rw [hst]
    exact hr.isShift hdata
  unfold xvc_data_region
  refine Returns.get_bind ?_
  refine Returns.bind (tdi_buffer_spec hload hne hend) ?_
  rintro buf _ ⟨rfl, hlen, hholds⟩
  have hbits : bitsOf buf (r.end_ - r.begin_) = r.cut sh.tdi := by
    have := hholds.bitsOf
    rwa [hcut] at this
  have hle : r.end_ - r.begin_ ≤ 8 * buf.length := by
    unfold MAX_BITS at hfits
    unfold BUFFER_SIZE at hlen
    omega
  refine Returns.of_eq_bind (Region.length_ok hne _) ?_
  refine Returns.bind (Returns.focus (A.send_spec h hshift hroom (by omega) (by omega) hle)) ?_
  rintro _ _ ⟨c, ⟨-, hstate, h'⟩, rfl⟩
  refine returns_pure ⟨⟨r, board.cycles l.log (scanPins buf (r.end_ - r.begin_) r.flip_tms)⟩, rfl, rfl,
    ⟨?_, ?_⟩, cycles_ran _ _ _, ?_, ?_⟩
  · intro _
    rw [cycles_tms, scanPins, List.map_map, hr.cut_tms hdata]
    rfl
  · intro _
    rw [cycles_tdi, scanPins, List.map_map, ← hbits]
    rfl
  · show c.state = _
    rw [hstate, hst, hr.scan_state hdata]
  · refine ⟨(l.scan board buf (r.end_ - r.begin_) r.flip_tms true).tms, ?_⟩
    have hone : (⟨r, board.cycles l.log (scanPins buf (r.end_ - r.begin_) r.flip_tms)⟩ : Part).scans =
        [⟨r.end_ - r.begin_, r.flip_tms,
          (board.cycles l.log (scanPins buf (r.end_ - r.begin_) r.flip_tms)).map Cycle.tdo⟩] := by
      simp [Part.scans, Part.size, hdata]
    rw [hone]
    exact h'

theorem xvc_data_region_fails (h : A.Stands s.jtag.state s.jtag.dev l) (hload : Loaded s sh)
    (hne : r.begin_ < r.end_) (hend : r.end_ ≤ sh.bits) (hroom : ¬ A.Room l.pending.length) :
    Faults (xvc_data_region d r) s .assert_failed := by
  unfold xvc_data_region
  rw [Faults, bind_of_ok (get_apply s)]
  refine Returns.bind_faults (tdi_buffer_spec hload hne hend) ?_
  rintro buf _ ⟨rfl, -, -⟩
  rw [Faults, bind_of_ok (Region.length_ok hne _)]
  exact Faults.bind (Faults.focus (A.send_fails h hroom))

end

end Xvc

end JtagRemote
