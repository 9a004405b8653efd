import JtagRemote.Regions
import JtagRemote.Hardware.Board
import JtagRemote.Lib.Shift

/-!
# A daisy chain of devices

The devices share TCK and TMS, and TDI goes through them one after the other.
They are listed in the order in which they leave TDO, from the one at TDO on.
-/

namespace JtagRemote

open JtagState

/-- `ir_capture` is what CaptureIR loads, and as long as the instruction register; `data` is
the register that an instruction selects, as CaptureDR loads it. -/
structure Device where
  idcode : BitVec 32
  ir_capture : List Bool
  data : List Bool → List Bool
  idcode_low : idcode.getLsbD 0 = true
  bypass : data (List.replicate ir_capture.length true) = [false]

def idcodeBits (w : BitVec 32) : List Bool := (List.range 32).map w.getLsbD

/-- After a reset, and until an instruction is loaded, it is the IDCODE that is captured. -/
def Device.captured (dev : Device) : Option (List Bool) → List Bool
  | none => idcodeBits dev.idcode
  | some instruction => dev.data instruction

/-- The registers of each device. -/
structure Chain where
  instructions : List (Option (List Bool))
  irs : List (List Bool)
  drs : List (List Bool)

/-- The registers between TDI and TDO. -/
def Chain.path (s : Chain) (st : JtagState) : List (List Bool) := if st = ShiftIR then s.irs else s.drs

/-- A cycle that is taken in `st`. -/
def chainStep (devices : List Device) (st : JtagState) (tdi : Bool) (s : Chain) : Chain :=
  match st with
  | TestLogicReset => { s with instructions := devices.map fun _ => none }
  | CaptureIR => { s with irs := devices.map Device.ir_capture }
  | ShiftIR => { s with irs := seriesIn s.irs tdi }
  | UpdateIR => { s with instructions := s.irs.map some }
  | CaptureDR => { s with drs := List.zipWith Device.captured devices s.instructions }
  | ShiftDR => { s with drs := seriesIn s.drs tdi }
  | _ => s

/-- Where the TAP and the registers are after some cycles. -/
def chainRun (devices : List Device) (st : JtagState) (s : Chain) : List Cycle → JtagState × Chain
  | [] => (st, s)
  | c :: cs => chainRun devices (next_state st c.tms) (chainStep devices st c.tdi s) cs

/-- While the TAP shifts, TDO has what leaves the chain. -/
def ChainDrives (devices : List Device) (st : JtagState) (s : Chain) : List Cycle → Prop
  | [] => True
  | c :: cs => (st.isShift = true → c.tdo = seriesOut (s.path st) c.tdi) ∧
      ChainDrives devices (next_state st c.tms) (chainStep devices st c.tdi s) cs

variable {devices : List Device} {st : JtagState} {s : Chain}

theorem chainRun_append (cs ds : List Cycle) :
    chainRun devices st s (cs ++ ds) =
      chainRun devices (chainRun devices st s cs).1 (chainRun devices st s cs).2 ds := by
  induction cs generalizing st s with
  | nil => rfl
  | cons c cs ih => exact ih

theorem chainRun_tap (cs : List Cycle) : (chainRun devices st s cs).1 = stateAfter st (cs.map Cycle.tms) := by
  induction cs generalizing st s with
  | nil => rfl
  | cons c cs ih => exact ih

theorem chainDrives_append (cs ds : List Cycle) :
    ChainDrives devices st s (cs ++ ds) ↔ ChainDrives devices st s cs ∧
      ChainDrives devices (chainRun devices st s cs).1 (chainRun devices st s cs).2 ds := by
  induction cs generalizing st s with
  | nil => simp [ChainDrives, chainRun]
  | cons c cs ih => rw [List.cons_append, ChainDrives, ih, ChainDrives, chainRun, and_assoc]

/-! ## Shifting -/

theorem chainStep_path (h : st.isShift = true) (tdi : Bool) :
    (chainStep devices st tdi s).path st = seriesIn (s.path st) tdi := by
  revert h
  cases st <;> simp [JtagState.isShift, chainStep, Chain.path]

theorem chainStep_instructions (h : st.isShift = true) (tdi : Bool) :
    (chainStep devices st tdi s).instructions = s.instructions := by
  revert h
  cases st <;> simp [JtagState.isShift, chainStep]

/-- A row of bits went through the chain. -/
structure Shifted (st : JtagState) (s s' : Chain) (tdi : List Bool) : Prop where
  flat : (s'.path st).flatten = shiftAll (s.path st).flatten tdi
  lengths : (s'.path st).map List.length = (s.path st).map List.length
  instructions : s'.instructions = s.instructions

theorem Shifted.step (h : st.isShift = true) (tdi : Bool) : Shifted st s (chainStep devices st tdi s) [tdi] := by
  refine ⟨?_, ?_, chainStep_instructions h tdi⟩
  · rw [chainStep_path h, seriesIn_flatten]
    rfl
  · rw [chainStep_path h, seriesIn_lengths]

theorem Shifted.trans {s' s'' : Chain} {as bs : List Bool} (h : Shifted st s s' as) (h' : Shifted st s' s'' bs) :
    Shifted st s s'' (as ++ bs) := by
  refine ⟨?_, h'.lengths.trans h.lengths, h'.instructions.trans h.instructions⟩
  rw [h'.flat, h.flat, shiftAll, shiftAll, shiftAll, List.foldl_append]

/-- TMS is low in all cycles but the last. -/
theorem chain_shifts (h : st.isShift = true) {cs : List Cycle} {m : Nat} {flip : Bool}
    (htms : cs.map Cycle.tms = List.replicate m false ++ [flip]) :
    (chainRun devices st s cs).1 = next_state st flip ∧
      Shifted st s (chainRun devices st s cs).2 (cs.map Cycle.tdi) ∧
      (ChainDrives devices st s cs → cs.map Cycle.tdo = shiftOuts (s.path st).flatten (cs.map Cycle.tdi)) := by
  have hout : ∀ c : Cycle, (st.isShift = true → c.tdo = seriesOut (s.path st) c.tdi) →
      c.tdo = shiftOut (s.path st).flatten c.tdi := fun c hc => by rw [hc h, seriesOut_eq]
  induction m generalizing s cs with
  | zero =>
    obtain ⟨c, rfl, rfl⟩ := List.map_eq_singleton_iff.mp htms
    refine ⟨rfl, .step h c.tdi, fun hdrives => ?_⟩
    exact congrArg (· :: []) (hout c hdrives.1)
  | succ m ih =>
    rw [List.replicate_succ, List.cons_append, List.map_eq_cons_iff] at htms
    obtain ⟨c, cs, rfl, hc, hcs⟩ := htms
    have hnext : next_state st c.tms = st := by rw [hc, next_low h]
    have hstep : Shifted st s (chainStep devices st c.tdi s) [c.tdi] := .step h c.tdi
    obtain ⟨htap, hshift, houts⟩ := ih (s := chainStep devices st c.tdi s) hcs
      fun c hc => by rw [hc h, seriesOut_eq]
    rw [chainRun, hnext]
    refine ⟨htap, hstep.trans hshift, ?_⟩
    rintro ⟨hfirst, hrest⟩
    rw [hnext] at hrest
    rw [List.map_cons, hout c hfirst, houts hrest, hstep.flat]
    rfl

/-- Ones through registers that are not longer leave them full of ones. -/
theorem Shifted.full {s' : Chain} {n : Nat} {b : Bool} (h : Shifted st s s' (List.replicate n b))
    (hn : ((s.path st).map List.length).sum ≤ n) :
    s'.path st = (s.path st).map fun reg => List.replicate reg.length b := by
  have hflat : ∀ x ∈ (s'.path st).flatten, x = b := by
    rw [h.flat, shiftAll_eq, List.length_replicate, List.drop_append, List.drop_of_length_le (by simpa using hn),
      List.nil_append, List.drop_replicate]
    intro x hx
    exact List.eq_of_mem_replicate hx
  have hlengths := h.lengths
  generalize s'.path st = regs' at hflat hlengths ⊢
  generalize s.path st = regs at hlengths ⊢
  induction regs' generalizing regs with
  | nil =>
    rw [List.map_nil, eq_comm, List.map_eq_nil_iff] at hlengths
    rw [hlengths, List.map_nil]
  | cons reg' regs' ih =>
    rw [List.map_cons, eq_comm, List.map_eq_cons_iff] at hlengths
    obtain ⟨reg, regs, rfl, hreg, hregs⟩ := hlengths
    rw [List.map_cons, ← ih (fun x hx => hflat x (by simp [hx])) regs hregs.symm, hreg]
    congr 1
    exact List.eq_replicate_iff.mpr ⟨rfl, fun x hx => hflat x (by simp [hx])⟩

/-! ## A chain as a board -/

/-- TDO has what leaves the chain; the level that it has elsewhere is never looked at. -/
def chainBoard (devices : List Device) (st : JtagState) (s : Chain) : Board where
  tdo log := seriesOut ((chainRun devices st s log).2.path (chainRun devices st s log).1) false
  noise _ := 0

/-- There is a bit in the way from TDI to TDO. -/
structure Chain.Filled (s : Chain) : Prop where
  irs : s.irs.flatten ≠ []
  drs : s.drs.flatten ≠ []
  instructions : s.instructions ≠ []

theorem Chain.Filled.path (h : s.Filled) (st : JtagState) : (s.path st).flatten ≠ [] := by
  unfold Chain.path
  split
  · exact h.irs
  · exact h.drs

theorem seriesIn_filled {regs : List (List Bool)} (h : regs.flatten ≠ []) (b : Bool) : (seriesIn regs b).flatten ≠ [] := by
  rw [seriesIn_flatten, ← List.length_pos_iff, shiftIn_length]
  exact List.length_pos_of_ne_nil h

theorem Chain.Filled.step {dev : Device} {rest : List Device} (h : s.Filled) (hir : dev.ir_capture ≠ [])
    (hdata : ∀ i, dev.data i ≠ []) (st : JtagState) (tdi : Bool) : (chainStep (dev :: rest) st tdi s).Filled := by
  obtain ⟨hirs, hdrs, hinstr⟩ := h
  unfold chainStep
  split
  · exact ⟨hirs, hdrs, by simp⟩
  · exact ⟨by simp [hir], hdrs, hinstr⟩
  · exact ⟨seriesIn_filled hirs tdi, hdrs, hinstr⟩
  · refine ⟨hirs, hdrs, ?_⟩
    intro hnil
    rw [List.map_eq_nil_iff] at hnil
    exact hirs (by rw [hnil]; rfl)
  · refine ⟨hirs, ?_, hinstr⟩
    obtain ⟨i, is, hcons⟩ := List.exists_cons_of_ne_nil hinstr
    have hfirst : dev.captured i ≠ [] := by
      cases i with
      | none => simp [Device.captured, idcodeBits]
      | some i => exact hdata i
    dsimp only
    rw [hcons, List.zipWith_cons_cons, List.flatten_cons]
    simp [hfirst]
  · exact ⟨hirs, seriesIn_filled hdrs tdi, hinstr⟩
  · exact ⟨hirs, hdrs, hinstr⟩

/-- With a device that has an instruction register, TDO does not depend on the cycle itself. -/
theorem chainBoard_drives {dev : Device} {rest : List Device} (hir : dev.ir_capture ≠ [])
    (hdata : ∀ i, dev.data i ≠ []) (h : s.Filled) {log : List Cycle}
    (hlog : (chainBoard (dev :: rest) st s).Since [] log) : ChainDrives (dev :: rest) st s log := by
  obtain ⟨cs, rfl, hran⟩ := hlog
  suffices hall : ∀ (cs : List Cycle) (st' : JtagState) (s' : Chain), s'.Filled →
      (∀ i (c : Cycle), cs[i]? = some c → c.tdo = seriesOut ((chainRun (dev :: rest) st' s' (cs.take i)).2.path
        (chainRun (dev :: rest) st' s' (cs.take i)).1) false) → ChainDrives (dev :: rest) st' s' cs from
    hall log st s h fun i c hc => hran.tdo hc
  intro cs
  induction cs with
  | nil => exact fun _ _ _ _ => trivial
  | cons c cs ih =>
    intro st' s' h' htdo
    refine ⟨fun _ => ?_, ih _ _ (h'.step hir hdata st' c.tdi) fun i x hx => htdo (i + 1) x hx⟩
    have hfirst := htdo 0 c rfl
    obtain ⟨b, bs, hcons⟩ := List.exists_cons_of_ne_nil (h'.path st')
    rw [hfirst, List.take_zero, chainRun, seriesOut_eq, seriesOut_eq, hcons]
    rfl

end JtagRemote
