import JtagRemote.Lib.Mealy
import JtagRemote.Hardware.Chain

/-!
# A target on the cable

A target is a TAP with registers behind it: a machine that takes the pins of a cycle
and drives TDO while it shifts. TDI counts in the Shift states only, so a server may
drive what it likes elsewhere. A daisy chain is a target.
-/

namespace JtagRemote

open JtagState

/-- `clock` is what a cycle does that is taken in a TAP state. -/
structure Target (σ : Type) where
  clock : JtagState → Bool → σ → σ
  tdo : JtagState → σ → Bool
  deaf : ∀ {st : JtagState} (b : Bool) (x : σ), st.isShift = false → clock st b x = clock st false x

namespace Target

variable {σ : Type} (T : Target σ)

/-- TDO is low where nothing is shifted. -/
def machine : Mealy (JtagState × σ) Pins Bool where
  step q p := (next_state q.1 p.tms, T.clock q.1 p.tdi q.2)
  out q _ := q.1.isShift && T.tdo q.1 q.2

/-- The target as a board, from `q₀` on. -/
def board (q₀ : JtagState × σ) (noise : List Cycle → Byte) : Board where
  tdo log := T.tdo (T.machine.run q₀ (log.map Cycle.pins)).1 (T.machine.run q₀ (log.map Cycle.pins)).2
  noise := noise

theorem run_tap (q : JtagState × σ) (ps : List Pins) :
    (T.machine.run q ps).1 = stateAfter q.1 (ps.map Pins.tms) := by
  induction ps generalizing q with
  | nil => rfl
  | cons p ps ih => exact ih _

end Target

/-! ## What is asked for, and what is played -/

/-- The same TMS bits, and the same TDI bits where the TAP shifts data. -/
structure SameAsked (st : JtagState) (ps ps' : List Pins) : Prop where
  tms : ps.map Pins.tms = ps'.map Pins.tms
  tdi : ∀ i, (stateAfter st ((ps.map Pins.tms).take i)).isShift = true → (ps[i]?).map Pins.tdi = (ps'[i]?).map Pins.tdi

theorem SameAsked.refl (st : JtagState) (ps : List Pins) : SameAsked st ps ps := ⟨rfl, fun _ _ => rfl⟩

theorem SameAsked.length {st : JtagState} {ps ps' : List Pins} (h : SameAsked st ps ps') :
    ps.length = ps'.length := by
  have := congrArg List.length h.tms
  rwa [List.length_map, List.length_map] at this

theorem SameAsked.tail {st : JtagState} {p p' : Pins} {ps ps' : List Pins} (h : SameAsked st (p :: ps) (p' :: ps')) :
    SameAsked (next_state st p.tms) ps ps' := by
  have htms := h.tms
  rw [List.map_cons, List.map_cons, List.cons.injEq] at htms
  exact ⟨htms.2, fun i hi => by simpa using h.tdi (i + 1) (by simpa [stateAfter] using hi)⟩

theorem SameAsked.take {st : JtagState} {ps ps' : List Pins} (h : SameAsked st ps ps') (n : Nat) :
    SameAsked st (ps.take n) (ps'.take n) := by
  refine ⟨by rw [List.map_take, List.map_take, h.tms], ?_⟩
  intro i hshift
  by_cases hi : i < n
  · rw [List.map_take, List.take_take, Nat.min_eq_left (Nat.le_of_lt hi)] at hshift
    rw [List.getElem?_take_of_lt hi, List.getElem?_take_of_lt hi]
    exact h.tdi i hshift
  · rw [List.getElem?_take, List.getElem?_take, if_neg hi, if_neg hi]

/-- The TDO bits of the cycles that shift; the others count as low. -/
def shiftBits (st : JtagState) : List Cycle → List Bool
  | [] => []
  | c :: cs => (st.isShift && c.tdo) :: shiftBits (next_state st c.tms) cs

theorem shiftBits_length (st : JtagState) (cs : List Cycle) : (shiftBits st cs).length = cs.length := by
  induction cs generalizing st with
  | nil => rfl
  | cons c cs ih => simp [shiftBits, ih]

theorem shiftBits_getElem? (st : JtagState) (cs : List Cycle) (i : Nat) :
    (shiftBits st cs)[i]? = (cs[i]?).map fun c => (stateAfter st ((cs.map Cycle.tms).take i)).isShift && c.tdo := by
  induction cs generalizing st i with
  | nil => simp [shiftBits]
  | cons c cs ih =>
    cases i with
    | zero => rfl
    | succ i => simpa [shiftBits, stateAfter] using ih (next_state st c.tms) i

namespace Target

variable {σ : Type} {T : Target σ} {q q₀ : JtagState × σ} {noise : List Cycle → Byte}

/-- A target cannot tell TDI bits apart that it does not take. -/
theorem alike {ps ps' : List Pins} (h : SameAsked q.1 ps ps') : T.machine.Alike q ps ps' := by
  induction ps generalizing q ps' with
  | nil =>
    rw [List.length_eq_zero_iff.mp h.length.symm]
    trivial
  | cons p ps ih =>
    obtain ⟨p', ps', rfl⟩ := List.exists_cons_of_length_eq_add_one h.length.symm
    have htms := h.tms
    rw [List.map_cons, List.map_cons, List.cons.injEq] at htms
    refine ⟨rfl, ?_, ih h.tail⟩
    show (next_state q.1 p.tms, T.clock q.1 p.tdi q.2) = (next_state q.1 p'.tms, T.clock q.1 p'.tdi q.2)
    rw [htms.1]
    congr 1
    by_cases hshift : q.1.isShift = true
    · have htdi : p.tdi = p'.tdi := by simpa using h.tdi 0 hshift
      rw [htdi]
    · have hshift : q.1.isShift = false := by simpa using hshift
      rw [T.deaf p.tdi q.2 hshift, T.deaf p'.tdi q.2 hshift]

/-- What the board answers is what the machine answers. -/
theorem outs_of_ran {log cs : List Cycle} (h : (T.board q₀ noise).Ran log cs) :
    T.machine.outs (T.machine.run q₀ (log.map Cycle.pins)) (cs.map Cycle.pins) =
      shiftBits (T.machine.run q₀ (log.map Cycle.pins)).1 cs := by
  apply List.ext_getElem?
  intro i
  rw [Mealy.outs_getElem?, shiftBits_getElem?, List.getElem?_map, Option.map_map]
  cases hc : cs[i]? with
  | none => rfl
  | some c =>
    have htap : stateAfter (T.machine.run q₀ (log.map Cycle.pins)).1 ((cs.map Cycle.tms).take i) =
        (T.machine.run q₀ ((log ++ cs.take i).map Cycle.pins)).1 := by
      rw [map_tms_eq, ← List.map_take, ← List.map_take, ← run_tap, ← Mealy.run_append, List.map_append]
    rw [Option.map_some, Option.map_some, h.tdo hc, htap, ← List.map_take, ← Mealy.run_append, ← List.map_append]
    rfl

/-- Played as it was asked for, a row of pins is answered as the machine answers it. -/
theorem answers {log cs : List Cycle} {ps : List Pins} (h : (T.board q₀ noise).Ran log cs)
    (hasked : SameAsked (T.machine.run q₀ (log.map Cycle.pins)).1 (cs.map Cycle.pins) ps) :
    shiftBits (T.machine.run q₀ (log.map Cycle.pins)).1 cs =
        T.machine.outs (T.machine.run q₀ (log.map Cycle.pins)) ps ∧
      T.machine.run q₀ ((log ++ cs).map Cycle.pins) = T.machine.run (T.machine.run q₀ (log.map Cycle.pins)) ps := by
  constructor
  · rw [← outs_of_ran h, (alike hasked).outs]
  · rw [List.map_append, Mealy.run_append, (alike hasked).run]

end Target

/-! ## A daisy chain is a target -/

theorem chainStep_deaf (devices : List Device) {st : JtagState} (b : Bool) (s : Chain) (h : st.isShift = false) :
    chainStep devices st b s = chainStep devices st false s := by
  revert h
  cases st <;> simp [JtagState.isShift, chainStep]

def chainTarget (devices : List Device) : Target Chain where
  clock := chainStep devices
  tdo st s := seriesOut (s.path st) false
  deaf := chainStep_deaf devices

theorem chainTarget_run (devices : List Device) (st : JtagState) (s : Chain) (cs : List Cycle) :
    (chainTarget devices).machine.run (st, s) (cs.map Cycle.pins) = chainRun devices st s cs := by
  induction cs generalizing st s with
  | nil => rfl
  | cons c cs ih => exact ih _ _

/-- While TMS is low, what is in the chain comes out, and then what went in. -/
theorem chain_outs (devices : List Device) {st : JtagState} {s : Chain} (h : st.isShift = true)
    (hfilled : (s.path st).flatten ≠ []) {ps : List Pins} (hlow : ∀ p ∈ ps, p.tms = false) :
    (chainTarget devices).machine.outs (st, s) ps = shiftOuts (s.path st).flatten (ps.map Pins.tdi) := by
  induction ps generalizing s with
  | nil => rfl
  | cons p ps ih =>
    rw [List.forall_mem_cons] at hlow
    have hpath : ((chainStep devices st p.tdi s).path st).flatten = shiftIn (s.path st).flatten p.tdi := by
      rw [chainStep_path h, seriesIn_flatten]
    have hfilled' : ((chainStep devices st p.tdi s).path st).flatten ≠ [] := by
      rw [chainStep_path h]
      exact seriesIn_filled hfilled p.tdi
    have hout : (chainTarget devices).machine.out (st, s) p = shiftOut (s.path st).flatten p.tdi := by
      obtain ⟨b, bs, hcons⟩ := List.exists_cons_of_ne_nil hfilled
      show (st.isShift && seriesOut (s.path st) false) = _
      rw [h, Bool.true_and, seriesOut_eq, hcons]
      rfl
    have hstep : (chainTarget devices).machine.step (st, s) p = (st, chainStep devices st p.tdi s) := by
      show (next_state st p.tms, _) = _
      rw [hlow.1, next_low h]
      rfl
    rw [Mealy.outs_cons, hout, hstep, ih hfilled' hlow.2, hpath, List.map_cons, shiftOuts]

/-! ## A bypass -/

/-- One bit in each register, from TDI to TDO. -/
def bypassClock (st : JtagState) (b x : Bool) : Bool := if st.isShift then b else x

theorem bypassClock_deaf {st : JtagState} (b x : Bool) (h : st.isShift = false) :
    bypassClock st b x = bypassClock st false x := by simp [bypassClock, h]

def bypassTarget : Target Bool where
  clock := bypassClock
  tdo _ x := x
  deaf := bypassClock_deaf

/-- The TAP is in `st`, and the bit is low. -/
abbrev bypassBoard (st : JtagState) : Board := bypassTarget.board (st, false) fun _ => 0

end JtagRemote
