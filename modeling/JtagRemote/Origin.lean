import JtagRemote.Regions
import JtagRemote.Ftdi
import JtagRemote.Hardware.Board

/-!
# Following the TAP from an origin

The TAP's state behind some cycles is `next_state` folded over their TMS bits. In a
Shift state TMS is low, so scans that hold its level do not move the TAP.
-/

namespace JtagRemote

/-! ## Transfers that fail -/

/-- A transfer that fails delivers nothing. -/
def Usb.Whole (usb : Usb) : Prop :=
  ∀ data p, Ensures (ftdi_write_retry usb data) p fun r q => r = false → q.delivered = p.delivered

/-- The transfer of `data` succeeds. -/
def Usb.Sends (usb : Usb) (data : List Byte) (p : Port) : Prop := ∃ q, ftdi_write_retry usb data p = .ok true q

theorem ftdi_write_retry_whole {usb : Usb} (h : usb.Whole) (data : List Byte) (p : Port) :
    Returns (ftdi_write_retry usb data) p fun r q => q.delivered = p.delivered ++ (if r then data else []) ∧
      (r = true ↔ usb.Sends data p) := by
  obtain ⟨r, q, hrun, l, hl, -, hall⟩ := ftdi_write_retry_spec usb data p
  refine ⟨r, q, hrun, ?_, ?_⟩
  · cases r with
    | false =>
      rw [if_neg Bool.false_ne_true, List.append_nil]
      exact h data p _ _ hrun rfl
    | true => rw [if_pos rfl, hl.delivered, hall rfl]
  · constructor
    · rintro rfl
      exact ⟨q, hrun⟩
    · rintro ⟨q', hrun'⟩
      rw [hrun] at hrun'
      cases hrun'
      rfl

/-- Calls that all fail deliver nothing. -/
theorem whole_of_errors {usb : Usb} (h : ∀ k, usb.write_result k = .error) : usb.Whole := by
  intro data p r q hrun hr
  have hsame : Ensures (ftdi_write_retry usb data) p fun _ q => q.delivered = p.delivered := by
    unfold ftdi_write_retry ftdi_write_loop
    refine ensures_ite (fun _ => ?_) fun _ => ensures_pure rfl
    refine Ensures.bind (P := fun r q => r = none ∧ q.delivered = p.delivered) ?_ ?_
    · unfold ftdi_write_data
      apply Ensures.get_bind
      rw [h]
      exact Ensures.set_bind (ensures_pure ⟨rfl, rfl⟩)
    · rintro _ q ⟨rfl, hq⟩
      exact ensures_pure hq
  exact hsame r q hrun

/-! ## The TAP -/

/-- The cycles until some moment, the level of TMS then, and the TAP's state. -/
structure Origin where
  log : List Cycle
  level : Bool
  state : JtagState
  low : state.isShift = true → level = false

variable {o : Origin} {log : List Cycle} {level : Bool}

/-- The TAP's state behind these cycles. -/
def Origin.tap (o : Origin) (log : List Cycle) : JtagState :=
  stateAfter o.state ((log.drop o.log.length).map Cycle.tms)

/-- The cycles and the level of TMS at a later moment. -/
def Origin.Since (o : Origin) (log : List Cycle) (level : Bool) : Prop :=
  ∃ cs, log = o.log ++ cs ∧ level = (cs.map Cycle.tms).getLastD o.level

theorem Origin.since_refl (o : Origin) : o.Since o.log o.level := ⟨[], (List.append_nil _).symm, rfl⟩

theorem Origin.tap_refl (o : Origin) : o.tap o.log = o.state := by rw [Origin.tap, List.drop_length]; rfl

theorem Origin.Since.clock (h : o.Since log level) (board : Board) (ps : List Pins) :
    o.Since (log ++ board.cycles log ps) ((ps.map Pins.tms).getLastD level) := by
  obtain ⟨cs, rfl, rfl⟩ := h
  refine ⟨cs ++ board.cycles (o.log ++ cs) ps, List.append_assoc _ _ _, ?_⟩
  rw [List.map_append, cycles_tms]
  simp only [List.getLastD_eq_getLast?, List.getLast?_append]
  cases (ps.map Pins.tms).getLast? <;> simp

theorem Origin.Since.tap_clock (h : o.Since log level) (board : Board) (ps : List Pins) :
    o.tap (log ++ board.cycles log ps) = stateAfter (o.tap log) (ps.map Pins.tms) := by
  obtain ⟨cs, rfl, -⟩ := h
  rw [Origin.tap, Origin.tap, List.append_assoc, List.drop_left, List.drop_left, List.map_append, stateAfter_append,
    cycles_tms]

theorem Origin.Since.low (h : o.Since log level) (hshift : (o.tap log).isShift = true) : level = false := by
  obtain ⟨cs, rfl, rfl⟩ := h
  rw [Origin.tap, List.drop_left] at hshift
  cases cs with
  | nil => exact o.low hshift
  | cons c cs =>
    have hlast := shift_low (List.cons_ne_nil c.tms (cs.map Cycle.tms)) hshift
    rw [List.getLastD_cons] at hlast
    rw [List.map_cons, List.getLastD_cons, hlast]

theorem heldPins_tms (tms : Bool) (data : List Byte) (a k : Nat) :
    (heldPins tms data a k).map Pins.tms = List.replicate k tms := by
  simp [heldPins, Function.comp_def]

end JtagRemote
