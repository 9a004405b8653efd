import JtagRemote.Adapter
import JtagRemote.Bounds

/-!
# A board with no cable

A driver whose state is the line itself. It refuses nothing, and clocks just the
cycles that it is given.
-/

namespace JtagRemote

/-- The cycles of the calls, at once. -/
def line_driver (board : Board) : driver Line where
  init _ := pure true
  deinit := pure true
  set_tck_freq _ := pure true
  jtag_tms_seq data n := do
    modify fun c => { c with dev := c.dev.clock board ((bitsOf data n).map fun b => ⟨b, false⟩) }
    pure true
  jtag_scan_chain_send data n flip read := do
    modify fun c => { c with state := stateAfterScan c.state flip, dev := c.dev.scan board data n flip read }
    pure true
  jtag_scan_chain_recv out _ _ := do
    let c ← get
    match c.dev.pending with
    | [] => pure (false, out)
    | s :: rest =>
      set { c with dev := { c.dev with pending := rest } }
      pure (true, (packBits s.tdo ++ List.replicate out.length 0).take out.length)
  jtag_clock_tck n := do
    modify fun c => { c with dev := c.dev.clock board (List.replicate n ⟨c.dev.tms, false⟩) }
    pure true

variable (board : Board)

/-- Each answer has the bits of its scan. -/
def Line.Whole (l : Line) : Prop := ∀ s ∈ l.pending, s.tdo.length = s.bits

theorem Line.Whole.scan {l : Line} (h : l.Whole) (data : List Byte) (n : Nat) (flip read : Bool) :
    (l.scan board data n flip read).Whole := by
  cases read with
  | false => exact h
  | true =>
    intro s hs
    rcases List.mem_append.mp hs with hs | hs
    · exact h s hs
    · rw [List.mem_singleton.mp hs]
      simp [scanPins]

theorem holds_take {bs : List Bool} {size : Nat} (h : bs.length ≤ 8 * size) :
    Holds ((packBits bs ++ List.replicate size 0).take size) bs := by
  intro i
  rw [bitAt_take]
  by_cases hi : i < 8 * size
  · rw [decide_eq_true hi, Bool.true_and]
    exact holds_packBits bs size i
  · rw [decide_eq_false hi, Bool.false_and]
    exact (List.getD_eq_default _ _ (by omega)).symm

def lineAdapter : Adapter board (line_driver board) where
  Stands _ dev l := dev = l ∧ l.Whole
  Room _ := True
  ticks n := n
  Accepts _ := True
  tms_seq {c _ l data n} h _ _ _ _ := by
    obtain ⟨rfl, hwhole⟩ := h
    refine Returns.modify_bind (returns_pure ⟨rfl, rfl, _, ?_, rfl, hwhole⟩)
    rw [List.map_map]
    exact List.map_id _
  send {c l data n flip read} h _ _ _ _ _ := by
    obtain ⟨rfl, hwhole⟩ := h
    exact Returns.modify_bind (returns_pure ⟨rfl, rfl, rfl, hwhole.scan board data n flip read⟩)
  send_full _ hroom := absurd trivial hroom
  recv {c l s rest size} h hpending hsize := by
    obtain ⟨rfl, hwhole⟩ := h
    have hbits : s.tdo.length = s.bits := hwhole s (by rw [hpending]; exact List.mem_cons_self)
    refine Returns.get_bind ?_
    rw [hpending]
    refine Returns.set_bind (returns_pure ⟨rfl, ?_, ?_, rfl, rfl, ?_⟩)
    · simp
    · rw [List.length_replicate]
      exact holds_take (by omega)
    · intro x hx
      exact hwhole x (by rw [hpending]; exact List.mem_cons_of_mem _ hx)
  clock {c l n} h _ := by
    obtain ⟨rfl, hwhole⟩ := h
    exact Returns.modify_bind (returns_pure ⟨rfl, rfl, _, List.map_replicate, rfl, hwhole⟩)
  freq h _ := returns_pure ⟨rfl, h⟩
  freq_fails _ _ hnot := absurd trivial hnot

def lineBounded : Bounded (line_driver board) where
  Ok _ := True
  Fits _ _ := True
  tms_seq _ _ := Ends.modify_bind (ends_pure trivial)
  send _ _ _ _ _ := Ends.modify_bind (ends_pure trivial)
  recv {c out n flip} _ _ _ _ _ := by
    refine Ends.get_bind ?_
    cases c.dev.pending with
    | nil => exact ends_pure ⟨rfl, trivial⟩
    | cons s rest => exact Ends.set_bind (ends_pure ⟨by simp, trivial⟩)
  clock _ := Ends.modify_bind (ends_pure trivial)
  freq _ := ends_pure trivial

end JtagRemote
