import JtagRemote.Xvc.Exact

/-!
# Pipelined scans over the USB Blaster

The driver keeps the answer of one scan. A tick sends the scans of all its shifts
before it receives the first answer.
-/

namespace JtagRemote.Xvc

section

variable {board : Board} {usb : Usb} {e₀ e : BlasterEngine} {s : Xvc Blaster} {cmds : List Command}
  {net : Net} {rest : List Byte}

/-- The tick gets through, and every answer went to the region it belongs to. -/
def Pipelines (board : Board) (usb : Usb) (e₀ e : BlasterEngine) (fuel : Nat) (net : Net) (s : Xvc Blaster)
    (cmds : List Command) (rest : List Byte) : Prop :=
  Returns (jtag_xvc_tick (usb_blaster_driver usb fuel) net) s fun _ s' => ∃ xs,
    Ticked (Blaster.blasterAdapter board usb e₀ fuel) s ⟨e.log, e.pins.tms, []⟩ cmds rest s' xs ∧
    s'.sock.written = s.sock.written ++ (early cmds ++ xs.flatMap Done.reply)

theorem blaster_runs_iff (hperiods : ∀ period, Command.settck period ∈ cmds → period ≠ 0) (fuel : Nat)
    (st : JtagState) :
    Runs (Blaster.blasterAdapter board usb e₀ fuel) st 0 cmds ↔ totalVisits st cmds ≤ 1 := by
  rw [runs_iff]
  constructor
  · rintro ⟨-, hroom⟩
    by_contra hmany
    have hsecond : 1 = 0 := hroom 1 (by omega) (by omega)
    exact absurd hsecond (by decide)
  · intro hone
    refine ⟨fun period hmem => ⟨hperiods period hmem, trivial⟩, ?_⟩
    intro j _ hj
    show j = 0
    omega

theorem linked_stands (hlinked : Blaster.Linked board usb e₀ s.jtag e [])
    (hlow : s.jtag.state.isShift = true → e.pins.tms = false) (fuel : Nat) :
    (Blaster.blasterAdapter board usb e₀ fuel).Stands s.jtag.state s.jtag.dev ⟨e.log, e.pins.tms, []⟩ :=
  ⟨e, [], hlinked.of_dev rfl, rfl, rfl, .none, hlow⟩

theorem blaster_not_pipelines (hlinked : Blaster.Linked board usb e₀ s.jtag e [])
    (hlow : s.jtag.state.isShift = true → e.pins.tms = false) (h : Arrives s net cmds rest)
    (hperiods : ∀ period, Command.settck period ∈ cmds → period ≠ 0) (fuel : Nat)
    (hmany : ¬ totalVisits s.jtag.state cmds ≤ 1) : ¬ Pipelines board usb e₀ e fuel net s cmds rest := by
  rw [← blaster_runs_iff hperiods fuel] at hmany
  obtain ⟨_, hfault⟩ := tick_fails _ h (linked_stands hlinked hlow fuel) rfl hmany
  exact hfault.not_returns _

/-- One visit to a Shift state is all that the driver can take in a tick. -/
theorem blaster_pipelines_iff (hlinked : Blaster.Linked board usb e₀ s.jtag e [])
    (hlow : s.jtag.state.isShift = true → e.pins.tms = false) (h : Arrives s net cmds rest)
    (hperiods : ∀ period, Command.settck period ∈ cmds → period ≠ 0) (fuel : Nat) :
    Pipelines board usb e₀ e fuel net s cmds rest ↔ totalVisits s.jtag.state cmds ≤ 1 := by
  constructor
  · intro hreturns
    by_contra hmany
    exact blaster_not_pipelines hlinked hlow h hperiods fuel hmany hreturns
  · intro hone
    exact tick_spec _ h (linked_stands hlinked hlow fuel) rfl ((blaster_runs_iff hperiods fuel _).mpr hone)

end

/-! ## On a bench -/

def benchBlaster (st : JtagState) : Jtag Blaster := { idleBlaster with state := st }

theorem shift_periods (shs : List Shift) (period : BitVec 32)
    (h : Command.settck period ∈ shs.map Command.shift) : period ≠ 0 := by simp at h

theorem blaster_pipelines_iff_one :
    Pipelines Mpsse.blinkBoard (blasterUsb Mpsse.blinkBoard idleBlasterEngine) idleBlasterEngine
      idleBlasterEngine 0 ⟨deliver (encodeAll [.shift stayShift]), false⟩ (fresh (benchBlaster .ShiftDR))
      [.shift stayShift] [] ↔ totalVisits .ShiftDR [.shift stayShift] ≤ 1 := by
  have harrives : Arrives (fresh (benchBlaster .ShiftDR)) ⟨deliver (encodeAll [.shift stayShift]), false⟩
      [.shift stayShift] [] := fresh_arrives _ _ (by decide)
  exact blaster_pipelines_iff (idleBlaster_linked Mpsse.blinkBoard .ShiftDR) (fun _ => rfl) harrives
    (shift_periods [stayShift]) 0

/-- Two shifts of one bit each, in ShiftDR: the second scan finds the first answer still there. -/
theorem blaster_fails_on_two_shifts :
    ¬ Pipelines Mpsse.blinkBoard (blasterUsb Mpsse.blinkBoard idleBlasterEngine) idleBlasterEngine
      idleBlasterEngine 0 ⟨deliver (encodeAll [.shift stayShift, .shift stayShift]), false⟩
      (fresh (benchBlaster .ShiftDR)) [.shift stayShift, .shift stayShift] [] := by
  have harrives : Arrives (fresh (benchBlaster .ShiftDR))
      ⟨deliver (encodeAll [.shift stayShift, .shift stayShift]), false⟩
      [.shift stayShift, .shift stayShift] [] := fresh_arrives _ _ (by decide)
  exact blaster_not_pipelines (idleBlaster_linked Mpsse.blinkBoard .ShiftDR) (fun _ => rfl) harrives
    (shift_periods [stayShift, stayShift]) 0 (by decide)

end JtagRemote.Xvc
