import JtagRemote.Blaster.Init
import JtagRemote.Code.Main
import JtagRemote.Vpi.Visits

/-!
# A run of the program

`-b -v`: a USB Blaster, and jtag_vpi clients until SIGINT.
-/

namespace JtagRemote

open JtagState Vpi

variable {σ : Type} {T : Target σ} {q₀ : JtagState × σ} {noise : List Cycle → Byte} {usb : Usb} {e₀ : BlasterEngine}
  {c : Jtag Blaster}

/-- `main` with the Blaster and jtag_vpi, before the first client. -/
def blaster_vpi_main (usb : Usb) (fuel : Nat) (adapter_type : AdapterTypes) (nets : List Net) :
    VpiProg Blaster Nat :=
  let adapter := usb_blaster_driver usb fuel
  main false false (vpi_jtag (adapter.init adapter_type)) (jtag_vpi_tick adapter) nets

/-- What the clients find. -/
theorem started (h : Blaster.Boots (T.board q₀ noise) usb e₀ c) {fuel : Nat}
    (hfuel : e₀.resp.length + e₀.shift_left < fuel) (adapter_type : AdapterTypes) :
    Returns (vpi_jtag (usb_blaster_init usb fuel adapter_type)) (bootVpi c) fun r s => r = true ∧
      s.sock = bootSock ∧ ∃ q ps, ps.map Pins.tms = List.replicate 5 true ∧
        Alone (Blaster.blasterScanner (T.board q₀ noise) usb e₀ fuel) s (T.machine.run q ps) := by
  apply Returns.mono (Returns.focus (Blaster.init_spec h hfuel adapter_type))
  rintro _ _ ⟨d, ⟨rfl, hstate, cs, ps, hran, hones, hstands⟩, rfl⟩
  have hrun : T.machine.run q₀ ((e₀.log ++ (cs ++ (T.board q₀ noise).cycles (e₀.log ++ cs) ps)).map Cycle.pins) =
      T.machine.run (T.machine.run q₀ ((e₀.log ++ cs).map Cycle.pins)) ps := by
    rw [← List.append_assoc, List.map_append, Mealy.run_append, cycles_pins]
  have htap : (T.machine.run (T.machine.run q₀ ((e₀.log ++ cs).map Cycle.pins)) ps).1 = TestLogicReset := by
    rw [T.run_tap, hones, five_ones]
  have halone : ¬ (-1 : Int) ≥ 0 := by decide
  have hwaits : Waits { bootVpi c with jtag := d } [] := boot_waits d
  exact ⟨rfl, rfl, _, ps, hones, hwaits, halone, hstate.trans htap.symm, _, true, hstands, hrun⟩

/-- Whatever an earlier process and the target left behind, the program resets the TAP and is then the
cable for one client after the other, until it is told to stop. -/
theorem program_serves (h : Blaster.Boots (T.board q₀ noise) usb e₀ c) {fuel : Nat}
    (hfuel : e₀.resp.length + e₀.shift_left < fuel) (adapter_type : AdapterTypes) {nets : List Net}
    {rs : List JtagVpiCmd} (hvisits : Visits nets rs) (hapt : AllApt TestLogicReset rs) :
    Returns (blaster_vpi_main usb fuel adapter_type nets) (bootVpi c) fun code t => code = 0 ∧
      ∃ q ps, ps.map Pins.tms = List.replicate 5 true ∧
        Leaves (Blaster.blasterScanner (T.board q₀ noise) usb e₀ fuel) (bootVpi c)
          ((cable T).run (T.machine.run q ps) rs) ((cable T).outs (T.machine.run q ps) rs).flatten t := by
  unfold blaster_vpi_main main
  simp only [Bool.and_false, Bool.false_eq_true, if_false]
  apply Returns.bind (started h hfuel adapter_type)
  rintro _ s ⟨rfl, hsock, q, ps, hones, halone⟩
  have htap : (T.machine.run q ps).1 = TestLogicReset := by
    rw [T.run_tap, hones, five_ones]
  rw [← htap] at hapt
  apply Returns.bind (visits_spec _ (fun _ => rfl) halone hvisits hapt)
  rintro _ t ⟨hrests, hwritten⟩
  refine returns_pure ⟨rfl, q, ps, hones, ?_, hrests.state, hrests.stands⟩
  have hreplies : t.sock.written = s.sock.written ++ ((cable T).outs (T.machine.run q ps) rs).flatten := hwritten
  rw [hreplies, hsock]
  rfl

/-! ## On a bench -/

theorem toShift_out_size : (0x02 :: List.replicate 511 0 : List Byte).length = SIZEOF_BUFFER := by
  rw [List.length_cons, List.length_replicate]
  rfl

theorem zeros_size : (List.replicate 512 0 : List Byte).length = SIZEOF_BUFFER := List.length_replicate

/-- From Test-Logic-Reset to Shift-DR. -/
def toShift : JtagVpiCmd where
  cmd := 1
  buffer_out := 0x02 :: List.replicate 511 0
  buffer_in := List.replicate 512 0
  length := 1
  nb_bits := 4
  out_size := toShift_out_size
  in_size := zeros_size

/-- One client asks for a scan and leaves, and the next one is still there. -/
def twoClients : List Net :=
  [⟨.failed, false⟩] ++ ⟨.failed, true⟩ :: ([⟨deliver toShift.bytes, false⟩, ⟨deliver scanByte.bytes, false⟩] ++
    ⟨.closed, false⟩ :: ([] ++ ⟨.failed, true⟩ :: [⟨deliver [0x02], false⟩]))

theorem twoClients_visits : Visits twoClients ([toShift, scanByte] ++ []) := by
  apply Visits.leaves
  · decide
  · simp only [List.mem_cons, List.not_mem_nil, or_false, forall_eq_or_imp, forall_eq]
    exact ⟨deliver_open _, deliver_open _⟩
  · decide +kernel
  · have hin : received 0 [⟨deliver [0x02], false⟩] = ([] : List JtagVpiCmd).flatMap JtagVpiCmd.bytes ++ [0x02] := rfl
    apply Visits.stays (by decide) _ hin (by decide)
    simp only [List.mem_singleton, forall_eq]
    exact deliver_open _

theorem toShift_apt : AllApt TestLogicReset ([toShift, scanByte] ++ []) := by
  have hquiet : toShift.Apt TestLogicReset := by
    unfold JtagVpiCmd.Apt
    decide +kernel
  have hshift : stateAfter TestLogicReset (toShift.pins.map Pins.tms) = ShiftDR := by decide +kernel
  refine ⟨⟨by decide, by decide⟩, hquiet, ⟨by decide, by decide⟩, ?_, trivial⟩
  rw [hshift]
  exact rfl

/-- The TAP was left in Pause-IR. -/
abbrev pausedBoard : Board := bypassTarget.board (PauseIR, true) fun _ => 0

theorem program_serves_two : Returns
    (blaster_vpi_main (blasterUsb pausedBoard Blaster.leftEngine) 6 .Adapter_Xilinx twoClients)
    (bootVpi Blaster.bootState) fun code t => code = 0 ∧ ∃ q ps, ps.map Pins.tms = List.replicate 5 true ∧
      Leaves (T := bypassTarget)
        (Blaster.blasterScanner pausedBoard (blasterUsb pausedBoard Blaster.leftEngine) Blaster.leftEngine 6)
        (bootVpi Blaster.bootState)
        ((cable bypassTarget).run (bypassTarget.machine.run q ps) ([toShift, scanByte] ++ []))
        ((cable bypassTarget).outs (bypassTarget.machine.run q ps) ([toShift, scanByte] ++ [])).flatten t :=
  program_serves (Blaster.bootState_boots pausedBoard) (by decide) .Adapter_Xilinx twoClients_visits toShift_apt

end JtagRemote
