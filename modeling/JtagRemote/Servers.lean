import JtagRemote.Rbb.Refine
import JtagRemote.Xvc.Refine

/-!
# Two servers, one target

A client that bit-bangs its cycles and marks what it wants to read, and one that sends
the same cycles as XVC shifts, read the same bits and leave the target alike.
-/

namespace JtagRemote

open JtagState

section

variable {σ δ δ' : Type} {T : Target σ} {q₀ q₀' q : JtagState × σ} {noise noise' : List Cycle → Byte}
  {d : driver δ} {d' : driver δ'} (A : Adapter (T.board q₀ noise) d) (B : Adapter (T.board q₀' noise') d')
  {s : Xvc δ} {r : Rbb δ'}

/-- A sample in a Shift state is the answer to the cycle that follows. -/
theorem sample_eq {ps : List Pins} {p : Nat} (hp : p < ps.length)
    (hshift : (stateAfter q.1 ((ps.map Pins.tms).take p)).isShift = true) :
    T.tdo (T.machine.run q (ps.take p)).1 (T.machine.run q (ps.take p)).2 = (T.machine.outs q ps).getD p false := by
  rw [← List.map_take, ← T.run_tap] at hshift
  rw [List.getD_eq_getElem?_getD, Mealy.outs_getElem?, List.getElem?_eq_getElem hp, Option.map_some, Option.getD_some]
  show _ = ((T.machine.run q (ps.take p)).1.isShift && _)
  rw [hshift, Bool.true_and]

/-- The `k`-th character is the bit of the `k`-th marked cycle among the TDO bits of the shifts. -/
theorem servers_agree (hroom : ∀ k, A.Room k) (hticks : ∀ n, A.ticks n = n) (hroom' : B.Room 0)
    (hs : Xvc.Serving A s q) (hr : Rbb.Serving B r q) {batches : List (List Xvc.Shift)} {turns : List Rbb.Turn}
    (hfits : ∀ shs ∈ batches, (Xvc.encodeAll (shs.map Xvc.Command.shift)).length ≤ BUFFER_SIZE)
    (hsteady : Rbb.Steady q.1 (Rbb.stream turns)) (hcuts : ∀ t ∈ turns, ¬ Rbb.Cut t.bytes)
    (hsame : SameAsked q.1 (batches.flatten.flatMap Xvc.Shift.pins) (Rbb.pins (Rbb.stream turns))) :
    ∃ s' r' bytes chars q', Xvc.serve d (batches.map (List.map Xvc.Command.shift)) s = .ok () s' ∧
      Rbb.serve d' turns r = .ok () r' ∧ s'.sock.written = s.sock.written ++ bytes ∧
      r'.sock.written = r.sock.written ++ chars ∧
      chars = (Rbb.marks (Rbb.stream turns)).map (fun p =>
        Rbb.sampleChar ((Xvc.tdoBits batches.flatten bytes).getD p false)) ∧
      Xvc.Serving A s' q' ∧ Rbb.Serving B r' q' := by
  obtain ⟨_, s', hrun, bytes, hwritten, hbits, hserving⟩ := Xvc.serve_shifts_spec A hroom hticks hs hfits
  obtain ⟨_, r', hrun', hserving', hsock⟩ := hr.turns B hroom' hsteady hcuts
  have halike := Target.alike (T := T) hsame
  rw [Rbb.bitbang_run, ← halike.run] at hserving'
  refine ⟨s', r', bytes, _, _, hrun, hrun', hwritten, congrArg Sock.written hsock, ?_, hserving, hserving'⟩
  rw [Rbb.bitbang_outs, hbits, halike.outs]
  apply List.map_congr_left
  intro p hp
  have hlt : p < (Rbb.pins (Rbb.stream turns)).length := by
    apply Nat.lt_of_le_of_ne (Rbb.marks_le p hp)
    rintro rfl
    exact Rbb.not_cut_stream hcuts hp
  have hshift := hsteady.data p hp hlt
  rw [Rbb.shifts_eq _ _ (Nat.le_of_lt hlt)] at hshift
  rw [sample_eq hlt hshift]

end

/-! ## On a bench -/

/-- A bit-banging client on a USB Blaster. -/
theorem bypass_bitbanged (st : JtagState) :
    Rbb.Serving (T := bypassTarget) (Blaster.blasterAdapter (bypassBoard st) (blasterUsb (bypassBoard st)
      idleBlasterEngine) idleBlasterEngine 0) (Rbb.served { idleBlaster with state := st }) (st, false) :=
  ⟨rfl, [], false, ⟨(by decide : (0 : Int) ≤ 4), rfl,
    blaster_stands 0 (idleBlaster_linked (bypassBoard st) st) rfl, rfl⟩, rfl⟩

/-- Two cycles in ShiftDR, both read. -/
def twoCycles : List Rbb.Turn := [Rbb.wholeTurn, Rbb.wholeTurn]

theorem twoCycles_wellMarked : Rbb.WellMarked ShiftDR (Rbb.stream twoCycles) := by
  refine ⟨?_, ?_, ?_⟩ <;> decide +kernel

def twoBits : List (List Xvc.Shift) := [[Xvc.stayShift], [Xvc.stayShift]]

theorem servers_agree_two : ∃ s' r' bytes chars q',
    Xvc.serve (mpsse_driver (mpsseUsb (bypassBoard ShiftDR) Mpsse.idleEngine) (100 + 0) 15)
      (twoBits.map (List.map Xvc.Command.shift)) (Xvc.fresh (benchMpsse ShiftDR)) = .ok () s' ∧
    Rbb.serve (usb_blaster_driver (blasterUsb (bypassBoard ShiftDR) idleBlasterEngine) 0) twoCycles
      (Rbb.served { idleBlaster with state := ShiftDR }) = .ok () r' ∧
    s'.sock.written = [] ++ bytes ∧ r'.sock.written = [] ++ chars ∧
    chars = (Rbb.marks (Rbb.stream twoCycles)).map (fun p =>
      Rbb.sampleChar ((Xvc.tdoBits twoBits.flatten bytes).getD p false)) ∧
    Xvc.Serving (T := bypassTarget) (benchMpsseAdapter (bypassBoard ShiftDR)) s' q' ∧
    Rbb.Serving (T := bypassTarget) (Blaster.blasterAdapter (bypassBoard ShiftDR) (blasterUsb (bypassBoard ShiftDR)
      idleBlasterEngine) idleBlasterEngine 0) r' q' := by
  have hpins : twoBits.flatten.flatMap Xvc.Shift.pins = Rbb.pins (Rbb.stream twoCycles) := by decide
  have hsame : SameAsked ShiftDR (twoBits.flatten.flatMap Xvc.Shift.pins) (Rbb.pins (Rbb.stream twoCycles)) := by
    rw [hpins]
    exact .refl _ _
  exact servers_agree (benchMpsseAdapter (bypassBoard ShiftDR)) _ (fun _ => trivial) (fun _ => rfl) rfl
    (Xvc.bypass_serving ShiftDR) (bypass_bitbanged ShiftDR) (by decide) twoCycles_wellMarked.steady.1 (by decide) hsame

end JtagRemote
