import JtagRemote.Jtagd.Full
import JtagRemote.Xvc.Full

/-!
# Units and the size of the window

The packet header, the info string and the window each have a limit of their own. The
window has to hold a unit together with its header, and is the tightest of them.
-/

namespace JtagRemote

section

variable {δ : Type}

theorem Jtagd.Legal.bytes_length (p : Jtagd.Legal) : p.bytes.length = 2 + p.frame.body.length := by
  simp only [Jtagd.Legal.bytes, Jtagd.Frame.bytes, List.length_append, List.length_cons, List.length_nil]

/-- Legal units are handled, just if all of one has room in the window and it comes in one read. -/
theorem units_processed_iff (d : driver δ) (c : Jtag δ) (p : Jtagd.Legal) (sh : Xvc.Legal) (cut : Cut p.bytes.length)
    (cut' : Cut sh.bytes.length) :
    (Jtagd.Processed d c cut ↔ 2 + p.frame.body.length ≤ BUFFER_SIZE ∧ cut.parts.length = 1) ∧
    (Xvc.Processed d c cut' ↔ SHIFT.length + 4 + 2 * sh.tms.length ≤ BUFFER_SIZE ∧ cut'.parts.length = 1) := by
  have hpacket : p.bytes.length ≤ BUFFER_SIZE ↔ 2 + p.frame.body.length ≤ BUFFER_SIZE := by rw [p.bytes_length]
  have hshift : sh.bytes.length ≤ BUFFER_SIZE ↔ SHIFT.length + 4 + 2 * sh.tms.length ≤ BUFFER_SIZE := by
    rw [sh.bytes_length, sh.tms_length]
  exact ⟨(Jtagd.processed_iff d c p cut).trans (and_congr hpacket Iff.rfl),
    (Xvc.processed_iff d c sh cut').trans (and_congr hshift Iff.rfl)⟩

end

/-! ## The longest units -/

/-- 4096 bytes for the FIFO. -/
def longestPacket : Jtagd.Legal where
  frame := ⟨4, List.replicate 4096 0⟩
  pos := by rw [List.length_replicate]; decide
  le := Nat.le_of_eq List.length_replicate
  mux := by decide

/-- 2048 bytes of TMS and as many of TDI. -/
def longestShift : Xvc.Legal where
  bits := 16384
  tms := List.replicate 2048 0
  tdi := List.replicate 2048 0
  advertised := by decide
  tms_length := List.length_replicate
  tdi_length := List.length_replicate

def blinkMpsse : driver Mpsse := mpsse_driver (mpsseUsb Mpsse.blinkBoard Mpsse.idleEngine) (100 + 0) 15

/-- Both servers are stuck in them for good, whatever the client does. -/
theorem longest_units_stuck :
    (∃ s, Reaches (Jtagd.step blinkMpsse) (Jtagd.bootJtagd (benchMpsse .TestLogicReset)) s ∧
      Jtagd.Stuck s longestPacket.bytes ∧ ∀ t, Reaches (Jtagd.step blinkMpsse) s t → t.sock = s.sock) ∧
    (∃ s, Reaches (jtag_xvc_tick blinkMpsse) (Xvc.bootXvc (benchMpsse .TestLogicReset)) s ∧
      Xvc.Stuck blinkMpsse s longestShift.bytes ∧
      ∀ t, Reaches (jtag_xvc_tick blinkMpsse) s t → t.sock = s.sock) := by
  refine ⟨Jtagd.stuck_reached _ _ longestPacket ?_, Xvc.stuck_reached _ _ longestShift ?_⟩
  · rw [Jtagd.Legal.bytes_length]
    have hbody : longestPacket.frame.body.length = 4096 := List.length_replicate
    rw [hbody]
    decide
  · rw [Xvc.Legal.bytes_length]
    decide

end JtagRemote
