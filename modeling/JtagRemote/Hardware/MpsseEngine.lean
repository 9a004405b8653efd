import JtagRemote.Hardware.Board
import JtagRemote.Lib.Feed
import JtagRemote.Code.Ftdi

/-!
# The MPSSE of the FTDI chip

The commands that the driver may send, as the chip documents them. A TMS command
of length byte `L` clocks the low `L + 1` bits of its data byte; data goes out
and comes in with the least significant bit first.
-/

namespace JtagRemote

inductive MpsseCommand where
  /-- Clocks bits out on TMS, with bit 7 of the byte on TDI. -/
  | tms (read : Bool) (len : Nat) (data : Byte)
  | bytes (read : Bool) (data : List Byte)
  | bits (read : Bool) (len : Nat) (data : Byte)
  /-- Clocks with no data. -/
  | clock (times : Nat)
  /-- Any other command clocks nothing. -/
  | other
  deriving DecidableEq, Repr

/-- The command that the bytes are, once they are all there. -/
def mpsseParse : List Byte → Option MpsseCommand
  | [] => none
  | op :: args =>
    if op = 0x4B ∨ op = 0x6B then
      match args with
      | [l, d] => some (.tms (op == 0x6B) (l.toNat + 1) d)
      | _ => none
    else if op = 0x19 ∨ op = 0x39 then
      match args with
      | lo :: hi :: data =>
        if data.length = 256 * hi.toNat + lo.toNat + 1 then some (.bytes (op == 0x39) data) else none
      | _ => none
    else if op = 0x1B ∨ op = 0x3B then
      match args with
      | [l, d] => some (.bits (op == 0x3B) (l.toNat + 1) d)
      | _ => none
    else if op = 0x8E then
      match args with
      | [l] => some (.clock (l.toNat + 1))
      | _ => none
    else if op = 0x8F then
      match args with
      | [lo, hi] => some (.clock (8 * (256 * hi.toNat + lo.toNat + 1)))
      | _ => none
    else if op = 0x80 ∨ op = 0x82 ∨ op = 0x86 then
      match args with
      | [_, _] => some .other
      | _ => none
    else some .other

/-- The levels of the pins, the cycles so far, and all that was answered. -/
structure MpsseEngine where
  pins : Pins
  log : List Cycle
  resp : List Byte
  deriving DecidableEq, Repr

/-- The pins in each cycle of a command; `p` is their level before it. -/
def MpsseCommand.pins (p : Pins) : MpsseCommand → List Pins
  | .tms _ len d => (List.range len).map fun i => ⟨d.getLsbD i, d.getLsbD 7⟩
  | .bytes _ data => (bitsOf data (8 * data.length)).map fun b => ⟨p.tms, b⟩
  | .bits _ len d => (List.range len).map fun i => ⟨p.tms, d.getLsbD i⟩
  | .clock times => List.replicate times p
  | .other => []

/-- A read of `n` bits comes back in the top `n` bits of its byte. -/
def topBits (noise : Byte) (tdo : List Bool) : Byte :=
  (noise &&& (0xFF#8 >>> tdo.length)) ||| (packByte tdo <<< (8 - tdo.length))

def MpsseCommand.answer (noise : Byte) (tdo : List Bool) : MpsseCommand → List Byte
  | .tms true _ _ => [topBits noise tdo]
  | .bytes true _ => packBits tdo
  | .bits true _ _ => [topBits noise tdo]
  | _ => []

variable (board : Board)

def mpsseExec (c : MpsseCommand) (e : MpsseEngine) : MpsseEngine :=
  let cs := board.cycles e.log (c.pins e.pins)
  { pins := lastPins e.pins (c.pins e.pins)
    log := e.log ++ cs
    resp := e.resp ++ c.answer (board.noise e.log) (cs.map Cycle.tdo) }

/-- The engine takes one more byte. -/
def mpsseFeed (s : Fed Byte MpsseEngine) (l : List Byte) : Fed Byte MpsseEngine :=
  feedAll mpsseParse (mpsseExec board) s l

theorem mpsseFeed_append (s : Fed Byte MpsseEngine) (l m : List Byte) :
    mpsseFeed board s (l ++ m) = mpsseFeed board (mpsseFeed board s l) m := feedAll_append s l m

/-- The chip on a port whose transfers always succeed. -/
def mpsseUsb (e : MpsseEngine) : Usb where
  respond := fun l => (mpsseFeed board ⟨[], e⟩ l).machine.resp
  write_result := fun _ => .full
  read_result := fun _ => .full
  opens := true
  sets_up := true

theorem topBits_getLsbD (noise : Byte) (tdo : List Bool) (i : Nat) (h8 : tdo.length ≤ 8)
    (hi : i < tdo.length) :
    (topBits noise tdo >>> (8 - tdo.length)).getLsbD i = tdo[i] := by
  have hlt : 8 - tdo.length + i < 8 := by omega
  have hsub : 8 - tdo.length + i - (8 - tdo.length) = i := by omega
  have hff : (0xFF#8 >>> tdo.length).getLsbD (8 - tdo.length + i) = false := by
    rw [BitVec.getLsbD_ushiftRight]
    exact BitVec.getLsbD_of_ge _ _ (by omega)
  rw [BitVec.getLsbD_ushiftRight, topBits, BitVec.getLsbD_or, BitVec.getLsbD_and, hff,
    BitVec.getLsbD_shiftLeft, hsub, getLsbD_packByte, List.getD_eq_getElem _ _ hi]
  have hge : ¬ 8 - tdo.length + i < 8 - tdo.length := by omega
  have hi8 : i < 8 := by omega
  simp [hlt, hge, hi8]

theorem topBits_shift_high (noise : Byte) (tdo : List Bool) (i : Nat) (h8 : tdo.length ≤ 8)
    (hi : tdo.length ≤ i) : (topBits noise tdo >>> (8 - tdo.length)).getLsbD i = false := by
  rw [BitVec.getLsbD_ushiftRight]
  exact BitVec.getLsbD_of_ge _ _ (by omega)

/-- Shifting an answer down leaves its bits packed. -/
theorem topBits_shift (noise : Byte) (tdo : List Bool) (h8 : tdo.length ≤ 8) :
    topBits noise tdo >>> (8 - tdo.length) = packByte tdo := by
  apply BitVec.eq_of_getLsbD_eq
  intro i hi
  rw [getLsbD_packByte, decide_eq_true hi, Bool.true_and]
  by_cases h : i < tdo.length
  · rw [topBits_getLsbD noise tdo i h8 h, List.getD_eq_getElem _ _ h]
  · rw [topBits_shift_high noise tdo i h8 (by omega), List.getD_eq_default _ _ (by omega)]

/-- A one-bit answer has its bit on top. -/
theorem topBits_single (noise : Byte) (b : Bool) : (topBits noise [b]).getLsbD 7 = b := by
  simpa using topBits_getLsbD noise [b] 0 (by simp) (by simp)

end JtagRemote
