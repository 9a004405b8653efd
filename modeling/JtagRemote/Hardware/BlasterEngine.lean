import JtagRemote.Hardware.Board
import JtagRemote.Code.UsbBlaster

/-!
# The USB Blaster

It takes one byte at a time. In bit-bang mode a byte sets TCK, TMS and TDI; in
byte-shift mode the bytes that follow are clocked out, lowest bit first.
-/

namespace JtagRemote

/-- The levels of the pins, the bytes that byte-shift mode still wants, the cycles so far,
and all that was answered. -/
structure BlasterEngine where
  tck : Bool
  pins : Pins
  shift_left : Nat
  shift_read : Bool
  log : List Cycle
  resp : List Byte
  deriving DecidableEq, Repr

/-- An answer has TDO in bit 0. -/
def tdoByte (noise : Byte) (tdo : Bool) : Byte := (noise &&& 0xFE) ||| (BitVec.ofBool tdo).setWidth 8

variable (board : Board)

/-- TDO keeps the bit of the last cycle while TCK is high, and has that of the next one then. -/
def BlasterEngine.tdo (e : BlasterEngine) : Bool :=
  if e.tck then (e.log.getLast?.map Cycle.tdo).getD false else board.tdo e.log

def BlasterEngine.clock (e : BlasterEngine) (ps : List Pins) : BlasterEngine :=
  { e with pins := lastPins e.pins ps, log := e.log ++ board.cycles e.log ps }

/-- A byte in byte-shift mode. -/
def blasterShift (b : Byte) (e : BlasterEngine) : BlasterEngine :=
  let ps := (bitsOf [b] 8).map fun bit => ⟨e.pins.tms, bit⟩
  let answer := if e.shift_read then packBits ((board.cycles e.log ps).map Cycle.tdo) else []
  { e.clock board ps with
    tck := false
    shift_left := e.shift_left - 1
    resp := e.resp ++ answer }

/-- A byte that sets the pins: TCK is bit 0, TMS bit 1 and TDI bit 4. -/
def blasterPins (b : Byte) (e : BlasterEngine) : BlasterEngine :=
  let pins : Pins := ⟨b.getLsbD 1, b.getLsbD 4⟩
  let e' := if b.getLsbD 0 && !e.tck then e.clock board [pins] else { e with pins := pins }
  let e' := { e' with tck := b.getLsbD 0 }
  if b.getLsbD 6 then { e' with resp := e'.resp ++ [tdoByte (board.noise e'.log) (e'.tdo board)] } else e'

def blasterByte (e : BlasterEngine) (b : Byte) : BlasterEngine :=
  if e.shift_left ≠ 0 then blasterShift board b e
  else if b.getLsbD 7 then { e with shift_left := (b &&& 0x3F).toNat, shift_read := b.getLsbD 6 }
  else blasterPins board b e

/-- The Blaster takes some bytes. -/
def blasterFeed (e : BlasterEngine) (l : List Byte) : BlasterEngine := l.foldl (blasterByte board) e

/-- A Blaster on a port whose transfers always succeed. -/
def blasterUsb (e : BlasterEngine) : Usb where
  respond := fun l => (blasterFeed board e l).resp
  write_result := fun _ => .full
  read_result := fun _ => .full
  opens := true
  sets_up := true

@[simp] theorem blasterFeed_nil (e : BlasterEngine) : blasterFeed board e [] = e := rfl

theorem blasterFeed_append (e : BlasterEngine) (l m : List Byte) :
    blasterFeed board e (l ++ m) = blasterFeed board (blasterFeed board e l) m := List.foldl_append

theorem blasterFeed_cons (e : BlasterEngine) (b : Byte) (l : List Byte) :
    blasterFeed board e (b :: l) = blasterFeed board (blasterByte board e b) l := rfl

theorem tdoByte_bit (noise : Byte) (tdo : Bool) : (tdoByte noise tdo).getLsbD 0 = tdo := by
  unfold tdoByte
  cases tdo <;> simp

/-! ## What the bytes of the driver do -/

/-- The Blaster went through cycles with these pins, and answered with `rs`. -/
structure Clocks (e e' : BlasterEngine) (ps : List Pins) (rs : List Byte) : Prop where
  log : e'.log = e.log ++ board.cycles e.log ps
  pins : e'.pins = lastPins e.pins ps
  resp : e'.resp = e.resp ++ rs
  idle : e'.shift_left = 0

variable {board}

theorem Clocks.refl {e : BlasterEngine} (h : e.shift_left = 0) : Clocks board e e [] [] :=
  ⟨by simp, rfl, by simp, h⟩

theorem Clocks.trans {e f g : BlasterEngine} {ps qs : List Pins} {rs ss : List Byte}
    (h : Clocks board e f ps rs) (h' : Clocks board f g qs ss) :
    Clocks board e g (ps ++ qs) (rs ++ ss) := by
  refine ⟨?_, ?_, ?_, h'.idle⟩
  · rw [h'.log, h.log, cycles_append, List.append_assoc]
  · rw [h'.pins, h.pins, lastPins_append]
  · rw [h'.resp, h.resp, List.append_assoc]

theorem build_command_bits (tms tdi tck read : Bool) :
    (build_command tms tdi tck read).getLsbD 0 = tck ∧ (build_command tms tdi tck read).getLsbD 1 = tms ∧
      (build_command tms tdi tck read).getLsbD 4 = tdi ∧
      (build_command tms tdi tck read).getLsbD 6 = read ∧
      (build_command tms tdi tck read).getLsbD 7 = false := by
  revert tms tdi tck read
  decide

/-- A bit-bang byte sets the pins. -/
theorem command_byte (e : BlasterEngine) (tms tdi tck read : Bool) (h : e.shift_left = 0) :
    blasterByte board e (build_command tms tdi tck read) =
      blasterPins board (build_command tms tdi tck read) e := by
  obtain ⟨-, -, -, -, h7⟩ := build_command_bits tms tdi tck read
  unfold blasterByte
  rw [if_neg (by omega), h7]
  rfl

/-- TCK goes low. -/
theorem low_byte (e : BlasterEngine) (tms tdi : Bool) (h : e.shift_left = 0) :
    blasterByte board e (build_command tms tdi false false) = { e with tck := false, pins := ⟨tms, tdi⟩ } := by
  obtain ⟨h0, h1, h4, h6, -⟩ := build_command_bits tms tdi false false
  rw [command_byte e tms tdi false false h]
  simp only [blasterPins, h0, h1, h4, h6, Bool.false_and, Bool.false_eq_true, if_false]

/-- TCK goes high: one cycle, and one byte with its TDO when the answer is wanted. -/
theorem high_byte (board : Board) (e : BlasterEngine) (tms tdi read : Bool) (h : e.shift_left = 0) (hlow : e.tck = false) :
    ∃ rs, Clocks board e (blasterByte board e (build_command tms tdi true read)) [⟨tms, tdi⟩] rs ∧
      (read = false → rs = []) ∧ (read = true → ∃ b : Byte, rs = [b] ∧ b.getLsbD 0 = board.tdo e.log) := by
  obtain ⟨h0, h1, h4, h6, -⟩ := build_command_bits tms tdi true read
  rw [command_byte e tms tdi true read h]
  unfold blasterPins
  simp only [h0, h1, h4, h6, hlow, Bool.not_false, Bool.and_true, if_true]
  cases read with
  | false => exact ⟨[], ⟨rfl, rfl, by simp [BlasterEngine.clock], h⟩, fun _ => rfl, by simp⟩
  | true =>
    refine ⟨_, ⟨rfl, rfl, rfl, h⟩, by simp, fun _ => ⟨_, rfl, ?_⟩⟩
    rw [tdoByte_bit]
    simp [BlasterEngine.tdo, BlasterEngine.clock, Board.cycles]

/-- TCK goes low and then high. -/
theorem pair_clocks (board : Board) (e : BlasterEngine) (tms tdi read : Bool) (h : e.shift_left = 0) :
    ∃ rs, Clocks board e (blasterFeed board e
        [build_command tms tdi false false, build_command tms tdi true read]) [⟨tms, tdi⟩] rs ∧
      (read = false → rs = []) ∧ (read = true → ∃ b : Byte, rs = [b] ∧ b.getLsbD 0 = board.tdo e.log) := by
  obtain ⟨rs, hclocks, hrs⟩ := high_byte board { e with tck := false, pins := ⟨tms, tdi⟩ }
    tms tdi read h rfl
  rw [blasterFeed_cons, low_byte e tms tdi h]
  exact ⟨rs, ⟨hclocks.log, hclocks.pins, hclocks.resp, hclocks.idle⟩, hrs⟩

/-- A packet: one byte that turns byte-shift mode on, and then the bytes. -/
theorem head_byte (read : Bool) (trans : Nat) (h : trans < 64) :
    (pin true 7 ||| pin read 6 ||| BitVec.ofNat 8 trans).getLsbD 7 = true ∧
      (pin true 7 ||| pin read 6 ||| BitVec.ofNat 8 trans).getLsbD 6 = read ∧
      ((pin true 7 ||| pin read 6 ||| BitVec.ofNat 8 trans) &&& 0x3F).toNat = trans := by
  have hall : ∀ read : Bool, ∀ t < 64, (pin true 7 ||| pin read 6 ||| BitVec.ofNat 8 t).getLsbD 7 = true ∧
      (pin true 7 ||| pin read 6 ||| BitVec.ofNat 8 t).getLsbD 6 = read ∧
      ((pin true 7 ||| pin read 6 ||| BitVec.ofNat 8 t) &&& 0x3F).toNat = t := by
    decide
  exact hall read trans h

/-- The cycles of the bytes that are shifted: TMS is held. -/
def shiftPins (tms : Bool) (data : List Byte) : List Pins :=
  (bitsOf data (8 * data.length)).map fun bit => ⟨tms, bit⟩

theorem shiftPins_cons (tms : Bool) (b : Byte) (data : List Byte) :
    shiftPins tms (b :: data) = shiftPins tms [b] ++ shiftPins tms data := by
  have h8 : 8 * (b :: data).length = 8 + 8 * data.length := by simp; omega
  rw [shiftPins, h8, bitsOf_cons, List.map_append]
  rfl

theorem shiftPins_level (tms : Bool) (data : List Byte) (p : Pins) (h : p.tms = tms) :
    (lastPins p (shiftPins tms data)).tms = tms := by
  rw [lastPins_tms, List.getLastD_eq_getLast?]
  cases hl : ((shiftPins tms data).map Pins.tms).getLast? with
  | none => simpa using h
  | some b =>
    have hb := List.mem_of_getLast? hl
    simp only [shiftPins, List.map_map, List.mem_map, Function.comp_apply] at hb
    obtain ⟨-, -, rfl⟩ := hb
    rfl

/-- The answer to a packet. -/
def shiftAnswer (board : Board) (log : List Cycle) (read : Bool) (ps : List Pins) : List Byte :=
  if read then packBits ((board.cycles log ps).map Cycle.tdo) else []

theorem shiftAnswer_append (log : List Cycle) (read : Bool) (ps qs : List Pins)
    (h : ps.length % 8 = 0) :
    shiftAnswer board log read (ps ++ qs) =
      shiftAnswer board log read ps ++ shiftAnswer board (log ++ board.cycles log ps) read qs := by
  cases read with
  | false => rfl
  | true =>
    simp only [shiftAnswer, if_true]
    rw [cycles_append, List.map_append, packBits_append _ _ (by simpa using h)]

/-- The bytes that byte-shift mode waits for. -/
theorem shifted_clocks (board : Board) (data : List Byte) (e : BlasterEngine) (h : e.shift_left = data.length) :
    Clocks board e (blasterFeed board e data) (shiftPins e.pins.tms data)
      (shiftAnswer board e.log e.shift_read (shiftPins e.pins.tms data)) := by
  induction data generalizing e with
  | nil =>
    have hnil : shiftAnswer board e.log e.shift_read (shiftPins e.pins.tms []) = [] := by
      simp [shiftAnswer, shiftPins, packBits_nil]
    rw [hnil]
    exact .refl h
  | cons b data ih =>
    have hstep : blasterByte board e b = blasterShift board b e := by
      unfold blasterByte
      rw [if_pos (by rw [h]; simp)]
    have hleft : (blasterShift board b e).shift_left = data.length := by
      simp [blasterShift, BlasterEngine.clock, h]
    have htms : (blasterShift board b e).pins.tms = e.pins.tms := shiftPins_level _ [b] e.pins rfl
    have hrest := ih (blasterShift board b e) hleft
    rw [htms] at hrest
    rw [blasterFeed_cons, hstep, shiftPins_cons, shiftAnswer_append _ _ _ _ (by simp [shiftPins])]
    refine ⟨?_, ?_, ?_, hrest.idle⟩
    · rw [hrest.log, cycles_append, ← List.append_assoc]
      rfl
    · rw [hrest.pins, lastPins_append]
      rfl
    · rw [hrest.resp, ← List.append_assoc]
      rfl

/-- A whole packet. -/
theorem packet_clocks (board : Board) (read : Bool) (data : List Byte) (e : BlasterEngine) (h : e.shift_left = 0)
    (hlen : data.length < 64) :
    Clocks board e
      (blasterFeed board e ((pin true 7 ||| pin read 6 ||| BitVec.ofNat 8 data.length) :: data))
      (shiftPins e.pins.tms data) (shiftAnswer board e.log read (shiftPins e.pins.tms data)) := by
  obtain ⟨h7, h6, hn⟩ := head_byte read data.length hlen
  have hhead : blasterByte board e (pin true 7 ||| pin read 6 ||| BitVec.ofNat 8 data.length) =
      { e with shift_left := data.length, shift_read := read } := by
    unfold blasterByte
    rw [if_neg (by omega), if_pos h7, hn, h6]
  have hshift := shifted_clocks board data { e with shift_left := data.length, shift_read := read } rfl
  rw [blasterFeed_cons, hhead]
  exact ⟨hshift.log, hshift.pins, hshift.resp, hshift.idle⟩

end JtagRemote
