import JtagRemote.Lib.Bits
import JtagRemote.Lib.Prog

/-!
# `common.cpp`

The TAP, the driver table, the JTAG operations and the socket window. Code that
may stop (an `assert`, an index outside its array, a division by zero) stops
with a `Fault`. Debug output is left out: it is off unless `-d` is given.
-/

namespace JtagRemote

inductive Fault where
  | assert_failed
  -- the `assert(false)` of `jtag_get_tms_seq`
  | no_tms_seq
  | out_of_bounds
  | div_by_zero
  | undefined
  | out_of_fuel
  deriving DecidableEq, Repr

/-! ## C arrays and asserts -/

section

variable {σ : Type}

def assert (b : Bool) : EStateM Fault σ Unit := if b then pure () else throw .assert_failed

/-- `data[i]`. -/
def index (data : List Byte) (i : Nat) : EStateM Fault σ Byte :=
  match data[i]? with
  | some b => pure b
  | none => throw .out_of_bounds

/-- `(data[i / 8] >> (i % 8)) & 1`. -/
def bit_of (data : List Byte) (i : Nat) : EStateM Fault σ Bool := do
  let b ← index data (i / 8)
  pure (b.getLsbD (i % 8))

/-- `data[i / 8] |= b << (i % 8)`. -/
def or_bit (data : List Byte) (i : Nat) (b : Bool) : EStateM Fault σ (List Byte) :=
  if i / 8 < data.length then pure (orBit data i b) else throw .out_of_bounds

/-- `memcpy(dst + off, src, src.size)`. -/
def memcpy (dst : List Byte) (off : Nat) (src : List Byte) : EStateM Fault σ (List Byte) :=
  if off + src.length ≤ dst.length then pure (splice dst off src) else throw .out_of_bounds

/-- The `len` bytes at `src + off`. -/
def bytes_at (src : List Byte) (off len : Nat) : EStateM Fault σ (List Byte) :=
  if off + len ≤ src.length then pure ((src.drop off).take len) else throw .out_of_bounds

/-- `&v[0]` of a vector. -/
def first_element {α : Type} (v : List α) : EStateM Fault σ Unit :=
  if 0 < v.length then pure () else throw .out_of_bounds

/-- `memset(dst, 0, len)`. -/
def memset_zero (dst : List Byte) (len : Nat) : EStateM Fault σ (List Byte) :=
  memcpy dst 0 (List.replicate len 0)

def ascii (l : List Char) : List Byte := l.map fun c => BitVec.ofNat 8 c.toNat

/-- A `uint32_t` that is copied from memory, on a little-endian host. -/
def le32 (l : List Byte) : Nat := (l.take 4).foldr (fun b n => b.toNat + 256 * n) 0

/-- The bytes of a `uint32_t` in memory, on a little-endian host. -/
def le_bytes (w : BitVec 32) : List Byte :=
  [w.setWidth 8, (w >>> 8).setWidth 8, (w >>> 16).setWidth 8, (w >>> 24).setWidth 8]

/-- Subtraction of `size_t` values. -/
def size_sub (a b : Nat) : Nat := (a + 2 ^ 64 - b) % 2 ^ 64

end

/-! ## The TAP -/

inductive JtagState where
  | TestLogicReset
  | RunTestIdle
  | SelectDRScan
  | CaptureDR
  | ShiftDR
  | Exit1DR
  | PauseDR
  | Exit2DR
  | UpdateDR
  | SelectIRScan
  | CaptureIR
  | ShiftIR
  | Exit1IR
  | PauseIR
  | Exit2IR
  | UpdateIR
  deriving DecidableEq, Repr

open JtagState

/-- jtag state transition -/
def next_state (cur : JtagState) (bit : Bool) : JtagState :=
  match cur with
  | TestLogicReset => if bit then TestLogicReset else RunTestIdle
  | RunTestIdle => if bit then SelectDRScan else RunTestIdle
  | SelectDRScan => if bit then SelectIRScan else CaptureDR
  | CaptureDR => if bit then Exit1DR else ShiftDR
  | ShiftDR => if bit then Exit1DR else ShiftDR
  | Exit1DR => if bit then UpdateDR else PauseDR
  | PauseDR => if bit then Exit2DR else PauseDR
  | Exit2DR => if bit then UpdateDR else ShiftDR
  | UpdateDR => if bit then SelectDRScan else RunTestIdle
  | SelectIRScan => if bit then TestLogicReset else CaptureIR
  | CaptureIR => if bit then Exit1IR else ShiftIR
  | ShiftIR => if bit then Exit1IR else ShiftIR
  | Exit1IR => if bit then UpdateIR else PauseIR
  | PauseIR => if bit then Exit2IR else PauseIR
  | Exit2IR => if bit then UpdateIR else ShiftIR
  | UpdateIR => if bit then SelectDRScan else RunTestIdle

/-! ## Drivers -/

inductive AdapterTypes where
  | Adapter_Xilinx
  | Adapter_DigilentHS2
  | Adapter_DigilentHS3
  deriving DecidableEq, Repr

/-- The globals that the JTAG operations share, and the state `δ` of the driver. -/
structure Jtag (δ : Type) where
  state : JtagState
  bits_send : Nat
  dev : δ

/-- functions for adapter driver -/
structure driver (δ : Type) where
  init : AdapterTypes → EStateM Fault (Jtag δ) Bool
  deinit : EStateM Fault (Jtag δ) Bool
  set_tck_freq : Nat → EStateM Fault (Jtag δ) Bool
  jtag_tms_seq : List Byte → Nat → EStateM Fault (Jtag δ) Bool
  jtag_scan_chain_send : List Byte → Nat → Bool → Bool → EStateM Fault (Jtag δ) Bool
  jtag_scan_chain_recv : List Byte → Nat → Bool → EStateM Fault (Jtag δ) (Bool × List Byte)
  jtag_clock_tck : Nat → EStateM Fault (Jtag δ) Bool

/-- The bits that both drivers send before the one that goes along with TMS=1. -/
def bulk_bits (num_bits : Nat) (flip_tms : Bool) : Nat :=
  if flip_tms then size_sub num_bits 1 else num_bits

section

variable {δ : Type} (adapter : driver δ)

/-- `bits_send += n` on a `uint64_t`. -/
def count_bits (n : Nat) : EStateM Fault (Jtag δ) Unit :=
  modify fun c => { c with bits_send := (c.bits_send + n) % 2 ^ 64 }

def jtag_tms_seq (data : List Byte) (num_bits : Nat) : EStateM Fault (Jtag δ) Bool := do
  count_bits num_bits
  -- compute state transition
  let c ← get
  let new_state ← forUpto num_bits c.state fun i new_state => do
    let bit ← bit_of data i
    pure (next_state new_state bit)
  modify fun c => { c with state := new_state }
  adapter.jtag_tms_seq data num_bits

/-- 11111: Goto Test-Logic-Reset -/
def jtag_goto_tlr : EStateM Fault (Jtag δ) Bool := jtag_tms_seq adapter [0x1F] 5

def jtag_scan_chain_send (data : List Byte) (num_bits : Nat) (flip_tms do_read : Bool) :
    EStateM Fault (Jtag δ) Bool := do
  count_bits num_bits
  adapter.jtag_scan_chain_send data num_bits flip_tms do_read

def jtag_scan_chain_recv (recv : List Byte) (num_bits : Nat) (flip_tms : Bool) :
    EStateM Fault (Jtag δ) (Bool × List Byte) :=
  adapter.jtag_scan_chain_recv recv num_bits flip_tms

def jtag_scan_chain (data recv : List Byte) (num_bits : Nat) (flip_tms do_read : Bool) :
    EStateM Fault (Jtag δ) (Bool × List Byte) := do
  if ← jtag_scan_chain_send adapter data num_bits flip_tms do_read then
    if do_read then jtag_scan_chain_recv adapter recv num_bits flip_tms
    else pure (true, recv)
  else pure (false, recv)

def jtag_clock_tck (times : Nat) : EStateM Fault (Jtag δ) Bool := do
  count_bits times
  adapter.jtag_clock_tck times

def adapter_set_tck_freq (freq_mhz : Nat) : EStateM Fault (Jtag δ) Bool :=
  adapter.set_tck_freq freq_mhz

/-- The TMS bits, lowest first, and their number. -/
def jtag_get_tms_seq (src dst : JtagState) : EStateM Fault (Jtag δ) (Byte × Nat) :=
  if src = dst then pure (0, 0)
  else match src, dst with
    | TestLogicReset, ShiftIR => pure (0x06, 5) -- go to shift-ir 01100
    | TestLogicReset, ShiftDR => pure (0x02, 4) -- go to shift-dr 0100
    | RunTestIdle, ShiftIR => pure (0x3, 4) -- go to shift-ir 1100
    | RunTestIdle, ShiftDR => pure (0x1, 3) -- go to shift-dr 100
    | Exit1IR, ShiftDR => pure (0x3, 4) -- from exit1-ir to shift-dr 1100
    | Exit1IR, RunTestIdle => pure (0x1, 2) -- from exit1-ir to run-test-idle 10
    | Exit1DR, RunTestIdle => pure (0x1, 2) -- from exit1-dr to run-test-idle 10
    | _, _ => throw .no_tms_seq

def jtag_tms_seq_to (dst : JtagState) : EStateM Fault (Jtag δ) Bool := do
  let c ← get
  let (tms, num_bits) ← jtag_get_tms_seq c.state dst
  if num_bits > 0 then jtag_tms_seq adapter [tms] num_bits else pure true

/-- `b[i * 4] | b[i * 4 + 1] << 8 | b[i * 4 + 2] << 16 | b[i * 4 + 3] << 24`. -/
def idcode_at (b : List Byte) (i : Nat) : EStateM Fault (Jtag δ) (BitVec 32) := do
  let b0 ← index b (i * 4)
  let b1 ← index b (i * 4 + 1)
  let b2 ← index b (i * 4 + 2)
  let b3 ← index b (i * 4 + 3)
  pure (b3 ++ b2 ++ b1 ++ b0)

def MAX_TAPS : Nat := 8
def MAX_IR : Nat := 16

/-- The two read buffers are not initialised in the source: `junk` is what they hold. -/
def jtag_probe_devices (junk : Nat → Byte) : EStateM Fault (Jtag δ) (List (BitVec 32)) := do
  -- step 1: go to test-logic-reset
  let _ ← jtag_goto_tlr adapter
  -- step 2: go to shift-ir 01100
  let _ ← jtag_tms_seq_to adapter ShiftIR
  -- step 3: send plenty of ones into ir register
  let ones := List.replicate (MAX_TAPS * MAX_IR / 8) 0xFF
  let _ ← jtag_scan_chain_send adapter ones (MAX_TAPS * MAX_IR) true false
  -- step 4: go from exit1-ir to shift-dr 1100
  let _ ← jtag_tms_seq_to adapter ShiftDR
  -- step 5: send plenty of zeros into dr register
  let zeros := List.replicate (MAX_TAPS / 8) 0
  let _ ← jtag_scan_chain_send adapter zeros MAX_TAPS false false
  -- step 6: send plenty of ones again into dr register
  let ones2 := List.replicate (MAX_TAPS / 8) 0xFF
  let read_buffer := (List.range (MAX_TAPS / 8)).map junk
  let (_, read_buffer) ← jtag_scan_chain adapter ones2 read_buffer MAX_TAPS true true
  let num_devices := ((List.range MAX_TAPS).find? (bitAt read_buffer)).getD 0
  if num_devices = 0 then pure []
  else
    -- step 7: restore test logic reset
    let _ ← jtag_goto_tlr adapter
    -- step 8: go from test-logic-reset to shift-dr 0100
    let _ ← jtag_tms_seq adapter [0x02] 4
    -- step 9: read id out
    let zeros2 := List.replicate (MAX_TAPS * 32 / 8) 0
    let read_buffer2 := (List.range (MAX_TAPS * 32 / 8)).map junk
    let (_, read_buffer2) ←
      jtag_scan_chain adapter zeros2 read_buffer2 (MAX_TAPS * 32) true true
    -- collect idcode
    let res ← forUpto num_devices [] fun i res => do
      let idcode ← idcode_at read_buffer2 i
      pure (res ++ [idcode])
    -- step 7: restore test logic reset
    let _ ← jtag_goto_tlr adapter
    pure res

end

/-! ## Regions of a bitbang sequence -/

structure Region where
  is_tms : Bool
  flip_tms : Bool
  begin_ : Nat
  end_ : Nat
  deriving DecidableEq, Repr

def Region.length {σ : Type} (r : Region) : EStateM Fault σ Nat := do
  assert (r.begin_ < r.end_)
  pure (r.end_ - r.begin_)

/-- The locals of the loop in `analyze_bitbang`. -/
structure Analysis where
  shift_pos : Nat
  regions : List Region
  cur_state : JtagState
  deriving DecidableEq, Repr

/-- Closes the open region after bit `i` when the TAP enters or leaves a Shift state. -/
def analyze_step (i : Nat) (tms_bit : Bool) (a : Analysis) : Analysis :=
  let new_state := next_state a.cur_state tms_bit
  if (a.cur_state ≠ ShiftDR ∧ new_state = ShiftDR) ∨ (a.cur_state ≠ ShiftIR ∧ new_state = ShiftIR) then
    { shift_pos := i + 1
      regions := a.regions ++ [⟨true, false, a.shift_pos, i + 1⟩]
      cur_state := new_state }
  else if (a.cur_state = ShiftDR ∧ new_state ≠ ShiftDR) ∨
      (a.cur_state = ShiftIR ∧ new_state ≠ ShiftIR) then
    { shift_pos := i + 1
      regions := a.regions ++ [⟨false, true, a.shift_pos, i + 1⟩]
      cur_state := new_state }
  else { a with cur_state := new_state }

/-- The regions, and the TAP state after the last bit. -/
def analyze_bitbang {σ : Type} (state : JtagState) (tms : List Byte) (bits : Nat) :
    EStateM Fault σ (List Region × JtagState) := do
  let a ← forUpto bits (⟨0, [], state⟩ : Analysis) fun i a => do
    let tms_bit ← bit_of tms i
    pure (analyze_step i tms_bit a)
  if a.shift_pos ≠ bits then
    let is_tms := decide (a.cur_state ≠ ShiftDR ∧ a.cur_state ≠ ShiftIR)
    pure (a.regions ++ [⟨is_tms, false, a.shift_pos, bits⟩], a.cur_state)
  else pure (a.regions, a.cur_state)

/-! ## The client -/

def BUFFER_SIZE : Nat := 4096

/-- What `read()` answers: some bytes (at most the space that was asked for), 0 or -1. -/
inductive Recv where
  | data (first : Byte) (rest : List Byte)
  | closed
  | failed
  deriving DecidableEq, Repr

/-- What the system answers during one tick. -/
structure Net where
  recv : Recv
  accept : Bool
  deriving DecidableEq, Repr

/-- The connection, its receive window, and all that was written to the client.
While `alive` is set, the client takes what is written. -/
structure Sock where
  client_fd : Int
  buffer : List Byte
  buffer_begin : Nat
  buffer_end : Nat
  alive : Bool
  written : List Byte
  deriving DecidableEq, Repr

def write_full (data : List Byte) : EStateM Fault Sock Bool := do
  let s ← get
  if s.alive then
    set { s with written := s.written ++ data }
    pure true
  else pure (data.length == 0)

def try_accept (accept : Bool) : EStateM Fault Sock Bool := do
  if accept then
    modify fun s => { s with client_fd := 4, alive := true }
    pure true
  else pure false

/-- Makes room in the window: moves a full one to the front, or resets an empty one. -/
def make_room (s : Sock) : Sock :=
  if s.buffer_begin > 0 ∧ s.buffer_end = BUFFER_SIZE then
    -- buffer is full, move to zero
    { s with
      buffer := splice s.buffer 0 ((s.buffer.drop s.buffer_begin).take (s.buffer_end - s.buffer_begin))
      buffer_end := s.buffer_end - s.buffer_begin
      buffer_begin := 0 }
  else if s.buffer_begin = s.buffer_end then
    -- buffer is empty
    { s with buffer_begin := 0, buffer_end := 0 }
  else s

def read_socket (recv : Recv) : EStateM Fault Sock Bool := do
  modify make_room
  let s ← get
  if s.buffer_end < BUFFER_SIZE then
    -- buffer is not full, read something
    match recv with
    | .closed =>
      -- remote socket closed
      set { s with client_fd := -1, buffer_begin := 0, buffer_end := 0 }
      pure false
    | .data first rest =>
      let got := (first :: rest).take (BUFFER_SIZE - s.buffer_end)
      let buffer ← memcpy s.buffer s.buffer_begin got
      set { s with buffer := buffer, buffer_end := s.buffer_end + got.length }
      pure true
    | .failed => pure true
  else pure true

end JtagRemote
