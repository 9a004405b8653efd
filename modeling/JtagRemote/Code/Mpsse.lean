import JtagRemote.Code.Ftdi

/-! # `mpsse_buffer.cpp` and `mpsse.cpp` -/

namespace JtagRemote

def BUFFER_LENGTH : Nat := 8192
def MAX_TRANSFER_LENGTH : Nat := 2048

def MPSSE_WRITE_NEG : Byte := 0x01
def MPSSE_BITMODE : Byte := 0x02
def MPSSE_LSB : Byte := 0x08
def MPSSE_DO_WRITE : Byte := 0x10
def MPSSE_DO_READ : Byte := 0x20
def MPSSE_WRITE_TMS : Byte := 0x40
def SET_BITS_LOW : Byte := 0x80
def SET_BITS_HIGH : Byte := 0x82
def TCK_DIVISOR : Byte := 0x86
def SEND_IMMEDIATE : Byte := 0x87
def DIS_DIV_5 : Byte := 0x8A

/-- `mpsse_buffer` holds the bytes below `mpsse_buffer_pos`. -/
structure Mpsse where
  mpsse_buffer : List Byte
  port : Port
  deriving DecidableEq, Repr

abbrev MpsseProg (α : Type) := EStateM Fault (Jtag Mpsse) α

/-- A libftdi call of the mpsse driver. -/
def mpsse_port {α : Type} (p : EStateM Fault Port α) : MpsseProg α :=
  focus (fun c => c.dev.port) (fun t c => { c with dev := { c.dev with port := t } }) p

section

variable (usb : Usb)

/-! ## The buffer -/

def mpsse_buffer_set (l : List Byte) : MpsseProg Unit :=
  modify fun c => { c with dev := { c.dev with mpsse_buffer := l } }

def mpsse_buffer_init : MpsseProg Unit := mpsse_buffer_set []

def mpsse_buffer_is_empty : MpsseProg Bool := do
  let c ← get
  pure (c.dev.mpsse_buffer.length == 0)

def mpsse_buffer_flush : MpsseProg Bool := do
  let c ← get
  if c.dev.mpsse_buffer.length = 0 then pure true
  else
    let ok ← mpsse_port (ftdi_write_retry usb c.dev.mpsse_buffer)
    mpsse_buffer_set []
    pure ok

def mpsse_buffer_ensure_space (num_bytes : Nat) : MpsseProg Bool := do
  let c ← get
  if num_bytes ≥ BUFFER_LENGTH then pure false
  else if c.dev.mpsse_buffer.length + num_bytes ≥ MAX_TRANSFER_LENGTH then mpsse_buffer_flush usb
  else pure true

def mpsse_buffer_append (data : List Byte) : MpsseProg Unit := do
  let c ← get
  if c.dev.mpsse_buffer.length + data.length ≤ BUFFER_LENGTH then
    mpsse_buffer_set (c.dev.mpsse_buffer ++ data)
  else throw .out_of_bounds

def mpsse_buffer_append_byte (data : Byte) : MpsseProg Unit := mpsse_buffer_append [data]

/-! ## TMS sequences and scans -/

def mpsse_tms_byte (data : List Byte) (num_bits i : Nat) : MpsseProg Bool := do
  let cur_bits := min 8 (num_bits - i * 8)
  if ← mpsse_buffer_ensure_space usb 3 then
    -- Clock Data to TMS pin (no read)
    mpsse_buffer_append_byte (MPSSE_WRITE_TMS ||| MPSSE_LSB ||| MPSSE_BITMODE ||| MPSSE_WRITE_NEG)
    mpsse_buffer_append_byte (BitVec.ofNat 8 (cur_bits - 1))
    let b ← index data i
    mpsse_buffer_append_byte b
    pure true
  else pure false

def mpsse_jtag_tms_seq (data : List Byte) (num_bits : Nat) : MpsseProg Bool :=
  forWhile ((num_bits + 7) / 8) (mpsse_tms_byte usb data num_bits)

def mpsse_send_bytes (data : List Byte) (length_in_bytes : Nat) (do_read_flag : Byte) :
    MpsseProg Bool := do
  if length_in_bytes = 0 then pure true
  else if ← mpsse_buffer_ensure_space usb (3 + length_in_bytes) then
    mpsse_buffer_append_byte (do_read_flag ||| MPSSE_DO_WRITE ||| MPSSE_LSB ||| MPSSE_WRITE_NEG)
    mpsse_buffer_append_byte (BitVec.ofNat 8 ((length_in_bytes - 1) % 256))
    mpsse_buffer_append_byte (BitVec.ofNat 8 ((length_in_bytes - 1) / 256))
    let bytes ← bytes_at data 0 length_in_bytes
    mpsse_buffer_append bytes
    pure true
  else pure false

def mpsse_send_rest (data : List Byte) (bulk_bits : Nat) (do_read_flag : Byte) :
    MpsseProg Bool := do
  if bulk_bits % 8 = 0 then pure true
  else if ← mpsse_buffer_ensure_space usb 3 then
    mpsse_buffer_append_byte
      (do_read_flag ||| MPSSE_DO_WRITE ||| MPSSE_LSB ||| MPSSE_WRITE_NEG ||| MPSSE_BITMODE)
    mpsse_buffer_append_byte (BitVec.ofNat 8 (bulk_bits % 8 - 1))
    let b ← index data (bulk_bits / 8)
    mpsse_buffer_append_byte b
    pure true
  else pure false

def mpsse_send_last (data : List Byte) (num_bits : Nat) (do_read_flag : Byte) :
    MpsseProg Bool := do
  modify fun c => { c with state := next_state c.state true }
  let bit ← bit_of data (size_sub num_bits 1)
  if ← mpsse_buffer_ensure_space usb 3 then
    mpsse_buffer_append_byte
      (do_read_flag ||| MPSSE_WRITE_TMS ||| MPSSE_LSB ||| MPSSE_BITMODE ||| MPSSE_WRITE_NEG)
    mpsse_buffer_append_byte 0x00
    -- 7-th bit: last bit, TMS=1
    mpsse_buffer_append_byte (0x01 ||| (BitVec.ofBool bit).setWidth 8 <<< 7)
    pure true
  else pure false

def mpsse_jtag_scan_chain_send (data : List Byte) (num_bits : Nat) (flip_tms do_read : Bool) :
    MpsseProg Bool := do
  let bulk := bulk_bits num_bits flip_tms
  let do_read_flag := if do_read then MPSSE_DO_READ else 0
  if ← mpsse_send_bytes usb data (bulk / 8) do_read_flag then
    if ← mpsse_send_rest usb data bulk do_read_flag then
      if flip_tms then mpsse_send_last usb data num_bits do_read_flag else pure true
    else pure false
  else pure false

/-! ## Reading back

Both loops of the source may run for ever; `fuel` bounds the number of reads.
-/

def mpsse_read_loop (len : Nat) : Nat → Nat → List Byte → MpsseProg (Bool × List Byte)
  | 0, offset, recv => if len > offset then throw .out_of_fuel else pure (true, recv)
  | fuel + 1, offset, recv =>
    if len > offset then do
      match ← mpsse_port (ftdi_read_data usb (len - offset)) with
      | none => pure (false, recv)
      | some got => do
        let recv ← memcpy recv offset got
        mpsse_read_loop len fuel (offset + got.length) recv
    else pure (true, recv)

/-- `while (ftdi_read_data(ftdi, &last_bit, 1) != 1);` -/
def mpsse_last_loop : Nat → MpsseProg Byte
  | 0 => throw .out_of_fuel
  | fuel + 1 => do
    match ← mpsse_port (ftdi_read_data usb 1) with
    | some [last_bit] => pure last_bit
    | _ => mpsse_last_loop fuel

/-- Sends all write commands that still wait. -/
def mpsse_send_pending : MpsseProg Bool := do
  if ← mpsse_buffer_is_empty then pure true
  else if ← mpsse_buffer_ensure_space usb 1 then
    mpsse_buffer_append_byte SEND_IMMEDIATE
    mpsse_buffer_flush usb
  else pure false

/-- `recv[bulk_bits / 8] >>= 8 - (bulk_bits % 8)` when there are rest bits. -/
def mpsse_align_rest (recv : List Byte) (bulk_bits : Nat) : MpsseProg (List Byte) := do
  if bulk_bits % 8 = 0 then pure recv
  else
    let b ← index recv (bulk_bits / 8)
    pure (recv.set (bulk_bits / 8) (b >>> (8 - bulk_bits % 8)))

def mpsse_jtag_scan_chain_recv (fuel : Nat) (recv : List Byte) (num_bits : Nat)
    (flip_tms : Bool) : MpsseProg (Bool × List Byte) := do
  if ← mpsse_send_pending usb then
    let bulk := bulk_bits num_bits flip_tms
    let len := (bulk + 7) % 2 ^ 64 / 8
    let recv ← memset_zero recv len
    let (ok, recv) ← mpsse_read_loop usb len fuel 0 recv
    if ok then
      let recv ← mpsse_align_rest recv bulk
      if flip_tms then
        let last_bit ← mpsse_last_loop usb fuel
        let recv ← or_bit recv (size_sub num_bits 1) (last_bit.getLsbD 7)
        pure (true, recv)
      else pure (true, recv)
    else pure (false, recv)
  else pure (false, recv)

/-! ## The clock -/

/-- `int divisor = (60 / 2 + freq_mhz - 1) / freq_mhz - 1` on a `uint64_t`. -/
def mpsse_divisor (freq_mhz : Nat) : BitVec 32 :=
  BitVec.ofNat 32 (size_sub ((60 / 2 + freq_mhz - 1) % 2 ^ 64 / freq_mhz) 1)

def mpsse_set_tck_freq (freq_mhz : Nat) : MpsseProg Bool := do
  -- send any pending commands
  if ← mpsse_buffer_flush usb then
    if freq_mhz = 0 then throw .div_by_zero
    else
      let divisor := mpsse_divisor freq_mhz
      -- the actual frequency, which is printed, is 60 / ((1 + divisor) * 2)
      if (1 + divisor) * 2 = 0 then throw .div_by_zero
      else mpsse_port (ftdi_write_retry usb [TCK_DIVISOR, divisor.setWidth 8, 0x00, DIS_DIV_5])
  else pure false

/-- Clock For n x 8 bits with no data transfer -/
def mpsse_clock_bytes (times_8 : Nat) : MpsseProg Bool :=
  if times_8 = 0 then pure true
  else mpsse_port (ftdi_write_retry usb
    [0x8F, BitVec.ofNat 8 ((times_8 - 1) % 256), BitVec.ofNat 8 ((times_8 - 1) / 256)])

/-- Clock For n bits with no data transfer -/
def mpsse_clock_rest (times : Nat) : MpsseProg Bool :=
  if times % 8 = 0 then pure true
  else mpsse_port (ftdi_write_retry usb [0x8E, BitVec.ofNat 8 (times % 8 - 1)])

def mpsse_jtag_clock_tck (times : Nat) : MpsseProg Bool := do
  -- send any pending commands
  if ← mpsse_buffer_flush usb then
    if ← mpsse_clock_bytes usb (times / 8) then mpsse_clock_rest usb times else pure false
  else pure false

/-! ## Setting up -/

/-- `initialOutput` and `direction`. -/
def mpsse_pins : AdapterTypes → BitVec 16 × BitVec 16
  | .Adapter_Xilinx => (0x0088, 0x008b)
  | .Adapter_DigilentHS2 => (0x00e8, 0x60eb)
  | .Adapter_DigilentHS3 => (0x0088, 0x008b)

/-- `freq_mhz` is the global that `-f` sets. -/
def mpsse_init (freq_mhz : Nat) (adapter_type : AdapterTypes) : MpsseProg Bool := do
  if usb.opens then
    assert usb.sets_up
    mpsse_port (ftdi_set_bitmode BITMODE_RESET)
    mpsse_port (ftdi_set_bitmode BITMODE_MPSSE)
    let (initialOutput, direction) := mpsse_pins adapter_type
    let setup := [SET_BITS_LOW, initialOutput.setWidth 8, direction.setWidth 8, SET_BITS_HIGH,
      (initialOutput >>> 8).setWidth 8, (direction >>> 8).setWidth 8, SEND_IMMEDIATE]
    if ← mpsse_port (ftdi_write_retry usb setup) then
      mpsse_buffer_init
      mpsse_set_tck_freq usb freq_mhz
    else pure false
  else pure false

def mpsse_deinit : MpsseProg Bool := do
  mpsse_port (ftdi_set_bitmode BITMODE_RESET)
  pure true

def mpsse_driver (fuel freq_mhz : Nat) : driver Mpsse where
  init := mpsse_init usb freq_mhz
  deinit := mpsse_deinit
  set_tck_freq := mpsse_set_tck_freq usb
  jtag_tms_seq := mpsse_jtag_tms_seq usb
  jtag_scan_chain_send := mpsse_jtag_scan_chain_send usb
  jtag_scan_chain_recv := mpsse_jtag_scan_chain_recv usb fuel
  jtag_clock_tck := mpsse_jtag_clock_tck usb

end

end JtagRemote
