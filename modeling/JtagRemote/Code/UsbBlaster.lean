import JtagRemote.Code.Ftdi

/-! # `usb_blaster.cpp` -/

namespace JtagRemote

/-- `recv_buffer` is the whole array, of 4096 bytes. -/
structure Blaster where
  recv_buffer : List Byte
  recv_buffer_len : Nat
  port : Port
  deriving DecidableEq, Repr

abbrev BlasterProg (α : Type) := EStateM Fault (Jtag Blaster) α

/-- A libftdi call of the USB Blaster driver. -/
def blaster_port {α : Type} (p : EStateM Fault Port α) : BlasterProg α :=
  focus (fun c => c.dev.port) (fun t c => { c with dev := { c.dev with port := t } }) p

/-- `on` at bit `i` of a byte. -/
def pin (on : Bool) (i : Nat) : Byte := (BitVec.ofBool on).setWidth 8 <<< i

def build_command (tms tdi tck read : Bool) : Byte :=
  pin tck 0 ||| pin tms 1 ||| pin true 2 ||| pin true 3 ||| pin tdi 4 ||| pin true 5 ||| pin read 6

section

variable (usb : Usb)

/-! ## TMS sequences -/

/-- `bit` keeps its last value; with no bits at all the source reads it uninitialised. -/
def usb_blaster_jtag_tms_seq (data : List Byte) (num_bits : Nat) : BlasterProg Bool := do
  let (buffer, bit) ← forUpto num_bits ([], false) fun i (buffer, _) => do
    let bit ← bit_of data i
    -- tck=0, then tck=1
    pure (buffer ++ [build_command bit false false false, build_command bit false true false], bit)
  -- set tck=0
  blaster_port (ftdi_write_retry usb (buffer ++ [build_command bit false false false]))

/-! ## Scans -/

/-- Reads `trans` bytes into `recv_buffer`, at its end. -/
def usb_blaster_read (trans : Nat) : BlasterProg Bool := do
  let (ok, got) ← blaster_port (ftdi_read_retry usb trans)
  let c ← get
  if c.dev.recv_buffer_len + trans ≤ c.dev.recv_buffer.length then
    let recv_buffer ← memcpy c.dev.recv_buffer c.dev.recv_buffer_len got
    let len := c.dev.recv_buffer_len + if ok then trans else 0
    set { c with dev := { c.dev with recv_buffer := recv_buffer, recv_buffer_len := len } }
    pure ok
  else throw .out_of_bounds

/-- Writes a packet and, for a read, reads its answer at once. -/
def usb_blaster_exchange (buffer : List Byte) (do_read : Bool) (trans : Nat) : BlasterProg Bool := do
  if ← blaster_port (ftdi_write_retry usb buffer) then
    if do_read then usb_blaster_read usb trans else pure true
  else pure false

def MAX_PACKET_SIZE : Nat := 32

/-- The packets from byte `i` on; each one takes `i` further, so `fuel` is the bytes left. -/
def usb_blaster_packets (data : List Byte) (length_in_bytes : Nat) (do_read : Bool) :
    Nat → Nat → BlasterProg Bool
  | 0, i => if i < length_in_bytes then throw .out_of_fuel else pure true
  | fuel + 1, i =>
    if i < length_in_bytes then do
      let trans := min (length_in_bytes - i) MAX_PACKET_SIZE
      let bytes ← bytes_at data i trans
      -- byte-shift mode
      let head := pin true 7 ||| pin do_read 6 ||| BitVec.ofNat 8 trans
      if ← usb_blaster_exchange usb (head :: bytes) do_read trans then
        usb_blaster_packets data length_in_bytes do_read fuel (i + trans)
      else pure false
    else pure true

def usb_blaster_send_rest (data : List Byte) (bulk_bits : Nat) (do_read : Bool) :
    BlasterProg Bool := do
  if bulk_bits % 8 = 0 then pure true
  else
    let buffer ← forUpto (bulk_bits % 8) [] fun i buffer => do
      let bit ← bit_of data (bulk_bits / 8 * 8 + i)
      -- tck=0, then tck=1
      pure (buffer ++ [build_command false bit false false, build_command false bit true do_read])
    usb_blaster_exchange usb buffer do_read (bulk_bits % 8)

def usb_blaster_send_last (data : List Byte) (num_bits : Nat) (do_read : Bool) :
    BlasterProg Bool := do
  modify fun c => { c with state := next_state c.state true }
  let bit ← bit_of data (size_sub num_bits 1)
  -- tck=0, tck=1, tck=0
  usb_blaster_exchange usb [build_command true bit false false, build_command true bit true do_read,
    build_command true bit false false] do_read 1

def usb_blaster_jtag_scan_chain_send (data : List Byte) (num_bits : Nat)
    (flip_tms do_read : Bool) : BlasterProg Bool := do
  let bulk := bulk_bits num_bits flip_tms
  let c ← get
  assert (c.dev.recv_buffer_len == 0)
  -- send whole bytes first
  if ← usb_blaster_packets usb data (bulk / 8) do_read (bulk / 8) 0 then
    if ← usb_blaster_send_rest usb data bulk do_read then
      if flip_tms then usb_blaster_send_last usb data num_bits do_read else pure true
    else pure false
  else pure false

/-! ## Reading back -/

/-- `if (b) recv[i / 8] |= 1 << (i % 8)`. -/
def set_bit (recv : List Byte) (i : Nat) (b : Bool) : BlasterProg (List Byte) :=
  if b then or_bit recv i true else pure recv

def usb_blaster_recv_rest (recv_buffer recv : List Byte) (bulk_bits : Nat) :
    BlasterProg (List Byte) :=
  forUpto (bulk_bits % 8) recv fun i recv => do
    let last_bit ← index recv_buffer (bulk_bits / 8 + i)
    set_bit recv (bulk_bits / 8 * 8 + i) (last_bit.getLsbD 0)

def usb_blaster_recv_last (recv_buffer recv : List Byte) (num_bits offset : Nat) :
    BlasterProg (List Byte) := do
  let last_bit ← index recv_buffer offset
  set_bit recv (size_sub num_bits 1) (last_bit.getLsbD 0)

def usb_blaster_jtag_scan_chain_recv (recv : List Byte) (num_bits : Nat) (flip_tms : Bool) :
    BlasterProg (Bool × List Byte) := do
  let bulk := bulk_bits num_bits flip_tms
  let recv ← memset_zero recv ((bulk + 7) % 2 ^ 64 / 8)
  let c ← get
  -- read whole bytes first
  let bytes ← bytes_at c.dev.recv_buffer 0 (bulk / 8)
  let recv ← memcpy recv 0 bytes
  let recv ← usb_blaster_recv_rest c.dev.recv_buffer recv bulk
  let offset := bulk / 8 + bulk % 8
  let recv ←
    if flip_tms then usb_blaster_recv_last c.dev.recv_buffer recv num_bits offset else pure recv
  let offset := if flip_tms then offset + 1 else offset
  assert (offset == c.dev.recv_buffer_len)
  modify fun c => { c with dev := { c.dev with recv_buffer_len := 0 } }
  pure (true, recv)

/-! ## The clock, and setting up -/

def usb_blaster_set_tck_freq (_freq_mhz : Nat) : BlasterProg Bool := pure true

def usb_blaster_jtag_clock_tck (_times : Nat) : BlasterProg Bool := pure true

/-- Reads anything from the queue, until a read gives nothing. -/
def usb_blaster_drain : Nat → BlasterProg Unit
  | 0 => throw .out_of_fuel
  | fuel + 1 => do
    match ← blaster_port (ftdi_read_data usb 1) with
    | some (_ :: _) => usb_blaster_drain fuel
    | _ => pure ()

def usb_blaster_init (fuel : Nat) (_adapter_type : AdapterTypes) : BlasterProg Bool := do
  if usb.opens then
    assert usb.sets_up
    blaster_port (ftdi_set_bitmode BITMODE_RESET)
    -- flush queue
    let buffer := (List.range 4096).map fun i => build_command false false (i % 2 == 1) false
    if ← blaster_port (ftdi_write_retry usb buffer) then
      usb_blaster_drain usb fuel
      -- reset JTAG
      let _ ← usb_blaster_jtag_tms_seq usb [0xff] 5
      pure true
    else pure false
  else pure false

def usb_blaster_deinit : BlasterProg Bool := pure true

def usb_blaster_driver (fuel : Nat) : driver Blaster where
  init := usb_blaster_init usb fuel
  deinit := usb_blaster_deinit
  set_tck_freq := usb_blaster_set_tck_freq
  jtag_tms_seq := usb_blaster_jtag_tms_seq usb
  jtag_scan_chain_send := usb_blaster_jtag_scan_chain_send usb
  jtag_scan_chain_recv := usb_blaster_jtag_scan_chain_recv
  jtag_clock_tck := usb_blaster_jtag_clock_tck

end

end JtagRemote
