import JtagRemote.Code.Common

/-! # `rbb.cpp` -/

namespace JtagRemote

/-- The globals that a remote bitbang server uses. -/
structure Rbb (δ : Type) where
  jtag : Jtag δ
  sock : Sock

abbrev RbbProg (δ α : Type) := EStateM Fault (Rbb δ) α

/-- What the arrays of a tick hold before they are written. -/
structure Junk where
  tms : Nat → Byte
  tdi : Nat → Byte
  read : Nat → Byte
  send : Nat → Byte

/-- An array of `BUFFER_SIZE` bytes that is not initialised. -/
def uninit (junk : Nat → Byte) : List Byte := (List.range BUFFER_SIZE).map junk

def CHAR_0 : Byte := 0x30
def CHAR_1 : Byte := 0x31
def CHAR_7 : Byte := 0x37
def CHAR_R : Byte := 0x52

/-- The locals of the loop over the commands. -/
structure Inputs where
  bits : Nat
  read_bits : Nat
  tms_input : List Byte
  tdi_input : List Byte
  read_input : List Byte

section

variable {δ : Type} (adapter : driver δ)

def rbb_jtag {α : Type} (p : EStateM Fault (Jtag δ) α) : RbbProg δ α :=
  focus (fun s => s.jtag) (fun t s => { s with jtag := t }) p

def rbb_sock {α : Type} (p : EStateM Fault Sock α) : RbbProg δ α :=
  focus (fun s => s.sock) (fun t s => { s with sock := t }) p

/-! ## Commands -/

def rbb_command (command : Byte) (a : Inputs) : RbbProg δ Inputs := do
  if CHAR_0 ≤ command ∧ command ≤ CHAR_7 then
    -- set
    let offset := command - CHAR_0
    let tck := offset.getLsbD 2
    let tms := offset.getLsbD 1
    let tdi := offset.getLsbD 0
    if tck then
      let tms_input ← or_bit a.tms_input a.bits tms
      let tdi_input ← or_bit a.tdi_input a.bits tdi
      pure { a with tms_input := tms_input, tdi_input := tdi_input, bits := a.bits + 1 }
    else pure a
  else if command = CHAR_R then
    -- read
    let read_input ← or_bit a.read_input a.bits true
    pure { a with read_input := read_input, read_bits := a.read_bits + 1 }
  -- trst, and what is not known
  else pure a

def rbb_commands (junk : Junk) (read_buffer : List Byte) : RbbProg δ Inputs := do
  let num_read := read_buffer.length
  let tms_input ← memset_zero (uninit junk.tms) ((num_read + 7) / 8)
  let tdi_input ← memset_zero (uninit junk.tdi) ((num_read + 7) / 8)
  let read_input ← memset_zero (uninit junk.read) ((num_read + 7) / 8)
  forUpto num_read ⟨0, 0, tms_input, tdi_input, read_input⟩ fun i a => do
    let command ← index read_buffer i
    rbb_command command a

/-! ## Regions -/

def rbb_tms_region (a : Inputs) (r : Region) : RbbProg δ Unit := do
  let tms_buffer ← forUpto (r.end_ - r.begin_) (List.replicate BUFFER_SIZE 0) fun off tms_buffer => do
    let tms_bit ← bit_of a.tms_input (r.begin_ + off)
    or_bit tms_buffer off tms_bit
  let length ← r.length
  let _ ← rbb_jtag (jtag_tms_seq adapter tms_buffer length)
  pure ()

/-- The characters of the bits, written one by one, and sent. -/
def rbb_send_bits (junk : Junk) (tdo_buffer : List Byte) (length : Nat) : RbbProg δ Unit := do
  let send_buffer ← forUpto length (uninit junk.send) fun i send_buffer => do
    let tdo_bit ← bit_of tdo_buffer i
    memcpy send_buffer i [if tdo_bit then CHAR_1 else CHAR_0]
  let data ← bytes_at send_buffer 0 length
  let _ ← rbb_sock (write_full data)
  pure ()

/-- The new value of `actual_read_bits`, which is a `uint32_t`. -/
def rbb_data_region (junk : Junk) (a : Inputs) (r : Region) (actual_read_bits : Nat) : RbbProg δ Nat := do
  let (tdi_buffer, do_read) ←
    forUpto (r.end_ - r.begin_) (List.replicate BUFFER_SIZE 0, false) fun off (tdi_buffer, do_read) => do
      let tdi_bit ← bit_of a.tdi_input (r.begin_ + off)
      let tdi_buffer ← or_bit tdi_buffer off tdi_bit
      let read_bit ← bit_of a.read_input (r.begin_ + off)
      let do_read := do_read || read_bit
      -- verify our assumption: all read_bit remains the same
      assert (do_read == read_bit)
      pure (tdi_buffer, do_read)
  let length ← r.length
  let (_, tdo_buffer) ← rbb_jtag
    (jtag_scan_chain adapter tdi_buffer (List.replicate BUFFER_SIZE 0) length r.flip_tms do_read)
  -- handle read
  if do_read then
    rbb_send_bits junk tdo_buffer length
    pure ((actual_read_bits + length) % 2 ^ 32)
  else pure actual_read_bits

def rbb_region (junk : Junk) (a : Inputs) (r : Region) (actual_read_bits : Nat) : RbbProg δ Nat := do
  assert (decide (r.begin_ < r.end_) && decide (r.end_ ≤ a.bits))
  if r.is_tms then
    rbb_tms_region adapter a r
    pure actual_read_bits
  else rbb_data_region adapter junk a r actual_read_bits

/-! ## The tick -/

/-- `for (auto region : regions)`. -/
def rbb_regions (junk : Junk) (a : Inputs) : List Region → Nat → RbbProg δ Nat
  | [], actual_read_bits => pure actual_read_bits
  | r :: rs, actual_read_bits => do
    let actual_read_bits ← rbb_region adapter junk a r actual_read_bits
    rbb_regions junk a rs actual_read_bits

def rbb_execute (junk : Junk) (read_buffer : List Byte) : RbbProg δ Unit := do
  let a ← rbb_commands junk read_buffer
  let s ← get
  let (regions, cur_state) ← analyze_bitbang s.jtag.state a.tms_input a.bits
  let actual_read_bits ← rbb_regions adapter junk a regions 0
  let s ← get
  assert (decide (cur_state = s.jtag.state))
  assert (decide (a.read_bits = actual_read_bits))

def jtag_rbb_tick (junk : Junk) (net : Net) : RbbProg δ Unit := do
  let s ← get
  if s.sock.client_fd ≥ 0 then
    match net.recv with
    | .data first rest => rbb_execute adapter junk ((first :: rest).take BUFFER_SIZE)
    -- remote socket closed
    | _ => modify fun s => { s with sock := { s.sock with client_fd := -1 } }
  else
    -- accept connection
    let _ ← rbb_sock (try_accept net.accept)
    pure ()

end

end JtagRemote
