import JtagRemote.Code.Common

/-! # `xvc.cpp` -/

namespace JtagRemote

open JtagState

structure ShiftCommand where
  bits : Nat
  bytes : Nat
  regions : List Region
  deriving DecidableEq, Repr

/-- The globals that an XVC server uses. -/
structure Xvc (δ : Type) where
  jtag : Jtag δ
  sock : Sock
  tms : List Byte
  tdi : List Byte
  tdo : List Byte

abbrev XvcProg (δ α : Type) := EStateM Fault (Xvc δ) α

/-! ## The window -/

def GETINFO : List Byte := ascii ['g', 'e', 't', 'i', 'n', 'f', 'o', ':']
def SETTCK : List Byte := ascii ['s', 'e', 't', 't', 'c', 'k', ':']
def SHIFT : List Byte := ascii ['s', 'h', 'i', 'f', 't', ':']

/-- `xvcServer_v1.0:2048\n` -/
def INFO : List Byte :=
  ascii ['x', 'v', 'c', 'S', 'e', 'r', 'v', 'e', 'r', '_', 'v', '1', '.', '0', ':', '2', '0', '4', '8', '\n']

/-- The window starts with `text`, and holds `arg` more bytes at least. -/
def window_starts (s : Sock) (text : List Byte) (arg : Nat) : Bool :=
  decide (s.buffer_begin + text.length + arg ≤ s.buffer_end) &&
    (s.buffer.drop s.buffer_begin).take text.length == text

section

variable {δ : Type} (adapter : driver δ)

def xvc_jtag {α : Type} (p : EStateM Fault (Jtag δ) α) : XvcProg δ α :=
  focus (fun s => s.jtag) (fun t s => { s with jtag := t }) p

def xvc_sock {α : Type} (p : EStateM Fault Sock α) : XvcProg δ α :=
  focus (fun s => s.sock) (fun t s => { s with sock := t }) p

/-- `buffer_begin += n`. -/
def xvc_consume (n : Nat) : XvcProg δ Unit :=
  modify fun s => { s with sock := { s.sock with buffer_begin := s.sock.buffer_begin + n } }

/-- `assert(write_full(client_fd, data, size))`. -/
def xvc_reply (data : List Byte) : XvcProg δ Unit := do
  let ok ← xvc_sock (write_full data)
  assert ok

/-! ## getinfo and settck -/

def xvc_getinfo : XvcProg δ Unit := do
  xvc_consume GETINFO.length
  xvc_reply INFO

/-- `round(1000.0 / tck)`: to nearest, a half goes up. -/
def xvc_freq (tck : Nat) : Nat := (2000 + tck) / (2 * tck)

def xvc_settck : XvcProg δ Unit := do
  let s ← get
  let arg ← bytes_at s.sock.buffer (s.sock.buffer_begin + SETTCK.length) 4
  -- period is ns
  let tck := le32 arg
  xvc_consume (SETTCK.length + 4)
  -- the infinity of 1000.0 / 0 has no value as a uint64_t
  if tck = 0 then throw .undefined
  else
    let _ ← xvc_jtag (adapter_set_tck_freq adapter (xvc_freq tck))
    xvc_reply arg

/-! ## shift: sending -/

def xvc_tms_region (r : Region) : XvcProg δ Unit := do
  let s ← get
  -- optimize runtest with a large number of cycles
  let clock_only := decide (s.jtag.state = RunTestIdle)
  let tms_buffer := List.replicate BUFFER_SIZE 0
  let (tms_buffer, clock_only) ←
    forUpto (r.end_ - r.begin_) (tms_buffer, clock_only) fun off (tms_buffer, clock_only) => do
      let tms_bit ← bit_of s.tms (r.begin_ + off)
      let tms_buffer ← or_bit tms_buffer off tms_bit
      pure (tms_buffer, clock_only && !tms_bit)
  let length ← r.length
  if clock_only then
    let _ ← xvc_jtag (jtag_tms_seq adapter tms_buffer 1)
    let _ ← xvc_jtag (jtag_clock_tck adapter (length - 1))
    pure ()
  else
    let _ ← xvc_jtag (jtag_tms_seq adapter tms_buffer length)
    pure ()

def xvc_data_region (r : Region) : XvcProg δ Unit := do
  let s ← get
  let tdi_buffer ← forUpto (r.end_ - r.begin_) (List.replicate BUFFER_SIZE 0) fun off tdi_buffer => do
    let tdi_bit ← bit_of s.tdi (r.begin_ + off)
    or_bit tdi_buffer off tdi_bit
  -- send here, recv later
  let length ← r.length
  let _ ← xvc_jtag (jtag_scan_chain_send adapter tdi_buffer length r.flip_tms true)
  pure ()

def xvc_region (bits : Nat) (r : Region) : XvcProg δ Unit := do
  assert (decide (r.begin_ < r.end_) && decide (r.end_ ≤ bits))
  if r.is_tms then xvc_tms_region adapter r else xvc_data_region adapter r

/-- `bytes` and `total_len` are `uint32_t`. -/
def shift_bytes (bits : Nat) : Nat := (bits + 7) % 2 ^ 32 / 8

def shift_total_len (bits : Nat) : Nat := (SHIFT.length + 4 + 2 * shift_bytes bits) % 2 ^ 32

/-- One shift command, or `none` while it is not complete. -/
def xvc_shift : XvcProg δ (Option ShiftCommand) := do
  let s ← get
  let arg ← bytes_at s.sock.buffer (s.sock.buffer_begin + SHIFT.length) 4
  let bits := le32 arg
  let bytes := shift_bytes bits
  let data := s.sock.buffer_begin + SHIFT.length + 4
  if s.sock.buffer_begin + shift_total_len bits > s.sock.buffer_end then pure none
  else
    let tms_bytes ← bytes_at s.sock.buffer data bytes
    let tms ← memcpy s.tms 0 tms_bytes
    let tdi_bytes ← bytes_at s.sock.buffer (data + bytes) bytes
    let tdi ← memcpy s.tdi 0 tdi_bytes
    modify fun s => { s with tms := tms, tdi := tdi }
    xvc_consume (shift_total_len bits)
    -- send tms & read
    let (regions, cur_state) ← analyze_bitbang s.jtag.state tms bits
    regions.forM (xvc_region adapter bits)
    let s ← get
    assert (decide (cur_state = s.jtag.state))
    -- save shift command for recv below
    pure (some ⟨bits, bytes, regions⟩)

/-! ## The parser -/

/-- Every command takes some bytes, so `fuel` is at most the size of the window. -/
def xvc_parse : Nat → List ShiftCommand → XvcProg δ (List ShiftCommand)
  | 0, _ => throw .out_of_fuel
  | fuel + 1, shift_commands => do
    let s ← get
    if window_starts s.sock GETINFO 0 then
      xvc_getinfo
      xvc_parse fuel shift_commands
    else if window_starts s.sock SETTCK 4 then
      xvc_settck adapter
      xvc_parse fuel shift_commands
    else if window_starts s.sock SHIFT 4 then
      match ← xvc_shift adapter with
      | some shift_command => xvc_parse fuel (shift_commands ++ [shift_command])
      | none => pure shift_commands
    else pure shift_commands

/-! ## shift: reading back -/

def xvc_read_region (r : Region) : XvcProg δ Unit := do
  if r.is_tms then pure ()
  else
    let length ← r.length
    let (_, tdo_buffer) ←
      xvc_jtag (jtag_scan_chain_recv adapter (List.replicate BUFFER_SIZE 0) length r.flip_tms)
    let s ← get
    let tdo ← forUpto (r.end_ - r.begin_) s.tdo fun off tdo => do
      let tdo_bit ← bit_of tdo_buffer off
      or_bit tdo (r.begin_ + off) tdo_bit
    modify fun s => { s with tdo := tdo }

def xvc_read_back (c : ShiftCommand) : XvcProg δ Unit := do
  let s ← get
  let tdo ← memset_zero s.tdo c.bytes
  modify fun s => { s with tdo := tdo }
  c.regions.forM (xvc_read_region adapter)
  let s ← get
  let reply ← bytes_at s.tdo 0 c.bytes
  xvc_reply reply

def jtag_xvc_tick (net : Net) : XvcProg δ Unit := do
  let s ← get
  if s.sock.client_fd ≥ 0 then
    if ← xvc_sock (read_socket net.recv) then
      -- parse & execute commands
      let shift_commands ← xvc_parse adapter (BUFFER_SIZE + 1) []
      -- read result back
      shift_commands.forM (xvc_read_back adapter)
    else pure ()
  else
    let _ ← xvc_sock (try_accept net.accept)
    pure ()

end

end JtagRemote
