import JtagRemote.Code.Common

/-! # `vpi.cpp` -/

namespace JtagRemote

inductive JtagVpiCommand where
  | CMD_RESET
  | CMD_TMS_SEQ
  | CMD_SCAN_CHAIN
  | CMD_SCAN_CHAIN_FLIP_TMS
  | CMD_STOP_SIMU
  deriving DecidableEq, Repr

/-- The number of an enumerator. -/
def JtagVpiCommand.value : JtagVpiCommand → Nat
  | CMD_RESET => 0
  | CMD_TMS_SEQ => 1
  | CMD_SCAN_CHAIN => 2
  | CMD_SCAN_CHAIN_FLIP_TMS => 3
  | CMD_STOP_SIMU => 4

open JtagVpiCommand

/-! ## The layout of `struct jtag_vpi_cmd` -/

def BUFFER_OUT : Nat := 4
def BUFFER_IN : Nat := 516
def NB_BITS : Nat := 1032

/-- `sizeof(cmd->buffer_in)`, and of `buffer_out`. -/
def SIZEOF_BUFFER : Nat := 512

/-- `sizeof(struct jtag_vpi_cmd)` -/
def SIZEOF_CMD : Nat := 1036

/-- The globals of a jtag_vpi server, and the static variables of its tick. -/
structure Vpi (δ : Type) where
  jtag : Jtag δ
  sock : Sock
  jtag_vpi_buffer : List Byte
  jtag_vpi_recv : Nat

abbrev VpiProg (δ α : Type) := EStateM Fault (Vpi δ) α

section

variable {δ : Type}

def vpi_jtag {α : Type} (p : EStateM Fault (Jtag δ) α) : VpiProg δ α :=
  focus (fun s => s.jtag) (fun t s => { s with jtag := t }) p

def vpi_sock {α : Type} (p : EStateM Fault Sock α) : VpiProg δ α :=
  focus (fun s => s.sock) (fun t s => { s with sock := t }) p

/-- A part of the record. -/
def vpi_field (off len : Nat) : VpiProg δ (List Byte) := do
  let s ← get
  bytes_at s.jtag_vpi_buffer off len

def vpi_set_buffer_in (buffer_in : List Byte) : VpiProg δ Unit := do
  let s ← get
  let jtag_vpi_buffer ← memcpy s.jtag_vpi_buffer BUFFER_IN buffer_in
  set { s with jtag_vpi_buffer := jtag_vpi_buffer }

variable (adapter : driver δ)

/-! ## Commands -/

/-- Always reads, and sends the record back. -/
def vpi_scan (flip_tms : Bool) : VpiProg δ Unit := do
  let buffer_out ← vpi_field BUFFER_OUT SIZEOF_BUFFER
  let buffer_in ← vpi_field BUFFER_IN SIZEOF_BUFFER
  let nb_bits ← vpi_field NB_BITS 4
  let (_, buffer_in) ← vpi_jtag (jtag_scan_chain adapter buffer_out buffer_in (le32 nb_bits) flip_tms true)
  vpi_set_buffer_in buffer_in
  let s ← get
  let _ ← vpi_sock (write_full s.jtag_vpi_buffer)
  pure ()

/-- The command in the buffer, once it is valid. -/
def vpi_execute : VpiProg δ Unit := do
  modify fun s => { s with jtag_vpi_recv := 0 }
  vpi_set_buffer_in (List.replicate SIZEOF_BUFFER 0)
  let cmd ← vpi_field 0 4
  if le32 cmd = CMD_RESET.value then
    let _ ← vpi_jtag (jtag_goto_tlr adapter)
    pure ()
  else if le32 cmd = CMD_TMS_SEQ.value then
    let buffer_out ← vpi_field BUFFER_OUT SIZEOF_BUFFER
    let nb_bits ← vpi_field NB_BITS 4
    let _ ← vpi_jtag (jtag_tms_seq adapter buffer_out (le32 nb_bits))
    pure ()
  else if le32 cmd = CMD_SCAN_CHAIN.value then vpi_scan adapter false
  else if le32 cmd = CMD_SCAN_CHAIN_FLIP_TMS.value then vpi_scan adapter true
  else pure ()

/-! ## The tick -/

def vpi_read (recv : Recv) : VpiProg δ Unit := do
  match recv with
  | .data first rest =>
    let s ← get
    let got := (first :: rest).take (size_sub SIZEOF_CMD s.jtag_vpi_recv)
    let jtag_vpi_buffer ← memcpy s.jtag_vpi_buffer s.jtag_vpi_recv got
    set { s with
      jtag_vpi_buffer := jtag_vpi_buffer
      jtag_vpi_recv := s.jtag_vpi_recv + got.length }
  | .closed =>
    -- remote socket closed
    modify fun s => { s with sock := { s.sock with client_fd := -1 } }
    -- reset adapter
    let _ ← vpi_jtag adapter.deinit
    pure ()
  | .failed => pure ()

def jtag_vpi_tick (net : Net) : VpiProg δ Unit := do
  let s ← get
  if s.sock.client_fd ≥ 0 then
    vpi_read adapter net.recv
    let s ← get
    if s.jtag_vpi_recv = SIZEOF_CMD then vpi_execute adapter else pure ()
  else
    let _ ← vpi_sock (try_accept net.accept)
    pure ()

end

end JtagRemote
