import JtagRemote.Code.Common

/-!
# libftdi

The library is not part of the repository. A port records what the device took;
what each call does is given by a `Usb`: how much the calls transfer, and what
the device answers to the bytes that it took.
-/

namespace JtagRemote

/-- The outcome of one call: an error, at most `n` bytes, or all that was asked for. -/
inductive Xfer where
  | error
  | short (n : Nat)
  | full
  deriving DecidableEq, Repr

def Xfer.size : Xfer → Nat → Nat
  | .error, _ => 0
  | .short n, len => min n len
  | .full, len => len

structure Usb where
  /-- All that the device has answered once it took these bytes. -/
  respond : List Byte → List Byte
  write_result : Nat → Xfer
  read_result : Nat → Xfer
  /-- The device opens, and the calls that set it up succeed. -/
  opens : Bool
  sets_up : Bool

/-- A transfer goes with the bit mode it was made in. -/
structure Port where
  bitmode : Nat
  transfers : List (Nat × List Byte)
  taken : Nat
  num_writes : Nat
  num_reads : Nat
  deriving DecidableEq, Repr

/-- All that the device took, in order. -/
def Port.delivered (p : Port) : List Byte := p.transfers.flatMap Prod.snd

def BITMODE_RESET : Nat := 0
def BITMODE_MPSSE : Nat := 2

section

variable (usb : Usb)

def ftdi_set_bitmode (mode : Nat) : EStateM Fault Port Unit :=
  modify fun p => { p with bitmode := mode }

/-- The number of bytes that the device took, or `none` for a negative result. -/
def ftdi_write_data (data : List Byte) : EStateM Fault Port (Option Nat) := do
  let p ← get
  match usb.write_result p.num_writes with
  | .error =>
    set { p with num_writes := p.num_writes + 1 }
    pure none
  | r =>
    let sent := data.take (r.size data.length)
    set { p with
      transfers := p.transfers ++ [(p.bitmode, sent)]
      num_writes := p.num_writes + 1 }
    pure (some sent.length)

/-- Up to `len` of the bytes that wait at the device, or `none` for a negative result. -/
def ftdi_read_data (len : Nat) : EStateM Fault Port (Option (List Byte)) := do
  let p ← get
  match usb.read_result p.num_reads with
  | .error =>
    set { p with num_reads := p.num_reads + 1 }
    pure none
  | r =>
    let got := ((usb.respond p.delivered).drop p.taken).take (r.size len)
    set { p with taken := p.taken + got.length, num_reads := p.num_reads + 1 }
    pure (some got)

def ftdi_write_loop (data : List Byte) : Nat → Nat → EStateM Fault Port Bool
  | 0, offset => pure (offset == data.length)
  | retry + 1, offset =>
    if offset < data.length then do
      match ← ftdi_write_data usb (data.drop offset) with
      | none => pure false
      | some res => ftdi_write_loop data retry (offset + res)
    else pure (offset == data.length)

def ftdi_write_retry (data : List Byte) : EStateM Fault Port Bool :=
  ftdi_write_loop usb data 100 0

/-- `got` is what was read so far. -/
def ftdi_read_loop (len : Nat) : Nat → List Byte → EStateM Fault Port (Bool × List Byte)
  | 0, got => pure (got.length == len, got)
  | retry + 1, got =>
    if got.length < len then do
      match ← ftdi_read_data usb (len - got.length) with
      | none => pure (false, got)
      | some res => ftdi_read_loop len retry (got ++ res)
    else pure (got.length == len, got)

/-- The verdict, and the bytes that were put into the caller's buffer. -/
def ftdi_read_retry (len : Nat) : EStateM Fault Port (Bool × List Byte) :=
  ftdi_read_loop usb len 100 []

end

end JtagRemote
