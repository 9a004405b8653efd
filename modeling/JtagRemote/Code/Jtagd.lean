import JtagRemote.Code.Common

/-! # `jtagd.cpp` -/

namespace JtagRemote

open JtagState

structure Message where
  command : Byte
  body : List Byte
  deriving DecidableEq, Repr

/-- The globals of the jtagd server. -/
structure Jtagd (δ : Type) where
  jtag : Jtag δ
  sock : Sock
  send_buffer : List Byte
  send_buffer_size : BitVec 8
  last_response : Int
  devices : List (BitVec 32)
  messages : List Message
  fifos : Nat → List (BitVec 32)

abbrev JtagdProg (δ α : Type) := EStateM Fault (Jtagd δ) α

section

variable {δ : Type}

def jtagd_jtag {α : Type} (p : EStateM Fault (Jtag δ) α) : JtagdProg δ α :=
  focus (fun s => s.jtag) (fun t s => { s with jtag := t }) p

def jtagd_sock {α : Type} (p : EStateM Fault Sock α) : JtagdProg δ α :=
  focus (fun s => s.sock) (fun t s => { s with sock := t }) p

/-! ## The send buffer -/

/-- `memcpy(&send_buffer[send_buffer_size], data, size)` and `send_buffer_size += size`. -/
def append_bytes (data : List Byte) : JtagdProg δ Unit := do
  let s ← get
  let send_buffer ← memcpy s.send_buffer s.send_buffer_size.toNat data
  set { s with
    send_buffer := send_buffer
    send_buffer_size := s.send_buffer_size + BitVec.ofNat 8 data.length }

/-- `assert(send_buffer_size + n <= BUFFER_SIZE)`. -/
def assert_room (n : Nat) : JtagdProg δ Unit := do
  let s ← get
  assert (decide (s.send_buffer_size.toNat + n ≤ BUFFER_SIZE))

def add_string (data : List Byte) : JtagdProg δ Unit := do
  assert (decide (data.length ≤ 0xff))
  assert_room (1 + data.length)
  append_bytes [BitVec.ofNat 8 data.length]
  append_bytes data

/-- The bytes of `htonl(value)`. -/
def be32 (value : BitVec 32) : List Byte :=
  [(value >>> 24).setWidth 8, (value >>> 16).setWidth 8, (value >>> 8).setWidth 8, value.setWidth 8]

def add_int (value : BitVec 32) : JtagdProg δ Unit := do
  assert_room 4
  append_bytes (be32 value)

def add_array (data : List Byte) (len : Nat) : JtagdProg δ Unit := do
  assert_room len
  let bytes ← bytes_at data 0 len
  append_bytes bytes

/-- The length is filled in by `end_response`. -/
def add_response (resp : Byte) : JtagdProg δ Unit := do
  let s ← get
  assert (decide (s.last_response = -1))
  assert_room 4
  set { s with last_response := s.send_buffer_size.toNat }
  append_bytes [resp]
  append_bytes [0]
  append_bytes [0]
  append_bytes [0]

def end_response : JtagdProg δ Unit := do
  let s ← get
  assert (decide (s.last_response ≠ -1))
  let length : BitVec 16 := BitVec.ofInt 16 (s.send_buffer_size.toNat - s.last_response)
  let send_buffer ← memcpy s.send_buffer (s.last_response.toNat + 2)
    [(length >>> 8).setWidth 8, length.setWidth 8]
  set { s with send_buffer := send_buffer, last_response := -1 }

def compute_header (length mux : BitVec 16) : BitVec 16 := mux <<< 12 ||| (length - 1)

def fill_header (mux : BitVec 16) : JtagdProg δ Unit := do
  let s ← get
  let actual_length : BitVec 16 := BitVec.ofInt 16 (s.send_buffer_size.toNat - 2)
  let header := compute_header actual_length mux
  let send_buffer ← memcpy s.send_buffer 0 [(header >>> 8).setWidth 8, header.setWidth 8]
  set { s with send_buffer := send_buffer }

def do_send (mux : BitVec 16) : JtagdProg δ Unit := do
  fill_header mux
  let s ← get
  let bytes ← bytes_at s.send_buffer 0 s.send_buffer_size.toNat
  let _ ← jtagd_sock (write_full bytes)
  modify fun s => { s with send_buffer_size := 2 }

/-! ## The FIFOs -/

def FIFO_MIN : Nat := 4

/-- The verdict and the caller's buffer. `memcpy` counts bytes, `erase` counts elements. -/
def pop_fifo (buffer : List Byte) (length : Nat) : JtagdProg δ (Bool × List Byte) := do
  let s ← get
  let fifo := s.fifos FIFO_MIN
  if length ≤ fifo.length then
    -- `&fifos[FIFO_MIN][0]`, also when no byte is copied
    first_element fifo
    let buffer ← memcpy buffer 0 ((fifo.flatMap le_bytes).take length)
    set { s with fifos := Function.update s.fifos FIFO_MIN (fifo.drop length) }
    pure (true, buffer)
  else pure (false, buffer)

/-- `fifos[mux].insert(fifos[mux].end(), begin, begin + length)` on integers is the
overload that inserts `begin` copies of `begin + length`. -/
def push_fifo (mux start length : Nat) : JtagdProg δ Unit :=
  modify fun s => { s with
    fifos := Function.update s.fifos mux
      (s.fifos mux ++ List.replicate start (BitVec.ofNat 32 (start + length))) }

/-! ## Packets -/

/-- `p` and `stop` are positions in the receive buffer. -/
def parse_messages (stop : Nat) : Nat → Nat → JtagdProg δ Unit
  | 0, p => if p < stop then throw .out_of_fuel else pure ()
  | fuel + 1, p =>
    if p < stop then do
      let s ← get
      let command ← index s.sock.buffer p
      let hi ← index s.sock.buffer (p + 2)
      let lo ← index s.sock.buffer (p + 3)
      let header_len := (hi ++ lo).toNat
      -- the debug output reads all of it, also when it is off
      let bytes ← bytes_at s.sock.buffer p header_len
      -- bad header, avoid infinite loop
      if header_len < 4 then pure ()
      else
        set { s with messages := s.messages ++ [Message.mk command (bytes.drop 4)] }
        parse_messages stop fuel (p + header_len)
    else pure ()

/-- The body of a packet: `start` is `buffer_begin` after the header. -/
def handle_packet (mux length : Nat) : JtagdProg δ Unit := do
  let s ← get
  let start := s.sock.buffer_begin
  if mux = 0 then
    -- one or more messages
    parse_messages (start + length) length start
  else if mux ≥ 4 then
    -- fifo
    push_fifo mux start length
  else pure ()

def jtagd_consume (n : Nat) : JtagdProg δ Unit :=
  modify fun s => { s with sock := { s.sock with buffer_begin := s.sock.buffer_begin + n } }

def packet_loop : Nat → JtagdProg δ Unit
  | 0 => throw .out_of_fuel
  | fuel + 1 => do
    let s ← get
    if s.sock.buffer_begin + 2 ≤ s.sock.buffer_end then
      let hi ← index s.sock.buffer s.sock.buffer_begin
      let lo ← index s.sock.buffer (s.sock.buffer_begin + 1)
      let header := hi ++ lo
      let mux := (header >>> 12).toNat
      let length := (header &&& 0xfff#16).toNat + 1
      if s.sock.buffer_begin + 2 + length ≤ s.sock.buffer_end then
        jtagd_consume 2
        handle_packet mux length
        jtagd_consume length
        packet_loop fuel
      else pure ()
    else pure ()

/-! ## Messages -/

variable (adapter : driver δ)

/-- A response with no arguments. -/
def respond (resp : Byte) : JtagdProg δ Unit := do
  add_response resp
  end_response

def HW_NAME : List Byte := ascii ['h', 'w', '0']
def PORT : List Byte := ascii ['p', 'o', 'r', 't', '0']
def DEVICE_NAME : List Byte := ascii ['d', 'e', 'v', 'i', 'c', 'e', '0']

def GET_HARDWARE : JtagdProg δ Unit := do
  add_response 0
  -- number of devices
  add_int 1
  let fifo_len := 4 + 1 + HW_NAME.length + 1 + PORT.length + 4 + 1 + DEVICE_NAME.length + 4
  add_int (BitVec.ofNat 32 fifo_len)
  end_response
  do_send 0
  -- chain_id
  add_int 1
  add_string HW_NAME
  add_string PORT
  -- chain_type: JTAG
  add_int 1
  add_string DEVICE_NAME
  -- features: AJI_FEATURE_JTAG
  add_int 0x0800
  do_send 4

def GET_VERSION_INFO : JtagdProg δ Unit := do
  add_response 0
  add_string (ascii ['1', '.', '0'])
  add_int 0
  add_string (ascii ['j', 't', 'a', 'g', 'd'])
  end_response

def GET_DEFINED_DEVICES : JtagdProg δ Unit := do
  add_response 0
  -- defined_tag, device_count, fifo_len
  add_int 1
  add_int 0
  add_int 0
  end_response

/-- One device of the payload of READ_CHAIN. -/
def add_device (device_id : BitVec 32) : JtagdProg δ Unit := do
  add_int device_id
  -- instruction_length, features, 2x dummy
  add_int 10
  add_int 0
  add_int 0
  add_int 0
  add_string DEVICE_NAME

def READ_CHAIN (junk : Nat → Byte) : JtagdProg δ Unit := do
  -- scan jtag
  let devices ← jtagd_jtag (jtag_probe_devices adapter junk)
  modify fun s => { s with devices := devices }
  add_response 0
  -- chain_tag
  add_int 1
  add_int (BitVec.ofNat 32 devices.length)
  let fifo_len := devices.length * (4 + 4 + 4 + 4 + 4 + 1 + DEVICE_NAME.length)
  add_int (BitVec.ofNat 32 fifo_len)
  end_response
  do_send 0
  devices.forM add_device
  do_send 4

def OPEN_DEVICE : JtagdProg δ Unit := do
  add_response 0
  let s ← get
  match s.devices with
  | [] => throw .out_of_bounds
  | id :: _ => add_int id
  end_response

def GET_PARAMETER : JtagdProg δ Unit := do
  add_response 0
  add_int 0
  end_response

def LOCK_DEVICE : JtagdProg δ Unit := do
  respond 0
  do_send 0

def ACCESS_IR_2 (body : List Byte) : JtagdProg δ Unit := do
  -- reverse endian
  let i0 ← index body 15
  let i1 ← index body 14
  let i2 ← index body 13
  let i3 ← index body 12
  let _ ← jtagd_jtag (jtag_tms_seq_to adapter ShiftIR)
  let (_, read_back) ←
    jtagd_jtag (jtag_scan_chain adapter [i0, i1, i2, i3] (List.replicate 4 0) 10 true true)
  add_response 0
  add_int (BitVec.ofNat 32 (le32 read_back))
  end_response
  do_send 0

/-- An `int` argument, at `off` of the body. -/
def body_int (body : List Byte) (off : Nat) : JtagdProg δ Nat := do
  let bytes ← bytes_at body off 4
  pure (le32 bytes.reverse)

/-- `false` when the FIFO does not hold enough data yet: try again later. -/
def ACCESS_DR_2 (body : List Byte) : JtagdProg δ Bool := do
  let length_dr ← body_int body 12
  let write_length ← body_int body 20
  let read_length ← body_int body 28
  let (ok, send) ← pop_fifo (List.replicate BUFFER_SIZE 0) (write_length / 8)
  if ok then
    let _ ← jtagd_jtag (jtag_tms_seq_to adapter ShiftDR)
    let (_, recv) ← jtagd_jtag
      (jtag_scan_chain adapter send (List.replicate BUFFER_SIZE 0) length_dr true true)
    respond 0
    do_send 0
    if read_length > 0 then
      -- send data via fifo
      add_array recv ((read_length + 7) % 2 ^ 32 / 8)
      do_send 4
      pure true
    else pure true
  else pure false

def RUN_TEST_IDLE : JtagdProg δ Unit := do
  let _ ← jtagd_jtag (jtag_tms_seq_to adapter RunTestIdle)
  respond 0
  do_send 0

def USE_PROTOCOL_VERSION : JtagdProg δ Unit := do
  add_response 0
  -- flags: SERVER_ALLOW_REMOTE
  add_int 1
  end_response

/-- `false` leaves the message at the head of the queue. -/
def handle_message (junk : Nat → Byte) (msg : Message) : JtagdProg δ Bool :=
  if msg.command = 0x80 then do GET_HARDWARE; pure true
  else if msg.command = 0x83 then do GET_VERSION_INFO; pure true
  else if msg.command = 0x84 then do GET_DEFINED_DEVICES; pure true
  else if msg.command = 0xA2 then do respond 0; pure true -- LOCK_CHAIN
  else if msg.command = 0xA3 then do respond 0; pure true -- UNLOCK_CHAIN
  else if msg.command = 0xA5 then do READ_CHAIN adapter junk; pure true
  else if msg.command = 0xA8 then do OPEN_DEVICE; pure true
  else if msg.command = 0xAA then do respond 0; pure true -- SET_PARAMETER
  else if msg.command = 0xAB then do GET_PARAMETER; pure true
  else if msg.command = 0xC0 then do respond 0; pure true -- CLOSE_DEVICE
  else if msg.command = 0xC1 then do LOCK_DEVICE; pure true
  else if msg.command = 0xC2 then do respond 0; pure true -- UNLOCK_DEVICE
  else if msg.command = 0xC6 then do ACCESS_IR_2 adapter msg.body; pure true
  else if msg.command = 0xC8 then ACCESS_DR_2 adapter msg.body
  else if msg.command = 0xCA then do RUN_TEST_IDLE adapter; pure true
  else if msg.command = 0xFE then do USE_PROTOCOL_VERSION; pure true
  else do respond 126; pure true -- aji.h AJI_UNIMPLEMENTED

/-- The queue only gets shorter, so its length bounds the rounds. -/
def message_loop (junk : Nat → Byte) : Nat → JtagdProg δ Unit
  | 0 => pure ()
  | fuel + 1 => do
    let s ← get
    match s.messages with
    | [] => pure ()
    | msg :: _ =>
      if ← handle_message adapter junk msg then
        modify fun s => { s with messages := s.messages.tail }
        message_loop junk fuel
      else pure ()

def handle_messages (junk : Nat → Byte) : JtagdProg δ Unit := do
  let s ← get
  message_loop adapter junk s.messages.length
  let s ← get
  if s.send_buffer_size.toNat > 2 then do_send 0 else pure ()

/-! ## The tick -/

def SIGNATURE : List Byte :=
  ascii ['J', 'T', 'A', 'G', ' ', 'S', 'e', 'r', 'v', 'e', 'r', '\r', '\n']

/-- Sends the initial message. -/
def hello : JtagdProg δ Unit := do
  add_string SIGNATURE
  -- server_version, authtype
  add_int 13
  add_int 0
  do_send 0

def jtag_jtagd_tick (junk : Nat → Byte) (net : Net) : JtagdProg δ Unit := do
  -- leave space for header
  modify fun s => { s with send_buffer_size := 2 }
  let s ← get
  if s.sock.client_fd ≥ 0 then
    if ← jtagd_sock (read_socket net.recv) then
      packet_loop (BUFFER_SIZE + 1)
      handle_messages adapter junk
    else pure ()
  else
    modify fun s => { s with messages := [] }
    if ← jtagd_sock (try_accept net.accept) then hello else pure ()

end

end JtagRemote
