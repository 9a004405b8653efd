import JtagRemote.Hardware.BlasterEngine
import JtagRemote.Ftdi
import JtagRemote.Tap

/-!
# Each call of the usb_blaster driver

One spec for each function in `usb_blaster.cpp`, over a port whose transfers
always succeed, with a Blaster behind it.
-/

namespace JtagRemote.Blaster

def RECV_BUFFER_SIZE : Nat := 4096

/-- The Blaster stands at `e`, its answers are all read, and `held` is what `recv_buffer` holds. -/
structure Linked (board : Board) (usb : Usb) (e₀ : BlasterEngine) (c : Jtag Blaster) (e : BlasterEngine)
    (held : List Byte) : Prop where
  delivers : usb.Delivers
  respond : ∀ l, usb.respond l = (blasterFeed board e₀ l).resp
  fed : blasterFeed board e₀ c.dev.port.delivered = e
  idle : e.shift_left = 0
  taken : c.dev.port.taken = e.resp.length
  size : c.dev.recv_buffer.length = RECV_BUFFER_SIZE
  len : c.dev.recv_buffer_len = held.length
  held : c.dev.recv_buffer.take held.length = held

variable {board : Board} {usb : Usb} {e₀ e : BlasterEngine} {c : Jtag Blaster} {held : List Byte}

/-- The TAP state is not the driver's. -/
theorem Linked.of_dev {d : Jtag Blaster} (h : Linked board usb e₀ c e held) (hdev : d.dev = c.dev) :
    Linked board usb e₀ d e held := by
  obtain ⟨h1, h2, h3, h4, h5, h6, h7, h8⟩ := h
  rw [← hdev] at h3 h5 h6 h7 h8
  exact ⟨h1, h2, h3, h4, h5, h6, h7, h8⟩

/-! ## Writes and reads -/

def withPort (c : Jtag Blaster) (p : Port) : Jtag Blaster := { c with dev := { c.dev with port := p } }

theorem write_spec (h : Linked board usb e₀ c e held) (data : List Byte) :
    Returns (blaster_port (ftdi_write_retry usb data)) c fun r d =>
      r = true ∧ ∃ p, d = withPort c p ∧ c.dev.port.Wrote p data := by
  refine Returns.mono (Returns.focus (ftdi_write_retry_delivers h.delivers data c.dev.port)) ?_
  rintro r _ ⟨p, ⟨rfl, hp⟩, rfl⟩
  exact ⟨rfl, p, rfl, hp⟩

/-- Bytes that the Blaster only takes. -/
theorem Linked.wrote {p : Port} {data : List Byte} {ps : List Pins} (h : Linked board usb e₀ c e held)
    (hp : c.dev.port.Wrote p data) (hclocks : Clocks board e (blasterFeed board e data) ps []) :
    Linked board usb e₀ (withPort c p) (blasterFeed board e data) held := by
  refine ⟨h.delivers, h.respond, ?_, hclocks.idle, ?_, h.size, h.len, h.held⟩
  · show blasterFeed board e₀ p.delivered = _
    rw [hp.delivered, blasterFeed_append, h.fed]
  · show p.taken = _
    rw [hp.taken, h.taken, hclocks.resp, List.append_nil]

/-- The answer to a packet goes behind what `recv_buffer` holds. -/
theorem read_spec {p : Port} {data rs : List Byte} {ps : List Pins}
    (h : Linked board usb e₀ c e held) (hp : c.dev.port.Wrote p data)
    (hclocks : Clocks board e (blasterFeed board e data) ps rs)
    (hroom : held.length + rs.length ≤ RECV_BUFFER_SIZE) :
    Returns (usb_blaster_read usb rs.length) (withPort c p) fun r d => r = true ∧ d.state = c.state ∧
      Linked board usb e₀ d (blasterFeed board e data) (held ++ rs) := by
  have hdel : blasterFeed board e₀ p.delivered = blasterFeed board e data := by
    rw [hp.delivered, blasterFeed_append, h.fed]
  have hwait : usb.waiting p = rs := by
    rw [Usb.waiting, h.respond, hdel, hp.taken, h.taken, hclocks.resp, List.drop_left]
  unfold usb_blaster_read
  refine Returns.bind (Returns.focus (ftdi_read_retry_delivers h.delivers rs.length p (Nat.le_of_eq (by rw [hwait])))) ?_
  rintro _ _ ⟨q, ⟨rfl, hq⟩, rfl⟩
  rw [hwait, List.take_length] at hq ⊢
  have hsize := h.size
  have hlen := h.len
  apply Returns.get_bind
  simp only [withPort]
  rw [if_pos (by omega)]
  refine Returns.of_eq_bind (memcpy_ok (by omega) _) ?_
  apply Returns.set_bind
  refine returns_pure ⟨rfl, rfl, h.delivers, h.respond, ?_, hclocks.idle, ?_, ?_, ?_, ?_⟩
  · show blasterFeed board e₀ q.delivered = _
    rw [hq.delivered, hdel]
  · show q.taken = _
    rw [hq.taken, hp.taken, h.taken, hclocks.resp, List.length_append]
  · show (splice _ _ _).length = _
    rw [splice_length _ _ _ (by omega), h.size]
  · show c.dev.recv_buffer_len + rs.length = _
    rw [hlen, List.length_append]
  · show (splice c.dev.recv_buffer c.dev.recv_buffer_len rs).take (held ++ rs).length = _
    rw [hlen, splice, h.held, List.take_left]

/-- Writes some bytes and, for a read, takes their answer. -/
theorem exchange_spec {data rs : List Byte} {ps : List Pins} (h : Linked board usb e₀ c e held)
    (hclocks : Clocks board e (blasterFeed board e data) ps rs) (read : Bool) (trans : Nat)
    (hno : read = false → rs = []) (hyes : read = true → rs.length = trans)
    (hroom : held.length + rs.length ≤ RECV_BUFFER_SIZE) :
    Returns (usb_blaster_exchange usb data read trans) c fun r d => r = true ∧ d.state = c.state ∧
      Linked board usb e₀ d (blasterFeed board e data) (held ++ rs) := by
  unfold usb_blaster_exchange
  refine Returns.bind (write_spec h data) ?_
  rintro _ _ ⟨rfl, p, rfl, hp⟩
  cases read with
  | false =>
    obtain rfl := hno rfl
    refine returns_pure ⟨rfl, rfl, ?_⟩
    rw [List.append_nil]
    exact h.wrote hp hclocks
  | true =>
    rw [← hyes rfl]
    exact read_spec h hp hclocks hroom

/-! ## Sending a scan -/

/-- What a part of a scan does: it clocks its cycles, and only a read has an answer. -/
structure Part (board : Board) (e e' : BlasterEngine) (ps : List Pins) (read : Bool)
    (Answer : List Bool → List Byte → Prop) (rs : List Byte) : Prop where
  clocks : Clocks board e e' ps rs
  no : read = false → rs = []
  yes : read = true → Answer ((board.cycles e.log ps).map Cycle.tdo) rs

/-- One byte for each bit, with the bit lowest. -/
def BitAnswer (tdo : List Bool) (rs : List Byte) : Prop := rs.map (fun b => b.getLsbD 0) = tdo

theorem shiftPins_drop (tms : Bool) (data : List Byte) (i trans : Nat) (h : i + trans ≤ data.length) :
    shiftPins tms ((data.drop i).take trans) = heldPins tms data (8 * i) (8 * trans) := by
  have hlen : ((data.drop i).take trans).length = trans := by
    rw [List.length_take, List.length_drop]
    omega
  rw [shiftPins, hlen, bitsOf, List.map_map]
  apply List.map_congr_left
  intro j hj
  rw [List.mem_range] at hj
  simp only [Function.comp_apply, bitAt_take, bitAt_drop, hj, decide_true, Bool.true_and]

theorem Part.nothing (board : Board) (e : BlasterEngine) (read : Bool)
    (Answer : List Bool → List Byte → Prop) (h : e.shift_left = 0) (hnil : Answer [] []) :
    Part board e e [] read Answer [] := ⟨.refl h, fun _ => rfl, fun _ => by simpa using hnil⟩

def packetHead (read : Bool) (trans : Nat) : Byte := pin true 7 ||| pin read 6 ||| BitVec.ofNat 8 trans

/-- The answer to bytes that are shifted, for a read. -/
def BytesAnswer (tdo : List Bool) (rs : List Byte) : Prop := rs = packBits tdo

/-- One packet, from byte `i` on. -/
theorem packet_spec (h : Linked board usb e₀ c e held) (data : List Byte) {i trans : Nat} (read : Bool)
    (hlen : i + trans ≤ data.length) (hone : 1 ≤ trans) (hmax : trans ≤ MAX_PACKET_SIZE)
    (hroom : held.length + trans ≤ RECV_BUFFER_SIZE) :
    Returns (usb_blaster_exchange usb (packetHead read trans :: (data.drop i).take trans) read trans) c fun r d =>
      r = true ∧ d.state = c.state ∧ ∃ e' rs, Linked board usb e₀ d e' (held ++ rs) ∧ e'.pins.tms = e.pins.tms ∧
        rs.length ≤ trans ∧
        Part board e e' (heldPins e.pins.tms data (8 * i) (8 * trans)) read BytesAnswer rs := by
  unfold MAX_PACKET_SIZE at hmax
  have hbytes : ((data.drop i).take trans).length = trans := by
    rw [List.length_take, List.length_drop]
    omega
  have hpacket := packet_clocks board read ((data.drop i).take trans) e h.idle (by omega)
  rw [shiftPins_drop _ data i trans (by omega), hbytes] at hpacket
  have hrs : (shiftAnswer board e.log read (heldPins e.pins.tms data (8 * i) (8 * trans))).length ≤ trans ∧
      (read = true →
        (shiftAnswer board e.log read (heldPins e.pins.tms data (8 * i) (8 * trans))).length = trans) := by
    cases read with
    | false => simp [shiftAnswer]
    | true => simp [shiftAnswer, heldPins]; omega
  refine (exchange_spec h hpacket read trans (by rintro rfl; rfl) hrs.2 (by omega)).mono ?_
  rintro _ d ⟨rfl, hst, hd⟩
  refine ⟨rfl, hst, _, _, hd, ?_, hrs.1, hpacket, ?_, ?_⟩
  · show (blasterFeed board e _).pins.tms = e.pins.tms
    rw [hpacket.pins]
    exact heldPins_level data _ _ _
  · rintro rfl
    rfl
  · rintro rfl
    rfl

/-- The packets from byte `i` on; the induction is on the rounds that are left. -/
theorem packets_spec (h : Linked board usb e₀ c e held) (data : List Byte) (len i fuel : Nat)
    (read : Bool) (hlen : len ≤ data.length) (hi : i ≤ len)
    (hfuel : len - i ≤ fuel) (hroom : held.length + (len - i) ≤ RECV_BUFFER_SIZE) :
    Returns (usb_blaster_packets usb data len read fuel i) c fun r d => r = true ∧ d.state = c.state ∧
      ∃ e' rs, Linked board usb e₀ d e' (held ++ rs) ∧
        Part board e e' (heldPins e.pins.tms data (8 * i) (8 * (len - i))) read BytesAnswer rs := by
  induction fuel generalizing c e held i with
  | zero =>
    unfold usb_blaster_packets
    have hle : len - i = 0 := by omega
    rw [if_neg (by omega), hle]
    exact returns_pure ⟨rfl, rfl, e, [], by simpa using h, .nothing board e read _ h.idle rfl⟩
  | succ fuel ih =>
    unfold usb_blaster_packets
    split
    · rename_i hlt
      have hone : 1 ≤ min (len - i) MAX_PACKET_SIZE := by
        unfold MAX_PACKET_SIZE
        omega
      have hle : min (len - i) MAX_PACKET_SIZE ≤ len - i := Nat.min_le_left _ _
      have hmax : min (len - i) MAX_PACKET_SIZE ≤ MAX_PACKET_SIZE := Nat.min_le_right _ _
      generalize min (len - i) MAX_PACKET_SIZE = trans at hone hle hmax
      refine Returns.of_eq_bind (bytes_at_ok (by omega) c) ?_
      refine Returns.bind (packet_spec h data read (by omega) hone hmax (by omega)) ?_
      rintro _ d ⟨rfl, hst, e₁, rs₁, hd, hlevel, hrs, hpart₁⟩
      refine (ih hd (i + trans) (by omega) (by omega) ?_).mono ?_
      · rw [List.length_append]
        omega
      · rintro r f ⟨rfl, hst', e', rs, hf, hpart⟩
        have hsplit : 8 * (len - i) = 8 * trans + 8 * (len - (i + trans)) := by omega
        have hnext : 8 * (i + trans) = 8 * i + 8 * trans := by omega
        rw [List.append_assoc] at hf
        refine ⟨rfl, hst'.trans hst, e', _, hf, ?_⟩
        rw [hlevel] at hpart
        rw [hsplit, heldPins_append, ← hnext]
        refine ⟨hpart₁.clocks.trans hpart.clocks, ?_, ?_⟩
        · intro hr
          rw [hpart₁.no hr, hpart.no hr]
          rfl
        · intro hr
          rw [BytesAnswer, hpart₁.yes hr, hpart.yes hr, hpart₁.clocks.log, cycles_append, List.map_append,
            packBits_append _ _ (by simp [heldPins])]
    · have hle : len - i = 0 := by omega
      rw [hle]
      exact returns_pure ⟨rfl, rfl, e, [], by simpa using h, .nothing board e read _ h.idle rfl⟩

/-- The data ends before the scan does. -/
theorem packets_fault (h : Linked board usb e₀ c e held) (data : List Byte) (len i fuel : Nat)
    (read : Bool) (hlen : data.length < len) (hi : i ≤ data.length) (hfuel : len - i ≤ fuel)
    (hroom : held.length + (data.length - i) ≤ RECV_BUFFER_SIZE) :
    Faults (usb_blaster_packets usb data len read fuel i) c .out_of_bounds := by
  induction fuel generalizing c e held i with
  | zero => omega
  | succ fuel ih =>
    unfold usb_blaster_packets
    rw [if_pos (by omega)]
    have hone : 1 ≤ min (len - i) MAX_PACKET_SIZE := by
      unfold MAX_PACKET_SIZE
      omega
    have hmax : min (len - i) MAX_PACKET_SIZE ≤ MAX_PACKET_SIZE := Nat.min_le_right _ _
    generalize min (len - i) MAX_PACKET_SIZE = trans at hone hmax
    by_cases hfits : i + trans ≤ data.length
    · refine Faults.of_eq_bind (bytes_at_ok hfits c) ?_
      refine Returns.bind_faults (packet_spec h data read hfits hone hmax (by omega)) ?_
      rintro _ d ⟨rfl, -, e₁, rs₁, hd, -, hrs, -⟩
      exact ih hd (i + trans) hfits (by omega) (by rw [List.length_append]; omega)
    · exact Faults.bind ⟨c, bytes_at_error hfits c⟩

/-- The bit-bang bytes of the rest bits. -/
def restBytes (data : List Byte) (start k : Nat) (read : Bool) : List Byte :=
  (List.range k).flatMap fun i => [build_command false (bitAt data (start + i)) false false,
    build_command false (bitAt data (start + i)) true read]

theorem restBytes_succ (data : List Byte) (start k : Nat) (read : Bool) :
    restBytes data start (k + 1) read = restBytes data start k read ++
      [build_command false (bitAt data (start + k)) false false,
        build_command false (bitAt data (start + k)) true read] := by
  simp [restBytes, List.range_succ]

theorem restBytes_part (board : Board) (data : List Byte) (start k : Nat) (read : Bool) (e : BlasterEngine)
    (h : e.shift_left = 0) :
    ∃ rs, Part board e (blasterFeed board e (restBytes data start k read)) (dataPins data start k)
      read BitAnswer rs := by
  induction k with
  | zero => exact ⟨[], .nothing board e read _ h rfl⟩
  | succ k ih =>
    obtain ⟨rs, hpart⟩ := ih
    obtain ⟨ss, hclocks, hno, hyes⟩ := pair_clocks board (blasterFeed board e (restBytes data start k read))
      false (bitAt data (start + k)) read hpart.clocks.idle
    rw [restBytes_succ, blasterFeed_append, dataPins_append]
    refine ⟨rs ++ ss, hpart.clocks.trans hclocks, ?_, ?_⟩
    · intro hr
      rw [hpart.no hr, hno hr]
      rfl
    · intro hr
      obtain ⟨b, rfl, hb⟩ := hyes hr
      have hrs : rs.map (fun b => b.getLsbD 0) = _ := hpart.yes hr
      rw [hpart.clocks.log] at hb
      rw [BitAnswer, List.map_append, cycles_append, List.map_append, hrs]
      simp only [List.map_cons, List.map_nil, hb]
      rfl

theorem send_rest_eq {data : List Byte} {bulk : Nat} (read : Bool) (hlen : bulk ≤ 8 * data.length)
    (hne : bulk % 8 ≠ 0) (c : Jtag Blaster) :
    usb_blaster_send_rest usb data bulk read c =
      usb_blaster_exchange usb (restBytes data (bulk / 8 * 8) (bulk % 8) read) read (bulk % 8) c := by
  have hbuffer : Returns (forUpto (bulk % 8) [] fun i buffer => do
      let bit ← bit_of data (bulk / 8 * 8 + i)
      pure (buffer ++ [build_command false bit false false, build_command false bit true read]) :
        BlasterProg (List Byte)) c fun r d => d = c ∧ r = restBytes data (bulk / 8 * 8) (bulk % 8) read := by
    refine Returns.forUpto (fun i r d => d = c ∧ r = restBytes data (bulk / 8 * 8) i read) ⟨rfl, rfl⟩ ?_
    rintro i _ _ hi ⟨rfl, rfl⟩
    refine Returns.of_eq_bind (bit_of_ok (by omega) _) ?_
    exact returns_pure ⟨rfl, (restBytes_succ data _ i read).symm⟩
  obtain ⟨_, _, hrun, rfl, rfl⟩ := hbuffer
  unfold usb_blaster_send_rest
  rw [if_neg hne]
  exact bind_of_ok hrun

theorem send_rest_spec (h : Linked board usb e₀ c e held) (data : List Byte) (bulk : Nat) (read : Bool)
    (hlen : bulk ≤ 8 * data.length) (hroom : held.length + bulk % 8 ≤ RECV_BUFFER_SIZE) :
    Returns (usb_blaster_send_rest usb data bulk read) c fun r d => r = true ∧ d.state = c.state ∧
      ∃ e' rs, Linked board usb e₀ d e' (held ++ rs) ∧
        Part board e e' (dataPins data (bulk / 8 * 8) (bulk % 8)) read BitAnswer rs := by
  by_cases h0 : bulk % 8 = 0
  · unfold usb_blaster_send_rest
    rw [if_pos h0, h0]
    exact returns_pure ⟨rfl, rfl, e, [], by simpa using h, .nothing board e read _ h.idle rfl⟩
  · rw [Returns, send_rest_eq read hlen h0]
    obtain ⟨rs, hpart⟩ := restBytes_part board data (bulk / 8 * 8) (bulk % 8) read e h.idle
    have hrs : read = true → rs.length = bulk % 8 := by
      intro hr
      have := congrArg List.length (hpart.yes hr)
      simpa [dataPins] using this
    have hle : rs.length ≤ bulk % 8 := by
      cases read with
      | false => simp [hpart.no rfl]
      | true => exact Nat.le_of_eq (hrs rfl)
    refine (exchange_spec h hpart.clocks read _ hpart.no hrs (by omega)).mono ?_
    rintro r d ⟨hr, hst, hd⟩
    exact ⟨hr, hst, _, rs, hd, hpart⟩

/-- The last bit goes with TMS=1, and TCK ends low. -/
def lastWrite (data : List Byte) (n : Nat) (read : Bool) : List Byte :=
  [build_command true (bitAt data (n - 1)) false false, build_command true (bitAt data (n - 1)) true read,
    build_command true (bitAt data (n - 1)) false false]

theorem lastWrite_clocks (board : Board) (data : List Byte) (n : Nat) (read : Bool) (e : BlasterEngine)
    (h : e.shift_left = 0) :
    ∃ rs, Clocks board e (blasterFeed board e (lastWrite data n read)) [⟨true, bitAt data (n - 1)⟩] rs ∧
      (blasterFeed board e (lastWrite data n read)).tck = false ∧ (read = false → rs = []) ∧
      (read = true → ∃ b : Byte, rs = [b] ∧ b.getLsbD 0 = board.tdo e.log) := by
  obtain ⟨rs, hclocks, hanswer⟩ := pair_clocks board e true (bitAt data (n - 1)) read h
  have hfeed := blasterFeed_append board e [build_command true (bitAt data (n - 1)) false false,
    build_command true (bitAt data (n - 1)) true read] [build_command true (bitAt data (n - 1)) false false]
  rw [blasterFeed_cons, low_byte _ _ _ hclocks.idle, List.cons_append, List.cons_append, List.nil_append] at hfeed
  rw [lastWrite, hfeed]
  exact ⟨rs, ⟨hclocks.log, rfl, hclocks.resp, hclocks.idle⟩, rfl, hanswer⟩

theorem send_last_eq {data : List Byte} {n : Nat} (read : Bool) (hn : 1 ≤ n) (hn' : n < 2 ^ 64)
    (hlen : n ≤ 8 * data.length) (c : Jtag Blaster) :
    usb_blaster_send_last usb data n read c =
      usb_blaster_exchange usb (lastWrite data n read) read 1 { c with state := next_state c.state true } := by
  unfold usb_blaster_send_last
  rw [size_sub_of_le hn hn']
  exact bind_of_ok (bit_of_ok (by omega) _)

theorem send_last_spec (h : Linked board usb e₀ c e held) (data : List Byte) (n : Nat) (read : Bool)
    (hn : 1 ≤ n) (hn' : n < 2 ^ 64) (hlen : n ≤ 8 * data.length)
    (hroom : held.length + 1 ≤ RECV_BUFFER_SIZE) :
    Returns (usb_blaster_send_last usb data n read) c fun r d => r = true ∧
      d.state = next_state c.state true ∧ ∃ e' rs, Linked board usb e₀ d e' (held ++ rs) ∧
        Part board e e' [⟨true, bitAt data (n - 1)⟩] read BitAnswer rs := by
  rw [Returns, send_last_eq read hn hn' hlen]
  have h' : Linked board usb e₀ { c with state := next_state c.state true } e held := h.of_dev rfl
  obtain ⟨rs, hthree, -, hno, hyes⟩ := lastWrite_clocks board data n read e h.idle
  have hrs : read = true → rs.length = 1 := by
    intro hr
    obtain ⟨b, rfl, -⟩ := hyes hr
    rfl
  have hle : rs.length ≤ 1 := by
    cases read with
    | false => simp [hno rfl]
    | true => exact Nat.le_of_eq (hrs rfl)
  refine (exchange_spec h' hthree read 1 hno hrs (by omega)).mono ?_
  rintro r d ⟨hr, hst, hd⟩
  refine ⟨hr, hst, _, rs, hd, hthree, hno, ?_⟩
  intro hr
  obtain ⟨b, rfl, hb⟩ := hyes hr
  rw [BitAnswer, List.map_singleton, hb]
  rfl

/-- The answer to a whole scan: packed bytes, and then one byte for each bit. -/
def ScanAnswer (n : Nat) (flip : Bool) (tdo : List Bool) (rs : List Byte) : Prop :=
  ∃ t u us, tdo = t ++ u ∧ t.length = 8 * ((if flip then n - 1 else n) / 8) ∧
    u.length = (if flip then n - 1 else n) % 8 + (if flip then 1 else 0) ∧
    rs = packBits t ++ us ∧ BitAnswer u us

/-- The cycles of the bits that do not flip: the whole bytes find TMS at some level, the rest
takes it low. -/
def bulkPins (tms : Bool) (data : List Byte) (bulk : Nat) : List Pins :=
  heldPins tms data 0 (8 * (bulk / 8)) ++ heldPins false data (8 * (bulk / 8)) (bulk % 8)

/-- The cycles of a scan. -/
def scanPinsAt (tms : Bool) (data : List Byte) (n : Nat) (flip : Bool) : List Pins :=
  bulkPins tms data (if flip then n - 1 else n) ++ if flip then [⟨true, bitAt data (n - 1)⟩] else []

theorem scanPinsAt_low (data : List Byte) {n : Nat} (flip : Bool) (hn : 1 ≤ n) :
    scanPinsAt false data n flip = scanPins data n flip := by
  have h := heldPins_append false data 0 (8 * ((if flip then n - 1 else n) / 8)) ((if flip then n - 1 else n) % 8)
  rw [Nat.div_add_mod, Nat.zero_add] at h
  rw [scanPins_split data n flip hn, scanPinsAt, bulkPins, ← h, heldPins_low]

theorem scanPinsAt_shifts (tms : Bool) (data : List Byte) {n : Nat} (flip : Bool) (hn : 1 ≤ n) :
    Shifts data n flip (scanPinsAt tms data n flip) :=
  shifts_of_parts hn (Nat.div_add_mod _ 8) tms false

/-- A read scan needs room for one byte for each whole byte and each further bit. -/
def AnswerFits (n : Nat) (flip : Bool) : Prop :=
  let bulk := if flip then n - 1 else n
  bulk / 8 + bulk % 8 + (if flip then 1 else 0) ≤ RECV_BUFFER_SIZE

theorem answerFits_of_le {n : Nat} (flip : Bool) (h : n / 8 + 8 ≤ RECV_BUFFER_SIZE) : AnswerFits n flip := by
  unfold AnswerFits
  cases flip <;> simp <;> omega

theorem scan_chain_send_at (h : Linked board usb e₀ c e []) (data : List Byte) (n : Nat)
    (flip read : Bool) (hn : 1 ≤ n) (hn' : n < 2 ^ 64) (hlen : n ≤ 8 * data.length)
    (hroom : AnswerFits n flip) :
    Returns (usb_blaster_jtag_scan_chain_send usb data n flip read) c fun r d => r = true ∧
      d.state = stateAfterScan c.state flip ∧
      ∃ e' rs, Linked board usb e₀ d e' rs ∧
        Part board e e' (scanPinsAt e.pins.tms data n flip) read (ScanAnswer n flip) rs := by
  unfold usb_blaster_jtag_scan_chain_send
  rw [bulk_bits_of_pos flip hn hn']
  have hbulk : (if flip then n - 1 else n) ≤ n := by split <;> omega
  unfold AnswerFits at hroom
  unfold ScanAnswer scanPinsAt
  generalize (if flip then n - 1 else n) = bulk at hbulk hroom
  apply Returns.get_bind
  refine Returns.of_eq_bind (assert_ok (by rw [h.len]; rfl) c) ?_
  refine Returns.bind (packets_spec h data (bulk / 8) 0 (bulk / 8) read (by omega) (by omega)
    (by omega) (by simp; omega)) ?_
  rintro _ d ⟨rfl, hst, e₁, rs₁, hd, hpart₁⟩
  rw [List.nil_append] at hd
  have hrs₁ : rs₁.length ≤ bulk / 8 := by
    cases read with
    | false => simp [hpart₁.no rfl]
    | true =>
      rw [hpart₁.yes rfl]
      simp [heldPins]
      omega
  simp only [if_true]
  refine Returns.bind (send_rest_spec hd data bulk read (by omega) (by omega)) ?_
  rintro _ d₂ ⟨rfl, hst₂, e₂, rs₂, hd₂, hpart₂⟩
  have hrs₂ : rs₂.length ≤ bulk % 8 := by
    cases read with
    | false => simp [hpart₂.no rfl]
    | true =>
      have := congrArg List.length (hpart₂.yes rfl)
      simp only [List.length_map, cycles_length, dataPins, List.length_range] at this
      omega
  have hbytes : heldPins e.pins.tms data (8 * 0) (8 * (bulk / 8 - 0)) = heldPins e.pins.tms data 0 (8 * (bulk / 8)) := rfl
  have hrest : dataPins data (bulk / 8 * 8) (bulk % 8) = heldPins false data (8 * (bulk / 8)) (bulk % 8) := by
    rw [Nat.mul_comm, heldPins_low]
  rw [hbytes] at hpart₁
  rw [hrest] at hpart₂
  have hclocks : Clocks board e e₂ (bulkPins e.pins.tms data bulk) (rs₁ ++ rs₂) := hpart₁.clocks.trans hpart₂.clocks
  have hanswer : read = true → ∃ t u, (board.cycles e.log (bulkPins e.pins.tms data bulk)).map Cycle.tdo = t ++ u ∧
      t.length = 8 * (bulk / 8) ∧ u.length = bulk % 8 ∧ rs₁ = packBits t ∧ BitAnswer u rs₂ := by
    intro hr
    refine ⟨_, _, ?_, ?_, ?_, hpart₁.yes hr, hpart₂.yes hr⟩
    · rw [bulkPins, cycles_append, List.map_append, hpart₁.clocks.log]
    · simp [heldPins]
    · simp [heldPins]
  cases flip with
  | false =>
    refine returns_pure ⟨rfl, hst₂.trans hst, e₂, rs₁ ++ rs₂, hd₂, ?_, ?_, ?_⟩
    · simpa using hclocks
    · intro hr
      rw [hpart₁.no hr, hpart₂.no hr]
      rfl
    · intro hr
      obtain ⟨t, u, htu, ht, hu, rfl, hus⟩ := hanswer hr
      exact ⟨t, u, rs₂, by simpa using htu, ht, by simpa using hu, rfl, hus⟩
  | true =>
    refine (send_last_spec hd₂ data n read hn hn' hlen ?_).mono ?_
    · rw [List.length_append]
      simp only [if_true] at hroom
      omega
    · rintro r d₃ ⟨rfl, hst₃, e₃, rs₃, hd₃, hpart₃⟩
      rw [List.append_assoc] at hd₃
      refine ⟨rfl, by rw [hst₃, hst₂, hst]; rfl, e₃, rs₁ ++ (rs₂ ++ rs₃), hd₃, ?_, ?_, ?_⟩
      · rw [← List.append_assoc]
        exact hclocks.trans hpart₃.clocks
      · intro hr
        rw [hpart₁.no hr, hpart₂.no hr, hpart₃.no hr]
        rfl
      · intro hr
        obtain ⟨t, u, htu, ht, hu, rfl, hus⟩ := hanswer hr
        have hlast := hpart₃.yes hr
        rw [hclocks.log] at hlast
        refine ⟨t, u ++ (board.cycles (e.log ++ board.cycles e.log (bulkPins e.pins.tms data bulk))
          [⟨true, bitAt data (n - 1)⟩]).map Cycle.tdo, rs₂ ++ rs₃, ?_, ht, ?_, rfl, ?_⟩
        · rw [if_pos rfl, cycles_append, List.map_append, htu, List.append_assoc]
        · simp [hu]
        · rw [BitAnswer, List.map_append, hus, hlast]

/-- With TMS low, the cycles of a scan are the same on all adapters. -/
theorem scan_chain_send_spec (h : Linked board usb e₀ c e []) (data : List Byte) (n : Nat)
    (flip read : Bool) (hlow : e.pins.tms = false) (hn : 1 ≤ n) (hn' : n < 2 ^ 64)
    (hlen : n ≤ 8 * data.length) (hroom : AnswerFits n flip) :
    Returns (usb_blaster_jtag_scan_chain_send usb data n flip read) c fun r d => r = true ∧
      d.state = stateAfterScan c.state flip ∧
      ∃ e' rs, Linked board usb e₀ d e' rs ∧
        Part board e e' (scanPins data n flip) read (ScanAnswer n flip) rs := by
  have hspec := scan_chain_send_at h data n flip read hn hn' hlen hroom
  rwa [hlow, scanPinsAt_low data flip hn] at hspec

/-- With answers in the buffer, the assert of the next scan fails. -/
theorem scan_chain_send_fails (h : Linked board usb e₀ c e held) (hne : held ≠ []) (data : List Byte)
    (n : Nat) (flip read : Bool) :
    Faults (usb_blaster_jtag_scan_chain_send usb data n flip read) c .assert_failed := by
  refine ⟨c, ?_⟩
  have hlen : (c.dev.recv_buffer_len == 0) = false := by
    rw [h.len]
    simpa using hne
  unfold usb_blaster_jtag_scan_chain_send
  rw [bind_of_ok (get_apply c)]
  exact bind_of_error (assert_fails hlen c)

/-! ## Reading a scan back -/

theorem set_bit_spec {recv : List Byte} {bs : List Bool} (hholds : Holds recv bs) (b : Bool)
    (hlen : bs.length / 8 < recv.length) (c : Jtag Blaster) :
    Returns (set_bit recv bs.length b) c fun r d => d = c ∧ r.length = recv.length ∧ Holds r (bs ++ [b]) := by
  unfold set_bit
  cases b with
  | false => exact returns_pure ⟨rfl, rfl, hholds.append_false 1⟩
  | true =>
    exact ⟨_, c, or_bit_ok hlen true c, rfl, orBit_length _ _ _, hholds.orBit true hlen⟩

/-- The bits that came one in a byte. -/
theorem recv_rest_spec (buffer : List Byte) (t u : List Bool) (us : List Byte) (recv : List Byte)
    (bulk : Nat) (c : Jtag Blaster) (ht : t.length = 8 * (bulk / 8)) (hu : u.length = bulk % 8)
    (hus : BitAnswer u us) (hbuffer : (packBits t ++ us) <+: buffer) (hholds : Holds recv t)
    (hlen : bulk ≤ 8 * recv.length) :
    Returns (usb_blaster_recv_rest buffer recv bulk) c fun r d => d = c ∧ r.length = recv.length ∧
      Holds r (t ++ u) := by
  have hus' : us.length = bulk % 8 := by
    have := congrArg List.length hus
    rw [List.length_map] at this
    omega
  have hpack : (packBits t).length = bulk / 8 := by
    rw [packBits_length]
    omega
  unfold usb_blaster_recv_rest
  refine (Returns.forUpto (fun i r d => d = c ∧ r.length = recv.length ∧ Holds r (t ++ u.take i))
    ⟨rfl, rfl, by simpa using hholds⟩ ?_).mono ?_
  · rintro i r _ hi ⟨rfl, hr, hh⟩
    obtain ⟨tail, rfl⟩ := hbuffer
    have hget : (packBits t ++ us ++ tail).getD (bulk / 8 + i) 0 = us.getD i 0 := by
      rw [List.append_assoc, List.getD_append_right _ _ _ _ (by omega), hpack, Nat.add_sub_cancel_left,
        List.getD_append _ _ _ _ (by omega)]
    have hbit : (us.getD i 0).getLsbD 0 = u[i] := by
      have hi' : i < us.length := by omega
      subst hus
      rw [List.getD_eq_getElem _ _ hi', List.getElem_map]
    refine Returns.of_eq_bind (index_ok (by simp only [List.length_append]; omega) _) ?_
    rw [hget, hbit]
    have hpos : (t ++ u.take i).length = bulk / 8 * 8 + i := by
      rw [List.length_append, List.length_take]
      omega
    rw [← hpos]
    refine (set_bit_spec hh _ (by omega) _).mono ?_
    rintro r' _ ⟨rfl, hr', hh'⟩
    refine ⟨rfl, hr'.trans hr, ?_⟩
    rwa [List.take_succ_eq_append_getElem (by omega), ← List.append_assoc]
  · rintro r d ⟨rfl, hr, hh⟩
    rw [← hu, List.take_length] at hh
    exact ⟨rfl, hr, hh⟩

theorem recv_last_spec {buffer recv : List Byte} {bs : List Bool} (hholds : Holds recv bs) (n offset : Nat)
    (c : Jtag Blaster) (hn : n = bs.length + 1) (hn' : n < 2 ^ 64) (hlen : bs.length / 8 < recv.length)
    (hoff : offset < buffer.length) :
    Returns (usb_blaster_recv_last buffer recv n offset) c fun r d => d = c ∧ r.length = recv.length ∧
      Holds r (bs ++ [(buffer.getD offset 0).getLsbD 0]) := by
  unfold usb_blaster_recv_last
  refine Returns.of_eq_bind (index_ok hoff c) ?_
  rw [size_sub_of_le (by omega) hn', hn, Nat.add_sub_cancel]
  exact set_bit_spec hholds _ hlen c

/-- The answers are given away. -/
theorem Linked.emptied (h : Linked board usb e₀ c e held) :
    Linked board usb e₀ { c with dev := { c.dev with recv_buffer_len := 0 } } e [] :=
  ⟨h.delivers, h.respond, h.fed, h.idle, h.taken, h.size, rfl, rfl⟩

/-- A receive gives the TDO bits that are held, and empties the buffer. -/
theorem scan_chain_recv_spec {rs : List Byte} (h : Linked board usb e₀ c e rs) (size n : Nat)
    (flip : Bool) (tdo : List Bool) (hn : 1 ≤ n) (hn' : n + 7 < 2 ^ 64) (hsize : n ≤ 8 * size)
    (hans : ScanAnswer n flip tdo rs) :
    Returns (usb_blaster_jtag_scan_chain_recv (List.replicate size 0) n flip) c fun r d =>
      r.1 = true ∧ r.2.length = size ∧ Holds r.2 tdo ∧ d.state = c.state ∧
        Linked board usb e₀ d e [] := by
  obtain ⟨t, u, us, rfl, ht, hu, rfl, hus⟩ := hans
  unfold usb_blaster_jtag_scan_chain_recv
  rw [bulk_bits_of_pos flip hn (by omega)]
  have hbulk : (if flip then n - 1 else n) ≤ n := by split <;> omega
  generalize hb : (if flip then n - 1 else n) = bulk at *
  have hmod : (bulk + 7) % 2 ^ 64 = bulk + 7 := Nat.mod_eq_of_lt (by omega)
  have hpack : (packBits t).length = bulk / 8 := by
    rw [packBits_length]
    omega
  have hlen := h.len
  have hheld := h.held
  have hcap := h.size
  have huslen : us.length = bulk % 8 + if flip then 1 else 0 := by
    rw [← hu, ← hus, List.length_map]
  rw [List.length_append] at hlen
  have hfull : (packBits t ++ us).length ≤ c.dev.recv_buffer.length := by
    have := congrArg List.length hheld
    rw [List.length_take] at this
    omega
  have hprefix : (packBits t ++ us) <+: c.dev.recv_buffer := by
    rw [List.prefix_iff_eq_take]
    exact hheld.symm
  have hbytes : c.dev.recv_buffer.take (bulk / 8) = packBits t := by
    rw [← hpack]
    exact (List.prefix_iff_eq_take.mp ((List.prefix_append _ _).trans hprefix)).symm
  dsimp only
  rw [hmod]
  refine Returns.of_eq_bind (memset_zero_ok (by rw [List.length_replicate]; omega) c) ?_
  rw [splice_replicate, List.length_replicate, List.replicate_append_replicate,
    Nat.add_sub_cancel' (by omega)]
  apply Returns.get_bind
  rw [List.length_append] at hfull
  refine Returns.of_eq_bind (bytes_at_ok (by omega) c) ?_
  rw [List.drop_zero, hbytes]
  refine Returns.of_eq_bind (memcpy_ok (by rw [List.length_replicate]; omega) c) ?_
  rw [splice_replicate]
  have hsize' : (packBits t ++ List.replicate (size - (packBits t).length) 0).length = size := by
    rw [List.length_append, List.length_replicate]
    omega
  have hholds := holds_packBits t (size - (packBits t).length)
  generalize packBits t ++ List.replicate (size - (packBits t).length) 0 = recv at hsize' hholds
  cases flip with
  | false =>
    refine Returns.bind (recv_rest_spec _ t u us recv bulk c ht hu hus hprefix hholds (by omega)) ?_
    rintro recv' _ ⟨rfl, hrecv, hholds'⟩
    refine Returns.of_eq_bind rfl ?_
    refine Returns.of_eq_bind (assert_ok ?_ _) ?_
    · rw [hlen, huslen, hpack]
      simp
    · exact Returns.modify_bind (returns_pure ⟨rfl, hrecv.trans hsize', hholds', rfl, h.emptied⟩)
  | true =>
    obtain ⟨u₁, x, rfl⟩ : ∃ u₁ x, u = u₁ ++ [x] := by
      rcases List.eq_nil_or_concat' u with rfl | hu'
      · simp at hu
      · exact hu'
    obtain ⟨us₁, us₂, rfl, hus₁, hus₂⟩ := List.map_eq_append_iff.mp hus
    obtain ⟨y, rfl, rfl⟩ := List.map_eq_singleton_iff.mp hus₂
    simp only [List.length_append, List.length_singleton, if_true] at hb hu huslen hlen hfull
    have hprefix₁ : (packBits t ++ us₁) <+: c.dev.recv_buffer := by
      rw [← List.append_assoc] at hprefix
      exact (List.prefix_append _ _).trans hprefix
    refine Returns.bind (recv_rest_spec _ t u₁ us₁ recv bulk c ht (by omega) hus₁ hprefix₁ hholds
      (by omega)) ?_
    rintro recv' c ⟨rfl, hrecv, hholds'⟩
    have hlast : c.dev.recv_buffer.getD (bulk / 8 + bulk % 8) 0 = y := by
      obtain ⟨tail, htail⟩ := hprefix
      have hpos : bulk / 8 + bulk % 8 = (packBits t ++ us₁).length := by
        rw [List.length_append]
        omega
      rw [← htail, ← List.append_assoc, List.append_assoc, hpos,
        List.getD_append_right _ _ _ _ (Nat.le_refl _), Nat.sub_self]
      rfl
    refine Returns.bind (recv_last_spec hholds' n _ c ?_ (by omega) ?_ (by omega)) ?_
    · rw [List.length_append]
      omega
    · rw [List.length_append]
      omega
    rintro recv'' _ ⟨rfl, hrecv', hholds''⟩
    rw [hlast, List.append_assoc] at hholds''
    refine Returns.of_eq_bind (assert_ok ?_ _) ?_
    · rw [hlen, huslen, hpack, if_pos rfl, Nat.add_assoc]
      exact beq_self_eq_true _
    · exact Returns.modify_bind
        (returns_pure ⟨rfl, hrecv'.trans (hrecv.trans hsize'), hholds'', rfl, h.emptied⟩)

/-- A receive changes only how much `recv_buffer` holds. -/
theorem scan_chain_recv_keeps {τ : Type} {part : Jtag Blaster → τ}
    (hpart : ∀ c, part { c with dev := { c.dev with recv_buffer_len := 0 } } = part c) (out : List Byte) (n : Nat)
    (flip : Bool) : Keeps part (usb_blaster_jtag_scan_chain_recv out n flip) := by
  have hset : ∀ out i b, Keeps part (set_bit out i b) := fun out i b => keeps_ite (or_bit_keeps _ _ _) (keeps_pure _)
  have hfinal : ∀ (out : List Byte) (offset len : Nat), Keeps part (do
      assert (offset == len)
      modify fun c => { c with dev := { c.dev with recv_buffer_len := 0 } }
      pure (true, out) : BlasterProg (Bool × List Byte)) := fun out offset len =>
    (assert_keeps _).bind fun _ => (keeps_modify hpart).bind fun _ => keeps_pure _
  refine (memcpy_keeps _ _ _).bind fun _ => Keeps.get_bind fun c => (bytes_at_keeps _ _ _).bind fun _ => ?_
  refine (memcpy_keeps _ _ _).bind fun _ => ?_
  refine (keeps_forUpto fun i r => (index_keeps _ _).bind fun _ => hset _ _ _).bind fun _ => ?_
  exact keeps_ite (((index_keeps _ _).bind fun _ => hset _ _ _).bind fun _ => hfinal _ _ _) (hfinal _ _ _)

/-! ## TMS sequences -/

/-- The bit-bang bytes of a TMS sequence, up to the last one. -/
def tmsBytes (data : List Byte) (n : Nat) : List Byte :=
  (List.range n).flatMap fun i => [build_command (bitAt data i) false false false,
    build_command (bitAt data i) false true false]

theorem tmsBytes_succ (data : List Byte) (n : Nat) :
    tmsBytes data (n + 1) = tmsBytes data n ++ [build_command (bitAt data n) false false false,
      build_command (bitAt data n) false true false] := by
  simp [tmsBytes, List.range_succ]

theorem tmsBytes_clocks (board : Board) (data : List Byte) (n : Nat) (e : BlasterEngine)
    (h : e.shift_left = 0) :
    Clocks board e (blasterFeed board e (tmsBytes data n))
      ((bitsOf data n).map fun bit => ⟨bit, false⟩) [] := by
  induction n with
  | zero => exact .refl h
  | succ n ih =>
    obtain ⟨rs, hclocks, hno, -⟩ := pair_clocks board (blasterFeed board e (tmsBytes data n))
      (bitAt data n) false false ih.idle
    obtain rfl := hno rfl
    rw [tmsBytes_succ, blasterFeed_append, bitsOf_succ, List.map_append]
    exact ih.trans hclocks

/-- The last byte takes TCK low. -/
def tmsWrite (data : List Byte) (n : Nat) : List Byte :=
  tmsBytes data n ++ [build_command (bitAt data (n - 1)) false false false]

theorem tmsWrite_clocks (board : Board) (data : List Byte) {n : Nat} (hn : 1 ≤ n) (e : BlasterEngine)
    (h : e.shift_left = 0) :
    Clocks board e (blasterFeed board e (tmsWrite data n)) ((bitsOf data n).map fun bit => ⟨bit, false⟩) [] ∧
      (blasterFeed board e (tmsWrite data n)).tck = false := by
  obtain ⟨m, rfl⟩ : ∃ m, n = m + 1 := ⟨n - 1, by omega⟩
  have hclocks := tmsBytes_clocks board data (m + 1) e h
  rw [tmsWrite, blasterFeed_append, blasterFeed_cons, low_byte _ _ _ hclocks.idle]
  refine ⟨⟨hclocks.log, ?_, hclocks.resp, hclocks.idle⟩, rfl⟩
  simp [lastPins, bitsOf_succ]

theorem tms_seq_eq {data : List Byte} {n : Nat} (hn : 1 ≤ n) (hlen : n ≤ 8 * data.length) (c : Jtag Blaster) :
    usb_blaster_jtag_tms_seq usb data n c = blaster_port (ftdi_write_retry usb (tmsWrite data n)) c := by
  have hbuffer : Returns (forUpto n ([], false) fun i (x : List Byte × Bool) => do
      let bit ← bit_of data i
      pure (x.1 ++ [build_command bit false false false, build_command bit false true false], bit) :
        BlasterProg (List Byte × Bool)) c fun r d => d = c ∧ r = (tmsBytes data n, bitAt data (n - 1)) := by
    refine (Returns.forUpto (fun i x d => d = c ∧ x = (tmsBytes data i, if i = 0 then false else bitAt data (i - 1)))
      ⟨rfl, rfl⟩ ?_).mono ?_
    · rintro i _ _ hi ⟨rfl, rfl⟩
      refine Returns.of_eq_bind (bit_of_ok (by omega) _) ?_
      exact returns_pure ⟨rfl, by rw [tmsBytes_succ]; rfl⟩
    · rintro r d ⟨hd, hr⟩
      rw [if_neg (by omega)] at hr
      exact ⟨hd, hr⟩
  obtain ⟨_, _, hrun, rfl, rfl⟩ := hbuffer
  exact bind_of_ok hrun

theorem tms_seq_spec (h : Linked board usb e₀ c e held) (data : List Byte) (n : Nat) (hn : 1 ≤ n)
    (hlen : n ≤ 8 * data.length) :
    Returns (usb_blaster_jtag_tms_seq usb data n) c fun r d => r = true ∧ d.state = c.state ∧
      ∃ e' ps, Linked board usb e₀ d e' held ∧ ps.map Pins.tms = bitsOf data n ∧
        Clocks board e e' ps [] ∧ e'.tck = false := by
  obtain ⟨hclocks, htck⟩ := tmsWrite_clocks board data hn e h.idle
  rw [Returns, tms_seq_eq hn hlen]
  refine (write_spec h _).mono ?_
  rintro _ _ ⟨rfl, p, rfl, hp⟩
  refine ⟨rfl, rfl, _, _, h.wrote hp hclocks, ?_, hclocks, htck⟩
  simp [Function.comp_def]

end JtagRemote.Blaster
