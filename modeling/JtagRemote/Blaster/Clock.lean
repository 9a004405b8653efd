import JtagRemote.Blaster.Failing
import JtagRemote.Drivers

/-!
# The level of TCK between two calls

A TMS sequence takes TCK low with its last byte, and so does the last bit of a scan that
flips TMS. Byte-shift mode leaves it low. The rest bits end with TCK high.
-/

namespace JtagRemote.Blaster

variable {usb : Usb} {board : Board} {e₀ : BlasterEngine} {c d : Jtag Blaster} {tck tck' : Bool}

/-! ## What a write leaves -/

/-- The last level of TCK. -/
def tckOf (board : Board) (e₀ : BlasterEngine) (c : Jtag Blaster) : Bool :=
  (blasterFeed board e₀ c.dev.port.delivered).tck

/-- The Blaster is between two writes, with TCK at this level. -/
structure AtLevel (board : Board) (e₀ : BlasterEngine) (c : Jtag Blaster) (tck : Bool) : Prop where
  idle : (blasterFeed board e₀ c.dev.port.delivered).shift_left = 0
  level : tckOf board e₀ c = tck

/-- Whole writes, after which TCK is at this level. -/
structure Leaves (board : Board) (data : List Byte) (tck : Bool) : Prop where
  idle : ∀ e : BlasterEngine, e.shift_left = 0 → (blasterFeed board e data).shift_left = 0
  level : ∀ e : BlasterEngine, e.shift_left = 0 → (blasterFeed board e data).tck = tck

theorem AtLevel.wrote {data : List Byte} (h : AtLevel board e₀ c tck) (hleaves : Leaves board data tck')
    (hdel : d.dev.port.delivered = c.dev.port.delivered ++ data) : AtLevel board e₀ d tck' := by
  refine ⟨?_, ?_⟩
  · rw [hdel, blasterFeed_append]
    exact hleaves.idle _ h.idle
  · rw [tckOf, hdel, blasterFeed_append]
    exact hleaves.level _ h.idle

theorem shifted_low (board : Board) {data : List Byte} {e : BlasterEngine} (h : e.shift_left = data.length)
    (hlow : data = [] → e.tck = false) : (blasterFeed board e data).tck = false := by
  induction data generalizing e with
  | nil => exact hlow rfl
  | cons b data ih =>
    have hstep : blasterByte board e b = blasterShift board b e := by
      unfold blasterByte
      rw [if_pos (by rw [h]; simp)]
    rw [blasterFeed_cons, hstep]
    refine ih ?_ fun _ => rfl
    show e.shift_left - 1 = data.length
    rw [h, List.length_cons, Nat.add_sub_cancel]

theorem packet_leaves (board : Board) (read : Bool) {data : List Byte} (hpos : 1 ≤ data.length)
    (hlen : data.length < 64) : Leaves board (packetHead read data.length :: data) false := by
  refine ⟨fun e h => (packet_clocks board read data e h hlen).idle, fun e h => ?_⟩
  obtain ⟨h7, h6, hn⟩ := head_byte read data.length hlen
  have hhead : blasterByte board e (packetHead read data.length) =
      { e with shift_left := data.length, shift_read := read } := by
    unfold blasterByte packetHead
    rw [if_neg (by omega), if_pos h7, hn, h6]
  rw [blasterFeed_cons, hhead]
  refine shifted_low board rfl fun hnil => ?_
  rw [hnil] at hpos
  cases hpos

/-- The byte that makes a cycle leaves TCK high. -/
theorem high_byte_level (board : Board) (e : BlasterEngine) (tms tdi read : Bool) (h : e.shift_left = 0) :
    (blasterByte board e (build_command tms tdi true read)).tck = true := by
  obtain ⟨h0, -⟩ := build_command_bits tms tdi true read
  rw [command_byte e tms tdi true read h]
  unfold blasterPins
  simp only [h0]
  split <;> rfl

theorem rest_leaves (board : Board) (data : List Byte) (start : Nat) {k : Nat} (read : Bool) (hk : 1 ≤ k) :
    Leaves board (restBytes data start k read) true := by
  refine ⟨fun e h => ?_, fun e h => ?_⟩
  · obtain ⟨rs, hpart⟩ := restBytes_part board data start k read e h
    exact hpart.clocks.idle
  · obtain ⟨k, rfl⟩ : ∃ j, k = j + 1 := ⟨k - 1, by omega⟩
    obtain ⟨rs, hpart⟩ := restBytes_part board data start k read e h
    rw [restBytes_succ, blasterFeed_append, blasterFeed_cons, low_byte _ _ _ hpart.clocks.idle]
    exact high_byte_level board _ _ _ _ hpart.clocks.idle

theorem last_leaves (board : Board) (data : List Byte) (n : Nat) (read : Bool) :
    Leaves board (lastWrite data n read) false := by
  refine ⟨fun e h => ?_, fun e h => ?_⟩
  · obtain ⟨rs, hclocks, -⟩ := lastWrite_clocks board data n read e h
    exact hclocks.idle
  · obtain ⟨rs, -, hlow, -⟩ := lastWrite_clocks board data n read e h
    exact hlow

theorem tms_leaves (board : Board) (data : List Byte) {n : Nat} (hn : 1 ≤ n) :
    Leaves board (tmsWrite data n) false :=
  ⟨fun e h => (tmsWrite_clocks board data hn e h).1.idle, fun e h => (tmsWrite_clocks board data hn e h).2⟩

/-! ## What a call leaves -/

theorem write_leaves {data : List Byte} (h : AtLevel board e₀ c tck) (hleaves : Leaves board data tck') :
    Ensures (blaster_port (ftdi_write_retry usb data)) c fun r d => r = true → AtLevel board e₀ d tck' := by
  refine Ensures.mono (Ensures.focus (ftdi_write_retry_spec usb data c.dev.port).ensures) ?_
  rintro r _ ⟨p, ⟨l, hl, -, hall⟩, rfl⟩ hr
  refine h.wrote hleaves ?_
  rw [← hall hr]
  exact hl.delivered

theorem exchange_leaves {data : List Byte} (h : AtLevel board e₀ c tck) (hleaves : Leaves board data tck')
    (read : Bool) (trans : Nat) :
    Ensures (usb_blaster_exchange usb data read trans) c fun r d => r = true → AtLevel board e₀ d tck' := by
  refine Ensures.bind (write_leaves h hleaves) ?_
  intro r d hd
  refine ensures_ite (fun hr => ?_) fun _ => ensures_pure (by simp)
  refine ensures_ite (fun _ => ?_) fun _ => ensures_pure fun _ => hd hr
  refine (read_delivers_nothing trans d).mono ?_
  rintro r' d' ⟨-, hdel⟩ -
  obtain ⟨hidle, hlevel⟩ := hd hr
  refine ⟨?_, ?_⟩
  · rw [hdel]
    exact hidle
  · rw [tckOf, hdel]
    exact hlevel

theorem packets_leave (h : AtLevel board e₀ c tck) (data : List Byte) (len : Nat) (read : Bool) (fuel i : Nat) :
    Ensures (usb_blaster_packets usb data len read fuel i) c fun r d =>
      r = true → AtLevel board e₀ d (if i < len then false else tck) := by
  induction fuel generalizing c tck i with
  | zero =>
    refine ensures_ite (fun _ => ensures_throw) fun hdone => ensures_pure fun _ => ?_
    rw [if_neg hdone]
    exact h
  | succ fuel ih =>
    refine ensures_ite (fun hlt => ?_) fun hdone => ensures_pure fun _ => ?_
    · have hmax : MAX_PACKET_SIZE = 32 := rfl
      refine Ensures.bind (bytes_at_spec data i _ c) ?_
      rintro _ _ ⟨rfl, rfl, hle⟩
      have hlen : ((data.drop i).take (min (len - i) MAX_PACKET_SIZE)).length = min (len - i) MAX_PACKET_SIZE := by
        rw [List.length_take, List.length_drop]
        omega
      have hpacket := packet_leaves board read (by omega)
        (show ((data.drop i).take (min (len - i) MAX_PACKET_SIZE)).length < 64 by omega)
      rw [hlen] at hpacket
      refine Ensures.bind (exchange_leaves h hpacket read _) ?_
      intro r d hd
      refine ensures_ite (fun hr => ?_) fun _ => ensures_pure (by simp)
      refine (ih (hd hr) (i + min (len - i) MAX_PACKET_SIZE)).mono ?_
      intro r' d' hd' hr'
      have hend := hd' hr'
      rw [ite_self] at hend
      rw [if_pos hlt]
      exact hend
    · rw [if_neg hdone]
      exact h

theorem send_rest_leaves (h : AtLevel board e₀ c tck) (data : List Byte) (bulk : Nat) (read : Bool) :
    Ensures (usb_blaster_send_rest usb data bulk read) c fun r d =>
      r = true → AtLevel board e₀ d (if bulk % 8 = 0 then tck else true) := by
  refine ensures_ite (fun hzero => ?_) fun hne => ?_
  · rw [if_pos hzero]
    exact ensures_pure fun _ => h
  · rw [if_neg hne]
    refine Ensures.bind (Ensures.forUpto (fun i buffer k => k = c ∧ buffer = restBytes data (bulk / 8 * 8) i read)
      ⟨rfl, rfl⟩ ?_) ?_
    · rintro i _ _ - ⟨rfl, rfl⟩
      refine Ensures.bind (bit_of_spec data _ _) ?_
      rintro bit _ ⟨rfl, rfl, -⟩
      exact ensures_pure ⟨rfl, (restBytes_succ data _ i read).symm⟩
    · rintro _ _ ⟨rfl, rfl⟩
      exact exchange_leaves h (rest_leaves board data _ read (by omega)) read _

theorem send_last_leaves (h : AtLevel board e₀ c tck) (data : List Byte) {n : Nat} (read : Bool) (hn : 1 ≤ n)
    (hn' : n < 2 ^ 64) :
    Ensures (usb_blaster_send_last usb data n read) c fun r d => r = true → AtLevel board e₀ d false := by
  unfold usb_blaster_send_last
  rw [size_sub_of_le hn hn']
  refine Ensures.modify_bind (Ensures.bind (bit_of_spec data (n - 1) _) ?_)
  rintro bit _ ⟨rfl, rfl, -⟩
  have h' : AtLevel board e₀ { c with state := next_state c.state true } tck := ⟨h.idle, h.level⟩
  exact exchange_leaves h' (last_leaves board data n read) read 1

/-- Whether a scan ends with TCK high: after rest bits, and no last bit. -/
def endsHigh (n : Nat) (flip : Bool) : Bool := !flip && n % 8 != 0

theorem scan_chain_send_leaves (h : AtLevel board e₀ c tck) (data : List Byte) {n : Nat} (flip read : Bool)
    (hn : 1 ≤ n) (hn' : n < 2 ^ 64) :
    Ensures (usb_blaster_jtag_scan_chain_send usb data n flip read) c fun r d =>
      r = true → AtLevel board e₀ d (endsHigh n flip) := by
  unfold usb_blaster_jtag_scan_chain_send
  rw [bulk_bits_of_pos flip hn hn']
  refine Ensures.get_bind (Ensures.bind (assert_guards _ c).ensures ?_)
  rintro _ _ rfl
  refine Ensures.bind (packets_leave h data _ read _ 0) ?_
  intro r d hd
  refine ensures_ite (fun hr => ?_) fun _ => ensures_pure (by simp)
  refine Ensures.bind (send_rest_leaves (hd hr) data _ read) ?_
  intro r' k hk
  refine ensures_ite (fun hr' => ?_) fun _ => ensures_pure (by simp)
  cases flip with
  | true => exact send_last_leaves (hk hr') data read hn hn'
  | false =>
    refine ensures_pure fun _ => ?_
    have hend := hk hr'
    rw [if_neg Bool.false_ne_true] at hend
    by_cases hzero : n % 8 = 0
    · have hlow : endsHigh n false = false := by simp [endsHigh, hzero]
      rw [if_pos hzero, if_pos (by omega)] at hend
      rw [hlow]
      exact hend
    · have hhigh : endsHigh n false = true := by simp [endsHigh, hzero]
      rw [if_neg hzero] at hend
      rw [hhigh]
      exact hend

theorem tms_seq_leaves (h : AtLevel board e₀ c tck) (data : List Byte) {n : Nat} (hn : 1 ≤ n) :
    Ensures (usb_blaster_jtag_tms_seq usb data n) c fun r d => r = true → AtLevel board e₀ d false := by
  unfold usb_blaster_jtag_tms_seq
  refine Ensures.bind (Ensures.forUpto (fun i x k => k = c ∧
    x = (tmsBytes data i, if i = 0 then false else bitAt data (i - 1))) ⟨rfl, rfl⟩ ?_) ?_
  · rintro i _ _ - ⟨rfl, rfl⟩
    refine Ensures.bind (bit_of_spec data i _) ?_
    rintro bit _ ⟨rfl, rfl, -⟩
    exact ensures_pure ⟨rfl, by rw [tmsBytes_succ]; rfl⟩
  · rintro _ _ ⟨rfl, rfl⟩
    rw [if_neg (by omega)]
    exact write_leaves h (tms_leaves board data hn)

theorem scan_chain_recv_leaves (h : AtLevel board e₀ c tck) (recv : List Byte) (n : Nat) (flip : Bool) :
    Ensures (usb_blaster_jtag_scan_chain_recv recv n flip) c fun _ d => AtLevel board e₀ d tck := by
  have hkeeps : Keeps (fun k : Jtag Blaster => k.dev.port) (usb_blaster_jtag_scan_chain_recv recv n flip) :=
    scan_chain_recv_keeps (fun _ => rfl) recv n flip
  refine (hkeeps c).mono ?_
  rintro _ d (hport : d.dev.port = c.dev.port)
  obtain ⟨hidle, hlevel⟩ := h
  unfold tckOf at hlevel
  rw [← hport] at hidle hlevel
  exact ⟨hidle, hlevel⟩

/-! ## Runs -/

inductive Call where
  | tms_seq (data : List Byte) (num_bits : Nat)
  | scan_chain_send (data : List Byte) (num_bits : Nat) (flip_tms do_read : Bool)
  | scan_chain_recv (recv : List Byte) (num_bits : Nat) (flip_tms : Bool)
  deriving DecidableEq, Repr

def Call.run (usb : Usb) : Call → BlasterProg Bool
  | .tms_seq data num_bits => usb_blaster_jtag_tms_seq usb data num_bits
  | .scan_chain_send data num_bits flip_tms do_read =>
    usb_blaster_jtag_scan_chain_send usb data num_bits flip_tms do_read
  | .scan_chain_recv recv num_bits flip_tms => do
    let r ← usb_blaster_jtag_scan_chain_recv recv num_bits flip_tms
    pure r.1

/-- A sequence and a scan have a bit at least. -/
def Call.Valid : Call → Prop
  | .tms_seq _ num_bits => 1 ≤ num_bits
  | .scan_chain_send _ num_bits _ _ => 1 ≤ num_bits ∧ num_bits < 2 ^ 64
  | .scan_chain_recv _ _ _ => True

/-- No scan ends with rest bits: it flips TMS, or is whole bytes. -/
def Call.EndsLow : Call → Prop
  | .scan_chain_send _ num_bits flip_tms _ => flip_tms = true ∨ num_bits % 8 = 0
  | _ => True

/-- All calls succeed; `ds` is where they leave the driver. -/
inductive Ran (usb : Usb) : Jtag Blaster → List Call → List (Jtag Blaster) → Prop
  | done (c : Jtag Blaster) : Ran usb c [] []
  | call {call : Call} {c d : Jtag Blaster} {calls : List Call} {ds : List (Jtag Blaster)} :
      call.run usb c = .ok true d → Ran usb d calls ds → Ran usb c (call :: calls) (d :: ds)

theorem endsHigh_false_iff (n : Nat) (flip : Bool) : endsHigh n flip = false ↔ flip = true ∨ n % 8 = 0 := by
  cases flip <;> simp [endsHigh]

/-- A call that finds TCK low leaves it low just if it ends so. -/
theorem call_level {call : Call} (hvalid : call.Valid) (h : AtLevel board e₀ c false)
    (hrun : call.run usb c = .ok true d) :
    ∃ tck, AtLevel board e₀ d tck ∧ (tck = false ↔ call.EndsLow) := by
  cases call with
  | tms_seq data n => exact ⟨false, tms_seq_leaves h data hvalid _ _ hrun rfl, by simp [Call.EndsLow]⟩
  | scan_chain_send data n flip read =>
    exact ⟨_, scan_chain_send_leaves h data flip read hvalid.1 hvalid.2 _ _ hrun rfl, endsHigh_false_iff n flip⟩
  | scan_chain_recv recv n flip =>
    obtain ⟨r, k, hrecv, hpure⟩ := bind_eq_ok.mp hrun
    obtain ⟨-, rfl⟩ := EStateM.Result.ok.inj hpure
    exact ⟨false, scan_chain_recv_leaves h recv n flip _ _ hrecv, by simp [Call.EndsLow]⟩

/-- TCK is low after each call of a run just if no scan ends with rest bits. -/
theorem run_idles_low_iff {calls : List Call} {ds : List (Jtag Blaster)} (hrun : Ran usb c calls ds)
    (hvalid : ∀ call ∈ calls, call.Valid) (hstart : AtLevel board e₀ c false) :
    (∀ d ∈ ds, tckOf board e₀ d = false) ↔ ∀ call ∈ calls, call.EndsLow := by
  induction hrun with
  | done c => simp
  | @call call c d calls ds hcall _ ih =>
    obtain ⟨tck, hd, hiff⟩ := call_level (hvalid call List.mem_cons_self) hstart hcall
    rw [List.forall_mem_cons, List.forall_mem_cons, hd.level, hiff]
    refine and_congr_right fun hlow => ?_
    have hd' : AtLevel board e₀ d false := by
      rw [← hiff.mpr hlow]
      exact hd
    exact ih (fun call' hmem => hvalid call' (List.mem_cons_of_mem _ hmem)) hd'

theorem idle_level (board : Board) : AtLevel board idleBlasterEngine idleBlaster false := ⟨rfl, rfl⟩

def benchUsb : Usb := blasterUsb Mpsse.blinkBoard idleBlasterEngine

/-- Into ShiftDR, and one byte. -/
def lowCalls : List Call := [.tms_seq [0x01] 3, .scan_chain_send [0xA5] 8 false false]

theorem run_idles_low_iff_byte : ∃ ds, Ran benchUsb idleBlaster lowCalls ds ∧
    ((∀ d ∈ ds, tckOf Mpsse.blinkBoard idleBlasterEngine d = false) ↔ ∀ call ∈ lowCalls, call.EndsLow) := by
  have hseq : usb_blaster_jtag_tms_seq benchUsb [0x01] 3 idleBlaster = .ok true _ := of_answer (by decide +kernel)
  have hscan : usb_blaster_jtag_scan_chain_send benchUsb [0xA5] 8 false false
      (finalState (usb_blaster_jtag_tms_seq benchUsb [0x01] 3 idleBlaster)) = .ok true _ := of_answer (by decide +kernel)
  have hrun : Ran benchUsb idleBlaster lowCalls _ := .call hseq (.call hscan (.done _))
  exact ⟨_, hrun, run_idles_low_iff hrun (by simp [lowCalls, Call.Valid]) (idle_level _)⟩

/-- One bit without a flip: TCK stays high. -/
theorem one_bit_ends_high : ∃ d, Ran benchUsb idleBlaster [.scan_chain_send [0x01] 1 false false] [d] ∧
    tckOf Mpsse.blinkBoard idleBlasterEngine d = true := by
  have hscan : usb_blaster_jtag_scan_chain_send benchUsb [0x01] 1 false false idleBlaster = .ok true _ :=
    of_answer (by decide +kernel)
  exact ⟨_, .call hscan (.done _), by decide +kernel⟩

end JtagRemote.Blaster
