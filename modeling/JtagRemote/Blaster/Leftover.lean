import JtagRemote.Blaster.Lockstep
import JtagRemote.Drivers

/-!
# What a scan that fails leaves in `recv_buffer`

Each exchange of a read scan appends its answer, and none takes the answers back when a
later one fails.
-/

namespace JtagRemote.Blaster

variable {usb : Usb} {c d : Jtag Blaster} {read : Bool}

/-! ## The scans after it -/

/-- A receive asserts nothing when `recv_buffer` holds the answer of its scan. -/
theorem scan_chain_recv_unasserted {n : Nat} {flip : Bool} (h : c.dev.recv_buffer_len = answerBytes n flip)
    (out : List Byte) : Ends (usb_blaster_jtag_scan_chain_recv out n flip) c Unasserted fun _ _ => True := by
  have hdone : ∀ (out : List Byte) (offset : Nat), offset = answerBytes n flip → Ends (do
      assert (offset == c.dev.recv_buffer_len)
      modify fun c => { c with dev := { c.dev with recv_buffer_len := 0 } }
      pure (true, out)) c Unasserted fun _ _ => True := by
    intro out offset hoffset
    have hassert : (assert (offset == c.dev.recv_buffer_len) : BlasterProg Unit) c = .ok () c :=
      assert_ok (by rw [hoffset, h]; exact beq_self_eq_true _) c
    exact Ends.of_eq_bind hassert (Ends.modify_bind (ends_pure trivial))
  have hindex : ∀ (l out : List Byte) (i j : Nat), Ends (do
      let last_bit ← index l i
      set_bit out j (last_bit.getLsbD 0)) c Unasserted fun _ d => d = c := by
    intro l out i j
    refine Ends.bind (index_unasserted l i c) ?_
    rintro b _ rfl
    exact set_bit_unasserted out j _ _
  refine Ends.bind (memcpy_unasserted _ _ _ c) ?_
  rintro out₁ _ rfl
  refine Ends.get_bind (Ends.bind (bytes_at_unasserted _ _ _ _) ?_)
  rintro bytes _ ⟨rfl, -⟩
  refine Ends.bind (memcpy_unasserted _ _ _ _) ?_
  rintro out₂ _ rfl
  refine Ends.bind (Ends.forUpto (fun _ _ d => d = _) rfl ?_) ?_
  · rintro i out₃ _ - rfl
    exact hindex _ _ _ _
  · rintro out₃ _ rfl
    refine ends_ite (fun hflip => ?_) fun hflip => ?_
    · refine Ends.bind (hindex _ _ _ _) ?_
      rintro out₄ _ rfl
      exact hdone out₄ _ (by simp [answerBytes, hflip])
    · exact hdone out₃ _ (by simp [answerBytes, hflip])

theorem scan_chain_unasserted {fuel n : Nat} (hempty : c.dev.recv_buffer_len = 0) (data recv : List Byte) (flip : Bool) :
    Ends (jtag_scan_chain (usb_blaster_driver usb fuel) data recv n flip read) c Unasserted fun _ _ => True := by
  have hsend : Ends (jtag_scan_chain_send (usb_blaster_driver usb fuel) data n flip read) c Unasserted
      (Appends usb read (scanExchanges data n flip) (withCount c n)) := by
    have hcount : (withCount c n).dev.recv_buffer_len = 0 := hempty
    exact Ends.modify_bind (scan_chain_send_appends hcount data n flip)
  refine Ends.bind hsend ?_
  intro r d hd
  refine ends_ite (fun hr => ends_ite (fun hread => ?_) fun _ => ends_pure trivial) fun _ => ends_pure trivial
  refine scan_chain_recv_unasserted ?_ recv
  have hlen := hd.all hr
  rw [if_pos hread, scanExchanges_total] at hlen
  rw [hlen, Nat.add_eq_right]
  exact hempty

/-! ## What the buffer holds behind its answers -/

def withBuffer (c : Jtag Blaster) (b : List Byte) : Jtag Blaster :=
  { c with dev := { c.dev with recv_buffer := b } }

/-- From an empty buffer, the answer of a scan has none of the bytes that the buffer held. -/
theorem scan_chain_unread {fuel : Nat} (hempty : c.dev.recv_buffer_len = 0) {b : List Byte}
    (hb : b.length = c.dev.recv_buffer.length) (data recv : List Byte) (n : Nat) (flip : Bool) :
    answer (jtag_scan_chain (usb_blaster_driver usb fuel) data recv n flip read (withBuffer c b)) =
      answer (jtag_scan_chain (usb_blaster_driver usb fuel) data recv n flip read c) := by
  -- the wire is compared with itself
  let w : Wire := .same usb c.dev.port
  have habreast : Abreast w c (withBuffer c b) := by
    refine ⟨rfl, rfl, hb, ?_, .start w⟩
    rw [hempty, List.take_zero, List.take_zero]
  exact (scan_chain_step fuel data recv n flip read c (withBuffer c b) ⟨habreast, .inl fun _ => trivial⟩).answer.symm

/-! ## A scan that fails -/

/-- The answers to what the device took since `p`, as far as they were not read. -/
def unread (usb : Usb) (p q : Port) : List Byte :=
  (usb.respond q.delivered).drop (max q.taken (usb.respond p.delivered).length)

/-- After a scan that began at `c` and failed, the driver is as after one that was received: the next scan asserts
nothing, its answer has no byte that `recv_buffer` held before, and none of the failed scan waits at the device. -/
structure Usable (usb : Usb) (fuel : Nat) (c d : Jtag Blaster) : Prop where
  empty : d.dev.recv_buffer_len = 0
  asserts : ∀ data recv n flip read,
    ¬ Faults (jtag_scan_chain (usb_blaster_driver usb fuel) data recv n flip read) d .assert_failed
  forgets : ∀ data recv n flip read b, b.length = d.dev.recv_buffer.length →
    answer (jtag_scan_chain (usb_blaster_driver usb fuel) data recv n flip read (withBuffer d b)) =
      answer (jtag_scan_chain (usb_blaster_driver usb fuel) data recv n flip read d)
  drained : unread usb c.dev.port d.dev.port = []

theorem usable_iff (usb : Usb) (fuel : Nat) (c d : Jtag Blaster) :
    Usable usb fuel c d ↔ d.dev.recv_buffer_len = 0 ∧ unread usb c.dev.port d.dev.port = [] := by
  refine ⟨fun h => ⟨h.empty, h.drained⟩, fun ⟨hempty, hdrained⟩ => ⟨hempty, ?_, ?_, hdrained⟩⟩
  · intro data recv n flip read
    exact (scan_chain_unasserted hempty data recv flip).not_faults fun h => h rfl
  · intro data recv n flip read b hb
    exact scan_chain_unread hempty hb data recv n flip

/-- The first exchange of a read scan fails, and the device has answered nothing to it that was not read. -/
def FirstLost (usb : Usb) (data : List Byte) (n : Nat) (flip : Bool) (p : Port) : Prop :=
  ∃ x ∈ (scanExchanges data n flip).head?, ∃ q, x.Fails usb p q ∧ unread usb p q = []

theorem scanExchanges_ne_nil (data : List Byte) {n : Nat} (flip : Bool) (hn : 1 ≤ n) : scanExchanges data n flip ≠ [] := by
  intro hnil
  have htotal := scanExchanges_total data n flip
  rw [hnil, answerBytes] at htotal
  have hzero : total [] = 0 := rfl
  cases flip <;> simp [hzero, bulk_bits] at htotal
  omega

theorem scan_chain_recv_true (out : List Byte) (n : Nat) (flip : Bool) (c : Jtag Blaster) :
    Ensures (usb_blaster_jtag_scan_chain_recv out n flip) c fun r _ => r.1 = true := by
  refine Ensures.any_bind fun out₁ _ => Ensures.get_bind (Ensures.any_bind fun bytes _ => ?_)
  refine Ensures.any_bind fun out₂ _ => Ensures.any_bind fun out₃ _ => ?_
  have hdone : ∀ (out : List Byte) (offset len : Nat) (c : Jtag Blaster), Ensures (do
      assert (offset == len)
      modify fun c => { c with dev := { c.dev with recv_buffer_len := 0 } }
      pure (true, out)) c fun r _ => r.1 = true := fun out offset len c =>
    Ensures.any_bind fun _ _ => Ensures.modify_bind (ensures_pure rfl)
  exact ensures_ite (fun _ => Ensures.any_bind fun out₄ _ => hdone _ _ _ _) fun _ => hdone _ _ _ _

/-- An idle Blaster that takes so many writes, and then fails. -/
def cutUsb (writes : Nat) : Usb :=
  { blasterUsb Mpsse.blinkBoard idleBlasterEngine with
    write_result := fun i => if i < writes then .full else .error }

/-- An idle Blaster whose first answer is not read. -/
def lateUsb : Usb :=
  { blasterUsb Mpsse.blinkBoard idleBlasterEngine with
    read_result := fun i => if i = 0 then .error else .full }

end JtagRemote.Blaster
