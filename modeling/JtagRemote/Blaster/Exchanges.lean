import JtagRemote.Blaster.Bounds

/-!
# The exchanges of a scan

Each packet of a read scan is written and then its answer is read, which goes to the end of
`recv_buffer`.
-/

namespace JtagRemote.Blaster

variable {usb : Usb} {c d : Jtag Blaster} {read : Bool}

/-! ## Accesses assert nothing -/

/-- Any fault but a failed assertion. -/
abbrev Unasserted (e : Fault) : Prop := e ≠ .assert_failed

section

variable {σ : Type}

theorem index_unasserted (l : List Byte) (i : Nat) (s : σ) :
    Ends (index l i : EStateM Fault σ Byte) s Unasserted fun _ t => t = s := by
  unfold index
  split
  · exact ends_pure rfl
  · exact ends_throw (by decide)

theorem bit_of_unasserted (l : List Byte) (i : Nat) (s : σ) :
    Ends (bit_of l i : EStateM Fault σ Bool) s Unasserted fun b t => t = s ∧ b = bitAt l i := by
  have h : Ends (bit_of l i : EStateM Fault σ Bool) s Unasserted fun _ _ => True :=
    Ends.bind (index_unasserted l _ s) fun _ _ _ => ends_pure trivial
  exact (h.and (bit_of_spec l i s)).mono fun _ _ hb => ⟨hb.2.1, hb.2.2.1⟩

theorem memcpy_unasserted (dst : List Byte) (off : Nat) (src : List Byte) (s : σ) :
    Ends (memcpy dst off src : EStateM Fault σ (List Byte)) s Unasserted fun _ t => t = s :=
  ends_ite (fun _ => ends_pure rfl) fun _ => ends_throw (by decide)

theorem bytes_at_unasserted (src : List Byte) (off len : Nat) (s : σ) :
    Ends (bytes_at src off len : EStateM Fault σ (List Byte)) s Unasserted fun b t =>
      t = s ∧ b = (src.drop off).take len :=
  ends_ite (fun _ => ends_pure ⟨rfl, rfl⟩) fun _ => ends_throw (by decide)

end

theorem set_bit_unasserted (out : List Byte) (i : Nat) (b : Bool) (c : Jtag Blaster) :
    Ends (set_bit out i b) c Unasserted fun _ d => d = c :=
  ends_ite (fun _ => ends_ite (fun _ => ends_pure rfl) fun _ => ends_throw (by decide)) fun _ => ends_pure rfl

/-! ## The exchanges of a read scan -/

/-- A packet, and the number of bytes that answer it. -/
structure Exchange where
  bytes : List Byte
  trans : Nat
  pos : 1 ≤ trans
  deriving DecidableEq, Repr

/-- The device takes the packet, and then all of the answer is read. -/
def Exchange.Answered (usb : Usb) (x : Exchange) (p : Port) : Prop :=
  ∃ q, ftdi_write_retry usb x.bytes p = .ok true q ∧ ∃ got q', ftdi_read_retry usb x.trans q = .ok (true, got) q'

/-- The packet is not taken, or its answer is not read in full; the port is left so. -/
def Exchange.Fails (usb : Usb) (x : Exchange) (p q : Port) : Prop :=
  ftdi_write_retry usb x.bytes p = .ok false q ∨
    ∃ p', ftdi_write_retry usb x.bytes p = .ok true p' ∧ ∃ got, ftdi_read_retry usb x.trans p' = .ok (false, got) q

/-- An exchange is answered, or it fails. -/
theorem Exchange.not_answered_iff (usb : Usb) (x : Exchange) (p : Port) :
    ¬ x.Answered usb p ↔ ∃ q, x.Fails usb p q := by
  obtain ⟨ok, p', hwrite, -⟩ := ftdi_write_retry_spec usb x.bytes p
  obtain ⟨⟨ok', got⟩, q, hread, -⟩ := @ftdi_read_retry_spec usb x.trans p'
  constructor
  · intro hnot
    cases ok with
    | false => exact ⟨p', .inl hwrite⟩
    | true =>
      cases ok' with
      | false => exact ⟨q, .inr ⟨p', hwrite, got, hread⟩⟩
      | true => exact absurd ⟨p', hwrite, got, q, hread⟩ hnot
  · rintro ⟨r, hfalse | ⟨p'', htrue, got', hfalse⟩⟩ ⟨q', hq', got'', r', hr'⟩
    · rw [hfalse] at hq'
      cases hq'
    · rw [htrue] at hq'
      cases hq'
      rw [hfalse] at hr'
      cases hr'

theorem trans_pos {i len : Nat} (h : i < len) : 1 ≤ min (len - i) MAX_PACKET_SIZE := by
  unfold MAX_PACKET_SIZE
  omega

/-- The packets from byte `i` on. -/
def packetExchanges (data : List Byte) (len : Nat) : Nat → Nat → List Exchange
  | 0, _ => []
  | fuel + 1, i =>
    if h : i < len then
      let trans := min (len - i) MAX_PACKET_SIZE
      ⟨packetHead true trans :: (data.drop i).take trans, trans, trans_pos h⟩ ::
        packetExchanges data len fuel (i + trans)
    else []

def restExchanges (data : List Byte) (bulk : Nat) : List Exchange :=
  if h : bulk % 8 = 0 then []
  else [⟨restBytes data (bulk / 8 * 8) (bulk % 8) true, bulk % 8, Nat.pos_of_ne_zero h⟩]

def lastExchange (data : List Byte) (n : Nat) : Exchange :=
  let bit := bitAt data (size_sub n 1)
  ⟨[build_command true bit false false, build_command true bit true true, build_command true bit false false], 1,
    Nat.one_pos⟩

/-- All exchanges of a read scan, in order. -/
def scanExchanges (data : List Byte) (n : Nat) (flip : Bool) : List Exchange :=
  let bulk := bulk_bits n flip
  packetExchanges data (bulk / 8) (bulk / 8) 0 ++ restExchanges data bulk ++
    if flip then [lastExchange data n] else []

/-- How many bytes answer them. -/
def total (xs : List Exchange) : Nat := (xs.map Exchange.trans).sum

theorem total_append (xs ys : List Exchange) : total (xs ++ ys) = total xs + total ys := by
  rw [total, List.map_append, List.sum_append]
  rfl

theorem total_pos (x : Exchange) (xs : List Exchange) : 1 ≤ total (x :: xs) :=
  Nat.le_trans x.pos (Nat.le_add_right _ _)

theorem packetExchanges_total {data : List Byte} {len fuel i : Nat} (hi : i ≤ len) (hfuel : len - i ≤ fuel) :
    total (packetExchanges data len fuel i) = len - i := by
  induction fuel generalizing i with
  | zero =>
    rw [packetExchanges]
    show 0 = _
    omega
  | succ fuel ih =>
    have hmax : MAX_PACKET_SIZE = 32 := rfl
    rw [packetExchanges]
    split
    · have hrest := ih (i := i + min (len - i) MAX_PACKET_SIZE) (by omega) (by omega)
      show min (len - i) MAX_PACKET_SIZE + total (packetExchanges data len fuel _) = _
      rw [hrest]
      omega
    · show 0 = _
      omega

theorem restExchanges_total (data : List Byte) (bulk : Nat) : total (restExchanges data bulk) = bulk % 8 := by
  unfold restExchanges
  split
  · rename_i hzero
    rw [hzero]
    rfl
  · exact Nat.add_zero _

/-- As many as a receive takes from `recv_buffer`. -/
theorem scanExchanges_total (data : List Byte) (n : Nat) (flip : Bool) :
    total (scanExchanges data n flip) = answerBytes n flip := by
  rw [answerBytes, scanExchanges, total_append, total_append, packetExchanges_total (Nat.zero_le _) (Nat.sub_le _ 0),
    restExchanges_total, Nat.sub_zero]
  cases flip <;> rfl

/-! ## How much they append -/

/-- What a row of exchanges does to `recv_buffer_len`. -/
structure Appends (usb : Usb) (read : Bool) (xs : List Exchange) (c : Jtag Blaster) (r : Bool)
    (d : Jtag Blaster) : Prop where
  grows : c.dev.recv_buffer_len ≤ d.dev.recv_buffer_len
  all : r = true → d.dev.recv_buffer_len = c.dev.recv_buffer_len + if read then total xs else 0
  none : xs = [] → r = true ∧ d = c
  first : read = true → ∀ x ∈ xs.head?,
    (x.Answered usb c.dev.port ↔ c.dev.recv_buffer_len < d.dev.recv_buffer_len)
  fails : read = true → ∀ x ∈ xs.head?, ∀ q, x.Fails usb c.dev.port q → r = false ∧ d.dev.port = q

theorem appends_nil (usb : Usb) (read : Bool) (c : Jtag Blaster) : Appends usb read [] c true c :=
  ⟨Nat.le_refl _, fun _ => by split <;> rfl, fun _ => ⟨rfl, rfl⟩, by simp, by simp⟩

/-- Some exchanges, and if all are answered, some more. -/
theorem Appends.bind {xs ys : List Exchange} {p q : BlasterProg Bool}
    (hp : Ends p c Unasserted (Appends usb read xs c)) (hq : ∀ d, Ends q d Unasserted (Appends usb read ys d)) :
    Ends (do if ← p then q else pure false) c Unasserted (Appends usb read (xs ++ ys) c) := by
  refine Ends.bind hp ?_
  intro r d hd
  refine ends_ite (fun hr => ?_) fun hr => ends_pure ?_
  · refine (hq d).mono fun r' e he => ⟨Nat.le_trans hd.grows he.grows, ?_, ?_, ?_, ?_⟩
    · intro hr'
      rw [he.all hr', hd.all hr, total_append]
      split <;> omega
    · intro hnil
      obtain ⟨rfl, rfl⟩ := List.append_eq_nil_iff.mp hnil
      obtain ⟨-, rfl⟩ := hd.none rfl
      exact he.none rfl
    · intro hread x hx
      cases xs with
      | nil =>
        obtain ⟨-, rfl⟩ := hd.none rfl
        exact he.first hread x hx
      | cons y xs =>
        -- the first part was answered in full, and appended a byte at least
        have hsize := total_pos y xs
        have hlen := hd.all hr
        have hgrows := he.grows
        rw [if_pos hread] at hlen
        exact (hd.first hread x hx).trans ⟨fun _ => by omega, fun _ => by omega⟩
    · intro hread x hx
      cases xs with
      | nil =>
        obtain ⟨-, rfl⟩ := hd.none rfl
        exact he.fails hread x hx
      | cons y xs =>
        intro q hfails
        exact absurd (hd.fails hread x hx q hfails).1 (by rw [hr]; decide)
  · refine ⟨hd.grows, fun h => absurd h (by decide), ?_, ?_, ?_⟩
    · intro hnil
      obtain ⟨rfl, rfl⟩ := List.append_eq_nil_iff.mp hnil
      exact absurd (hd.none rfl).1 hr
    · intro hread x hx
      cases xs with
      | nil => exact absurd (hd.none rfl).1 hr
      | cons y xs => exact hd.first hread x hx
    · intro hread x hx q hfails
      cases xs with
      | nil => exact absurd (hd.none rfl).1 hr
      | cons y xs => exact ⟨rfl, (hd.fails hread x hx q hfails).2⟩

theorem read_appends (trans : Nat) (c : Jtag Blaster) :
    Ends (usb_blaster_read usb trans) c Unasserted fun r d =>
      d.dev.recv_buffer_len = c.dev.recv_buffer_len + (if r then trans else 0) ∧
        ∃ got, ftdi_read_retry usb trans c.dev.port = .ok (r, got) d.dev.port := by
  obtain ⟨⟨ok, got⟩, q, hread, -⟩ := @ftdi_read_retry_spec usb trans c.dev.port
  have hport : blaster_port (ftdi_read_retry usb trans) c = .ok (ok, got) (withPort c q) := by
    rw [blaster_port, focus, hread]
    rfl
  unfold usb_blaster_read
  refine Ends.of_eq_bind hport (Ends.get_bind (ends_ite (fun _ => ?_) fun _ => ends_throw (by decide)))
  refine Ends.bind (memcpy_unasserted _ _ _ _) ?_
  rintro recv_buffer _ rfl
  exact Ends.set_bind (ends_pure ⟨rfl, got, hread⟩)

theorem exchange_appends (x : Exchange) {data : List Byte} (hdata : read = true → data = x.bytes) (c : Jtag Blaster) :
    Ends (usb_blaster_exchange usb data read x.trans) c Unasserted (Appends usb read [x] c) := by
  obtain ⟨ok, p, hwrite, -⟩ := ftdi_write_retry_spec usb data c.dev.port
  have hport : blaster_port (ftdi_write_retry usb data) c = .ok ok (withPort c p) := by
    rw [blaster_port, focus, hwrite]
    rfl
  have hpos := x.pos
  unfold usb_blaster_exchange
  refine Ends.of_eq_bind hport ?_
  refine ends_ite (fun hok => ends_ite (fun hread => ?_) fun hread => ends_pure ?_) fun hok => ends_pure ?_
  · subst hok
    rw [hdata hread] at hwrite
    refine (read_appends x.trans (withPort c p)).mono ?_
    rintro r d ⟨hlen, got, hgot⟩
    have hheld : (withPort c p).dev.recv_buffer_len = c.dev.recv_buffer_len := rfl
    have hport' : (withPort c p).dev.port = p := rfl
    rw [hheld] at hlen
    rw [hport'] at hgot
    refine ⟨by omega, fun hr => ?_, by simp, fun _ y hy => ?_, fun _ y hy q hfails => ?_⟩
    · rw [if_pos hr] at hlen
      rw [if_pos hread]
      exact hlen
    · obtain rfl : x = y := Option.some.inj hy
      constructor
      · rintro ⟨q, hq, got', q', hgot'⟩
        rw [hwrite] at hq
        cases hq
        rw [hgot] at hgot'
        cases hgot'
        rw [if_pos rfl] at hlen
        omega
      · intro hlt
        have hr : r = true := by
          by_contra hr
          rw [if_neg hr] at hlen
          omega
        subst hr
        exact ⟨p, hwrite, got, _, hgot⟩
    · obtain rfl : x = y := Option.some.inj hy
      rcases hfails with hno | ⟨p', hyes, got', hno⟩
      · rw [hwrite] at hno
        cases hno
      · rw [hwrite] at hyes
        cases hyes
        rw [hgot] at hno
        cases hno
        exact ⟨rfl, rfl⟩
  · exact ⟨Nat.le_refl _, fun _ => by rw [if_neg hread]; rfl, by simp, fun h => absurd h hread, fun h => absurd h hread⟩
  · refine ⟨Nat.le_refl _, fun h => absurd h (by decide), by simp, fun hread y hy => ?_, fun hread y hy q hfails => ?_⟩
    · obtain rfl : x = y := Option.some.inj hy
      rw [hdata hread] at hwrite
      refine ⟨?_, fun hlt => absurd hlt (Nat.lt_irrefl _)⟩
      rintro ⟨q, hq, -⟩
      rw [hwrite] at hq
      cases hq
      exact absurd rfl hok
    · obtain rfl : x = y := Option.some.inj hy
      rw [hdata hread] at hwrite
      rcases hfails with hno | ⟨p', hyes, -⟩
      · rw [hwrite] at hno
        cases hno
        exact ⟨rfl, rfl⟩
      · rw [hwrite] at hyes
        cases hyes
        exact absurd rfl hok

theorem packets_append (data : List Byte) (len fuel i : Nat) (c : Jtag Blaster) :
    Ends (usb_blaster_packets usb data len read fuel i) c Unasserted
      (Appends usb read (packetExchanges data len fuel i) c) := by
  induction fuel generalizing i c with
  | zero => exact ends_ite (fun _ => ends_throw (by decide)) fun _ => ends_pure (appends_nil usb read c)
  | succ fuel ih =>
    rw [packetExchanges]
    refine ends_ite (fun hlt => ?_) fun hdone => ?_
    · rw [dif_pos hlt]
      refine Ends.bind (bytes_at_unasserted data i _ c) ?_
      rintro _ _ ⟨rfl, rfl⟩
      exact Appends.bind (exchange_appends ⟨_, _, trans_pos hlt⟩ (fun hread => by rw [hread]; rfl) _) fun d => ih _ d
    · rw [dif_neg hdone]
      exact ends_pure (appends_nil usb read c)

theorem send_rest_appends (data : List Byte) (bulk : Nat) (c : Jtag Blaster) :
    Ends (usb_blaster_send_rest usb data bulk read) c Unasserted (Appends usb read (restExchanges data bulk) c) := by
  unfold restExchanges
  refine ends_ite (fun hzero => ?_) fun hne => ?_
  · rw [dif_pos hzero]
    exact ends_pure (appends_nil usb read c)
  · rw [dif_neg hne]
    refine Ends.bind (Ends.forUpto (fun i buffer k => k = c ∧ buffer = restBytes data (bulk / 8 * 8) i read)
      ⟨rfl, rfl⟩ ?_) ?_
    · rintro i _ _ - ⟨rfl, rfl⟩
      refine Ends.bind (bit_of_unasserted data _ _) ?_
      rintro bit _ ⟨rfl, rfl⟩
      exact ends_pure ⟨rfl, (restBytes_succ data _ i read).symm⟩
    · rintro _ _ ⟨rfl, rfl⟩
      exact exchange_appends ⟨_, _, _⟩ (fun hread => by rw [hread]) _

theorem send_last_appends (data : List Byte) (n : Nat) (c : Jtag Blaster) :
    Ends (usb_blaster_send_last usb data n read) c Unasserted (Appends usb read [lastExchange data n] c) := by
  unfold usb_blaster_send_last
  refine Ends.modify_bind (Ends.bind (bit_of_unasserted data _ _) ?_)
  rintro bit _ ⟨rfl, rfl⟩
  refine (exchange_appends (lastExchange data n) (fun hread => ?_) _).mono
    fun r d h => ⟨h.grows, h.all, by simp, h.first, h.fails⟩
  rw [hread]
  rfl

/-- From an empty buffer a scan asserts nothing. -/
theorem scan_chain_send_appends (hempty : c.dev.recv_buffer_len = 0) (data : List Byte) (n : Nat) (flip : Bool) :
    Ends (usb_blaster_jtag_scan_chain_send usb data n flip read) c Unasserted
      (Appends usb read (scanExchanges data n flip) c) := by
  unfold usb_blaster_jtag_scan_chain_send scanExchanges
  have hassert : (assert (c.dev.recv_buffer_len == 0) : BlasterProg Unit) c = .ok () c :=
    assert_ok (by rw [hempty]; rfl) c
  refine Ends.of_eq_bind (get_apply c) (Ends.of_eq_bind hassert ?_)
  rw [List.append_assoc]
  refine Appends.bind (packets_append data _ _ 0 c) fun d => ?_
  refine Appends.bind (send_rest_appends data _ d) fun k => ?_
  refine ends_ite (fun hflip => ?_) fun hflip => ends_pure ?_
  · rw [if_pos hflip]
    exact send_last_appends data n k
  · rw [if_neg hflip]
    exact appends_nil usb read k

end JtagRemote.Blaster
