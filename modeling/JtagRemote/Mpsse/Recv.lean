import JtagRemote.Mpsse.Calls

/-!
# Reading a scan back

The response bytes of a scan are its whole bytes, the rest bits in the top of
one byte, and the last bit in the top of another one. Reads may be short.
-/

namespace JtagRemote.Mpsse

variable {usb : Usb}

def withPort (c : Jtag Mpsse) (p : Port) : Jtag Mpsse := { c with dev := { c.dev with port := p } }

/-- The call only took `got` from the device. -/
def Takes (usb : Usb) (c d : Jtag Mpsse) (got : List Byte) : Prop :=
  ∃ p, c.dev.port.Took usb p got ∧ d = withPort c p

theorem Takes.refl (c : Jtag Mpsse) : Takes usb c c [] := ⟨c.dev.port, .refl usb _, rfl⟩

theorem Takes.trans {c d e : Jtag Mpsse} {l m : List Byte} (h : Takes usb c d l)
    (h' : Takes usb d e m) : Takes usb c e (l ++ m) := by
  obtain ⟨p, hp, rfl⟩ := h
  obtain ⟨q, hq, rfl⟩ := h'
  exact ⟨q, hp.trans hq, rfl⟩

theorem Takes.state {c d : Jtag Mpsse} {l : List Byte} (h : Takes usb c d l) : d.state = c.state := by
  obtain ⟨p, -, rfl⟩ := h
  rfl

theorem Takes.stream {c d : Jtag Mpsse} {l : List Byte} (h : Takes usb c d l) :
    stream d = stream c := by
  obtain ⟨p, hp, rfl⟩ := h
  simp only [Mpsse.stream, withPort, hp.delivered]

theorem Takes.taken {c d : Jtag Mpsse} {l : List Byte} (h : Takes usb c d l) :
    d.dev.port.taken = c.dev.port.taken + l.length := by
  obtain ⟨p, hp, rfl⟩ := h
  exact hp.taken

theorem Takes.eq_take {c d : Jtag Mpsse} {l : List Byte} (h : Takes usb c d l) :
    l = (usb.waiting c.dev.port).take l.length := by
  obtain ⟨p, hp, rfl⟩ := h
  exact hp.eq_take

theorem read_data_spec (usb : Usb) (len : Nat) (c : Jtag Mpsse) :
    Returns (mpsse_port (ftdi_read_data usb len)) c fun r d =>
      d.dev.port.num_reads = c.dev.port.num_reads + 1 ∧
        ∃ got, Takes usb c d got ∧ got.length ≤ len ∧ (r = none ∧ got = [] ∨ r = some got) := by
  refine Returns.mono (Returns.focus (ftdi_read_data_spec len c.dev.port)) ?_
  rintro r _ ⟨p, ⟨hnum, got, hgot, hlen, hr⟩, rfl⟩
  exact ⟨hnum, got, ⟨p, hgot, rfl⟩, hlen, hr⟩

/-! ## The two loops -/

/-- `done` is read already; the loop fills what follows it. -/
theorem read_loop_spec (len fuel : Nat) (done : List Byte) (k : Nat) (c : Jtag Mpsse)
    (hdone : done.length ≤ len) :
    Ensures (mpsse_read_loop usb len fuel done.length (done ++ List.replicate k 0)) c fun r d =>
      r.1 = true → ∃ got, Takes usb c d got ∧ done.length + got.length = len ∧
        r.2 = done ++ got ++ List.replicate (k - got.length) 0 := by
  induction fuel generalizing done k c with
  | zero =>
    unfold mpsse_read_loop
    split
    · exact ensures_throw
    · exact ensures_pure fun _ => ⟨[], .refl c, by simp; omega, by simp⟩
  | succ fuel ih =>
    unfold mpsse_read_loop
    split
    · refine Ensures.bind (read_data_spec usb (len - done.length) c).ensures ?_
      rintro r d ⟨-, got, hgot, hlen, ⟨rfl, rfl⟩ | rfl⟩
      · exact ensures_pure (by simp)
      · refine Ensures.bind (memcpy_spec _ _ got d) ?_
        rintro _ _ ⟨rfl, rfl, -⟩
        rw [splice_append_replicate, ← List.length_append]
        refine (ih (done ++ got) _ _ (by rw [List.length_append]; omega)).mono ?_
        rintro r e he hr
        obtain ⟨more, hmore, hall, hout⟩ := he hr
        refine ⟨got ++ more, hgot.trans hmore, ?_, ?_⟩
        · rw [List.length_append] at hall ⊢
          omega
        · rw [hout, List.length_append, Nat.sub_sub]
          simp only [List.append_assoc]
    · exact ensures_pure fun _ => ⟨[], .refl c, by simp; omega, by simp⟩

theorem last_loop_spec (fuel : Nat) (c : Jtag Mpsse) :
    Ensures (mpsse_last_loop usb fuel) c fun b d => Takes usb c d [b] := by
  induction fuel generalizing c with
  | zero => exact ensures_throw
  | succ fuel ih =>
    unfold mpsse_last_loop
    refine Ensures.bind (read_data_spec usb 1 c).ensures ?_
    rintro r d ⟨-, got, hgot, hlen, ⟨rfl, rfl⟩ | rfl⟩
    · exact (ih d).mono fun b e he => hgot.trans he
    · match got, hlen with
      | [], _ => exact (ih d).mono fun b e he => hgot.trans he
      | [b], _ => exact ensures_pure hgot

/-! ## The call -/

theorem is_empty_ok (c : Jtag Mpsse) :
    mpsse_buffer_is_empty c = .ok (c.dev.mpsse_buffer.length == 0) c := rfl

/-- The commands that wait go out, with one byte behind them that clocks nothing. -/
theorem send_pending_spec (usb : Usb) (c : Jtag Mpsse) :
    Returns (mpsse_send_pending usb) c fun r d =>
      r = true → d.state = c.state ∧ d.dev.mpsse_buffer = [] ∧
        d.dev.port.taken = c.dev.port.taken ∧ d.dev.port.num_reads = c.dev.port.num_reads ∧
        (stream d = stream c ∨ stream d = stream c ++ [SEND_IMMEDIATE]) := by
  unfold mpsse_send_pending
  refine Returns.of_eq_bind (is_empty_ok c) ?_
  split
  · rename_i h
    have hbuf : c.dev.mpsse_buffer = [] := by simpa using h
    exact returns_pure fun _ => ⟨rfl, hbuf, rfl, rfl, Or.inl rfl⟩
  · refine Returns.bind (ensure_space_spec c 1) ?_
    rintro r d ⟨hst, hd⟩
    cases r with
    | false => exact returns_pure (by simp)
    | true =>
      obtain ⟨hcd, hroom⟩ := hd rfl
      refine Returns.bind (append_returns d [SEND_IMMEDIATE] (by simp; omega)) ?_
      rintro _ e ⟨hst', hde, -⟩
      refine (flush_spec e).mono ?_
      rintro r f ⟨hst'', hf⟩ hr
      obtain ⟨hef, hbuf⟩ := hf hr
      have h := (hcd.trans hde).trans hef
      refine ⟨by rw [hst'', hst', hst], hbuf, h.taken, h.num_reads, Or.inr ?_⟩
      rw [h.stream]
      simp

theorem send_pending_succeeds (h : usb.Delivers) (c : Jtag Mpsse) :
    Returns (mpsse_send_pending usb) c fun r _ => r = true := by
  unfold mpsse_send_pending
  refine Returns.of_eq_bind (is_empty_ok c) ?_
  split
  · exact returns_pure rfl
  · refine Returns.bind ((ensure_space_succeeds h c 1 (by decide)).and (ensure_space_spec c 1).ensures) ?_
    rintro _ d ⟨rfl, -, hd⟩
    obtain ⟨-, hroom⟩ := hd rfl
    refine Returns.bind (append_returns d [SEND_IMMEDIATE] (by simp; omega)) ?_
    intro _ e _
    exact flush_succeeds h e

/-- What stands in the buffer before the last bit, for the bulk of a scan. -/
theorem align_rest_spec (t u : List Bool) (a : Byte) (k : Nat) (c : Jtag Mpsse)
    (ht : t.length % 8 = 0) (hu : u.length < 8) :
    Returns (mpsse_align_rest (packBits t ++ restAnswer a u ++ List.replicate k 0)
      (t.length + u.length)) c fun r d => d = c ∧ r = packBits (t ++ u) ++ List.replicate k 0 := by
  have hmod : (t.length + u.length) % 8 = u.length := by omega
  have hdiv : (t.length + u.length) / 8 = (packBits t).length := by
    rw [packBits_length]
    omega
  unfold mpsse_align_rest
  rw [hmod, hdiv, packBits_append t u ht]
  split
  · rename_i h0
    obtain rfl := List.eq_nil_of_length_eq_zero h0
    exact returns_pure ⟨rfl, by simp [restAnswer, packBits_nil]⟩
  · rename_i h0
    have hne : ¬ u = [] := by
      rintro rfl
      exact h0 rfl
    rw [restAnswer, if_neg hne, packBits_short u (by omega) (by omega), List.append_assoc]
    refine Returns.of_eq_bind (index_ok (by simp) c) ?_
    refine returns_pure ⟨rfl, ?_⟩
    rw [List.getD_append_right _ _ _ _ (Nat.le_refl _), List.set_append_right _ _ (Nat.le_refl _),
      Nat.sub_self, List.append_assoc]
    simp [topBits_shift a u (by omega)]

/-- What is left of a call once the whole bytes and the rest bits are there. -/
theorem recv_last_spec (fuel n : Nat) (bs : List Bool) (k : Nat) (c : Jtag Mpsse)
    (hn : n = bs.length + 1) (hn' : n < 2 ^ 64) :
    Ensures (do
      let last_bit ← mpsse_last_loop usb fuel
      let recv ← or_bit (packBits bs ++ List.replicate k 0) (size_sub n 1) (last_bit.getLsbD 7)
      pure (true, recv) : MpsseProg (Bool × List Byte)) c fun r d =>
        ∃ b, Takes usb c d [b] ∧ Holds r.2 (bs ++ [b.getLsbD 7]) ∧
          r.2.length = (packBits bs).length + k := by
  refine Ensures.bind (last_loop_spec fuel c) ?_
  intro b d hd
  rw [size_sub_of_le (by omega) hn', hn, Nat.add_sub_cancel]
  refine Ensures.bind (or_bit_spec _ _ _ d) ?_
  rintro _ _ ⟨rfl, rfl, hlt⟩
  exact ensures_pure ⟨b, hd, (holds_packBits bs k).orBit _ hlt, by simp⟩

/-- Sender and receiver agree on the number of bytes that the bulk of a scan comes back in. -/
theorem recv_len (t u : List Bool) (a : Byte) (ht : t.length % 8 = 0) (hu : u.length < 8)
    (h : t.length + u.length + 7 < 2 ^ 64) :
    (t.length + u.length + 7) % 2 ^ 64 / 8 = (packBits t ++ restAnswer a u).length := by
  rw [Nat.mod_eq_of_lt h, List.length_append, packBits_length, restAnswer]
  split
  · rename_i h0
    simp [h0]
  · rename_i h0
    have := List.length_pos_of_ne_nil h0
    simp
    omega

theorem memset_replicate (size len : Nat) (c : Jtag Mpsse) :
    Ensures (memset_zero (List.replicate size 0) len) c fun r d =>
      d = c ∧ r = List.replicate size 0 ∧ len ≤ size := by
  refine (memcpy_spec _ 0 _ c).mono ?_
  rintro _ _ ⟨rfl, rfl, hsize⟩
  rw [splice_replicate, List.length_replicate, List.replicate_append_replicate,
    Nat.add_sub_cancel' (by simpa using hsize)]
  exact ⟨rfl, rfl, by simpa using hsize⟩

/-- Once the commands are out, the device has answered them. -/
theorem waiting_of_sent {c d : Jtag Mpsse} {w : List Byte} (hbuf : d.dev.mpsse_buffer = [])
    (htaken : d.dev.port.taken = c.dev.port.taken)
    (hstream : stream d = stream c ∨ stream d = stream c ++ [SEND_IMMEDIATE])
    (hwait : ∀ l, l = stream c ∨ l = stream c ++ [SEND_IMMEDIATE] →
      (usb.respond l).drop c.dev.port.taken = w) : usb.waiting d.dev.port = w := by
  have hdel : stream d = d.dev.port.delivered := by simp [Mpsse.stream, hbuf]
  rw [Usb.waiting, ← hdel, htaken, hwait _ hstream]

/-- A call takes exactly the bytes that answer its scan, and finds the TDO bits in them. -/
theorem scan_chain_recv_spec (fuel size n : Nat) (flip : Bool) (tdo : List Bool) (rs rest : List Byte)
    (c : Jtag Mpsse) (hn : 1 ≤ n) (hn' : n + 7 < 2 ^ 64) (hans : ScanAnswer n flip tdo rs)
    (hwait : ∀ l, l = stream c ∨ l = stream c ++ [SEND_IMMEDIATE] →
      (usb.respond l).drop c.dev.port.taken = rs ++ rest) :
    Ensures (mpsse_jtag_scan_chain_recv usb fuel (List.replicate size 0) n flip) c fun r d =>
      r.1 = true → d.state = c.state ∧
        (stream d = stream c ∨ stream d = stream c ++ [SEND_IMMEDIATE]) ∧
        d.dev.port.taken = c.dev.port.taken + rs.length ∧ Holds r.2 tdo ∧ r.2.length = size := by
  obtain ⟨t, u, v, a, b, rfl, ht, hu, hv, rfl⟩ := hans
  unfold mpsse_jtag_scan_chain_recv
  refine Ensures.bind (send_pending_spec usb c).ensures ?_
  intro r d hd
  cases r with
  | false => exact ensures_pure (by simp)
  | true =>
    obtain ⟨hst, hbuf, htaken, -, hstream⟩ := hd rfl
    have hw := waiting_of_sent hbuf htaken hstream hwait
    rw [List.append_assoc] at hw
    simp only [if_true]
    rw [bulk_bits_of_pos flip hn (by omega)]
    have htu : (if flip then n - 1 else n) = t.length + u.length := by omega
    rw [htu]
    have hlt : t.length + u.length ≤ n := by
      rw [← htu]
      split <;> omega
    rw [recv_len t u a (by omega) (by omega) (by omega)]
    refine Ensures.bind (memset_replicate size _ d) ?_
    rintro _ _ ⟨rfl, rfl, hfits⟩
    have hpack : (packBits (t ++ u)).length = (packBits t ++ restAnswer a u).length := by
      rw [← recv_len t u a (by omega) (by omega) (by omega), Nat.mod_eq_of_lt (by omega),
        packBits_length, List.length_append]
    refine Ensures.bind (read_loop_spec _ fuel [] size _ (Nat.zero_le _)) ?_
    rintro ⟨ok, recv⟩ e he
    cases ok with
    | false => exact ensures_pure (by simp)
    | true =>
      obtain ⟨got, hgot, hall, hrecv⟩ := he rfl
      have hgot' : got = packBits t ++ restAnswer a u := by
        rw [hgot.eq_take, hw]
        exact List.take_left' (by simpa using hall.symm)
      rw [hgot', List.nil_append] at hrecv
      simp only at hrecv
      subst hrecv
      simp only [if_true]
      refine Ensures.bind (align_rest_spec t u a _ e (by omega) (by omega)).ensures ?_
      rintro _ _ ⟨rfl, rfl⟩
      cases flip with
      | false =>
        obtain rfl := List.eq_nil_of_length_eq_zero hv
        refine ensures_pure fun _ => ⟨hgot.state.trans hst, ?_, ?_, ?_, ?_⟩
        · rw [hgot.stream]
          exact hstream
        · rw [hgot.taken, htaken, hgot']
          simp [restAnswer]
        · simpa using holds_packBits (t ++ u) _
        · rw [List.length_append, List.length_replicate, hpack]
          omega
      | true =>
        obtain ⟨x, rfl⟩ := List.length_eq_one_iff.mp hv
        refine (recv_last_spec fuel n (t ++ u) _ _ ?_ (by omega)).mono ?_
        · simp only [if_true] at htu
          rw [List.length_append]
          omega
        · rintro ⟨ok, recv⟩ f ⟨y, hy, hholds, hsize⟩ -
          have hy' : y = topBits b [x] := by
            have hboth := (hgot.trans hy).eq_take
            rw [hw, hgot', List.length_append, List.take_length_add_append] at hboth
            simpa [restAnswer] using hboth
          refine ⟨hy.state.trans (hgot.state.trans hst), ?_, ?_, ?_, ?_⟩
          · rw [hy.stream, hgot.stream]
            exact hstream
          · rw [hy.taken, hgot.taken, htaken, hgot']
            simp [restAnswer]
            omega
          · rw [hy', topBits_single] at hholds
            exact hholds
          · rw [hsize, hpack]
            omega

/-! ## Enough reads -/

theorem Takes.waiting {c d : Jtag Mpsse} {l : List Byte} (h : Takes usb c d l) :
    usb.waiting d.dev.port = (usb.waiting c.dev.port).drop l.length := by
  obtain ⟨p, hp, rfl⟩ := h
  exact hp.waiting

theorem read_data_live (len : Nat) (c : Jtag Mpsse)
    (h : 1 ≤ (usb.read_result c.dev.port.num_reads).size len) (hw : usb.waiting c.dev.port ≠ []) :
    Ensures (mpsse_port (ftdi_read_data usb len)) c fun r _ => ∃ got, r = some got ∧ got ≠ [] := by
  refine Ensures.mono (Ensures.focus (ftdi_read_data_live len c.dev.port h hw)) ?_
  rintro r _ ⟨_, h, -⟩
  exact h

theorem read_loop_mono {len fuel more off : Nat} {recv : List Byte} {c d : Jtag Mpsse}
    {r : Bool × List Byte} (h : mpsse_read_loop usb len fuel off recv c = .ok r d) :
    mpsse_read_loop usb len (fuel + more) off recv c = .ok r d := by
  induction fuel generalizing off recv c with
  | zero =>
    rw [Nat.zero_add]
    cases more with
    | zero => exact h
    | succ more =>
      unfold mpsse_read_loop at h ⊢
      split at h
      · cases h
      · rename_i hle
        rw [if_neg hle]
        exact h
  | succ fuel ih =>
    rw [Nat.add_right_comm]
    unfold mpsse_read_loop at h ⊢
    split at h
    · rename_i hlt
      rw [if_pos hlt]
      obtain ⟨x, c', hx, h⟩ := bind_eq_ok.mp h
      rw [bind_of_ok hx]
      cases x with
      | none => exact h
      | some got =>
        obtain ⟨y, c'', hy, h⟩ := bind_eq_ok.mp h
        exact (bind_of_ok hy).trans (ih h)
    · rename_i hle
      rw [if_neg hle]
      exact h

theorem last_loop_mono {fuel more : Nat} {c d : Jtag Mpsse} {b : Byte}
    (h : mpsse_last_loop usb fuel c = .ok b d) : mpsse_last_loop usb (fuel + more) c = .ok b d := by
  induction fuel generalizing c with
  | zero => cases h
  | succ fuel ih =>
    rw [Nat.add_right_comm]
    unfold mpsse_last_loop at h ⊢
    obtain ⟨x, c', hx, h⟩ := bind_eq_ok.mp h
    rw [bind_of_ok hx]
    match x with
    | none => exact ih h
    | some [] => exact ih h
    | some [_] => exact h
    | some (_ :: _ :: _) => exact ih h

/-- A round of the loop that gets some bytes, or none. -/
theorem read_loop_round {len fuel off : Nat} {recv got : List Byte} {c d : Jtag Mpsse}
    (hlt : len > off) (hroom : off + got.length ≤ recv.length)
    (hx : mpsse_port (ftdi_read_data usb (len - off)) c = .ok (some got) d) :
    mpsse_read_loop usb len (fuel + 1) off recv c =
      mpsse_read_loop usb len fuel (off + got.length) (splice recv off got) d := by
  conv_lhs => unfold mpsse_read_loop
  rw [if_pos hlt, bind_of_ok hx]
  exact bind_of_ok (memcpy_ok hroom d)

/-- With enough bytes at the device the loop ends. The inductions are on the bytes that
are missing, and on the reads until one that gives something. -/
theorem read_loop_live (hlive : usb.Live) (len m w off : Nat) (recv : List Byte) (c : Jtag Mpsse)
    (hm : len - off = m) (hlen : len ≤ recv.length) (hw : m ≤ (usb.waiting c.dev.port).length)
    (hj : ∀ len, 1 ≤ len → 1 ≤ (usb.read_result (c.dev.port.num_reads + w)).size len) :
    ∃ fuel, Returns (mpsse_read_loop usb len fuel off recv) c fun _ _ => True := by
  induction m using Nat.strongRecOn generalizing w off recv c with
  | ind m ihm =>
  induction w using Nat.strongRecOn generalizing off recv c with
  | ind w ihw =>
  by_cases hlt : len > off
  · obtain ⟨r, d, hx, hnum, got, hgot, hgotlen, ⟨rfl, -⟩ | rfl⟩ := read_data_spec usb (len - off) c
    · refine ⟨1, (false, recv), d, ?_, trivial⟩
      unfold mpsse_read_loop
      rw [if_pos hlt, bind_of_ok hx]
      rfl
    · have hlen' : len ≤ (splice recv off got).length := by
        rwa [splice_length _ _ _ (by omega)]
      have hrest : m - got.length ≤ (usb.waiting d.dev.port).length := by
        rw [hgot.waiting, List.length_drop]
        omega
      have hnext : ∃ fuel, Returns (mpsse_read_loop usb len fuel (off + got.length)
          (splice recv off got)) d fun _ _ => True := by
        by_cases hne : got = []
        · have hw0 : w ≠ 0 := by
            rintro rfl
            have hwait : usb.waiting c.dev.port ≠ [] := List.ne_nil_of_length_pos (by omega)
            obtain ⟨got', hsome, hne'⟩ := read_data_live _ c (hj _ (by omega)) hwait _ _ hx
            cases hsome
            exact hne' hne
          subst hne
          refine ihw (w - 1) (by omega) _ _ d (by simpa using hm) hlen' (by simpa using hrest) ?_
          have hnext : d.dev.port.num_reads + (w - 1) = c.dev.port.num_reads + w := by omega
          rwa [hnext]
        · have hpos := List.length_pos_of_ne_nil hne
          obtain ⟨j, hj', hlivej⟩ := hlive d.dev.port.num_reads
          refine ihm (m - got.length) (by omega) (j - d.dev.port.num_reads) _ _ d (by omega) hlen' hrest ?_
          rwa [Nat.add_sub_cancel' hj']
      obtain ⟨fuel, hfuel⟩ := hnext
      refine ⟨fuel + 1, ?_⟩
      unfold Returns at hfuel ⊢
      rwa [read_loop_round hlt (by omega) hx]
  · refine ⟨0, ?_⟩
    unfold mpsse_read_loop
    rw [if_neg hlt]
    exact returns_pure trivial

theorem last_loop_live (w : Nat) (c : Jtag Mpsse) (hw : usb.waiting c.dev.port ≠ [])
    (hj : ∀ len, 1 ≤ len → 1 ≤ (usb.read_result (c.dev.port.num_reads + w)).size len) :
    ∃ fuel, Returns (mpsse_last_loop usb fuel) c fun _ _ => True := by
  induction w using Nat.strongRecOn generalizing c with
  | ind w ihw =>
  obtain ⟨r, d, hx, hnum, got, hgot, hgotlen, hr⟩ := read_data_spec usb 1 c
  have hagain : got = [] → w ≠ 0 → ∃ fuel, Returns (mpsse_last_loop usb fuel) d fun _ _ => True := by
    rintro rfl hw0
    refine ihw (w - 1) (by omega) d (by simpa [hgot.waiting] using hw) ?_
    have hnext : d.dev.port.num_reads + (w - 1) = c.dev.port.num_reads + w := by omega
    rwa [hnext]
  have hsome : w = 0 → ∃ got', r = some got' ∧ got' ≠ [] := by
    rintro rfl
    exact read_data_live 1 c (hj 1 (Nat.le_refl 1)) hw r d hx
  match got, hgotlen with
  | [b], _ =>
    refine ⟨1, b, d, ?_, trivial⟩
    obtain ⟨-, hnil⟩ | rfl := hr
    · cases hnil
    · unfold mpsse_last_loop
      rw [bind_of_ok hx]
      rfl
  | [], _ =>
    have hw0 : w ≠ 0 := by
      intro h0
      obtain ⟨got', rfl, hne⟩ := hsome h0
      obtain ⟨hnone, -⟩ | heq := hr
      · cases hnone
      · cases heq
        exact hne rfl
    obtain ⟨fuel, b, e, hb, -⟩ := hagain rfl hw0
    refine ⟨fuel + 1, b, e, ?_, trivial⟩
    unfold mpsse_last_loop
    rw [bind_of_ok hx]
    obtain ⟨rfl, -⟩ | rfl := hr
    · exact hb
    · exact hb

theorem read_loop_live_end (hlive : usb.Live) (len : Nat) (recv : List Byte) (c : Jtag Mpsse)
    (hlen : len ≤ recv.length) (hw : len ≤ (usb.waiting c.dev.port).length) :
    ∃ fuel, Returns (mpsse_read_loop usb len fuel 0 recv) c fun _ _ => True := by
  obtain ⟨j, hj, hlivej⟩ := hlive c.dev.port.num_reads
  refine read_loop_live hlive len len (j - c.dev.port.num_reads) 0 recv c rfl hlen hw ?_
  rwa [Nat.add_sub_cancel' hj]

/-- The call ends when its loops do. -/
theorem scan_chain_recv_of_loops {fuel size n : Nat} {flip ok : Bool} {t u : List Bool} {a : Byte}
    {rest recv : List Byte} {c d e : Jtag Mpsse} (hn : 1 ≤ n) (hn' : n + 7 < 2 ^ 64)
    (hsize : n ≤ 8 * size) (ht : t.length = 8 * ((if flip then n - 1 else n) / 8))
    (hu : u.length = (if flip then n - 1 else n) % 8) (hsend : mpsse_send_pending usb c = .ok true d)
    (hw : usb.waiting d.dev.port = packBits t ++ restAnswer a u ++ rest)
    (hloop : mpsse_read_loop usb (packBits t ++ restAnswer a u).length fuel 0 (List.replicate size 0) d =
      .ok (ok, recv) e)
    (hlast : flip = true → ok = true → Returns (mpsse_last_loop usb fuel) e fun _ _ => True) :
    Returns (mpsse_jtag_scan_chain_recv usb fuel (List.replicate size 0) n flip) c
      fun r _ => ok = true → r.1 = true := by
  have htu : (if flip then n - 1 else n) = t.length + u.length := by omega
  have hlt : t.length + u.length ≤ n := by
    rw [← htu]
    split <;> omega
  have hlen := recv_len t u a (by omega) (by omega) (by omega)
  have hfits : (packBits t ++ restAnswer a u).length ≤ size := by
    rw [← hlen]
    omega
  have hmemset : (memset_zero (List.replicate size 0) (packBits t ++ restAnswer a u).length :
      MpsseProg (List Byte)) d = .ok (List.replicate size 0) d := by
    rw [memset_zero_ok (by rwa [List.length_replicate]), splice_replicate, List.length_replicate,
      List.replicate_append_replicate, Nat.add_sub_cancel' hfits]
  refine Returns.of_eq_bind hsend ?_
  simp only [if_true]
  rw [bulk_bits_of_pos flip hn (by omega), htu, hlen]
  refine Returns.of_eq_bind hmemset ?_
  refine Returns.of_eq_bind hloop ?_
  cases ok with
  | false => exact returns_pure (by simp)
  | true =>
    obtain ⟨got, hgot, hall, hrecv⟩ := read_loop_spec _ fuel [] size d (Nat.zero_le _) _ _ hloop rfl
    have hgot' : got = packBits t ++ restAnswer a u := by
      rw [hgot.eq_take, hw]
      exact List.take_left' (by simpa using hall.symm)
    rw [hgot', List.nil_append] at hrecv
    simp only at hrecv
    subst hrecv
    simp only [if_true]
    obtain ⟨_, _, halign, rfl, rfl⟩ := align_rest_spec t u a
      (size - (packBits t ++ restAnswer a u).length) e (by omega) (by omega)
    refine Returns.of_eq_bind halign ?_
    cases flip with
    | false => exact returns_pure fun _ => rfl
    | true =>
      obtain ⟨y, f, hy, -⟩ := hlast rfl rfl
      refine Returns.of_eq_bind hy ?_
      rw [size_sub_of_le hn (by omega)]
      refine Returns.of_eq_bind (or_bit_ok ?_ _ f) (returns_pure fun _ => rfl)
      rw [List.length_append, List.length_replicate, packBits_length, List.length_append]
      rw [Nat.mod_eq_of_lt (by omega)] at hlen
      omega

/-- Behind the bulk of a scan there is the byte of its last bit. -/
theorem last_waits {n : Nat} {t u v : List Bool} {a b : Byte} {rest got : List Byte}
    {d e : Jtag Mpsse} (hv : v.length = 1)
    (hw : usb.waiting d.dev.port = packBits t ++ restAnswer a u ++ (restAnswer b v ++ rest))
    (hgot : Takes usb d e got) (hn : n = (packBits t ++ restAnswer a u).length)
    (hall : got.length = n) : usb.waiting e.dev.port ≠ [] := by
  obtain ⟨x, rfl⟩ := List.length_eq_one_iff.mp hv
  rw [hgot.waiting, hw, List.drop_left' (hall.trans hn).symm]
  simp [restAnswer]

/-- Enough reads end the call, when the answer to the scan is there. -/
theorem scan_chain_recv_returns (hlive : usb.Live) (size n : Nat) (flip : Bool) (tdo : List Bool)
    (rs rest : List Byte) (c : Jtag Mpsse) (hn : 1 ≤ n) (hn' : n + 7 < 2 ^ 64)
    (hsize : n ≤ 8 * size) (hans : ScanAnswer n flip tdo rs)
    (hwait : ∀ l, l = stream c ∨ l = stream c ++ [SEND_IMMEDIATE] →
      (usb.respond l).drop c.dev.port.taken = rs ++ rest) :
    ∃ fuel, Returns (mpsse_jtag_scan_chain_recv usb fuel (List.replicate size 0) n flip) c
      fun _ _ => True := by
  obtain ⟨t, u, v, a, b, rfl, ht, hu, hv, rfl⟩ := hans
  have hbulk : (if flip then n - 1 else n) ≤ n := by split <;> omega
  obtain ⟨r, d, hsend, hd⟩ := send_pending_spec usb c
  cases r with
  | false =>
    exact ⟨0, Returns.of_eq_bind hsend (returns_pure trivial)⟩
  | true =>
    obtain ⟨-, hbuf, htaken, -, hstream⟩ := hd rfl
    have hw := waiting_of_sent hbuf htaken hstream hwait
    rw [List.append_assoc] at hw
    have hfits : (packBits t ++ restAnswer a u).length ≤ size := by
      rw [← recv_len t u a (by omega) (by omega) (by omega)]
      omega
    obtain ⟨f₁, ⟨ok, recv⟩, e, hloop, -⟩ := read_loop_live_end hlive
      (packBits t ++ restAnswer a u).length (List.replicate size 0) d
      (by rwa [List.length_replicate]) (by rw [hw]; simp only [List.length_append]; omega)
    have hlast : ∃ f₂, flip = true → ok = true →
        Returns (mpsse_last_loop usb f₂) e fun _ _ => True := by
      by_cases hf : flip = true ∧ ok = true
      · obtain ⟨rfl, rfl⟩ := hf
        obtain ⟨got, hgot, hall, -⟩ := read_loop_spec _ f₁ [] size d (Nat.zero_le _) _ _ hloop rfl
        obtain ⟨j, hj, hlivej⟩ := hlive e.dev.port.num_reads
        obtain ⟨f₂, h⟩ := last_loop_live (j - e.dev.port.num_reads) e
          (last_waits hv hw hgot rfl (by simpa using hall)) (by rwa [Nat.add_sub_cancel' hj])
        exact ⟨f₂, fun _ _ => h⟩
      · exact ⟨0, fun h h' => absurd ⟨h, h'⟩ hf⟩
    obtain ⟨f₂, hlast⟩ := hlast
    refine ⟨f₁ + f₂, (scan_chain_recv_of_loops hn hn' hsize ht hu hsend hw (read_loop_mono hloop)
      ?_).mono fun _ _ _ => trivial⟩
    intro hf hok
    obtain ⟨y, f, hy, -⟩ := hlast hf hok
    rw [Nat.add_comm]
    exact ⟨y, f, last_loop_mono hy, trivial⟩

/-! ## Reads that succeed -/

theorem port_ok {α : Type} {p : EStateM Fault Port α} {c : Jtag Mpsse} {r : α} {q : Port}
    (h : p c.dev.port = .ok r q) : mpsse_port p c = .ok r (withPort c q) := by
  simp only [mpsse_port, focus, h]
  rfl

/-- The loop makes the same reads as `ftdi_read_retry`. -/
theorem read_loop_of_retry {len retry : Nat} {got all recv : List Byte} {c : Jtag Mpsse} {q : Port}
    (h : ftdi_read_loop usb len retry got c.dev.port = .ok (true, all) q)
    (hgot : got.length ≤ len) (hlen : len ≤ recv.length) :
    Returns (mpsse_read_loop usb len retry got.length recv) c fun r _ => r.1 = true := by
  induction retry generalizing got recv c with
  | zero =>
    have hdone : got.length = len := by
      rw [ftdi_read_loop, pure_apply, EStateM.Result.ok.injEq, Prod.mk.injEq] at h
      simpa using h.1.1
    unfold mpsse_read_loop
    rw [if_neg (by omega)]
    exact returns_pure rfl
  | succ retry ih =>
    unfold ftdi_read_loop at h
    split at h
    · obtain ⟨r, p, hread, h⟩ := bind_eq_ok.mp h
      obtain ⟨-, l, -, hl, ⟨rfl, -⟩ | rfl⟩ := (ftdi_read_data_spec _ _).ensures _ _ hread
      · cases h
      · have hlen' : len ≤ (splice recv got.length l).length := by
          rwa [splice_length _ _ _ (by omega)]
        have hmore : (got ++ l).length ≤ len := by
          rw [List.length_append]
          omega
        have hnext := ih (c := withPort c p) h hmore hlen'
        have hroom : got.length + l.length ≤ recv.length := by omega
        unfold Returns
        rw [read_loop_round (by assumption) hroom (port_ok hread), ← List.length_append]
        exact hnext
    · unfold mpsse_read_loop
      rw [if_neg (by assumption)]
      exact returns_pure rfl

theorem last_loop_of_retry {retry : Nat} {all : List Byte} {c : Jtag Mpsse} {q : Port}
    (h : ftdi_read_loop usb 1 retry [] c.dev.port = .ok (true, all) q) :
    Returns (mpsse_last_loop usb retry) c fun _ _ => True := by
  induction retry generalizing c with
  | zero => cases h
  | succ retry ih =>
    unfold ftdi_read_loop at h
    rw [if_pos (by simp)] at h
    obtain ⟨r, p, hread, h⟩ := bind_eq_ok.mp h
    obtain ⟨-, l, -, hl, ⟨rfl, -⟩ | rfl⟩ := (ftdi_read_data_spec _ _).ensures _ _ hread
    · cases h
    · unfold mpsse_last_loop
      refine Returns.of_eq_bind (port_ok hread) ?_
      rcases l with _ | ⟨b, _ | ⟨b', l⟩⟩
      · exact ih h
      · exact returns_pure trivial
      · simp at hl

theorem read_loop_succeeds (h : usb.Delivers) (len fuel : Nat) (recv : List Byte) (c : Jtag Mpsse)
    (hlen : len ≤ recv.length) (hw : len ≤ (usb.waiting c.dev.port).length) :
    Returns (mpsse_read_loop usb len (100 + fuel) 0 recv) c fun r _ => r.1 = true := by
  obtain ⟨⟨_, all⟩, q, hretry, ⟨-, -⟩, rfl⟩ :=
    (ftdi_read_retry_spec len c.dev.port).and (h.reads len c.dev.port hw)
  obtain ⟨r, d, hr, hok⟩ := read_loop_of_retry hretry (Nat.zero_le len) hlen
  exact ⟨r, d, read_loop_mono hr, hok⟩

theorem last_loop_succeeds (h : usb.Delivers) (fuel : Nat) (c : Jtag Mpsse)
    (hw : usb.waiting c.dev.port ≠ []) : Returns (mpsse_last_loop usb (100 + fuel)) c fun _ _ => True := by
  have hpos := List.length_pos_of_ne_nil hw
  obtain ⟨⟨_, all⟩, q, hretry, ⟨-, -⟩, rfl⟩ :=
    (ftdi_read_retry_spec 1 c.dev.port).and (h.reads 1 c.dev.port hpos)
  obtain ⟨b, d, hb, -⟩ := last_loop_of_retry hretry
  exact ⟨b, d, last_loop_mono hb, trivial⟩

/-- As many reads as a retry makes are enough fuel. -/
theorem scan_chain_recv_succeeds (h : usb.Delivers) (fuel size n : Nat) (flip : Bool) (tdo : List Bool)
    (rs rest : List Byte) (c : Jtag Mpsse) (hn : 1 ≤ n) (hn' : n + 7 < 2 ^ 64)
    (hsize : n ≤ 8 * size) (hans : ScanAnswer n flip tdo rs)
    (hwait : ∀ l, l = stream c ∨ l = stream c ++ [SEND_IMMEDIATE] →
      (usb.respond l).drop c.dev.port.taken = rs ++ rest) :
    Returns (mpsse_jtag_scan_chain_recv usb (100 + fuel) (List.replicate size 0) n flip) c
      fun r _ => r.1 = true := by
  obtain ⟨t, u, v, a, b, rfl, ht, hu, hv, rfl⟩ := hans
  have hbulk : (if flip then n - 1 else n) ≤ n := by split <;> omega
  obtain ⟨_, d, hsend, rfl, hd⟩ := (send_pending_succeeds h c).and (send_pending_spec usb c).ensures
  obtain ⟨-, hbuf, htaken, -, hstream⟩ := hd rfl
  have hw := waiting_of_sent hbuf htaken hstream hwait
  rw [List.append_assoc] at hw
  have hfits : (packBits t ++ restAnswer a u).length ≤ size := by
    rw [← recv_len t u a (by omega) (by omega) (by omega)]
    omega
  obtain ⟨⟨_, recv⟩, e, hloop, rfl⟩ := read_loop_succeeds h (packBits t ++ restAnswer a u).length fuel
    (List.replicate size 0) d (by rwa [List.length_replicate])
    (by rw [hw]; simp only [List.length_append]; omega)
  refine (scan_chain_recv_of_loops hn hn' hsize ht hu hsend hw hloop ?_).mono fun _ _ h => h rfl
  rintro rfl -
  obtain ⟨got, hgot, hall, -⟩ := read_loop_spec _ (100 + fuel) [] size d (Nat.zero_le _) _ _ hloop rfl
  exact last_loop_succeeds h fuel e (last_waits hv hw hgot rfl (by simpa using hall))

end JtagRemote.Mpsse
