import JtagRemote.Mpsse.Runs

/-!
# Reads that fail

The bytes of a scan are read in one loop and its last bit in another. Only the first
loop looks at whether a read failed.
-/

namespace JtagRemote.Mpsse

variable {usb : Usb} {c d : Jtag Mpsse}

/-! ## Reading until an error -/

/-- `len` bytes are read, in as many reads as it takes, or up to the first read that fails. -/
inductive Reads (usb : Usb) : Nat → Port → Bool → Port → Prop
  | done (p : Port) : Reads usb 0 p true p
  | failed {len : Nat} {p q : Port} : 1 ≤ len → ftdi_read_data usb len p = .ok none q → Reads usb len p false q
  | more {len : Nat} {got : List Byte} {p q r : Port} {ok : Bool} : 1 ≤ len →
      ftdi_read_data usb len p = .ok (some got) q → Reads usb (len - got.length) q ok r → Reads usb len p ok r

/-- One piece after the other. -/
inductive ReadsAll (usb : Usb) : List Nat → Port → Bool → Port → Prop
  | done (p : Port) : ReadsAll usb [] p true p
  | failed {len : Nat} {lens : List Nat} {p q : Port} : Reads usb len p false q → ReadsAll usb (len :: lens) p false q
  | next {len : Nat} {lens : List Nat} {p q r : Port} {ok : Bool} : Reads usb len p true q →
      ReadsAll usb lens q ok r → ReadsAll usb (len :: lens) p ok r

/-- The bytes that answer a scan: a byte for each eight bits, and one for the bit that flips TMS. -/
def answerPieces (n : Nat) (flip : Bool) : List Nat :=
  ((if flip then n - 1 else n) + 7) / 8 :: if flip then [1] else []

/-! ## The loops -/

theorem read_port_ok {α : Type} {p : EStateM Fault Port α} {a : α} (h : mpsse_port p c = .ok a d) :
    p c.dev.port = .ok a d.dev.port := by
  unfold mpsse_port focus at h
  split at h
  · rename_i b t hrun
    cases h
    exact hrun
  · cases h

theorem read_loop_reads (len fuel offset : Nat) (recv : List Byte) (c : Jtag Mpsse) :
    Ensures (mpsse_read_loop usb len fuel offset recv) c fun r d =>
      Reads usb (len - offset) c.dev.port r.1 d.dev.port := by
  have hdone : ∀ offset (c : Jtag Mpsse), ¬ len > offset → Reads usb (len - offset) c.dev.port true c.dev.port := by
    intro offset c hle
    rw [Nat.sub_eq_zero_of_le (Nat.le_of_not_lt hle)]
    exact .done _
  induction fuel generalizing offset recv c with
  | zero => exact ensures_ite (fun _ => ensures_throw) fun hle => ensures_pure (hdone offset c hle)
  | succ fuel ih =>
    refine ensures_ite (fun hlt => ?_) fun hle => ensures_pure (hdone offset c hle)
    intro r d hrun
    obtain ⟨x, k, hread, hrest⟩ := bind_eq_ok.mp hrun
    have hport := read_port_ok hread
    cases x with
    | none =>
      cases hrest
      exact .failed (by omega) hport
    | some got =>
      obtain ⟨recv', k', hcopy, hloop⟩ := bind_eq_ok.mp hrest
      obtain ⟨rfl, -⟩ := memcpy_spec _ _ _ _ _ _ hcopy
      have hnext := ih (offset + got.length) recv' _ _ _ hloop
      rw [← Nat.sub_sub] at hnext
      exact .more (by omega) hport hnext

/-- The loop makes these reads, given the fuel. -/
theorem Reads.read_loop {k : Nat} {p q : Port} {ok : Bool} (h : Reads usb k p ok q) {len offset : Nat}
    {recv : List Byte} (hk : len - offset = k) (hlen : len ≤ recv.length) (hport : c.dev.port = p) :
    ∃ fuel out, mpsse_read_loop usb len fuel offset recv c = .ok (ok, out) (withPort c q) ∧
      out.length = recv.length := by
  induction h generalizing offset recv c with
  | done p =>
    subst hport
    refine ⟨0, recv, ?_, rfl⟩
    unfold mpsse_read_loop
    rw [if_neg (by omega)]
    rfl
  | @failed k p q hpos hread =>
    subst hport
    have hlt : len > offset := by omega
    rw [← hk] at hread
    refine ⟨1, recv, ?_, rfl⟩
    unfold mpsse_read_loop
    rw [if_pos hlt]
    exact bind_of_ok (port_ok hread)
  | @more k got p q r ok hpos hread _ ih =>
    subst hport
    have hlt : len > offset := by omega
    rw [← hk] at hread
    obtain ⟨-, l, -, hl, ⟨h, -⟩ | h⟩ := (ftdi_read_data_spec _ _).ensures _ _ hread
    · cases h
    · obtain rfl : got = l := Option.some.inj h
      have hsize : (splice recv offset got).length = recv.length := splice_length _ _ _ (by omega)
      have hrest : len - (offset + got.length) = k - got.length := by omega
      have hfits : len ≤ (splice recv offset got).length := by omega
      obtain ⟨fuel, out, hloop, hout⟩ := ih (c := withPort c q) hrest hfits rfl
      refine ⟨fuel + 1, out, ?_, hout.trans hsize⟩
      rw [read_loop_round hlt (by omega) (port_ok hread), hloop]
      rfl

/-- A row of answers that ends in the byte. -/
theorem Reads.last_loop {k : Nat} {p q : Port} (h : Reads usb k p true q) (hk : k = 1) (hport : c.dev.port = p) :
    ∃ fuel b, mpsse_last_loop usb fuel c = .ok b (withPort c q) := by
  generalize hok : true = ok at h
  induction h generalizing c with
  | done p => cases hk
  | failed => cases hok
  | @more k got p q r ok hpos hread hrest ih =>
    subst hport hk
    obtain ⟨-, l, -, hl, ⟨h, -⟩ | h⟩ := (ftdi_read_data_spec _ _).ensures _ _ hread
    · cases h
    · obtain rfl : got = l := Option.some.inj h
      match got, hl with
      | [], _ =>
        obtain ⟨fuel, b, hloop⟩ := ih (c := withPort c q) rfl rfl hok
        exact ⟨fuel + 1, b, (bind_of_ok (port_ok hread)).trans hloop⟩
      | [b], _ =>
        cases hrest with
        | done => exact ⟨1, b, bind_of_ok (port_ok hread)⟩
        | failed h => cases h
        | more h => cases h

/-- Nothing but errors: the second loop never ends. -/
theorem last_loop_dead (h : ∀ k, usb.read_result k = .error) (fuel : Nat) (c : Jtag Mpsse) :
    Faults (mpsse_last_loop usb fuel) c .out_of_fuel := by
  induction fuel generalizing c with
  | zero => exact ⟨c, rfl⟩
  | succ fuel ih =>
    have hread : ftdi_read_data usb 1 c.dev.port =
        .ok none { c.dev.port with num_reads := c.dev.port.num_reads + 1 } := by
      unfold ftdi_read_data
      rw [bind_of_ok (get_apply _), h]
      rfl
    exact Faults.of_eq_bind (port_ok hread) (ih _)

/-! ## The receive -/

/-- With enough fuel the receive returns. If the commands that wait are sent, then it makes the reads of the
answer up to the first that fails, and returns `true` only if none does. -/
def StopsAtError (usb : Usb) (recv : List Byte) (n : Nat) (flip : Bool) (c : Jtag Mpsse) : Prop :=
  ∃ fuel ok out d, mpsse_jtag_scan_chain_recv usb fuel recv n flip c = .ok (ok, out) d ∧
    (mpsse_send_pending usb c = .ok false d ∧ ok = false ∨
      ∃ k, mpsse_send_pending usb c = .ok true k ∧ ReadsAll usb (answerPieces n flip) k.dev.port ok d.dev.port)

/-- The device answers with all the bytes, or an error stops the first piece. -/
def Served (usb : Usb) (n : Nat) (flip : Bool) (p : Port) : Prop :=
  (∃ q, Reads usb (((if flip then n - 1 else n) + 7) / 8) p false q) ∨
    ∃ q, ReadsAll usb (answerPieces n flip) p true q

theorem align_rest_returns {out : List Byte} {bulk : Nat} (hlen : bulk ≤ 8 * out.length) (c : Jtag Mpsse) :
    ∃ out', mpsse_align_rest out bulk c = .ok out' c ∧ out'.length = out.length := by
  unfold mpsse_align_rest
  split
  · exact ⟨out, rfl, rfl⟩
  · exact ⟨_, bind_of_ok (index_ok (by omega) c), List.length_set ..⟩

/-- The receive behind its first loop. -/
def recvRest (usb : Usb) (fuel : Nat) (recv : List Byte) (n : Nat) (flip : Bool) : MpsseProg (Bool × List Byte) := do
  let recv ← mpsse_align_rest recv (bulk_bits n flip)
  if flip then
    let last_bit ← mpsse_last_loop usb fuel
    let recv ← or_bit recv (size_sub n 1) (last_bit.getLsbD 7)
    pure (true, recv)
  else pure (true, recv)

theorem recvRest_eq {fuel n : Nat} {flip : Bool} {recv out : List Byte}
    (halign : mpsse_align_rest recv (bulk_bits n flip) c = .ok out c) :
    recvRest usb fuel recv n flip c = (if flip then do
      let last_bit ← mpsse_last_loop usb fuel
      let recv ← or_bit out (size_sub n 1) (last_bit.getLsbD 7)
      pure (true, recv)
    else pure (true, out)) c := by
  unfold recvRest
  rw [bind_of_ok halign]

/-- It does not give `false`. -/
theorem recv_rest_true (fuel n : Nat) (flip : Bool) (out : List Byte) (c : Jtag Mpsse) :
    Ensures (recvRest usb fuel out n flip) c fun r _ => r.1 = true := by
  refine Ensures.any_bind fun out' d => ensures_ite (fun _ => ?_) fun _ => ensures_pure rfl
  exact Ensures.any_bind fun b e => Ensures.any_bind fun out'' f => ensures_pure rfl

theorem recv_unsent {fuel n : Nat} {flip : Bool} {recv : List Byte} {k : Jtag Mpsse}
    (hsend : mpsse_send_pending usb c = .ok false k) :
    mpsse_jtag_scan_chain_recv usb fuel recv n flip c = .ok (false, recv) k := by
  unfold mpsse_jtag_scan_chain_recv
  refine (bind_of_ok hsend).trans ?_
  simp only [Bool.false_eq_true, if_false]
  rfl

/-- The receive from its first loop on; `len` is the size of the first piece. -/
theorem recv_eq {fuel n len : Nat} {flip : Bool} {recv : List Byte} {k : Jtag Mpsse}
    (hlen : (bulk_bits n flip + 7) % 2 ^ 64 / 8 = len) (hfits : len ≤ recv.length)
    (hsend : mpsse_send_pending usb c = .ok true k) :
    mpsse_jtag_scan_chain_recv usb fuel recv n flip c =
      (mpsse_read_loop usb len fuel 0 (splice recv 0 (List.replicate len 0)) >>= fun r =>
        if r.1 then recvRest usb fuel r.2 n flip else pure (false, r.2)) k := by
  have hclear : (memset_zero recv len : MpsseProg (List Byte)) k = .ok (splice recv 0 (List.replicate len 0)) k :=
    memset_zero_ok hfits k
  unfold mpsse_jtag_scan_chain_recv recvRest
  refine (bind_of_ok hsend).trans ?_
  simp only [if_true]
  rw [hlen]
  exact bind_of_ok hclear

/-- A receive stops at an error just if the device answers with all the bytes, or the error comes before the
last bit. -/
theorem recv_stops_iff {recv : List Byte} {n : Nat} {flip : Bool} (hn : 1 ≤ n) (hn' : n + 7 < 2 ^ 64)
    (hsize : n ≤ 8 * recv.length) :
    StopsAtError usb recv n flip c ↔ ∀ k, mpsse_send_pending usb c = .ok true k → Served usb n flip k.dev.port := by
  have hbulk : bulk_bits n flip = if flip then n - 1 else n := bulk_bits_of_pos flip hn (by omega)
  have hle : (if flip then n - 1 else n) ≤ n := by split <;> omega
  have hround : (bulk_bits n flip + 7) % 2 ^ 64 / 8 = ((if flip then n - 1 else n) + 7) / 8 := by
    rw [hbulk, Nat.mod_eq_of_lt (by omega)]
  rw [← hbulk] at hle
  constructor
  · rintro ⟨fuel, ok, out, d, hrun, hends⟩ k hsend
    rcases hends with ⟨hfail, -⟩ | ⟨k', hsend', hreads⟩
    · rw [hsend] at hfail
      cases hfail
    · rw [hsend] at hsend'
      cases hsend'
      cases ok with
      | true => exact Or.inr ⟨_, hreads⟩
      | false =>
        rw [recv_eq hround (by omega) hsend] at hrun
        obtain ⟨⟨ok, out'⟩, e, hloop, hrest⟩ := bind_eq_ok.mp hrun
        have hbytes := read_loop_reads _ _ _ _ _ _ _ hloop
        cases ok with
        | true => exact absurd (recv_rest_true _ _ _ _ _ _ _ hrest) Bool.false_ne_true
        | false => exact Or.inl ⟨_, hbytes⟩
  · intro h
    obtain ⟨r, k, hsend, -⟩ := send_pending_spec usb c
    cases r with
    | false => exact ⟨0, false, recv, k, recv_unsent hsend, Or.inl ⟨hsend, rfl⟩⟩
    | true =>
      unfold Served answerPieces at h
      unfold StopsAtError answerPieces
      generalize hlen : ((if flip then n - 1 else n) + 7) / 8 = len at h hround ⊢
      have hfits : len ≤ recv.length := by omega
      have hcleared : (splice recv 0 (List.replicate len 0)).length = recv.length :=
        splice_length _ _ _ (by rw [List.length_replicate]; omega)
      have hroom : len ≤ (splice recv 0 (List.replicate len 0)).length := by omega
      rcases h k hsend with ⟨q, hreads⟩ | ⟨q, hall⟩
      · obtain ⟨fuel, out, hloop, -⟩ := hreads.read_loop (Nat.sub_zero len) hroom rfl
        refine ⟨fuel, false, out, withPort k q, ?_, Or.inr ⟨k, hsend, .failed hreads⟩⟩
        rw [recv_eq hround hfits hsend]
        exact bind_of_ok hloop
      · cases hall with
        | @next _ _ _ p _ _ hreads hlast =>
          obtain ⟨fuel, out, hloop, hout⟩ := hreads.read_loop (Nat.sub_zero len) hroom rfl
          have hbits : bulk_bits n flip ≤ 8 * out.length := by omega
          obtain ⟨out', halign, hout'⟩ := align_rest_returns hbits (withPort k p)
          cases flip with
          | false =>
            cases hlast with
            | done =>
              refine ⟨fuel, true, out', withPort k q, ?_, Or.inr ⟨k, hsend, .next hreads (.done q)⟩⟩
              rw [recv_eq hround hfits hsend, bind_of_ok hloop, if_pos rfl, recvRest_eq halign]
              rfl
          | true =>
            cases hlast with
            | next hbyte hnone =>
              cases hnone
              obtain ⟨fuel', b, hlast⟩ := hbyte.last_loop (c := withPort k p) rfl rfl
              have hset : (or_bit out' (size_sub n 1) (b.getLsbD 7) : MpsseProg (List Byte)) (withPort (withPort k p) q) =
                  .ok (orBit out' (n - 1) (b.getLsbD 7)) (withPort (withPort k p) q) := by
                rw [size_sub_of_le hn (by omega)]
                exact or_bit_ok (by omega) _ _
              refine ⟨fuel + fuel', true, orBit out' (n - 1) (b.getLsbD 7), withPort k q, ?_,
                Or.inr ⟨k, hsend, .next hreads (.next hbyte (.done q))⟩⟩
              rw [recv_eq hround hfits hsend, bind_of_ok (read_loop_mono hloop), if_pos rfl, recvRest_eq halign,
                if_pos rfl, Nat.add_comm fuel fuel', bind_of_ok (last_loop_mono hlast), bind_of_ok hset]
              rfl

/-! ## Concrete devices -/

/-- No read succeeds. -/
def deadUsb : Usb := { mpsseUsb blinkBoard idleEngine with read_result := fun _ => .error }

theorem recv_stops_iff_bit : StopsAtError deadUsb [0x00] 8 false idleMpsse ↔
    ∀ k, mpsse_send_pending deadUsb idleMpsse = .ok true k → Served deadUsb 8 false k.dev.port :=
  recv_stops_iff (by decide) (by decide) (by decide)

/-- The one bit of a scan that flips TMS is read for ever, though each read fails. -/
theorem one_bit_never_stops : ¬ StopsAtError deadUsb [0x00] 1 true idleMpsse := by
  rintro ⟨fuel, ok, out, d, hrun, -⟩
  have hlen : (bulk_bits 1 true + 7) % 2 ^ 64 / 8 = 0 := by decide
  have hfits : 0 ≤ ([0x00] : List Byte).length := Nat.zero_le _
  have hsend : mpsse_send_pending deadUsb idleMpsse = .ok true idleMpsse := rfl
  have hloop : mpsse_read_loop deadUsb 0 fuel 0 (splice [0x00] 0 (List.replicate 0 0)) idleMpsse =
      .ok (true, [0x00]) idleMpsse := by
    cases fuel <;> rfl
  have halign : mpsse_align_rest [0x00] (bulk_bits 1 true) idleMpsse = .ok [0x00] idleMpsse := by
    rw [show bulk_bits 1 true = 0 by decide]
    rfl
  have hdead : ∀ k, deadUsb.read_result k = .error := fun _ => rfl
  obtain ⟨t, ht⟩ := last_loop_dead hdead fuel idleMpsse
  have hstuck : recvRest deadUsb fuel [0x00] 1 true idleMpsse = .error .out_of_fuel t :=
    (bind_of_ok halign).trans (bind_of_error ht)
  rw [recv_eq hlen hfits hsend, bind_of_ok hloop, if_pos rfl, hstuck] at hrun
  cases hrun

end JtagRemote.Mpsse
