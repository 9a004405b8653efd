import JtagRemote.Drivers

/-!
# What a receive overwrites

A receive clears the bytes of the bits that do not flip, and writes its answer to these.
The last bit goes to the byte behind them when they end with a whole byte.
-/

namespace JtagRemote

variable {σ : Type}

/-! ## Programs on the first bytes of a buffer -/

/-- The program works on the first `k` bytes: it leaves the rest alone, and does not look at it. -/
def Local (k : Nat) (f : List Byte → EStateM Fault σ (List Byte)) : Prop :=
  ∀ a t r s s', a.length = k → f (a ++ t) s = .ok r s' →
    ∃ b, b.length = k ∧ r = b ++ t ∧ ∀ t', f (a ++ t') s = .ok (b ++ t') s'

variable {k : Nat} {f g : List Byte → EStateM Fault σ (List Byte)}

theorem local_pure (k : Nat) : Local k (pure : List Byte → EStateM Fault σ (List Byte)) := by
  intro a t r s s' ha h
  cases h
  exact ⟨a, ha, rfl, fun _ => rfl⟩

theorem Local.bind (hf : Local k f) (hg : Local k g) : Local k fun r => f r >>= g := by
  intro a t r s s' ha h
  obtain ⟨r₁, s₁, h₁, h₂⟩ := bind_eq_ok.mp h
  obtain ⟨b₁, hb₁, rfl, hall₁⟩ := hf a t r₁ s s₁ ha h₁
  obtain ⟨b₂, hb₂, rfl, hall₂⟩ := hg b₁ t r s₁ s' hb₁ h₂
  exact ⟨b₂, hb₂, rfl, fun t' => (bind_of_ok (hall₁ t')).trans (hall₂ t')⟩

/-- First something that has nothing to do with the buffer. -/
theorem Local.after {α : Type} {x : EStateM Fault σ α} {g : α → List Byte → EStateM Fault σ (List Byte)}
    (hg : ∀ v, Local k (g v)) : Local k fun r => x >>= fun v => g v r := by
  intro a t r s s' ha h
  obtain ⟨v, s₁, h₁, h₂⟩ := bind_eq_ok.mp h
  obtain ⟨b, hb, rfl, hall⟩ := hg v a t r s₁ s' ha h₂
  exact ⟨b, hb, rfl, fun t' => (bind_of_ok h₁).trans (hall t')⟩

theorem local_ite {c : Prop} [Decidable c] (hf : c → Local k f) (hg : ¬ c → Local k g) :
    Local k fun r => if c then f r else g r := by
  by_cases hc : c
  · simp only [if_pos hc]
    exact hf hc
  · simp only [if_neg hc]
    exact hg hc

theorem local_forUpto {n : Nat} {f : Nat → List Byte → EStateM Fault σ (List Byte)}
    (hf : ∀ i, i < n → Local k (f i)) : Local k fun r => forUpto n r f := by
  induction n with
  | zero => exact local_pure k
  | succ n ih => exact (ih fun i hi => hf i (by omega)).bind (hf n (by omega))

theorem splice_left {a t src : List Byte} {off : Nat} (h : off + src.length ≤ a.length) :
    splice (a ++ t) off src = splice a off src ++ t := by
  rw [splice, splice, List.take_append_of_le_length (by omega), List.drop_append_of_le_length h, List.append_assoc]
  simp

theorem memcpy_local {off : Nat} {src : List Byte} (h : off + src.length ≤ k) :
    Local k fun r => (memcpy r off src : EStateM Fault σ (List Byte)) := by
  intro a t r s s' ha hrun
  obtain ⟨rfl, rfl, -⟩ := memcpy_spec _ _ _ s _ _ hrun
  refine ⟨splice a off src, ?_, splice_left (by omega), fun t' => ?_⟩
  · rw [splice_length _ _ _ (by omega), ha]
  · rw [← splice_left (by omega)]
    exact memcpy_ok (by rw [List.length_append]; omega) _

theorem set_left {a t : List Byte} {i : Nat} {x : Byte} (h : i < a.length) : (a ++ t).set i x = a.set i x ++ t :=
  List.set_append_left i x h

theorem orBit_left {a t : List Byte} {i : Nat} {b : Bool} (h : i / 8 < a.length) :
    orBit (a ++ t) i b = orBit a i b ++ t := by
  rw [orBit, orBit, List.getD_append _ _ _ _ h, set_left h]

theorem or_bit_local {i : Nat} (b : Bool) (h : i / 8 < k) :
    Local k fun r => (or_bit r i b : EStateM Fault σ (List Byte)) := by
  intro a t r s s' ha hrun
  obtain ⟨rfl, rfl, -⟩ := or_bit_spec _ _ _ s _ _ hrun
  refine ⟨orBit a i b, (orBit_length a i b).trans ha, orBit_left (by omega), fun t' => ?_⟩
  rw [← orBit_left (by omega)]
  exact or_bit_ok (by rw [List.length_append]; omega) b _

theorem memset_split {l : List Byte} {len : Nat} (h : len ≤ l.length) (s : σ) :
    (memset_zero l len : EStateM Fault σ (List Byte)) s = .ok (List.replicate len 0 ++ l.drop len) s := by
  rw [memset_zero_ok h, splice, List.take_zero, List.nil_append, List.length_replicate, Nat.zero_add]

/-! ## The receives -/

/-- The last bit, if there is one. -/
def lastBit (n : Nat) (flip y : Bool) (l : List Byte) : List Byte := if flip then orBit l (n - 1) y else l

/-- Into any buffer of `size` bytes, the receive puts `b` and the last bit `y`. -/
def Fills (f : List Byte → EStateM Fault σ (Bool × List Byte)) (s s' : σ) (size n : Nat) (flip : Bool)
    (b : List Byte) (y : Bool) : Prop :=
  ∀ recv, recv.length = size → f recv s = .ok (true, lastBit n flip y (b ++ recv.drop b.length)) s'

/-- The bytes that the bits that do not flip take. -/
def bulkBytes (n : Nat) (flip : Bool) : Nat := ((if flip then n - 1 else n) + 7) / 8

theorem read_loop_local {usb : Usb} {len fuel offset : Nat} {a t r : List Byte} {c d : Jtag Mpsse} {ok : Bool}
    (ha : a.length = len) (h : mpsse_read_loop usb len fuel offset (a ++ t) c = .ok (ok, r) d) :
    ∃ b, b.length = len ∧ r = b ++ t ∧
      ∀ t', mpsse_read_loop usb len fuel offset (a ++ t') c = .ok (ok, b ++ t') d := by
  induction fuel generalizing offset a c with
  | zero =>
    unfold mpsse_read_loop at h ⊢
    split at h
    · cases h
    · rename_i hdone
      cases h
      exact ⟨a, ha, rfl, fun _ => by rw [if_neg hdone]; rfl⟩
  | succ fuel ih =>
    unfold mpsse_read_loop at h ⊢
    split at h
    · rename_i hmore
      obtain ⟨got, c₁, hread, hrest⟩ := bind_eq_ok.mp h
      have hgot : Returns (mpsse_port (ftdi_read_data usb (len - offset))) c fun r _ =>
          ∀ got, r = some got → got.length ≤ len - offset := by
        refine Returns.mono (Returns.focus (ftdi_read_data_spec (len - offset) c.dev.port)) ?_
        rintro r _ ⟨p, ⟨-, l, -, hle, ⟨rfl, -⟩ | rfl⟩, rfl⟩ got hr
        · cases hr
        · cases hr
          exact hle
      have hshort := hgot.ensures _ _ hread
      cases got with
      | none =>
        cases hrest
        refine ⟨a, ha, rfl, fun t' => ?_⟩
        rw [if_pos hmore]
        exact bind_of_ok hread
      | some got =>
        have hle := hshort got rfl
        obtain ⟨r₁, c₂, hcopy, hloop⟩ := bind_eq_ok.mp hrest
        obtain ⟨b₁, hb₁, rfl, hall₁⟩ := memcpy_local (by omega) a t r₁ c₁ c₂ ha hcopy
        obtain ⟨b₂, hb₂, rfl, hall₂⟩ := ih hb₁ hloop
        refine ⟨b₂, hb₂, rfl, fun t' => ?_⟩
        rw [if_pos hmore, bind_of_ok hread]
        exact (bind_of_ok (hall₁ t')).trans (hall₂ t')
    · rename_i hdone
      cases h
      exact ⟨a, ha, rfl, fun _ => by rw [if_neg hdone]; rfl⟩

theorem align_rest_local {bulk k : Nat} (h : (bulk + 7) / 8 = k) : Local k fun r => mpsse_align_rest r bulk := by
  unfold mpsse_align_rest
  refine local_ite (fun _ => local_pure k) fun hne => ?_
  intro a t r s s' ha hrun
  have hin : bulk / 8 < a.length := by omega
  obtain ⟨x, s₁, hindex, hset⟩ := bind_eq_ok.mp hrun
  obtain ⟨rfl, rfl, -⟩ := index_spec _ _ s _ _ hindex
  cases hset
  refine ⟨a.set (bulk / 8) (a.getD (bulk / 8) 0 >>> (8 - bulk % 8)), by rw [List.length_set, ha], ?_, fun t' => ?_⟩
  · rw [List.getD_append _ _ _ _ hin, set_left hin]
  · refine (bind_of_ok (index_ok (by rw [List.length_append]; omega) _)).trans ?_
    rw [List.getD_append _ _ _ _ hin, set_left hin]
    rfl

theorem mpsse_fills {usb : Usb} {fuel n : Nat} {flip : Bool} {recv out : List Byte} {c d : Jtag Mpsse} (hn : 1 ≤ n)
    (hn' : n + 7 < 2 ^ 64) (h : mpsse_jtag_scan_chain_recv usb fuel recv n flip c = .ok (true, out) d) :
    ∃ b y, b.length = bulkBytes n flip ∧
      Fills (fun recv => mpsse_jtag_scan_chain_recv usb fuel recv n flip) c d recv.length n flip b y := by
  have hbulk : bulk_bits n flip = if flip then n - 1 else n := bulk_bits_of_pos flip hn (by omega)
  have hround : (bulk_bits n flip + 7) % 2 ^ 64 / 8 = bulkBytes n flip := by
    rw [Nat.mod_eq_of_lt (by rw [hbulk]; split <;> omega), hbulk, bulkBytes]
  have hcover : (bulk_bits n flip + 7) / 8 = bulkBytes n flip := by rw [hbulk, bulkBytes]
  unfold mpsse_jtag_scan_chain_recv at h
  obtain ⟨ok, c₁, hpending, hrest⟩ := bind_eq_ok.mp h
  cases ok with
  | false => cases hrest
  | true =>
    obtain ⟨recv₁, c₂, hclear, hrest⟩ := bind_eq_ok.mp hrest
    rw [hround] at hclear
    obtain ⟨rfl, -, hfits⟩ := memcpy_spec _ _ _ c₁ _ _ hclear
    rw [List.length_replicate, Nat.zero_add] at hfits
    rw [memset_split hfits] at hclear
    cases hclear
    obtain ⟨⟨ok, recv₂⟩, c₃, hread, hrest⟩ := bind_eq_ok.mp hrest
    rw [hround] at hread
    obtain ⟨b₂, hb₂, rfl, hreads⟩ := read_loop_local List.length_replicate hread
    cases ok with
    | false => cases hrest
    | true =>
      obtain ⟨recv₃, c₄, halign, hrest⟩ := bind_eq_ok.mp hrest
      obtain ⟨b₃, hb₃, rfl, haligns⟩ := align_rest_local hcover b₂ _ _ _ _ hb₂ halign
      -- the same run, up to the last bit
      have hrun : ∀ recv' : List Byte, recv'.length = recv.length → ∀ r,
          (if flip = true then do
              let last_bit ← mpsse_last_loop usb fuel
              let recv ← or_bit (b₃ ++ recv'.drop (bulkBytes n flip)) (size_sub n 1) (last_bit.getLsbD 7)
              pure (true, recv)
            else pure (true, b₃ ++ recv'.drop (bulkBytes n flip)) : MpsseProg (Bool × List Byte)) c₄ = .ok r d →
          mpsse_jtag_scan_chain_recv usb fuel recv' n flip c = .ok r d := by
        intro recv' hlen r hlast
        unfold mpsse_jtag_scan_chain_recv
        refine (bind_of_ok hpending).trans ?_
        have hclear : (memset_zero recv' ((bulk_bits n flip + 7) % 2 ^ 64 / 8) : MpsseProg (List Byte)) c₂ =
            .ok (List.replicate (bulkBytes n flip) 0 ++ recv'.drop (bulkBytes n flip)) c₂ := by
          rw [hround]
          exact memset_split (by omega) _
        refine (bind_of_ok hclear).trans ?_
        rw [hround]
        refine (bind_of_ok (hreads _)).trans ?_
        exact (bind_of_ok (haligns _)).trans hlast
      cases flip with
      | false =>
        cases hrest
        refine ⟨b₃, false, hb₃, fun recv' hlen => ?_⟩
        rw [hb₃]
        exact hrun recv' hlen _ rfl
      | true =>
        obtain ⟨y, c₅, hlast, hrest⟩ := bind_eq_ok.mp hrest
        obtain ⟨r, c₆, hor, hrest⟩ := bind_eq_ok.mp hrest
        obtain ⟨rfl, rfl, hin⟩ := or_bit_spec _ _ _ c₅ _ _ hor
        cases hrest
        refine ⟨b₃, y.getLsbD 7, hb₃, fun recv' hlen => hrun recv' hlen _ ?_⟩
        rw [size_sub_of_le hn (by omega)] at hin ⊢
        rw [List.length_append, List.length_drop] at hin
        refine (bind_of_ok hlast).trans ((bind_of_ok (or_bit_ok ?_ _ _)).trans ?_)
        · rw [List.length_append, List.length_drop, hlen]
          exact hin
        · rw [hb₃]
          rfl

theorem orBit_false (l : List Byte) (i : Nat) : orBit l i false = l := by
  have hzero : ((BitVec.ofBool false).setWidth 8 : Byte) <<< (i % 8) = 0#8 := BitVec.zero_shiftLeft _
  rw [orBit, hzero, BitVec.or_zero]
  by_cases h : i / 8 < l.length
  · rw [List.getD_eq_getElem _ _ h, List.set_getElem_self]
  · exact List.set_eq_of_length_le (by omega)

theorem set_bit_local {i k : Nat} (b : Bool) (h : i / 8 < k) : Local k fun r => set_bit r i b :=
  local_ite (fun _ => or_bit_local true h) fun _ => local_pure k

/-- In a buffer of the same size the bit has its place too. -/
theorem set_bit_same {l l' r : List Byte} {i : Nat} {b : Bool} {c d : Jtag Blaster} (hlen : l'.length = l.length)
    (h : set_bit l i b c = .ok r d) : set_bit l' i b c = .ok (orBit l' i b) d := by
  cases b with
  | false =>
    cases h
    rw [orBit_false]
    rfl
  | true =>
    obtain ⟨rfl, -, hin⟩ := or_bit_spec l i true c _ _ h
    exact or_bit_ok (by omega) true _

theorem recv_rest_local {buffer : List Byte} {bulk k : Nat} (h : (bulk + 7) / 8 = k) :
    Local k fun r => usb_blaster_recv_rest buffer r bulk :=
  local_forUpto fun i hi => Local.after fun _ => set_bit_local _ (by omega)

/-- The end of a receive. -/
def recvDone (offset len : Nat) (recv : List Byte) : BlasterProg (Bool × List Byte) := do
  assert (offset == len)
  modify fun c => { c with dev := { c.dev with recv_buffer_len := 0 } }
  pure (true, recv)

/-- It gives the buffer as it is. -/
theorem recvDone_eq {offset len : Nat} {recv out : List Byte} {c d : Jtag Blaster}
    (h : recvDone offset len recv c = .ok (true, out) d) (recv' : List Byte) :
    out = recv ∧ recvDone offset len recv' c = .ok (true, recv') d := by
  unfold recvDone at h ⊢
  obtain ⟨_, c₁, hassert, hrest⟩ := bind_eq_ok.mp h
  cases hrest
  exact ⟨rfl, bind_of_ok hassert⟩

theorem blaster_fills {n : Nat} {flip : Bool} {recv out : List Byte} {c d : Jtag Blaster} (hn : 1 ≤ n)
    (hn' : n + 7 < 2 ^ 64) (h : usb_blaster_jtag_scan_chain_recv recv n flip c = .ok (true, out) d) :
    ∃ b y, b.length = bulkBytes n flip ∧
      Fills (fun recv => usb_blaster_jtag_scan_chain_recv recv n flip) c d recv.length n flip b y := by
  have hbulk : bulk_bits n flip = if flip then n - 1 else n := bulk_bits_of_pos flip hn (by omega)
  have hround : (bulk_bits n flip + 7) % 2 ^ 64 / 8 = bulkBytes n flip := by
    rw [Nat.mod_eq_of_lt (by rw [hbulk]; split <;> omega), hbulk, bulkBytes]
  have hcover : (bulk_bits n flip + 7) / 8 = bulkBytes n flip := by rw [hbulk, bulkBytes]
  unfold usb_blaster_jtag_scan_chain_recv at h
  obtain ⟨recv₁, c₁, hclear, hrest⟩ := bind_eq_ok.mp h
  rw [hround] at hclear
  obtain ⟨hc₁, hr₁, hfits⟩ := memcpy_spec _ _ _ c _ _ hclear
  subst c₁ recv₁
  rw [List.length_replicate, Nat.zero_add] at hfits
  obtain ⟨_, _, hget, hrest⟩ := bind_eq_ok.mp hrest
  cases hget
  obtain ⟨bytes, c₂, hbytes, hrest⟩ := bind_eq_ok.mp hrest
  obtain ⟨hc₂, hbytes', -⟩ := bytes_at_spec _ _ _ c _ _ hbytes
  subst c₂
  obtain ⟨recv₂, c₃, hcopy, hrest⟩ := bind_eq_ok.mp hrest
  have hlen : 0 + bytes.length ≤ bulkBytes n flip := by
    rw [hbytes', List.length_take]
    omega
  have hsplit : splice recv 0 (List.replicate (bulkBytes n flip) 0) =
      List.replicate (bulkBytes n flip) 0 ++ recv.drop (bulkBytes n flip) := by
    rw [splice, List.take_zero, List.nil_append, List.length_replicate, Nat.zero_add]
  rw [hsplit] at hcopy
  obtain ⟨b₂, hb₂, hr₂, hcopies⟩ := memcpy_local hlen _ _ _ _ _ List.length_replicate hcopy
  subst recv₂
  obtain ⟨recv₃, c₄, hbits, hrest⟩ := bind_eq_ok.mp hrest
  obtain ⟨b₃, hb₃, hr₃, hsets⟩ := recv_rest_local hcover b₂ _ _ _ _ hb₂ hbits
  subst recv₃
  -- the same run, up to the last bit
  have hrun : ∀ recv' : List Byte, recv'.length = recv.length → ∀ r,
      (if flip = true then
        usb_blaster_recv_last c.dev.recv_buffer (b₃ ++ recv'.drop (bulkBytes n flip)) n
            (bulk_bits n flip / 8 + bulk_bits n flip % 8) >>=
          recvDone (bulk_bits n flip / 8 + bulk_bits n flip % 8 + 1) c.dev.recv_buffer_len
      else recvDone (bulk_bits n flip / 8 + bulk_bits n flip % 8) c.dev.recv_buffer_len
        (b₃ ++ recv'.drop (bulkBytes n flip))) c₄ = .ok r d →
      usb_blaster_jtag_scan_chain_recv recv' n flip c = .ok r d := by
    intro recv' hsize r hlast
    unfold usb_blaster_jtag_scan_chain_recv
    have hclear : (memset_zero recv' ((bulk_bits n flip + 7) % 2 ^ 64 / 8) : BlasterProg (List Byte)) c =
        .ok (List.replicate (bulkBytes n flip) 0 ++ recv'.drop (bulkBytes n flip)) c := by
      rw [hround]
      exact memset_split (by omega) _
    refine (bind_of_ok hclear).trans ((bind_of_ok (get_apply c)).trans ((bind_of_ok hbytes).trans ?_))
    refine (bind_of_ok (hcopies _)).trans ((bind_of_ok (hsets _)).trans ?_)
    cases flip with
    | false =>
      rw [if_neg Bool.false_ne_true] at hlast
      simp only [Bool.false_eq_true, if_false]
      exact hlast
    | true =>
      rw [if_pos rfl] at hlast
      simp only [if_true]
      exact hlast
  cases flip with
  | false =>
    have hdone : recvDone _ c.dev.recv_buffer_len (b₃ ++ recv.drop (bulkBytes n false)) c₄ = .ok (true, out) d := hrest
    refine ⟨b₃, false, hb₃, fun recv' hsize => hrun recv' hsize _ ?_⟩
    rw [hb₃]
    exact (recvDone_eq hdone _).2
  | true =>
    obtain ⟨recv₄, c₅, hlast, hrest⟩ := bind_eq_ok.mp hrest
    have hdone : recvDone _ c.dev.recv_buffer_len recv₄ c₅ = .ok (true, out) d := hrest
    obtain ⟨y, c₆, hindex, hset⟩ := bind_eq_ok.mp hlast
    rw [size_sub_of_le hn (by omega)] at hset
    refine ⟨b₃, y.getLsbD 0, hb₃, fun recv' hsize => hrun recv' hsize _ ?_⟩
    have hsame : (b₃ ++ recv'.drop (bulkBytes n true)).length = (b₃ ++ recv.drop (bulkBytes n true)).length := by
      rw [List.length_append, List.length_append, List.length_drop, List.length_drop, hsize]
    have hlast' : usb_blaster_recv_last c.dev.recv_buffer (b₃ ++ recv'.drop (bulkBytes n true)) n
        (bulk_bits n true / 8 + bulk_bits n true % 8) c₄ =
          .ok (orBit (b₃ ++ recv'.drop (bulkBytes n true)) (n - 1) (y.getLsbD 0)) c₅ := by
      unfold usb_blaster_recv_last
      rw [size_sub_of_le hn (by omega)]
      exact (bind_of_ok hindex).trans (set_bit_same hsame hset)
    rw [if_pos rfl, hb₃]
    exact (bind_of_ok hlast').trans (recvDone_eq hdone _).2

/-! ## Both drivers -/

/-- Whatever the buffer held, the receive succeeds and gives the same first bytes. -/
def Overwrites (f : List Byte → EStateM Fault σ (Bool × List Byte)) (s : σ) (size k : Nat) (out : List Byte) :
    Prop :=
  ∀ recv, recv.length = size → ∃ out' s', f recv s = .ok (true, out') s' ∧ out'.take k = out.take k

/-- A buffer of this size whose bits are all the same. -/
theorem bitAt_ones {k i : Nat} (h : i < 8 * k) : bitAt (List.replicate k 0xFF) i = true := by
  have hall : ∀ j < 8, (0xFF : Byte).getLsbD j = true := by decide
  rw [bitAt, List.getD_eq_getElem _ _ (by rw [List.length_replicate]; omega), List.getElem_replicate]
  exact hall _ (Nat.mod_lt _ (by omega))

theorem overwrites_iff {f : List Byte → EStateM Fault σ (Bool × List Byte)} {s s' : σ} {recv out b : List Byte}
    {n : Nat} {flip y : Bool} (hn : 1 ≤ n) (hsize : n ≤ 8 * recv.length) (hb : b.length = bulkBytes n flip)
    (hfills : Fills f s s' recv.length n flip b y) (hrun : f recv s = .ok (true, out) s') :
    Overwrites f s recv.length ((n + 7) / 8) out ↔ flip = false ∨ n % 8 ≠ 1 := by
  have hout : out = lastBit n flip y (b ++ recv.drop b.length) := by
    rw [hfills recv rfl] at hrun
    cases hrun
    rfl
  constructor
  · intro h
    by_contra hnot
    rw [not_or, Bool.not_eq_false, not_not] at hnot
    obtain ⟨rfl, hmod⟩ := hnot
    -- bit 1 of the last byte comes from the buffer
    have hlen : b.length = (n - 1) / 8 := by
      rw [hb, bulkBytes, if_pos rfl]
      omega
    have hkept : ∀ l : List Byte, l.length = recv.length →
        bitAt ((lastBit n true y (b ++ l.drop b.length)).take ((n + 7) / 8)) n = bitAt l n := by
      intro l hl
      have hin : (n - 1) / 8 < (b ++ l.drop b.length).length := by
        rw [List.length_append, List.length_drop]
        omega
      rw [lastBit, if_pos rfl, bitAt_take, bitAt_orBit _ _ _ _ hin, bitAt_append, if_neg (by omega), bitAt_drop,
        Nat.add_sub_cancel' (by omega), decide_eq_true (by omega), decide_eq_false (by omega)]
      simp
    have hone : ∀ l : List Byte, l.length = recv.length → bitAt l n = bitAt recv n := by
      intro l hl
      obtain ⟨out', s₁, hrun', htake⟩ := h l hl
      rw [hfills l hl] at hrun'
      cases hrun'
      rw [← hkept l hl, htake, hout, hkept recv rfl]
    have hlow := hone _ (List.length_replicate (a := 0))
    have hhigh := hone _ (List.length_replicate (a := 0xFF))
    rw [bitAt_replicate_zero] at hlow
    rw [bitAt_ones (by omega), ← hlow] at hhigh
    cases hhigh
  · intro hcond recv' hlen
    refine ⟨_, _, hfills recv' hlen, ?_⟩
    rw [hout]
    unfold bulkBytes at hb
    cases flip with
    | false =>
      rw [if_neg Bool.false_ne_true] at hb
      rw [lastBit, lastBit, if_neg Bool.false_ne_true, if_neg Bool.false_ne_true, ← hb, List.take_left, List.take_left]
    | true =>
      have hmod := hcond.resolve_left (by decide)
      rw [if_pos rfl] at hb
      have hcover : (n + 7) / 8 = (orBit b (n - 1) y).length := by
        rw [orBit_length]
        omega
      rw [lastBit, lastBit, if_pos rfl, if_pos rfl, orBit_left (by omega), orBit_left (by omega), hcover,
        List.take_left, List.take_left]

/-- A receive of either driver overwrites its result, but for the last bit of a scan that flips TMS there and
ends one bit into a byte. -/
theorem recv_overwrites_iff {kind : DriverKind} {usb : Usb} {fuel freq n : Nat} {flip : Bool}
    {recv out : List Byte} {c d : Jtag kind.Dev} (hn : 1 ≤ n) (hn' : n + 7 < 2 ^ 64) (hsize : n ≤ 8 * recv.length)
    (hrun : (kind.driver usb fuel freq).jtag_scan_chain_recv recv n flip c = .ok (true, out) d) :
    Overwrites (fun recv => (kind.driver usb fuel freq).jtag_scan_chain_recv recv n flip) c recv.length
      ((n + 7) / 8) out ↔ flip = false ∨ n % 8 ≠ 1 := by
  cases kind with
  | mpsse =>
    obtain ⟨b, y, hb, hfills⟩ := mpsse_fills hn hn' hrun
    exact overwrites_iff hn hsize hb hfills hrun
  | usb_blaster =>
    obtain ⟨b, y, hb, hfills⟩ := blaster_fills hn hn' hrun
    exact overwrites_iff hn hsize hb hfills hrun

def blinkDriver : driver DriverKind.usb_blaster.Dev :=
  DriverKind.usb_blaster.driver (blasterUsb Mpsse.blinkBoard idleBlasterEngine) 0 0

/-- A read of one bit has been sent, with TMS flipped or not. -/
def oneBitSent (flip : Bool) : Jtag DriverKind.usb_blaster.Dev :=
  finalState (blinkDriver.jtag_scan_chain_send [0x01] 1 flip true idleBlaster)

theorem recv_overwrites_iff_bit : ∃ out d,
    blinkDriver.jtag_scan_chain_recv [0x00] 1 false (oneBitSent false) = .ok (true, out) d ∧
    (Overwrites (fun recv => blinkDriver.jtag_scan_chain_recv recv 1 false) (oneBitSent false) 1 1 out ↔
      (false = false ∨ 1 % 8 ≠ 1)) := by
  have hrun : blinkDriver.jtag_scan_chain_recv [0x00] 1 false (oneBitSent false) = .ok (true, [0x00]) _ :=
    of_answer (by decide +kernel)
  exact ⟨_, _, hrun, recv_overwrites_iff (by decide) (by decide) (by decide) hrun⟩

/-- With TMS flipped, the bits that the buffer held above the one bit of the scan are still there. -/
theorem one_bit_not_overwritten : ∃ out d,
    blinkDriver.jtag_scan_chain_recv [0x00] 1 true (oneBitSent true) = .ok (true, out) d ∧
    ¬ Overwrites (fun recv => blinkDriver.jtag_scan_chain_recv recv 1 true) (oneBitSent true) 1 1 out := by
  have hrun : blinkDriver.jtag_scan_chain_recv [0x00] 1 true (oneBitSent true) = .ok (true, [0x00]) _ :=
    of_answer (by decide +kernel)
  have hheld : blinkDriver.jtag_scan_chain_recv [0xFE] 1 true (oneBitSent true) = .ok (true, [0xFE]) _ :=
    of_answer (by decide +kernel)
  refine ⟨_, _, hrun, fun h => ?_⟩
  obtain ⟨out, d, hout, htake⟩ := h [0xFE] rfl
  obtain ⟨hsame, -⟩ := EStateM.Result.ok.inj (hheld.symm.trans hout)
  rw [← (Prod.mk.inj hsame).2] at htake
  exact absurd htake (by decide)

end JtagRemote
