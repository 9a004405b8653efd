import JtagRemote.Code.Ftdi

/-! # What the libftdi calls do to a port -/

namespace JtagRemote

/-- Only transfers were made: nothing was read, and the bit mode is as it was. -/
structure Port.Wrote (p p' : Port) (l : List Byte) : Prop where
  delivered : p'.delivered = p.delivered ++ l
  taken : p'.taken = p.taken
  num_reads : p'.num_reads = p.num_reads
  bitmode : p'.bitmode = p.bitmode

theorem Port.Wrote.refl (p : Port) : p.Wrote p [] := ⟨by simp, rfl, rfl, rfl⟩

theorem Port.Wrote.trans {p q r : Port} {l m : List Byte} (h : p.Wrote q l) (h' : q.Wrote r m) :
    p.Wrote r (l ++ m) :=
  ⟨by rw [h'.delivered, h.delivered, List.append_assoc], h'.taken.trans h.taken,
    h'.num_reads.trans h.num_reads, h'.bitmode.trans h.bitmode⟩

variable (usb : Usb)

theorem ftdi_write_data_spec (p : Port) (data : List Byte) :
    Returns (ftdi_write_data usb data) p fun r p' =>
      ∃ k, k ≤ data.length ∧ (r = none ∨ r = some k) ∧ (r = none → k = 0) ∧
        p.Wrote p' (data.take k) := by
  unfold ftdi_write_data
  apply Returns.get_bind
  split
  · apply Returns.set_bind
    apply returns_pure
    refine ⟨0, by simp, Or.inl rfl, fun _ => rfl, ?_, rfl, rfl, rfl⟩
    simp [Port.delivered]
  · apply Returns.set_bind
    apply returns_pure
    refine ⟨_, ?_, Or.inr rfl, by simp, ?_, rfl, rfl, rfl⟩
    · rw [List.length_take]
      exact Nat.min_le_right _ _
    · simp [Port.delivered, List.take_eq_take_min]

/-- The loop has sent all up to `offset`; a `true` says that the rest went out too. -/
theorem ftdi_write_loop_spec (data : List Byte) (retry offset : Nat) (p : Port)
    (h : offset ≤ data.length) :
    Returns (ftdi_write_loop usb data retry offset) p fun r p' =>
      ∃ l, p.Wrote p' l ∧ l <+: data.drop offset ∧ (r = true → l = data.drop offset) := by
  induction retry generalizing offset p with
  | zero =>
    refine returns_pure ⟨[], .refl p, List.nil_prefix, ?_⟩
    intro hr
    have : offset = data.length := by simpa using hr
    simp [this]
  | succ retry ih =>
    unfold ftdi_write_loop
    split
    · refine Returns.bind (ftdi_write_data_spec usb p (data.drop offset)) ?_
      rintro r q ⟨k, hk, hr, hn, hw⟩
      rw [List.length_drop] at hk
      rcases hr with rfl | rfl
      · refine returns_pure ⟨[], ?_, List.nil_prefix, by simp⟩
        simpa [hn rfl] using hw
      · refine (ih (offset + k) q (by omega)).mono ?_
        rintro r q' ⟨l, hl, hpre, hall⟩
        rw [← List.drop_drop] at hpre hall
        refine ⟨_, hw.trans hl, ?_, ?_⟩
        · conv_rhs => rw [← List.take_append_drop k (data.drop offset)]
          exact (List.prefix_append_right_inj _).mpr hpre
        · intro hr
          rw [hall hr, List.take_append_drop]
    · have hoff : offset = data.length := by omega
      exact returns_pure ⟨[], .refl p, List.nil_prefix, fun _ => by simp [hoff]⟩

theorem ftdi_write_retry_spec (data : List Byte) (p : Port) :
    Returns (ftdi_write_retry usb data) p fun r p' =>
      ∃ l, p.Wrote p' l ∧ l <+: data ∧ (r = true → l = data) := by
  have h := ftdi_write_loop_spec usb data 100 0 p (by omega)
  rwa [List.drop_zero] at h

variable {usb}

/-! ## Reads -/

/-- What the device has answered, and nobody has read. -/
def Usb.waiting (usb : Usb) (p : Port) : List Byte := (usb.respond p.delivered).drop p.taken

/-- Nothing was written, and `got` is no longer waiting. -/
structure Port.Took (usb : Usb) (p p' : Port) (got : List Byte) : Prop where
  first : got <+: usb.waiting p
  delivered : p'.delivered = p.delivered
  taken : p'.taken = p.taken + got.length
  bitmode : p'.bitmode = p.bitmode

theorem Port.Took.refl (usb : Usb) (p : Port) : p.Took usb p [] :=
  ⟨List.nil_prefix, rfl, rfl, rfl⟩

theorem Port.Took.waiting {p q : Port} {l : List Byte} (h : p.Took usb q l) :
    usb.waiting q = (usb.waiting p).drop l.length := by
  rw [Usb.waiting, Usb.waiting, h.delivered, h.taken, List.drop_drop]

theorem Port.Took.trans {p q r : Port} {l m : List Byte} (h : p.Took usb q l)
    (h' : q.Took usb r m) : p.Took usb r (l ++ m) := by
  refine ⟨?_, h'.delivered.trans h.delivered, ?_, h'.bitmode.trans h.bitmode⟩
  · obtain ⟨x, hx⟩ := h.first
    have hm := h'.first
    rw [h.waiting, ← hx, List.drop_left] at hm
    rw [← hx]
    exact (List.prefix_append_right_inj l).mpr hm
  · rw [h'.taken, h.taken, List.length_append, Nat.add_assoc]

theorem Port.Took.eq_take {p q : Port} {l : List Byte} (h : p.Took usb q l) :
    l = (usb.waiting p).take l.length := List.prefix_iff_eq_take.mp h.first

theorem Xfer.size_le (r : Xfer) (len : Nat) : r.size len ≤ len := by
  cases r with
  | error => exact Nat.zero_le len
  | short n => exact Nat.min_le_right n len
  | full => exact Nat.le_refl len

theorem ftdi_read_data_spec (len : Nat) (p : Port) :
    Returns (ftdi_read_data usb len) p fun r p' => p'.num_reads = p.num_reads + 1 ∧
      ∃ got, p.Took usb p' got ∧ got.length ≤ len ∧ (r = none ∧ got = [] ∨ r = some got) := by
  unfold ftdi_read_data
  apply Returns.get_bind
  split
  · apply Returns.set_bind
    exact returns_pure ⟨rfl, [], ⟨List.nil_prefix, rfl, rfl, rfl⟩, by simp, Or.inl ⟨rfl, rfl⟩⟩
  · apply Returns.set_bind
    refine returns_pure ⟨rfl, _, ⟨List.take_prefix _ _, rfl, rfl, rfl⟩, ?_, Or.inr rfl⟩
    have hsize := Xfer.size_le (usb.read_result p.num_reads) len
    rw [List.length_take]
    omega

/-- However often reads give nothing, some later read does not. -/
def Usb.Live (usb : Usb) : Prop := ∀ k, ∃ j, k ≤ j ∧ ∀ len, 1 ≤ len → 1 ≤ (usb.read_result j).size len

theorem ftdi_read_data_live (len : Nat) (p : Port)
    (h : 1 ≤ (usb.read_result p.num_reads).size len) (hw : usb.waiting p ≠ []) :
    Ensures (ftdi_read_data usb len) p fun r _ => ∃ got, r = some got ∧ got ≠ [] := by
  unfold ftdi_read_data
  apply Ensures.get_bind
  split
  · rename_i herr
    rw [herr] at h
    exact absurd h (by simp [Xfer.size])
  · apply Ensures.set_bind
    refine ensures_pure ⟨_, rfl, ?_⟩
    have hpos := List.length_pos_of_ne_nil hw
    apply List.ne_nil_of_length_pos
    rw [List.length_take]
    exact Nat.lt_min.mpr ⟨h, hpos⟩

/-- The loop has `got` already; a `true` says that the rest came too. -/
theorem ftdi_read_loop_spec (len retry : Nat) (got : List Byte) (p : Port) (h : got.length ≤ len) :
    Returns (ftdi_read_loop usb len retry got) p fun r p' =>
      ∃ l, p.Took usb p' l ∧ r.2 = got ++ l ∧ r.2.length ≤ len ∧ (r.1 = true → r.2.length = len) := by
  induction retry generalizing got p with
  | zero => exact returns_pure ⟨[], .refl usb p, by simp, h, by simp⟩
  | succ retry ih =>
    unfold ftdi_read_loop
    split
    · refine Returns.bind (ftdi_read_data_spec (len - got.length) p) ?_
      rintro r q ⟨-, l, hl, hlen, ⟨rfl, rfl⟩ | rfl⟩
      · exact returns_pure ⟨[], hl, by simp, h, by simp⟩
      · refine (ih (got ++ l) q (by rw [List.length_append]; omega)).mono ?_
        rintro r p' ⟨m, hm, hr, hle, hall⟩
        exact ⟨l ++ m, hl.trans hm, by rw [hr, List.append_assoc], hle, hall⟩
    · exact returns_pure ⟨[], .refl usb p, by simp, h, by simp⟩

theorem ftdi_read_retry_spec (len : Nat) (p : Port) :
    Returns (ftdi_read_retry usb len) p fun r p' =>
      p.Took usb p' r.2 ∧ r.2.length ≤ len ∧ (r.1 = true → r.2.length = len) := by
  refine (ftdi_read_loop_spec len 100 [] p (Nat.zero_le len)).mono ?_
  rintro r p' ⟨l, hl, hr, hle, hall⟩
  rw [List.nil_append] at hr
  rw [hr] at hle hall ⊢
  exact ⟨hl, hle, hall⟩

/-! ## Transfers that succeed -/

/-- The transfers of the drivers succeed: however short they are, the retries are enough. -/
structure Usb.Delivers (usb : Usb) : Prop where
  writes : ∀ data p, Ensures (ftdi_write_retry usb data) p fun r _ => r = true
  reads : ∀ len p, len ≤ (usb.waiting p).length →
    Ensures (ftdi_read_retry usb len) p fun r _ => r.1 = true

theorem ftdi_write_retry_delivers (h : usb.Delivers) (data : List Byte) (p : Port) :
    Returns (ftdi_write_retry usb data) p fun r p' => r = true ∧ p.Wrote p' data := by
  refine ((ftdi_write_retry_spec usb data p).and (h.writes data p)).mono ?_
  rintro r q ⟨⟨l, hl, -, hall⟩, rfl⟩
  rw [hall rfl] at hl
  exact ⟨rfl, hl⟩

theorem ftdi_read_retry_delivers (h : usb.Delivers) (len : Nat) (p : Port)
    (hlen : len ≤ (usb.waiting p).length) :
    Returns (ftdi_read_retry usb len) p fun r p' =>
      r = (true, (usb.waiting p).take len) ∧ p.Took usb p' ((usb.waiting p).take len) := by
  refine ((ftdi_read_retry_spec len p).and (h.reads len p hlen)).mono ?_
  rintro ⟨ok, got⟩ q ⟨⟨htook, -, hall⟩, rfl⟩
  have hgot : got = (usb.waiting p).take len := by
    rw [← hall rfl]
    exact htook.eq_take
  subst hgot
  exact ⟨rfl, htook⟩

/-- Every call transfers all that it is asked to, or all there is. -/
structure Usb.Reliable (usb : Usb) : Prop where
  writes : ∀ k, usb.write_result k = .full
  reads : ∀ k, usb.read_result k = .full

theorem ftdi_write_data_reliable (h : usb.Reliable) (data : List Byte) (p : Port) :
    Returns (ftdi_write_data usb data) p fun r _ => r = some data.length := by
  unfold ftdi_write_data
  apply Returns.get_bind
  rw [h.writes]
  apply Returns.set_bind
  exact returns_pure (by simp [Xfer.size])

theorem ftdi_write_loop_done (data : List Byte) (retry offset : Nat) (p : Port)
    (h : offset = data.length) :
    Returns (ftdi_write_loop usb data retry offset) p fun r _ => r = true := by
  cases retry with
  | zero => exact returns_pure (by simpa using h)
  | succ retry =>
    unfold ftdi_write_loop
    rw [if_neg (by omega)]
    exact returns_pure (by simpa using h)

theorem ftdi_write_retry_reliable (h : usb.Reliable) (data : List Byte) (p : Port) :
    Returns (ftdi_write_retry usb data) p fun r _ => r = true := by
  unfold ftdi_write_retry ftdi_write_loop
  split
  · refine Returns.bind (ftdi_write_data_reliable h (data.drop 0) p) ?_
    rintro _ q rfl
    exact ftdi_write_loop_done data _ _ q (by simp)
  · exact returns_pure (by simp; omega)

theorem ftdi_read_data_reliable (h : usb.Reliable) (len : Nat) (p : Port) :
    Returns (ftdi_read_data usb len) p fun r p' =>
      r = some ((usb.waiting p).take len) ∧ p.Took usb p' ((usb.waiting p).take len) := by
  unfold ftdi_read_data
  apply Returns.get_bind
  rw [h.reads]
  apply Returns.set_bind
  exact returns_pure ⟨rfl, List.take_prefix _ _, rfl, rfl, rfl⟩

theorem ftdi_read_loop_done (len retry : Nat) (got : List Byte) (p : Port) (h : got.length = len) :
    Returns (ftdi_read_loop usb len retry got) p fun r p' => r = (true, got) ∧ p' = p := by
  cases retry with
  | zero => exact returns_pure ⟨by simp [h], rfl⟩
  | succ retry =>
    unfold ftdi_read_loop
    rw [if_neg (by omega)]
    exact returns_pure ⟨by simp [h], rfl⟩

theorem ftdi_read_retry_reliable (h : usb.Reliable) (len : Nat) (p : Port)
    (hlen : len ≤ (usb.waiting p).length) :
    Returns (ftdi_read_retry usb len) p fun r _ => r.1 = true := by
  unfold ftdi_read_retry ftdi_read_loop
  split
  · refine Returns.bind (ftdi_read_data_reliable h (len - 0) p) ?_
    rintro _ q ⟨rfl, -⟩
    refine (ftdi_read_loop_done len _ _ q (by simpa using Nat.min_eq_left hlen)).mono ?_
    rintro _ _ ⟨rfl, -⟩
    rfl
  · have h0 : len = 0 := by simpa using ‹¬ ([] : List Byte).length < len›
    subst h0
    exact returns_pure rfl

theorem Usb.Reliable.delivers (h : usb.Reliable) : usb.Delivers where
  writes := fun data p => (ftdi_write_retry_reliable h data p).ensures
  reads := fun len p hlen => (ftdi_read_retry_reliable h len p hlen).ensures

end JtagRemote
