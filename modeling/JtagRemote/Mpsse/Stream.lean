import JtagRemote.Code.Mpsse
import JtagRemote.Ftdi
import JtagRemote.Arrays

/-!
# The byte stream of the mpsse driver

All that the device took, and then all that waits in the buffer. Each call
appends its own encoding to this stream, through the buffer or past it.
-/

namespace JtagRemote.Mpsse

variable {usb : Usb}

def stream (c : Jtag Mpsse) : List Byte := c.dev.port.delivered ++ c.dev.mpsse_buffer

/-- The stream got longer by `l`, and nothing was read. -/
structure Emits (c c' : Jtag Mpsse) (l : List Byte) : Prop where
  stream : stream c' = stream c ++ l
  taken : c'.dev.port.taken = c.dev.port.taken
  num_reads : c'.dev.port.num_reads = c.dev.port.num_reads

theorem Emits.refl (c : Jtag Mpsse) : Emits c c [] := ⟨by simp, rfl, rfl⟩

theorem Emits.trans {c d e : Jtag Mpsse} {l m : List Byte} (h : Emits c d l) (h' : Emits d e m) :
    Emits c e (l ++ m) :=
  ⟨by rw [h'.stream, h.stream, List.append_assoc], h'.taken.trans h.taken,
    h'.num_reads.trans h.num_reads⟩

/-! ## The buffer -/

/-- A flush delivers all that waits. -/
theorem flush_spec (c : Jtag Mpsse) :
    Returns (mpsse_buffer_flush usb) c fun r c' =>
      c'.state = c.state ∧ (r = true → Emits c c' [] ∧ c'.dev.mpsse_buffer = []) := by
  unfold mpsse_buffer_flush
  apply Returns.get_bind
  split
  · rename_i h
    exact returns_pure ⟨rfl, fun _ => ⟨.refl c, List.eq_nil_of_length_eq_zero h⟩⟩
  · refine Returns.bind (Returns.focus (ftdi_write_retry_spec usb c.dev.mpsse_buffer c.dev.port)) ?_
    rintro r _ ⟨p, ⟨l, hl, -, hall⟩, rfl⟩
    apply Returns.modify_bind
    refine returns_pure ⟨rfl, fun hr => ⟨⟨?_, hl.taken, hl.num_reads⟩, rfl⟩⟩
    simp only [stream, hl.delivered, hall hr, List.append_nil]

theorem flush_succeeds (h : usb.Delivers) (c : Jtag Mpsse) :
    Returns (mpsse_buffer_flush usb) c fun r _ => r = true := by
  unfold mpsse_buffer_flush
  apply Returns.get_bind
  split
  · exact returns_pure rfl
  · refine Returns.bind (Returns.focus (ftdi_write_retry_delivers h _ c.dev.port)) ?_
    rintro r _ ⟨p, ⟨rfl, -⟩, rfl⟩
    exact Returns.modify_bind (returns_pure rfl)

theorem ensure_space_spec (c : Jtag Mpsse) (n : Nat) :
    Returns (mpsse_buffer_ensure_space usb n) c fun r c' =>
      c'.state = c.state ∧
        (r = true → Emits c c' [] ∧ c'.dev.mpsse_buffer.length + n < BUFFER_LENGTH) := by
  unfold mpsse_buffer_ensure_space
  apply Returns.get_bind
  split
  · exact returns_pure ⟨rfl, by simp⟩
  · split
    · refine (flush_spec c).mono ?_
      rintro r d ⟨hst, h⟩
      refine ⟨hst, fun hr => ⟨(h hr).1, ?_⟩⟩
      rw [(h hr).2, List.length_nil]
      omega
    · refine returns_pure ⟨rfl, fun _ => ⟨.refl c, ?_⟩⟩
      simp only [MAX_TRANSFER_LENGTH, BUFFER_LENGTH] at *
      omega

theorem ensure_space_succeeds (h : usb.Delivers) (c : Jtag Mpsse) (n : Nat)
    (hn : n < BUFFER_LENGTH) :
    Returns (mpsse_buffer_ensure_space usb n) c fun r _ => r = true := by
  unfold mpsse_buffer_ensure_space
  apply Returns.get_bind
  rw [if_neg (by omega)]
  split
  · exact flush_succeeds h c
  · exact returns_pure rfl

/-- `c` with more bytes in the buffer. -/
def appended (c : Jtag Mpsse) (l : List Byte) : Jtag Mpsse :=
  { c with dev := { c.dev with mpsse_buffer := c.dev.mpsse_buffer ++ l } }

theorem appended_appended (c : Jtag Mpsse) (l m : List Byte) : appended (appended c l) m = appended c (l ++ m) := by
  simp [appended]

theorem append_appends (c : Jtag Mpsse) (l : List Byte) :
    Ensures (mpsse_buffer_append l) c fun _ c' => c' = appended c l := by
  unfold mpsse_buffer_append
  apply Ensures.get_bind
  split
  · exact ensures_modify rfl
  · exact ensures_throw

theorem emits_appended (c : Jtag Mpsse) (l : List Byte) : Emits c (appended c l) l :=
  ⟨by simp [stream, appended], rfl, rfl⟩

theorem append_spec (c : Jtag Mpsse) (l : List Byte) :
    Ensures (mpsse_buffer_append l) c fun _ c' =>
      c'.state = c.state ∧ Emits c c' l ∧
        c'.dev.mpsse_buffer.length = c.dev.mpsse_buffer.length + l.length := by
  refine (append_appends c l).mono ?_
  rintro _ _ rfl
  exact ⟨rfl, emits_appended c l, List.length_append⟩

theorem append_returns (c : Jtag Mpsse) (l : List Byte)
    (h : c.dev.mpsse_buffer.length + l.length ≤ BUFFER_LENGTH) :
    Returns (mpsse_buffer_append l) c fun _ c' =>
      c'.state = c.state ∧ Emits c c' l ∧
        c'.dev.mpsse_buffer.length = c.dev.mpsse_buffer.length + l.length := by
  have hr : Returns (mpsse_buffer_append l) c fun _ _ => True := by
    unfold mpsse_buffer_append
    apply Returns.get_bind
    rw [if_pos h]
    exact returns_modify trivial
  exact (hr.and (append_spec c l)).mono fun _ _ h => h.2

theorem append_byte_returns (c : Jtag Mpsse) (x : Byte) (h : c.dev.mpsse_buffer.length + 1 ≤ BUFFER_LENGTH) :
    Returns (mpsse_buffer_append_byte x) c fun _ c' =>
      c'.dev.mpsse_buffer.length = c.dev.mpsse_buffer.length + 1 :=
  (append_returns c [x] h).mono fun _ _ h => h.2.2

/-- Three bytes, the last one computed in between: the shape of every short command. -/
theorem append_three_appends (c : Jtag Mpsse) (x y : Byte) (p : MpsseProg Byte) (z : Byte)
    (hp : ∀ d, Ensures p d fun b d' => d' = d ∧ b = z) :
    Ensures (do
      mpsse_buffer_append_byte x
      mpsse_buffer_append_byte y
      let b ← p
      mpsse_buffer_append_byte b
      pure true) c fun r c' => r = true ∧ c' = appended c [x, y, z] := by
  refine Ensures.bind (append_appends c [x]) ?_
  rintro _ _ rfl
  refine Ensures.bind (append_appends _ [y]) ?_
  rintro _ _ rfl
  refine Ensures.bind (hp _) ?_
  rintro _ _ ⟨rfl, rfl⟩
  refine Ensures.bind (append_appends _ [_]) ?_
  rintro _ _ rfl
  refine ensures_pure ⟨rfl, ?_⟩
  rw [appended_appended, appended_appended]
  rfl

theorem append_three_spec (c : Jtag Mpsse) (x y : Byte) (p : MpsseProg Byte) (z : Byte)
    (hp : ∀ d, Ensures p d fun b d' => d' = d ∧ b = z) :
    Ensures (do
      mpsse_buffer_append_byte x
      mpsse_buffer_append_byte y
      let b ← p
      mpsse_buffer_append_byte b
      pure true) c fun r c' => c'.state = c.state ∧ (r = true → Emits c c' [x, y, z]) := by
  refine (append_three_appends c x y p z hp).mono ?_
  rintro r _ ⟨-, rfl⟩
  exact ⟨rfl, fun _ => emits_appended c _⟩

theorem append_three_returns (c : Jtag Mpsse) (x y : Byte) (p : MpsseProg Byte)
    (hroom : c.dev.mpsse_buffer.length + 3 ≤ BUFFER_LENGTH)
    (hp : ∀ d, Returns p d fun _ d' => d' = d) :
    Returns (do
      mpsse_buffer_append_byte x
      mpsse_buffer_append_byte y
      let b ← p
      mpsse_buffer_append_byte b
      pure true) c fun r _ => r = true := by
  refine Returns.bind (append_byte_returns c x (by omega)) ?_
  intro _ d hd
  refine Returns.bind (append_byte_returns d y (by omega)) ?_
  intro _ e he
  refine Returns.bind (hp e) ?_
  rintro b _ rfl
  refine Returns.bind (append_byte_returns _ b (by omega)) ?_
  intro _ f _
  exact returns_pure rfl

end JtagRemote.Mpsse
