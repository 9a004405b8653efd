import JtagRemote.Ftdi
import JtagRemote.Lib.Twin

/-!
# Two ports side by side

Two ports on which libftdi and the device go on alike. The calls do the same on both: they
give the same results, and send the same bytes.
-/

namespace JtagRemote

/-- What is still to be read stays the same when the same answers come. -/
theorem unread_append {usb : Usb} {p p' : Port} (hread : p.taken ≤ (usb.respond p.delivered).length)
    (hread' : p'.taken ≤ (usb.respond p'.delivered).length) (hunread : usb.waiting p' = usb.waiting p)
    {l rs : List Byte} (hrs : usb.respond (p.delivered ++ l) = usb.respond p.delivered ++ rs)
    (hrs' : usb.respond (p'.delivered ++ l) = usb.respond p'.delivered ++ rs) :
    (usb.respond (p'.delivered ++ l)).drop p'.taken = (usb.respond (p.delivered ++ l)).drop p.taken := by
  rw [Usb.waiting, Usb.waiting] at hunread
  rw [hrs, hrs', List.drop_append_of_le_length hread, List.drop_append_of_le_length hread', hunread]

/-- Two ports that go on alike, if what is sent from now on begins with one of the bytes `first`. -/
structure Wire where
  usb : Usb
  start : Port
  start' : Port
  first : Byte → Prop
  answers : ∀ l, (∀ b ∈ l.head?, first b) →
    (usb.respond (start'.delivered ++ l)).drop start'.taken = (usb.respond (start.delivered ++ l)).drop start.taken
  writes : ∀ k, usb.write_result (start'.num_writes + k) = usb.write_result (start.num_writes + k)
  reads : ∀ k, usb.read_result (start'.num_reads + k) = usb.read_result (start.num_reads + k)

/-- A port and itself. -/
def Wire.same (usb : Usb) (p : Port) : Wire where
  usb := usb
  start := p
  start' := p
  first _ := True
  answers _ _ := rfl
  writes _ := rfl
  reads _ := rfl

variable {w : Wire}

/-- The same bytes went out. -/
def Wire.Seen (w : Wire) (p p' : Port) : Prop :=
  ∃ l, p.delivered = w.start.delivered ++ l ∧ p'.delivered = w.start'.delivered ++ l ∧ ∀ b ∈ l.head?, w.first b

/-- The same was done on the ports. -/
structure Wire.Same (w : Wire) (p p' : Port) : Prop where
  seen : w.Seen p p'
  taken : ∃ n, p.taken = w.start.taken + n ∧ p'.taken = w.start'.taken + n
  num_writes : ∃ n, p.num_writes = w.start.num_writes + n ∧ p'.num_writes = w.start'.num_writes + n
  num_reads : ∃ n, p.num_reads = w.start.num_reads + n ∧ p'.num_reads = w.start'.num_reads + n

/-- Any byte may go out next. -/
def Wire.Open (w : Wire) (p : Port) : Prop := (∀ b, w.first b) ∨ w.start.delivered.length < p.delivered.length

/-- The next write goes through. -/
def Wire.Ready (w : Wire) (p : Port) : Prop := w.usb.write_result p.num_writes = .full

/-- Once any byte may go out. -/
def Wire.Going (w : Wire) (p p' : Port) : Prop := w.Same p p' ∧ w.Open p

theorem Wire.Same.start (w : Wire) : w.Same w.start w.start' :=
  ⟨⟨[], by simp, by simp, by simp⟩, ⟨0, rfl, rfl⟩, ⟨0, rfl, rfl⟩, ⟨0, rfl, rfl⟩⟩

section

variable {p p' : Port}

theorem Wire.Same.write_result (h : w.Same p p') :
    w.usb.write_result p'.num_writes = w.usb.write_result p.num_writes := by
  obtain ⟨n, hn, hn'⟩ := h.num_writes
  rw [hn, hn']
  exact w.writes n

theorem Wire.Same.read_result (h : w.Same p p') :
    w.usb.read_result p'.num_reads = w.usb.read_result p.num_reads := by
  obtain ⟨n, hn, hn'⟩ := h.num_reads
  rw [hn, hn']
  exact w.reads n

/-- The same answers wait. -/
theorem Wire.Same.waiting (h : w.Same p p') : w.usb.waiting p' = w.usb.waiting p := by
  obtain ⟨l, hl, hl', hfirst⟩ := h.seen
  obtain ⟨n, hn, hn'⟩ := h.taken
  rw [Usb.waiting, Usb.waiting, hl, hl', hn, hn', ← List.drop_drop, ← List.drop_drop, w.answers l hfirst]

/-! ## Writes -/

/-- The device takes some bytes. -/
def Port.sent (p : Port) (l : List Byte) : Port :=
  { p with transfers := p.transfers ++ [(p.bitmode, l)], num_writes := p.num_writes + 1 }

theorem Port.sent_delivered (p : Port) (l : List Byte) : (p.sent l).delivered = p.delivered ++ l := by
  simp [Port.sent, Port.delivered]

theorem Wire.Same.sent (h : w.Same p p') {l : List Byte} (hl : w.Open p ∨ ∀ b ∈ l.head?, w.first b) :
    w.Same (p.sent l) (p'.sent l) := by
  obtain ⟨m, hm, hm', hfirst⟩ := h.seen
  obtain ⟨n, hn, hn'⟩ := h.num_writes
  refine ⟨⟨m ++ l, ?_, ?_, ?_⟩, h.taken, ⟨n + 1, ?_, ?_⟩, h.num_reads⟩
  · rw [Port.sent_delivered, hm, List.append_assoc]
  · rw [Port.sent_delivered, hm', List.append_assoc]
  · cases m with
    | cons a m => exact hfirst
    | nil =>
      rcases hl with (hall | hlt) | hl
      · exact fun b _ => hall b
      · rw [hm, List.append_nil] at hlt
        exact absurd hlt (Nat.lt_irrefl _)
      · exact hl
  · exact congrArg (· + 1) hn
  · exact congrArg (· + 1) hn'

theorem Wire.Open.sent (h : w.Open p) (l : List Byte) : w.Open (p.sent l) := by
  refine h.imp_right fun hlt => ?_
  rw [Port.sent_delivered, List.length_append]
  omega

end

theorem write_data_twins (data : List Byte) : Twins w.Seen w.Going w.Going (ftdi_write_data w.usb data) := by
  refine Twins.get_bind fun p p' h => ?_
  have hsent : ∀ r : Xfer, w.Going (p.sent (data.take (r.size data.length))) (p'.sent (data.take (r.size data.length))) :=
    fun r => ⟨h.1.sent (.inl h.2), h.2.sent _⟩
  rw [h.1.write_result]
  cases w.usb.write_result p.num_writes with
  | error =>
    obtain ⟨n, hn, hn'⟩ := h.1.num_writes
    exact .ok ⟨⟨h.1.seen, h.1.taken, ⟨n + 1, congrArg (· + 1) hn, congrArg (· + 1) hn'⟩, h.1.num_reads⟩, h.2⟩
  | short n => exact .ok (hsent (.short n))
  | full => exact .ok (hsent .full)

theorem write_loop_twins (data : List Byte) (retry offset : Nat) :
    Twins w.Seen w.Going w.Going (ftdi_write_loop w.usb data retry offset) := by
  induction retry generalizing offset with
  | zero => exact twins_pure _
  | succ retry ih =>
    refine twins_ite (fun _ => (write_data_twins _).bind fun res => ?_) fun _ => twins_pure _
    cases res with
    | none => exact twins_pure _
    | some k => exact ih (offset + k)

theorem write_retry_twins (data : List Byte) : Twins w.Seen w.Going w.Going (ftdi_write_retry w.usb data) :=
  write_loop_twins data 100 0

theorem write_retry_ready {data : List Byte} (hne : data ≠ []) {p : Port} (h : w.Ready p) :
    ftdi_write_retry w.usb data p = .ok true (p.sent data) := by
  have hpos : 0 < data.length := List.length_pos_iff.mpr hne
  have hready : w.usb.write_result p.num_writes = .full := h
  have hdata : ftdi_write_data w.usb (data.drop 0) p = .ok (some data.length) (p.sent data) := by
    simp [ftdi_write_data, bind_apply, hready, Xfer.size, Port.sent, -bind_pure_comp]
  rw [ftdi_write_retry, ftdi_write_loop, if_pos hpos, bind_of_ok hdata]
  simp [ftdi_write_loop, pure_apply]

/-- The first write goes through, so that anything may follow. -/
theorem first_write_twins {data : List Byte} (hne : data ≠ []) (hfirst : ∀ b ∈ data.head?, w.first b) :
    Twins w.Seen (fun p p' => w.Same p p' ∧ w.Ready p) w.Going (ftdi_write_retry w.usb data) := by
  intro p p' ⟨h, hready⟩
  have hready' : w.Ready p' := h.write_result.trans hready
  rw [write_retry_ready hne hready, write_retry_ready hne hready']
  refine .ok ⟨h.sent (.inr hfirst), .inr ?_⟩
  obtain ⟨m, hm, -⟩ := h.seen
  have hpos : 0 < data.length := List.length_pos_iff.mpr hne
  rw [Port.sent_delivered, hm, List.length_append, List.length_append]
  omega

/-! ## Reads -/

/-- Reads do not change it. -/
def ByWrites (P : Port → Prop) : Prop := ∀ p n m, P p → P { p with taken := n, num_reads := m }

theorem open_byWrites : ByWrites w.Open := fun _ _ _ h => h

theorem ready_byWrites : ByWrites w.Ready := fun _ _ _ h => h

section

variable {P : Port → Prop} (hP : ByWrites P)

include hP

theorem read_data_twins (len : Nat) :
    Twins w.Seen (fun p p' => w.Same p p' ∧ P p) (fun p p' => w.Same p p' ∧ P p) (ftdi_read_data w.usb len) := by
  refine Twins.get_bind fun p p' ⟨h, hp⟩ => ?_
  obtain ⟨n, hn, hn'⟩ := h.taken
  obtain ⟨m, hm, hm'⟩ := h.num_reads
  have hgot : ∀ k, w.Same { p with taken := p.taken + k, num_reads := p.num_reads + 1 }
      { p' with taken := p'.taken + k, num_reads := p'.num_reads + 1 } := by
    refine fun k => ⟨h.seen, ⟨n + k, ?_, ?_⟩, h.num_writes, ⟨m + 1, congrArg (· + 1) hm, congrArg (· + 1) hm'⟩⟩
    · rw [← Nat.add_assoc, ← hn]
    · rw [← Nat.add_assoc, ← hn']
  have hwaiting : (w.usb.respond p'.delivered).drop p'.taken = (w.usb.respond p.delivered).drop p.taken := h.waiting
  rw [h.read_result]
  cases w.usb.read_result p.num_reads with
  | error => exact .ok ⟨hgot 0, hP p _ _ hp⟩
  | short k =>
    dsimp only
    rw [hwaiting]
    exact .ok ⟨hgot _, hP p _ _ hp⟩
  | full =>
    dsimp only
    rw [hwaiting]
    exact .ok ⟨hgot _, hP p _ _ hp⟩

theorem read_loop_twins (len retry : Nat) (got : List Byte) :
    Twins w.Seen (fun p p' => w.Same p p' ∧ P p) (fun p p' => w.Same p p' ∧ P p)
      (ftdi_read_loop w.usb len retry got) := by
  induction retry generalizing got with
  | zero => exact twins_pure _
  | succ retry ih =>
    refine twins_ite (fun _ => (read_data_twins hP _).bind fun res => ?_) fun _ => twins_pure _
    cases res with
    | none => exact twins_pure _
    | some more => exact ih (got ++ more)

theorem read_retry_twins (len : Nat) :
    Twins w.Seen (fun p p' => w.Same p p' ∧ P p) (fun p p' => w.Same p p' ∧ P p) (ftdi_read_retry w.usb len) :=
  read_loop_twins hP len 100 []

end

end JtagRemote
