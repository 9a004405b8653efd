import JtagRemote.Vpi.Execute
import JtagRemote.Drivers

/-!
# Clients one after the other

The records of a client should be cut from its own bytes, and these are the ones to be executed.
-/

namespace JtagRemote.Vpi

open JtagState

variable {δ : Type} {d : driver δ} {c : Jtag δ} {s t : Vpi δ} {p : List Byte}

/-! ## What is executed -/

/-- The server with the record `r` due. -/
def due (s : Vpi δ) (r : List Byte) : Vpi δ := { s with jtag_vpi_recv := 0, jtag_vpi_buffer := blank r }

/-- Over these ticks, the calls of these records are made, in one tick each, up to a fault of the driver; a tick that
executes nothing leaves the adapter alone and writes nothing. -/
inductive Executes (d : driver δ) : Vpi δ → List Net → List (List Byte) → Prop
  | nil (s : Vpi δ) : Executes d s [] []
  | quiet {s t : Vpi δ} {net : Net} {nets : List Net} {rs : List (List Byte)} : jtag_vpi_tick d net s = .ok () t →
      t.jtag = s.jtag → t.sock.written = s.sock.written → Executes d t nets rs → Executes d s (net :: nets) rs
  | record {s t : Vpi δ} {net : Net} {nets : List Net} {r : List Byte} {rs : List (List Byte)} :
      jtag_vpi_tick d net s = perform d r (due s r) → jtag_vpi_tick d net s = .ok () t → Executes d t nets rs →
      Executes d s (net :: nets) (r :: rs)
  | stops {s t : Vpi δ} {net : Net} {nets : List Net} {r : List Byte} {e : Fault} :
      jtag_vpi_tick d net s = perform d r (due s r) → jtag_vpi_tick d net s = .error e t →
      Executes d s (net :: nets) [r]

/-- The record that a tick executes, and what the tick is then. -/
theorem tick_executes (h : Waits s p) {net : Net} (hopen : net.recv ≠ .closed) :
    (∃ r, executed d s net = [r] ∧ jtag_vpi_tick d net s = perform d r (due s r)) ∨
      executed d s net = [] ∧ ∃ t, jtag_vpi_tick d net s = .ok () t ∧ t.jtag = s.jtag ∧
        t.sock.written = s.sock.written := by
  by_cases hfd : s.sock.client_fd ≥ 0
  · obtain ⟨-, buffer, hsize, -, hexecuted, htick⟩ := tick_read_eq (d := d) h hfd hopen rfl
    generalize p ++ net.recv.bytes.take (SIZEOF_CMD - p.length) = w at hexecuted htick
    by_cases hfull : w.length = SIZEOF_CMD
    · rw [if_pos hfull] at hexecuted htick
      refine .inl ⟨buffer, hexecuted, htick.trans ?_⟩
      exact vpi_execute_eq (s := { s with jtag_vpi_buffer := buffer, jtag_vpi_recv := w.length }) hsize
    · rw [if_neg hfull] at hexecuted htick
      exact .inr ⟨hexecuted, _, htick, rfl, rfl⟩
  · refine .inr ⟨if_neg hfd, ?_⟩
    rw [tick_alone hfd]
    cases net.accept <;> exact ⟨_, rfl, rfl, rfl⟩

/-- The calls of a run are those of the records that it executes. -/
theorem executes_session {nets : List Net} (h : Waits s p) (hopen : ∀ net ∈ nets, net.recv ≠ .closed) :
    Executes d s nets (session d s nets).2 := by
  induction nets generalizing s p with
  | nil => exact .nil s
  | cons net nets ih =>
    have hrest : ∀ net ∈ nets, net.recv ≠ .closed := fun net hnet => hopen net (List.mem_cons_of_mem _ hnet)
    obtain ⟨p', -, hwaits⟩ := tick_splits (d := d) h net
    rcases tick_executes (d := d) h (hopen net List.mem_cons_self) with
      ⟨r, hexecuted, htick⟩ | ⟨hexecuted, t, htick, hjtag, hwritten⟩
    · cases hrun : jtag_vpi_tick d net s with
      | ok a t =>
        rw [session, hrun, hexecuted]
        exact .record htick hrun (ih (hwaits a t hrun) hrest)
      | error e t =>
        rw [session, hrun, hexecuted]
        exact .stops htick hrun
    · rw [session, htick, hexecuted]
      exact .quiet htick hjtag hwritten (ih (hwaits () t htick) hrest)

/-! ## Isolation -/

/-- What is executed for the ticks are the records of the bytes that come in during these. -/
def OwnRecords (d : driver δ) (s : Vpi δ) (nets : List Net) : Prop :=
  (∃ rest, records.Splits (session d s nets).1 (session d s nets).2 rest) ∧ Executes d s nets (session d s nets).2

/-- A client is let in, and completes the record that an earlier one has begun. -/
theorem completes (h : Waits s p) (halone : ¬ s.sock.client_fd ≥ 0) :
    (session d s [⟨.failed, true⟩, ⟨deliver (List.replicate (SIZEOF_CMD - p.length) 0), false⟩]).1 =
      List.replicate (SIZEOF_CMD - p.length) 0 := by
  have hfd : (admitted s).sock.client_fd ≥ 0 := (by decide : (4 : Int) ≥ 0)
  have hfirst : arrived s ⟨.failed, true⟩ = [] := if_neg halone
  have hcount : (admitted s).jtag_vpi_recv = p.length := h.count
  have hsecond : arrived (admitted s) ⟨deliver (List.replicate (SIZEOF_CMD - p.length) 0), false⟩ =
      List.replicate (SIZEOF_CMD - p.length) 0 := by
    rw [arrived, if_pos hfd, bytes_deliver, hcount, List.take_of_length_le (Nat.le_of_eq List.length_replicate)]
  rw [session, tick_admits halone]
  simp only [hfirst, List.nil_append]
  rw [session]
  split
  · simp only [session, List.append_nil, hsecond]
  · exact hsecond

/-- A new client has just its own records executed, whatever it sends, if and only if the clients before it
have sent a whole number of records. -/
theorem vpi_sessions_isolated_iff {past : List Net} (hpast : past.forM (jtag_vpi_tick d) (bootVpi c) = .ok () s)
    (halone : ¬ s.sock.client_fd ≥ 0) : (∀ nets, (∀ net ∈ nets, net.recv ≠ .closed) → OwnRecords d s nets) ↔
      SIZEOF_CMD ∣ (session d (bootVpi c) past).1.length := by
  obtain ⟨p, hsplits, hwaits⟩ := session_splits (d := d) past (boot_waits c)
  rw [List.nil_append] at hsplits
  obtain ⟨hlen, hshort⟩ := hsplits.blocks_length
  have hp := hwaits () s hpast
  rw [hlen, Nat.dvd_add_right (Nat.dvd_mul_right _ _)]
  constructor
  · intro hown
    by_contra hnot
    have hpos : 0 < p.length := Nat.pos_of_ne_zero fun h0 => hnot (h0 ▸ Nat.dvd_zero _)
    obtain ⟨⟨rest, hrest⟩, -⟩ :=
      hown [⟨.failed, true⟩, ⟨deliver (List.replicate (SIZEOF_CMD - p.length) 0), false⟩] (by simp [deliver_open])
    obtain ⟨p', hall, -⟩ := session_splits (d := d)
      [⟨.failed, true⟩, ⟨deliver (List.replicate (SIZEOF_CMD - p.length) 0), false⟩] hp
    obtain ⟨hlen₁, hlt₁⟩ := hrest.blocks_length
    obtain ⟨hlen₂, hlt₂⟩ := hall.blocks_length
    -- one record is complete with the bytes of the earlier clients, and none without
    rw [completes hp halone, List.length_replicate] at hlen₁
    rw [completes hp halone, List.length_append, List.length_replicate] at hlen₂
    generalize (session d s _).2.length = n at hlen₁ hlen₂
    cases n with
    | zero => omega
    | succ n =>
      rw [Nat.mul_succ] at hlen₁
      omega
  · intro hdvd nets hopen
    obtain rfl : p = [] := List.eq_nil_of_length_eq_zero (Nat.eq_zero_of_dvd_of_lt hdvd hshort)
    obtain ⟨rest, hrest, -⟩ := session_splits (d := d) nets hp
    exact ⟨⟨rest, hrest⟩, executes_session hp hopen⟩

/-! ## Two clients -/

def blinkVpi (net : Net) : VpiProg Mpsse Unit :=
  jtag_vpi_tick (mpsse_driver (mpsseUsb Mpsse.blinkBoard Mpsse.idleEngine) (100 + 0) 15) net

/-- A client sends two CMD_RESET, the first one in two parts, and leaves. -/
def leavesWhole : List Net :=
  [⟨.failed, true⟩, ⟨deliver (List.replicate 1000 0), false⟩, ⟨deliver (List.replicate 36 0), false⟩,
    ⟨deliver (List.replicate SIZEOF_CMD 0), false⟩, ⟨.closed, false⟩]

theorem vpi_sessions_isolated_iff_whole : ∃ s, leavesWhole.forM blinkVpi (bootVpi (benchMpsse ShiftDR)) = .ok () s ∧
    ∀ nets, (∀ net ∈ nets, net.recv ≠ .closed) →
      OwnRecords (mpsse_driver (mpsseUsb Mpsse.blinkBoard Mpsse.idleEngine) (100 + 0) 15) s nets := by
  have hrun := of_returned (r := leavesWhole.forM blinkVpi (bootVpi (benchMpsse ShiftDR))) (by decide +kernel)
  have hwhole : SIZEOF_CMD ∣ (session (mpsse_driver (mpsseUsb Mpsse.blinkBoard Mpsse.idleEngine) (100 + 0) 15)
      (bootVpi (benchMpsse ShiftDR)) leavesWhole).1.length := by decide +kernel
  exact ⟨_, hrun, (vpi_sessions_isolated_iff hrun (by decide +kernel)).mpr hwhole⟩

/-- A client sends 5 as the first byte of a record, and leaves. -/
def leavesByte : List Net := [⟨.failed, true⟩, ⟨deliver [0x05], false⟩, ⟨.closed, false⟩]

/-- A client sends one whole record, a CMD_RESET. -/
def sendsReset : List Net :=
  [⟨.failed, true⟩, ⟨deliver (List.replicate SIZEOF_CMD 0), false⟩, ⟨deliver [0x00], false⟩]

/-- The byte of the earlier client stands before the record, and makes it one that does nothing: the TAP stays where
it is. -/
theorem record_outlives_client : ∃ s t, leavesByte.forM blinkVpi (bootVpi (benchMpsse ShiftDR)) = .ok () s ∧
    ¬ s.sock.client_fd ≥ 0 ∧ sendsReset.forM blinkVpi s = .ok () t ∧ t.jtag.state = ShiftDR ∧
    ¬ OwnRecords (mpsse_driver (mpsseUsb Mpsse.blinkBoard Mpsse.idleEngine) (100 + 0) 15) s sendsReset := by
  have hrun := of_returned (r := leavesByte.forM blinkVpi (bootVpi (benchMpsse ShiftDR))) (by decide +kernel)
  have hrun' := of_returned
    (r := sendsReset.forM blinkVpi (finalState (leavesByte.forM blinkVpi (bootVpi (benchMpsse ShiftDR)))))
    (by decide +kernel)
  refine ⟨_, _, hrun, by decide +kernel, hrun', by decide +kernel, ?_⟩
  generalize hs : finalState (leavesByte.forM blinkVpi (bootVpi (benchMpsse ShiftDR))) = s
  have hown : (session (mpsse_driver (mpsseUsb Mpsse.blinkBoard Mpsse.idleEngine) (100 + 0) 15) s sendsReset).1 =
      List.replicate SIZEOF_CMD 0 := by
    rw [← hs]
    decide +kernel
  have hrecords : (session (mpsse_driver (mpsseUsb Mpsse.blinkBoard Mpsse.idleEngine) (100 + 0) 15) s sendsReset).2 =
      [0x05 :: List.replicate (SIZEOF_CMD - 1) 0] := by
    rw [← hs]
    decide +kernel
  rintro ⟨⟨rest, hsplits⟩, -⟩
  rw [hown, hrecords] at hsplits
  have hwhole : records.Splits (List.replicate SIZEOF_CMD 0) [List.replicate SIZEOF_CMD 0] [] :=
    .whole (Framer.blocks_full List.length_replicate)
  have hhead := (hsplits.unique hwhole).1
  rw [List.cons.injEq] at hhead
  exact absurd hhead.1 (by decide +kernel)

end JtagRemote.Vpi
