import JtagRemote.Origin
import JtagRemote.Mpsse.Calls

/-!
# The queue of the mpsse driver when a flush fails

A flush sends all that waits, or drops it. What was delivered is whole commands either
way, and so is what waits.
-/

namespace JtagRemote.Mpsse

variable {usb : Usb} {o : Origin} {board : Board} {e₀ e f : MpsseEngine} {c d : Jtag Mpsse}

/-! ## The queue -/

/-- The chip is at `e` with what was delivered, and would be at `f` with what waits. -/
structure Queued (o : Origin) (board : Board) (e₀ : MpsseEngine) (c : Jtag Mpsse) (e f : MpsseEngine) : Prop where
  sent : mpsseFeed board ⟨[], e₀⟩ c.dev.port.delivered = ⟨[], e⟩
  held : mpsseFeed board ⟨[], e⟩ c.dev.mpsse_buffer = ⟨[], f⟩
  since_sent : o.Since e.log e.pins.tms
  since : o.Since f.log f.pins.tms

theorem Queued.of_dev (h : Queued o board e₀ c e f) (hdev : d.dev = c.dev) : Queued o board e₀ d e f := by
  refine ⟨?_, ?_, h.since_sent, h.since⟩
  · rw [hdev]
    exact h.sent
  · rw [hdev]
    exact h.held

/-- One more command waits. -/
theorem Queued.command (h : Queued o board e₀ c e f) {w : Coded} (hw : Whole w) :
    Queued o board e₀ (appended c w.1) e (mpsseExec board w.2 f) := by
  have hadv := exec_advances board w.2 f
  refine ⟨h.sent, ?_, h.since_sent, ?_⟩
  · show mpsseFeed board ⟨[], e⟩ (c.dev.mpsse_buffer ++ w.1) = _
    rw [mpsseFeed_append, h.held]
    exact feedAll_command hw f
  · rw [hadv.log, hadv.pins, lastPins_tms]
    exact h.since.clock board _

/-- Making room for `need` bytes does not drop what waits. -/
def KeepsQueue (usb : Usb) (need : Nat) (c : Jtag Mpsse) : Prop :=
  BUFFER_LENGTH ≤ need ∨ c.dev.mpsse_buffer.length + need < MAX_TRANSFER_LENGTH ∨ c.dev.mpsse_buffer = [] ∨
    usb.Sends c.dev.mpsse_buffer c.dev.port

theorem flush_queued (hw : usb.Whole) (h : Queued o board e₀ c e f) :
    Returns (mpsse_buffer_flush usb) c fun r d => d.state = c.state ∧
      (r = true → Queued o board e₀ d f f) ∧
      (r = false → Queued o board e₀ d e e ∧ c.dev.mpsse_buffer ≠ [] ∧
        ¬ usb.Sends c.dev.mpsse_buffer c.dev.port) := by
  unfold mpsse_buffer_flush
  apply Returns.get_bind
  split
  · rename_i hlen
    have hnil := List.eq_nil_of_length_eq_zero hlen
    have hsame : e = f := by
      have hheld := h.held
      rw [hnil] at hheld
      exact congrArg Fed.machine hheld
    refine returns_pure ⟨rfl, fun _ => ?_, by simp⟩
    rw [hsame] at h
    exact h
  · rename_i hlen
    refine Returns.bind (Returns.focus (ftdi_write_retry_whole hw c.dev.mpsse_buffer c.dev.port)) ?_
    rintro r _ ⟨p, ⟨hp, hsends⟩, rfl⟩
    apply Returns.modify_bind
    refine returns_pure ⟨rfl, ?_, ?_⟩
    · rintro rfl
      refine ⟨?_, rfl, h.since, h.since⟩
      show mpsseFeed board ⟨[], e₀⟩ p.delivered = _
      rw [hp, if_pos rfl, mpsseFeed_append, h.sent, h.held]
    · rintro rfl
      refine ⟨⟨?_, rfl, h.since_sent, h.since_sent⟩, fun hnil => hlen (by rw [hnil]; rfl), fun hs => ?_⟩
      · show mpsseFeed board ⟨[], e₀⟩ p.delivered = _
        rw [hp, if_neg Bool.false_ne_true, List.append_nil, h.sent]
      · exact Bool.false_ne_true (hsends.mpr hs)

/-- Room is made, or what waits is dropped; a request that no buffer holds is refused. -/
theorem ensure_space_queued (hw : usb.Whole) (h : Queued o board e₀ c e f) (need : Nat) :
    Returns (mpsse_buffer_ensure_space usb need) c fun r d => d.state = c.state ∧
      (r = true → need < BUFFER_LENGTH ∧ ∃ e', Queued o board e₀ d e' f) ∧
      (r = false → Queued o board e₀ d e f ∧ BUFFER_LENGTH ≤ need ∨
        Queued o board e₀ d e e ∧ ¬ KeepsQueue usb need c) := by
  unfold mpsse_buffer_ensure_space
  apply Returns.get_bind
  split
  · rename_i hbig
    exact returns_pure ⟨rfl, by simp, fun _ => Or.inl ⟨h, hbig⟩⟩
  · rename_i hsmall
    split
    · rename_i hfull
      refine (flush_queued hw h).mono ?_
      rintro r d ⟨hst, hok, hdrop⟩
      refine ⟨hst, fun hr => ⟨by omega, f, hok hr⟩, fun hr => Or.inr ?_⟩
      obtain ⟨hd, hne, hfails⟩ := hdrop hr
      refine ⟨hd, ?_⟩
      rintro (hbig | hroom | hnil | hsends)
      · exact hsmall hbig
      · omega
      · exact hne hnil
      · exact hfails hsends
    · exact returns_pure ⟨rfl, fun _ => ⟨by omega, e, h⟩, by simp⟩

/-- A command that asks for the room it takes: it waits then, or the queue is dropped. -/
structure Spaced (usb : Usb) (o : Origin) (board : Board) (e₀ : MpsseEngine) (need : Nat) (ws : List Coded)
    (c : Jtag Mpsse) (e f : MpsseEngine) (r : Bool) (d : Jtag Mpsse) : Prop where
  done : r = true → ∃ e', Queued o board e₀ d e' (run board ws f)
  stopped : r = false → Queued o board e₀ d e f ∧ BUFFER_LENGTH ≤ need ∨
    Queued o board e₀ d e e ∧ ¬ KeepsQueue usb need c

theorem spaced_queued (hw : usb.Whole) (h : Queued o board e₀ c e f) {need : Nat} {w : Coded}
    (hwhole : need < BUFFER_LENGTH → Whole w) {p : MpsseProg Bool} (hp : ∀ d, Ensures p d fun r d' => r = true ∧ d' = appended d w.1) :
    Ensures (do
      if ← mpsse_buffer_ensure_space usb need then p else pure false) c fun r d => d.state = c.state ∧
        Spaced usb o board e₀ need [w] c e f r d := by
  refine Ensures.bind (ensure_space_queued hw h need).ensures ?_
  rintro r d ⟨hst, hok, hdrop⟩
  cases r with
  | false => exact ensures_pure ⟨hst, by simp, fun _ => hdrop rfl⟩
  | true =>
    obtain ⟨hneed, e', hd⟩ := hok rfl
    refine (hp d).mono ?_
    rintro _ _ ⟨rfl, rfl⟩
    exact ⟨hst, fun _ => ⟨e', hd.command (hwhole hneed)⟩, by simp⟩

/-! ## The calls -/

theorem tms_byte_queued (hw : usb.Whole) (h : Queued o board e₀ c e f) (data : List Byte) {n i : Nat}
    (hi : i < (n + 7) / 8) :
    Ensures (mpsse_tms_byte usb data n i) c fun r d => d.state = c.state ∧
      Spaced usb o board e₀ 3 [tmsCode data n i] c e f r d := by
  refine spaced_queued hw h (fun _ => tms_whole false _ _ (by omega) (by omega)) fun d => ?_
  refine append_three_appends d _ _ (index data i) (data.getD i 0) fun d => ?_
  exact (index_spec data i d).mono fun _ _ h => ⟨h.1, h.2.1⟩

/-- The bytes before the `i`-th one wait, or were sent on the way. -/
theorem tms_bytes_queued (hw : usb.Whole) (h : Queued o board e₀ c e f) (data : List Byte) {n i : Nat}
    (hi : i ≤ (n + 7) / 8) :
    Ensures (forWhile i (mpsse_tms_byte usb data n)) c fun r d => r = true → d.state = c.state ∧
      ∃ e', Queued o board e₀ d e' (run board ((List.range i).map (tmsCode data n)) f) := by
  refine Ensures.forWhile (fun i d => d.state = c.state ∧
    ∃ e', Queued o board e₀ d e' (run board ((List.range i).map (tmsCode data n)) f)) ⟨rfl, e, h⟩ ?_
  rintro j d hj ⟨hst, e', hd⟩
  refine (tms_byte_queued hw hd data (by omega)).mono ?_
  rintro r d' ⟨hst', hspaced⟩ hr
  refine ⟨hst'.trans hst, ?_⟩
  rw [List.range_succ, List.map_append, run_append]
  exact hspaced.done hr

/-- A sequence that stops does so at a flush that fails. -/
theorem tms_seq_queued (hw : usb.Whole) (h : Queued o board e₀ c e f) (data : List Byte) (n : Nat) :
    Ensures (mpsse_jtag_tms_seq usb data n) c fun r d => d.state = c.state ∧
      (r = true → ∃ e', Queued o board e₀ d e' (run board (tmsCodes data n) f)) ∧
      (r = false → ∃ i k e' f', i < (n + 7) / 8 ∧ forWhile i (mpsse_tms_byte usb data n) c = .ok true k ∧
        Queued o board e₀ k e' f' ∧ ¬ KeepsQueue usb 3 k ∧ Queued o board e₀ d e' e') := by
  intro r d hrun
  cases r with
  | true =>
    obtain ⟨hst, hd⟩ := tms_bytes_queued hw h data (Nat.le_refl _) _ _ hrun rfl
    exact ⟨hst, fun _ => hd, by simp⟩
  | false =>
    obtain ⟨i, hi, k, hrounds, hstop⟩ := forWhile_stops hrun
    obtain ⟨hst, e', hk⟩ := tms_bytes_queued hw h data (Nat.le_of_lt hi) _ _ hrounds rfl
    obtain ⟨hst', hspaced⟩ := tms_byte_queued hw hk data hi _ _ hstop
    refine ⟨hst'.trans hst, by simp, fun _ => ?_⟩
    rcases hspaced.stopped rfl with ⟨-, hbig⟩ | ⟨hd, hdrop⟩
    · exact absurd hbig (by decide)
    · exact ⟨i, k, e', _, hi, hrounds, hk, hdrop, hd⟩

theorem Spaced.nothing (h : Queued o board e₀ c e f) (need : Nat) : Spaced usb o board e₀ need [] c e f true c :=
  ⟨fun _ => ⟨e, h⟩, by simp⟩

theorem send_bytes_queued (hw : usb.Whole) (h : Queued o board e₀ c e f) {data : List Byte} {len : Nat} (read : Bool)
    (hlen : len ≤ data.length) :
    Ensures (mpsse_send_bytes usb data len (readFlag read)) c fun r d => d.state = c.state ∧
      (r = false → len ≠ 0) ∧ Spaced usb o board e₀ (3 + len) (bytesCodes data len read) c e f r d := by
  unfold mpsse_send_bytes
  by_cases hzero : len = 0
  · rw [if_pos hzero, bytesCodes, if_pos hzero]
    exact ensures_pure ⟨rfl, by simp, .nothing h _⟩
  · rw [if_neg hzero]
    have hwhole : 3 + len < BUFFER_LENGTH → ∀ w ∈ bytesCodes data len read, Whole w := by
      intro hneed
      unfold BUFFER_LENGTH at hneed
      exact bytesCodes_whole data len read hlen (by omega)
    rw [bytesCodes, if_neg hzero] at hwhole ⊢
    refine (spaced_queued hw h (fun hneed => hwhole hneed _ (List.mem_singleton.mpr rfl)) fun d => ?_).mono
      fun _ _ hd => ⟨hd.1, fun _ => hzero, hd.2⟩
    refine Ensures.bind (append_appends d [_]) ?_
    rintro _ _ rfl
    refine Ensures.bind (append_appends _ [_]) ?_
    rintro _ _ rfl
    refine Ensures.bind (append_appends _ [_]) ?_
    rintro _ _ rfl
    refine Ensures.bind (bytes_at_spec data 0 len _) ?_
    rintro _ _ ⟨rfl, rfl, -⟩
    refine Ensures.bind (append_appends _ _) ?_
    rintro _ _ rfl
    have hop : readFlag read ||| MPSSE_DO_WRITE ||| MPSSE_LSB ||| MPSSE_WRITE_NEG = bytesOp read := by
      cases read <;> rfl
    refine ensures_pure ⟨rfl, ?_⟩
    rw [appended_appended, appended_appended, appended_appended, hop]
    rfl

theorem send_rest_queued (hw : usb.Whole) (h : Queued o board e₀ c e f) (data : List Byte) (bulk : Nat) (read : Bool) :
    Ensures (mpsse_send_rest usb data bulk (readFlag read)) c fun r d => d.state = c.state ∧
      (r = false → bulk % 8 ≠ 0) ∧ Spaced usb o board e₀ 3 (restCodes data bulk read) c e f r d := by
  unfold mpsse_send_rest
  by_cases hzero : bulk % 8 = 0
  · rw [if_pos hzero, restCodes, if_pos hzero]
    exact ensures_pure ⟨rfl, by simp, .nothing h _⟩
  · rw [if_neg hzero, restCodes, if_neg hzero]
    have hop : readFlag read ||| MPSSE_DO_WRITE ||| MPSSE_LSB ||| MPSSE_WRITE_NEG ||| MPSSE_BITMODE = bitsOp read := by
      cases read <;> rfl
    rw [hop]
    refine (spaced_queued hw h (fun _ => bits_whole read _ _ (by omega) (by omega)) fun d => ?_).mono
      fun _ _ hd => ⟨hd.1, fun _ => hzero, hd.2⟩
    refine append_three_appends d _ _ (index data (bulk / 8)) (data.getD (bulk / 8) 0) fun d => ?_
    exact (index_spec data (bulk / 8) d).mono fun _ _ h => ⟨h.1, h.2.1⟩

/-- The TAP state moves before the flush that may fail. -/
theorem send_last_queued (hw : usb.Whole) (h : Queued o board e₀ c e f) (data : List Byte) {n : Nat} (read : Bool)
    (hn : 1 ≤ n) (hn' : n < 2 ^ 64) :
    Ensures (mpsse_send_last usb data n (readFlag read)) c fun r d => d.state = next_state c.state true ∧
      Spaced usb o board e₀ 3 [lastCode data n read] c e f r d := by
  unfold mpsse_send_last
  apply Ensures.modify_bind
  rw [size_sub_of_le hn hn']
  refine Ensures.bind (bit_of_spec data (n - 1) _) ?_
  rintro bit _ ⟨rfl, rfl, -⟩
  have hop : readFlag read ||| MPSSE_WRITE_TMS ||| MPSSE_LSB ||| MPSSE_BITMODE ||| MPSSE_WRITE_NEG = tmsOp read := by
    cases read <;> rfl
  rw [hop]
  have hc : Queued o board e₀ { c with state := next_state c.state true } e f := h.of_dev rfl
  have hwhole : Whole (lastCode data n read) := tms_whole read 1 _ (by omega) (by omega)
  refine (spaced_queued hw hc (fun _ => hwhole) fun d => ?_).mono ?_
  · exact append_three_appends d _ _ (pure _) _ fun d => ensures_pure ⟨rfl, rfl⟩
  · rintro r d ⟨hst, hspaced⟩
    exact ⟨hst, hspaced.done, hspaced.stopped⟩

/-! ## The TAP state -/

/-- Where the TAP is behind what was delivered: what waits is not counted. -/
def sentTap (o : Origin) (board : Board) (e₀ : MpsseEngine) (c : Jtag Mpsse) : JtagState :=
  o.tap (mpsseFeed board ⟨[], e₀⟩ c.dev.port.delivered).machine.log

theorem Queued.sentTap (h : Queued o board e₀ c e f) : sentTap o board e₀ c = o.tap e.log := by
  rw [Mpsse.sentTap, h.sent]

/-- `state` counts all cycles that were delivered or wait. -/
def Counted (o : Origin) (board : Board) (e₀ : MpsseEngine) (c : Jtag Mpsse) : Prop :=
  ∃ e f, Queued o board e₀ c e f ∧ o.tap f.log = c.state

/-- No flush of a TMS sequence from `st` fails, or without what waits the TAP is at `st`, to which the
sequence leads back. -/
def TmsKept (usb : Usb) (o : Origin) (board : Board) (e₀ : MpsseEngine) (data : List Byte) (n : Nat) (st : JtagState)
    (c : Jtag Mpsse) : Prop :=
  ∀ i k, i < (n + 7) / 8 → forWhile i (mpsse_tms_byte usb data n) c = .ok true k →
    KeepsQueue usb 3 k ∨ (sentTap o board e₀ k = st ∧ stateAfter st (bitsOf data n) = st)

theorem tms_seq_counted (hw : usb.Whole) {data : List Byte} {n : Nat} {st : JtagState}
    (h : Queued o board e₀ c e f) (hst : o.tap f.log = st) (hmoved : c.state = stateAfter st (bitsOf data n))
    (hkept : TmsKept usb o board e₀ data n st c) :
    Ensures (mpsse_jtag_tms_seq usb data n) c fun r d => Counted o board e₀ d ∧ (r = false → d.state = st) := by
  refine (tms_seq_queued hw h data n).mono ?_
  rintro r d ⟨hstate, hdone, hstop⟩
  rw [hmoved] at hstate
  cases r with
  | true =>
    obtain ⟨e', hd⟩ := hdone rfl
    obtain ⟨ps, htms, hadv⟩ := tmsCodes_run board data n f
    refine ⟨⟨e', _, hd, ?_⟩, by simp⟩
    rw [hadv.log, h.since.tap_clock, htms, hst, hstate]
  | false =>
    obtain ⟨i, k, e', f', hi, hrounds, hk, hdrop, hd⟩ := hstop rfl
    obtain ⟨hsent, hback⟩ := (hkept i k hi hrounds).resolve_left hdrop
    rw [hback] at hstate
    rw [hk.sentTap] at hsent
    exact ⟨⟨e', e', hd, hsent.trans hstate.symm⟩, fun _ => hstate⟩

/-- In a Shift state TMS is low, and held there. -/
theorem Queued.tap_held {f' : MpsseEngine} {data : List Byte} {a k : Nat} {rs : List Byte}
    (h : Queued o board e₀ c e f) (hshift : (o.tap f.log).isShift = true)
    (hadv : Advances board f f' (heldPins f.pins.tms data a k) rs) : o.tap f'.log = o.tap f.log := by
  rw [hadv.log, h.since.tap_clock, heldPins_tms, h.since.low hshift, stateAfter_low hshift]

/-- No flush of a scan fails, but for one with whose queue the TAP does not move; the flush in front of the
last bit with TMS high does not fail at all. -/
def ScanKept (usb : Usb) (o : Origin) (board : Board) (e₀ : MpsseEngine) (data : List Byte) (n : Nat)
    (flip read : Bool) (st : JtagState) (c : Jtag Mpsse) : Prop :=
  let bulk := if flip then n - 1 else n
  (bulk / 8 ≠ 0 → KeepsQueue usb (3 + bulk / 8) c ∨ sentTap o board e₀ c = st) ∧
  ∀ k, mpsse_send_bytes usb data (bulk / 8) (readFlag read) c = .ok true k →
    (bulk % 8 ≠ 0 → KeepsQueue usb 3 k ∨ sentTap o board e₀ k = st) ∧
    ∀ k', mpsse_send_rest usb data bulk (readFlag read) k = .ok true k' → flip = true → KeepsQueue usb 3 k'

theorem Spaced.counted {need : Nat} {ws : List Coded} {d : Jtag Mpsse} {st : JtagState}
    (h : Spaced usb o board e₀ need ws c e f false d) (hc : Queued o board e₀ c e f) (hst : o.tap f.log = st)
    (hkept : KeepsQueue usb need c ∨ sentTap o board e₀ c = st) (hd : d.state = st) : Counted o board e₀ d := by
  rcases h.stopped rfl with ⟨hq, -⟩ | ⟨hq, hdrop⟩
  · exact ⟨e, f, hq, hst.trans hd.symm⟩
  · have hsent := hkept.resolve_left hdrop
    rw [hc.sentTap] at hsent
    exact ⟨e, e, hq, hsent.trans hd.symm⟩

theorem scan_chain_send_counted (hw : usb.Whole) {data : List Byte} {n : Nat} {flip read : Bool}
    (h : Queued o board e₀ c e f) (hst : o.tap f.log = c.state) (hshift : c.state.isShift = true) (hn : 1 ≤ n)
    (hn' : n < 2 ^ 64) (hlen : n ≤ 8 * data.length) (hkept : ScanKept usb o board e₀ data n flip read c.state c) :
    Ensures (mpsse_jtag_scan_chain_send usb data n flip read) c fun r d =>
      Counted o board e₀ d ∧ (r = false → d.state = c.state) := by
  unfold mpsse_jtag_scan_chain_send
  unfold ScanKept at hkept
  rw [bulk_bits_of_pos flip hn hn']
  have hbulk : (if flip then n - 1 else n) ≤ n := by split <;> omega
  generalize (if flip then n - 1 else n) = bulk at hbulk hkept
  obtain ⟨hbytes, hkept⟩ := hkept
  intro r d hrun
  obtain ⟨r₁, c₁, hrun₁, hrest₁⟩ := bind_eq_ok.mp hrun
  obtain ⟨hst₁, hne₁, hspaced₁⟩ := send_bytes_queued hw h read (by omega) _ _ hrun₁
  cases r₁ with
  | false =>
    cases hrest₁
    exact ⟨hspaced₁.counted h hst (hbytes (hne₁ rfl)) hst₁, fun _ => hst₁⟩
  | true =>
    obtain ⟨hrest, hkept⟩ := hkept c₁ hrun₁
    obtain ⟨e₁, hq₁⟩ := hspaced₁.done rfl
    obtain ⟨_, hadv₁, -⟩ := bytesCodes_run board data (bulk / 8) read f (by omega)
    have htap₁ := h.tap_held (by rw [hst]; exact hshift) hadv₁
    rw [hst] at htap₁
    obtain ⟨r₂, c₂, hrun₂, hrest₂⟩ := bind_eq_ok.mp hrest₁
    obtain ⟨hst₂, hne₂, hspaced₂⟩ := send_rest_queued hw hq₁ data bulk read _ _ hrun₂
    rw [hst₁] at hst₂
    cases r₂ with
    | false =>
      cases hrest₂
      exact ⟨hspaced₂.counted hq₁ htap₁ (hrest (hne₂ rfl)) hst₂, fun _ => hst₂⟩
    | true =>
      obtain ⟨e₂, hq₂⟩ := hspaced₂.done rfl
      obtain ⟨_, hadv₂, -⟩ := restCodes_run board data bulk read (run board (bytesCodes data (bulk / 8) read) f)
      have htap₂ := hq₁.tap_held (by rw [htap₁]; exact hshift) hadv₂
      rw [htap₁] at htap₂
      cases flip with
      | false =>
        cases hrest₂
        exact ⟨⟨e₂, _, hq₂, htap₂.trans hst₂.symm⟩, by simp⟩
      | true =>
        obtain ⟨hst₃, hspaced₃⟩ := send_last_queued hw hq₂ data read hn hn' _ _ hrest₂
        cases r with
        | false =>
          rcases hspaced₃.stopped rfl with ⟨-, hbig⟩ | ⟨-, hdrop⟩
          · exact absurd hbig (by decide)
          · exact absurd (hkept c₂ hrun₂ rfl) hdrop
        | true =>
          obtain ⟨e₃, hq₃⟩ := hspaced₃.done rfl
          obtain ⟨_, hadv₃, -⟩ := lastCode_run board data n read
            (run board (restCodes data bulk read) (run board (bytesCodes data (bulk / 8) read) f))
          refine ⟨⟨e₃, _, hq₃, ?_⟩, by simp⟩
          rw [hadv₃.log, hq₂.since.tap_clock, htap₂, hst₃, hst₂]
          rfl

end JtagRemote.Mpsse
