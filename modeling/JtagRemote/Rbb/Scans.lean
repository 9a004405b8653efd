import JtagRemote.Rbb.Commands
import JtagRemote.Adapter
import JtagRemote.Regions
import JtagRemote.Sock

/-!
# The regions of one read

A region of TMS bits is sent as it is. A region of data is one scan, which is read
back if its last cycle is marked; the check passes if the marks of a region are
all at its end.
-/

namespace JtagRemote.Rbb

/-! ## Replies -/

def tdoChar (c : Cycle) : Byte := if c.tdo then CHAR_1 else CHAR_0

/-- The characters are the TDO bits of the cycles at `ps`, one for each and in this order. -/
def Answers (cyc : List Cycle) (ps : List Nat) (reply : List Byte) : Prop :=
  reply.map some = ps.map fun p => (cyc[p]?).map tdoChar

theorem Answers.append {cyc : List Cycle} {ps qs : List Nat} {reply reply' : List Byte}
    (h : Answers cyc ps reply) (h' : Answers cyc qs reply') : Answers cyc (ps ++ qs) (reply ++ reply') := by
  unfold Answers at *
  rw [List.map_append, List.map_append, h, h']

theorem Answers.length {cyc : List Cycle} {ps : List Nat} {reply : List Byte} (h : Answers cyc ps reply) :
    reply.length = ps.length := by
  have := congrArg List.length h
  rwa [List.length_map, List.length_map] at this

theorem Answers.lt {cyc : List Cycle} {ps : List Nat} {reply : List Byte} (h : Answers cyc ps reply) :
    ∀ p ∈ ps, p < cyc.length := by
  intro p hp
  have hmem : (cyc[p]?).map tdoChar ∈ reply.map some := by
    rw [h]
    exact List.mem_map_of_mem hp
  obtain ⟨b, -, hb⟩ := List.mem_map.mp hmem
  by_contra hge
  rw [List.getElem?_eq_none (by omega)] at hb
  cases hb

theorem Answers.get {cyc : List Cycle} {ps : List Nat} {reply : List Byte} (h : Answers cyc ps reply) {k : Nat}
    (hk : k < ps.length) : ∃ c, cyc[ps[k]]? = some c ∧ reply[k]? = some (tdoChar c) := by
  have hlt := h.lt _ (List.getElem_mem hk)
  have hkth := congrArg (fun l => l[k]?) h
  simp only [List.getElem?_map, List.getElem?_eq_getElem hk, List.getElem?_eq_getElem hlt, Option.map_some] at hkth
  refine ⟨_, List.getElem?_eq_getElem hlt, ?_⟩
  simpa using hkth

/-- More cycles change nothing. -/
theorem Answers.extend {cyc : List Cycle} {ps : List Nat} {reply : List Byte} (h : Answers cyc ps reply)
    (more : List Cycle) : Answers (cyc ++ more) ps reply := by
  have hlt := h.lt
  unfold Answers at *
  rw [h]
  apply List.map_congr_left
  intro p hp
  rw [List.getElem?_append_left (hlt p hp)]

/-- The cycles that came last, in order. -/
theorem answers_last (cyc more : List Cycle) :
    Answers (cyc ++ more) (List.range' cyc.length more.length) (more.map tdoChar) := by
  unfold Answers
  rw [List.map_map, List.range'_eq_map_range, List.map_map]
  apply List.ext_getElem (by simp)
  intro i hi _
  have hi' : i < more.length := by simpa using hi
  simp [List.getElem?_append_right, List.getElem?_eq_getElem hi']

/-- `s` after `data` was written. -/
def wrote (s : Sock) (data : List Byte) : Sock := { s with written := s.written ++ data }

theorem wrote_append (s : Sock) (data more : List Byte) : wrote (wrote s data) more = wrote s (data ++ more) := by
  unfold wrote
  rw [List.append_assoc]

@[simp] theorem wrote_nil (s : Sock) : wrote s [] = s := by simp [wrote]

/-! ## The marks of a region -/

/-- From the first marked cycle on, all `n` cycles are marked. -/
def Rising (ms : List Nat) (a n : Nat) : Prop := ∀ i j, a ≤ i → i ≤ j → j < a + n → i ∈ ms → j ∈ ms

/-- The region is read back. -/
def isRead (ms : List Nat) (r : Region) : Bool := !r.is_tms && decide (r.end_ - 1 ∈ ms)

/-- The cycles whose TDO the region gives. -/
def answered (ms : List Nat) (r : Region) : List Nat :=
  if isRead ms r then List.range' r.begin_ (r.end_ - r.begin_) else []

section

variable {δ : Type} {s : Rbb δ} {n : Nat} {cs : List Byte} {a : Inputs} {r : Region}

/-- The loop over the bits of a data region. -/
def data_loop (a : Inputs) (start m : Nat) : RbbProg δ (List Byte × Bool) :=
  forUpto m (List.replicate BUFFER_SIZE 0, false) fun off (tdi_buffer, do_read) => do
    let tdi_bit ← bit_of a.tdi_input (start + off)
    let tdi_buffer ← or_bit tdi_buffer off tdi_bit
    let read_bit ← bit_of a.read_input (start + off)
    let do_read := do_read || read_bit
    assert (do_read == read_bit)
    pure (tdi_buffer, do_read)

theorem data_loop_spec (h : Filled n cs a) (hn : n ≤ BUFFER_SIZE) {start m : Nat} (hm : start + m ≤ 8 * n)
    (hrising : Rising (marks cs) start m) :
    Returns (data_loop a start m) s fun x s' => s' = s ∧ x.1.length = BUFFER_SIZE ∧
      Holds x.1 (bitsFrom (tdiOf cs) start m) ∧ x.2 = decide (0 < m ∧ start + m - 1 ∈ marks cs) := by
  have htdi_size := h.tdi_size
  have hread_size := h.read_size
  refine Returns.forUpto (fun k (x : List Byte × Bool) s' => s' = s ∧ x.1.length = BUFFER_SIZE ∧
    Holds x.1 (bitsFrom (tdiOf cs) start k) ∧ x.2 = decide (0 < k ∧ start + k - 1 ∈ marks cs))
    ⟨rfl, List.length_replicate, holds_replicate _, by simp⟩ ?_
  rintro off ⟨b, do_read⟩ t hoff ⟨ht, hlen, hholds, hread⟩
  simp only at hlen hholds hread ⊢
  have hbit := h.tdi (start + off) (by omega)
  have hmark := h.read (start + off) (by omega)
  have hnext := hholds.orBit (bitAt a.tdi_input (start + off)) (by rw [bitsFrom_length]; omega)
  rw [bitsFrom_length] at hnext
  -- a mark before this bit marks this one too
  have hsame : (do_read || bitAt a.read_input (start + off)) = bitAt a.read_input (start + off) := by
    rw [hmark, hread]
    by_cases hprev : 0 < off ∧ start + off - 1 ∈ marks cs
    · have := hrising (start + off - 1) (start + off) (by omega) (by omega) (by omega) hprev.2
      simp [this]
    · simp [hprev]
  refine Returns.of_eq_bind (bit_of_ok (by omega) _) ?_
  refine Returns.of_eq_bind (or_bit_ok (by omega) _ _) ?_
  refine Returns.of_eq_bind (bit_of_ok (by omega) _) ?_
  refine Returns.of_eq_bind (assert_ok (by rw [hsame, beq_self_eq_true]) _) ?_
  refine returns_pure ⟨ht, ?_, ?_, ?_⟩
  · rw [orBit_length, hlen]
  · rw [bitsFrom_succ, ← hbit]
    exact hnext
  · rw [hsame, hmark]
    simp

/-- The first bit that is not marked behind a marked one stops the loop. -/
theorem data_loop_fails (h : Filled n cs a) (hn : n ≤ BUFFER_SIZE) {start m : Nat} (hm : start + m ≤ 8 * n)
    (hrising : ¬ Rising (marks cs) start m) : Faults (data_loop a start m) s .assert_failed := by
  have htdi_size := h.tdi_size
  have hread_size := h.read_size
  induction m with
  | zero => exact absurd (fun i j hi hij hj => by omega) hrising
  | succ m ih =>
    by_cases hgood : Rising (marks cs) start m
    · -- the bits before pass, and the last one is low behind a high one
      have hbad : start + m ∉ marks cs ∧ 0 < m ∧ start + m - 1 ∈ marks cs := by
        unfold Rising at hrising
        push Not at hrising
        obtain ⟨i, j, hi, hij, hj, hmem, hno⟩ := hrising
        obtain rfl : j = start + m := by
          by_contra hne
          exact hno (hgood i j hi hij (by omega) hmem)
        have hlt : i < start + m := by
          rcases Nat.lt_or_ge i (start + m) with hlt | hge
          · exact hlt
          · rw [show i = start + m by omega] at hmem
            exact absurd hmem hno
        exact ⟨hno, by omega, hgood i (start + m - 1) hi (by omega) (by omega) hmem⟩
      refine Returns.bind_faults (data_loop_spec h hn (by omega) hgood) ?_
      rintro ⟨b, do_read⟩ t ⟨rfl, hlen, -, hread⟩
      simp only at hlen hread ⊢
      have hmark := h.read (start + m) (by omega)
      rw [decide_eq_true hbad.2] at hread
      rw [decide_eq_false hbad.1] at hmark
      refine Faults.of_eq_bind (bit_of_ok (by omega) _) ?_
      refine Faults.of_eq_bind (or_bit_ok (by omega) _ _) ?_
      refine Faults.of_eq_bind (bit_of_ok (by omega) _) ?_
      rw [hread, hmark]
      exact Faults.bind ⟨_, assert_fails rfl _⟩
    · exact Faults.bind (ih (by omega) hgood)

/-! ## What is sent back -/

theorem take_splice_succ (dst : List Byte) {i : Nat} (hi : i < dst.length) (b : Byte) :
    (splice dst i [b]).take (i + 1) = dst.take i ++ [b] := by
  have htake : (dst.take i ++ [b]).length = i + 1 := by
    rw [List.length_append, List.length_take, List.length_singleton]
    omega
  rw [splice, ← htake, List.take_left]

theorem rbb_send_bits_spec (junk : Junk) {out : List Byte} {m : Nat} (hm : m ≤ 8 * out.length)
    (hsize : m ≤ BUFFER_SIZE) (halive : s.sock.alive = true) :
    rbb_send_bits junk out m s = .ok ()
      { s with sock := wrote s.sock ((bitsOf out m).map fun b => if b then CHAR_1 else CHAR_0) } := by
  have hloop : Returns (forUpto m (uninit junk.send) fun i send_buffer => do
      let tdo_bit ← bit_of out i
      memcpy send_buffer i [if tdo_bit then CHAR_1 else CHAR_0] : RbbProg δ (List Byte)) s fun (b : List Byte) s' =>
        s' = s ∧ b.length = BUFFER_SIZE ∧
          b.take m = (bitsOf out m).map fun b => if b then CHAR_1 else CHAR_0 := by
    refine Returns.forUpto (fun i (b : List Byte) s' => s' = s ∧ b.length = BUFFER_SIZE ∧
      b.take i = (bitsOf out i).map fun b => if b then CHAR_1 else CHAR_0) ⟨rfl, by simp [uninit], by simp⟩ ?_
    rintro i b t hi ⟨rfl, hlen, htake⟩
    have hfits : i + [if bitAt out i then CHAR_1 else CHAR_0].length ≤ b.length := by
      rw [List.length_singleton]
      omega
    refine Returns.of_eq_bind (bit_of_ok (by omega) _) ?_
    refine ⟨_, _, memcpy_ok hfits _, rfl, ?_, ?_⟩
    · rw [splice_length _ _ _ hfits, hlen]
    · rw [take_splice_succ _ (by omega), htake, bitsOf_succ, List.map_append]
      rfl
  obtain ⟨b, s', hrun, hs, hlen, htake⟩ := hloop
  rw [hs] at hrun
  have hbytes : (bytes_at b 0 m : RbbProg δ (List Byte)) s = .ok (b.take m) s := by
    rw [bytes_at_ok (by omega), List.drop_zero]
  have hwrite : rbb_sock (write_full (b.take m)) s = .ok true { s with sock := wrote s.sock (b.take m) } := by
    unfold rbb_sock focus
    rw [Sock.write_full_ok halive]
    rfl
  unfold rbb_send_bits
  rw [bind_of_ok hrun, bind_of_ok hbytes, bind_of_ok hwrite, ← htake]
  rfl

end

/-! ## The cycles so far -/

section

variable {δ : Type} {board : Board} {d : driver δ} (A : Adapter board d) {s₀ s : Rbb δ} {l : Line}
  {st : JtagState} {n k : Nat} {cs : List Byte} {a : Inputs} {r : Region} {ps : List Nat} {cyc : List Cycle}

/-- The first `k` cycles of the commands were played since `s₀`, and those at `ps` answered. -/
structure Playing (s₀ : Rbb δ) (l : Line) (st : JtagState) (cs : List Byte) (k : Nat) (ps : List Nat)
    (s : Rbb δ) (cyc : List Cycle) : Prop where
  tms : cyc.map Cycle.tms = bitsOf (tmsOf cs) k
  tdi : ∀ i, i < k → shiftsAt st (tmsOf cs) i = true →
    (cyc[i]?).map Cycle.tdi = some (bitAt (tdiOf cs) i)
  ran : board.Ran l.log cyc
  state : s.jtag.state = stateAt st (tmsOf cs) k
  stands : ∃ tms, A.Stands s.jtag.state s.jtag.dev ⟨l.log ++ cyc, tms, []⟩
  sock : ∃ reply, Answers cyc ps reply ∧ s.sock = wrote s₀.sock reply
  count : ps.length ≤ k

theorem Playing.length (h : Playing A s₀ l st cs k ps s cyc) : cyc.length = k := by
  have := congrArg List.length h.tms
  rwa [List.length_map, bitsOf_length] at this

/-- One region more. -/
theorem Playing.extend (h : Playing A s₀ l st cs r.begin_ ps s cyc) (hr : RegionOk st (tmsOf cs) r)
    {qs : List Pins} {c : Jtag δ} {sock : Sock} (htms : qs.map Pins.tms = r.cut (tmsOf cs))
    (htdi : r.is_tms = false → qs.map Pins.tdi = r.cut (tdiOf cs))
    (hstate : c.state = stateAt st (tmsOf cs) r.end_)
    (hstands : ∃ tms, A.Stands c.state c.dev ⟨l.log ++ (cyc ++ board.cycles (l.log ++ cyc) qs), tms, []⟩)
    (hsock : sock = wrote s.sock
      (if isRead (marks cs) r then (board.cycles (l.log ++ cyc) qs).map tdoChar else [])) :
    Playing A s₀ l st cs r.end_ (ps ++ answered (marks cs) r) ⟨c, sock⟩
      (cyc ++ board.cycles (l.log ++ cyc) qs) := by
  have hne := hr.nonempty
  have hlen := h.length
  have hqs : qs.length = r.end_ - r.begin_ := by
    have := congrArg List.length htms
    rwa [List.length_map, Region.cut, bitsFrom_length] at this
  have hend : r.begin_ + (r.end_ - r.begin_) = r.end_ := by omega
  refine ⟨?_, ?_, ?_, hstate, hstands, ?_, ?_⟩
  · rw [List.map_append, h.tms, cycles_tms, htms, Region.cut, ← bitsOf_append, hend]
  · intro i hi hshift
    rcases Nat.lt_or_ge i r.begin_ with hlt | hge
    · rw [List.getElem?_append_left (by omega)]
      exact h.tdi i hlt hshift
    · have hdata : r.is_tms = false := by
        have := hr.kind i hge hi
        rw [hshift] at this
        simpa using this.symm
      rw [List.getElem?_append_right (by omega), ← List.getElem?_map, cycles_tdi, htdi hdata, Region.cut,
        List.getElem?_eq_getElem (by rw [bitsFrom_length]; omega)]
      simp only [bitsFrom, List.getElem_map, List.getElem_range]
      rw [hlen, Nat.add_sub_cancel' hge]
  · exact h.ran.append (cycles_ran _ _ _)
  · obtain ⟨reply, hreply, hs⟩ := h.sock
    refine ⟨_, ?_, hsock.trans (by rw [hs, wrote_append])⟩
    refine (hreply.extend _).append ?_
    unfold answered
    split
    · have := answers_last cyc (board.cycles (l.log ++ cyc) qs)
      rwa [hlen, cycles_length, hqs] at this
    · rfl
  · have hcount := h.count
    rw [List.length_append, answered]
    split
    · rw [List.length_range']
      omega
    · simp only [List.length_nil]
      omega

theorem rbb_tms_region_spec (hfilled : Filled n cs a) (hn : n ≤ BUFFER_SIZE) (hbits : (pins cs).length ≤ 8 * n)
    (hfit : (pins cs).length ≤ MAX_BITS) (h : Playing A s₀ l st cs r.begin_ ps s cyc)
    (hr : RegionOk st (tmsOf cs) r) (htms : r.is_tms = true) (hend : r.end_ ≤ (pins cs).length) :
    Returns (rbb_tms_region d a r) s fun _ s' => ∃ cyc',
      Playing A s₀ l st cs r.end_ (ps ++ answered (marks cs) r) s' cyc' := by
  have hne := hr.nonempty
  have hcut : (r.cut (tmsOf cs)).length = r.end_ - r.begin_ := bitsFrom_length _ _ _
  obtain ⟨tms, hstands⟩ := h.stands
  unfold rbb_tms_region
  refine Returns.bind (repack_spec hfilled.tms_size (fun i hi => hfilled.tms i hi) hne (by omega) (by omega) s) ?_
  rintro buf _ ⟨rfl, hlen, hholds⟩
  have hcutbits : bitsOf buf (r.end_ - r.begin_) = r.cut (tmsOf cs) := by
    have := hholds.bitsOf
    rwa [hcut] at this
  have hroom : r.end_ - r.begin_ ≤ 8 * buf.length := by omega
  refine Returns.of_eq_bind (Region.length_ok hne _) ?_
  refine Returns.bind (Returns.focus (A.tms_seq_spec buf hstands (by omega) (by omega) hroom)) ?_
  rintro _ _ ⟨c, ⟨-, hst, qs, hqs, h'⟩, rfl⟩
  have hread : isRead (marks cs) r = false := by simp [isRead, htms]
  refine returns_pure ⟨_, h.extend A hr (hqs.trans hcutbits) ?_ ?_ ?_ ?_⟩
  · intro hdata
    rw [htms] at hdata
    cases hdata
  · rw [hst, hcutbits, h.state, hr.stateAt_end]
  · refine ⟨((⟨l.log ++ cyc, tms, []⟩ : Line).clock board qs).tms, ?_⟩
    rw [← List.append_assoc]
    exact h'
  · rw [hread]
    exact (wrote_nil _).symm

theorem rbb_data_region_spec (junk : Junk) (hroom : A.Room 0) (hfilled : Filled n cs a) (hn : n ≤ BUFFER_SIZE)
    (hbits : (pins cs).length ≤ 8 * n) (hfit : (pins cs).length ≤ BUFFER_SIZE) (halive : s₀.sock.alive = true)
    (h : Playing A s₀ l st cs r.begin_ ps s cyc) (hr : RegionOk st (tmsOf cs) r) (hdata : r.is_tms = false)
    (hend : r.end_ ≤ (pins cs).length) (hrising : Rising (marks cs) r.begin_ (r.end_ - r.begin_)) :
    Returns (rbb_data_region d junk a r ps.length) s fun m s' =>
      m = (ps ++ answered (marks cs) r).length ∧ ∃ cyc',
        Playing A s₀ l st cs r.end_ (ps ++ answered (marks cs) r) s' cyc' := by
  have hne := hr.nonempty
  have hcount := h.count
  have hcut : (r.cut (tdiOf cs)).length = r.end_ - r.begin_ := bitsFrom_length _ _ _
  have hmax : (pins cs).length ≤ MAX_BITS := Nat.le_trans hfit (by decide)
  obtain ⟨tms, hstands⟩ := h.stands
  have hshift : s.jtag.state.isShift = true := by
    rw [h.state]
    exact hr.isShift hdata
  unfold BUFFER_SIZE at hfit
  unfold rbb_data_region
  refine Returns.bind (data_loop_spec hfilled hn (by omega) hrising) ?_
  rintro ⟨buf, do_read⟩ s ⟨rfl, hlen, hholds, hread⟩
  simp only at hlen hholds hread ⊢
  have hcutbits : bitsOf buf (r.end_ - r.begin_) = r.cut (tdiOf cs) := by
    have := hholds.bitsOf
    rwa [bitsFrom_length] at this
  have hisRead : do_read = isRead (marks cs) r := by
    rw [hread, isRead, hdata, show r.begin_ + (r.end_ - r.begin_) - 1 = r.end_ - 1 by omega]
    have : 0 < r.end_ - r.begin_ := by omega
    simp [this]
  have hlen8 : r.end_ - r.begin_ ≤ 8 * buf.length := by
    unfold BUFFER_SIZE at hlen
    omega
  refine Returns.of_eq_bind (Region.length_ok hne _) ?_
  have hsize : r.end_ - r.begin_ ≤ 8 * BUFFER_SIZE := by
    unfold BUFFER_SIZE
    omega
  refine Returns.bind (Returns.focus (A.scan_chain_spec r.flip_tms do_read hstands rfl hshift hroom (by omega)
    (by omega) hlen8 hsize)) ?_
  rintro ⟨ok, out⟩ _ ⟨c, ⟨-, hout, hanswer, hst, h'⟩, rfl⟩
  simp only at hout hanswer hst h' ⊢
  have htms : (scanPins buf (r.end_ - r.begin_) r.flip_tms).map Pins.tms = r.cut (tmsOf cs) := by
    rw [scanPins, List.map_map, hr.cut_tms hdata]
    rfl
  have htdi : (scanPins buf (r.end_ - r.begin_) r.flip_tms).map Pins.tdi = r.cut (tdiOf cs) := by
    rw [scanPins, List.map_map, ← hcutbits]
    rfl
  have hstate : c.state = stateAt st (tmsOf cs) r.end_ := by rw [hst, h.state, hr.scan_state hdata]
  have hstands' : ∃ tms, A.Stands c.state c.dev
      ⟨l.log ++ (cyc ++ board.cycles (l.log ++ cyc) (scanPins buf (r.end_ - r.begin_) r.flip_tms)), tms, []⟩ := by
    refine ⟨((⟨l.log ++ cyc, tms, []⟩ : Line).clock board
      (scanPins buf (r.end_ - r.begin_) r.flip_tms)).tms, ?_⟩
    rw [← List.append_assoc]
    exact h'
  have halive' : s.sock.alive = true := by
    obtain ⟨reply, -, hs⟩ := h.sock
    rw [hs]
    exact halive
  cases do_read with
  | false =>
    have hnone : answered (marks cs) r = [] := by rw [answered, ← hisRead]; rfl
    refine returns_pure ⟨by rw [hnone, List.append_nil], _, h.extend A hr htms (fun _ => htdi) hstate hstands' ?_⟩
    rw [← hisRead]
    exact (wrote_nil _).symm
  | true =>
    have hall : (answered (marks cs) r).length = r.end_ - r.begin_ := by
      rw [answered, ← hisRead]
      exact List.length_range'
    have hbitsOut : (bitsOf out (r.end_ - r.begin_)).map (fun b => if b then CHAR_1 else CHAR_0) =
        (board.cycles (l.log ++ cyc) (scanPins buf (r.end_ - r.begin_) r.flip_tms)).map tdoChar := by
      have := Holds.bitsOf hanswer
      rw [List.length_map, cycles_length, scanPins, List.length_map, List.length_range] at this
      rw [this, List.map_map]
      rfl
    have hfits : r.end_ - r.begin_ ≤ 8 * out.length := by rwa [hout]
    have hsize' : r.end_ - r.begin_ ≤ BUFFER_SIZE := by
      unfold BUFFER_SIZE
      omega
    have hclient : ({ s with jtag := c } : Rbb δ).sock.alive = true := halive'
    have hsend := rbb_send_bits_spec junk hfits hsize' hclient
    rw [hbitsOut] at hsend
    refine Returns.of_eq_bind hsend (returns_pure ⟨?_, _, h.extend A hr htms (fun _ => htdi) hstate hstands' ?_⟩)
    · rw [List.length_append, hall, Nat.mod_eq_of_lt (by omega)]
    · rw [← hisRead]
      rfl

theorem rbb_data_region_fails (junk : Junk) (hfilled : Filled n cs a) (hn : n ≤ BUFFER_SIZE)
    (hbits : (pins cs).length ≤ 8 * n) (hne : r.begin_ < r.end_) (hend : r.end_ ≤ (pins cs).length)
    (hrising : ¬ Rising (marks cs) r.begin_ (r.end_ - r.begin_)) (m : Nat) :
    Faults (rbb_data_region d junk a r m) s .assert_failed := by
  unfold rbb_data_region
  exact Faults.bind (data_loop_fails hfilled hn (by omega) hrising)

end

end JtagRemote.Rbb
