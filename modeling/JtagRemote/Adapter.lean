import JtagRemote.Tap
import JtagRemote.Hardware.Board

/-!
# What an adapter is for

An `Adapter` is a driver with the meaning of its calls: the cycles that the board
sees, and the read scans whose answers are still to be received. It leaves open
how many of those there may be, and what the idle clock is worth.
-/

namespace JtagRemote

/-- The cycles so far, the level of TMS, and the read scans that wait to be received. -/
structure Line where
  log : List Cycle
  tms : Bool
  pending : List Scan
  deriving DecidableEq, Repr

def Line.clock (board : Board) (l : Line) (ps : List Pins) : Line :=
  { l with log := l.log ++ board.cycles l.log ps, tms := (ps.map Pins.tms).getLastD l.tms }

/-- A scan, whose answer waits if it is a read. -/
def Line.scan (board : Board) (l : Line) (data : List Byte) (n : Nat) (flip read : Bool) : Line :=
  let ps := scanPins data n flip
  let s : Scan := ⟨n, flip, (board.cycles l.log ps).map Cycle.tdo⟩
  { l.clock board ps with pending := if read then l.pending ++ [s] else l.pending }

/-- The largest shift that a window holds. -/
def MAX_BITS : Nat := 16344

/-- In MHz: what a period of 1 ns asks for. -/
def MAX_FREQ : Nat := 1000

structure Adapter {δ : Type} (board : Board) (d : driver δ) where
  /-- The driver is in order, and stands for this line. -/
  Stands : JtagState → δ → Line → Prop
  /-- One more scan may be sent when so many answers wait. -/
  Room : Nat → Prop
  /-- The cycles of the idle clock. -/
  ticks : Nat → Nat
  /-- The frequencies that do not stop the driver. -/
  Accepts : Nat → Prop
  tms_seq {c : Jtag δ} {st : JtagState} {l : Line} {data : List Byte} {n : Nat} :
    Stands st c.dev l → c.state = stateAfter st (bitsOf data n) → 1 ≤ n → n ≤ MAX_BITS →
    n ≤ 8 * data.length →
    Returns (d.jtag_tms_seq data n) c fun r c' => r = true ∧ c'.state = c.state ∧
      ∃ ps, ps.map Pins.tms = bitsOf data n ∧ Stands c'.state c'.dev (l.clock board ps)
  send {c : Jtag δ} {l : Line} {data : List Byte} {n : Nat} {flip read : Bool} :
    Stands c.state c.dev l → c.state.isShift = true → Room l.pending.length → 1 ≤ n → n ≤ MAX_BITS →
    n ≤ 8 * data.length →
    Returns (d.jtag_scan_chain_send data n flip read) c fun r c' => r = true ∧
      c'.state = stateAfterScan c.state flip ∧
      Stands c'.state c'.dev (l.scan board data n flip read)
  send_full {c : Jtag δ} {l : Line} {data : List Byte} {n : Nat} {flip read : Bool} :
    Stands c.state c.dev l → ¬ Room l.pending.length →
    Faults (d.jtag_scan_chain_send data n flip read) c .assert_failed
  recv {c : Jtag δ} {l : Line} {s : Scan} {rest : List Scan} {size : Nat} :
    Stands c.state c.dev l → l.pending = s :: rest → s.bits ≤ 8 * size →
    Returns (d.jtag_scan_chain_recv (List.replicate size 0) s.bits s.flip) c fun r c' => r.1 = true ∧
      r.2.length = size ∧ Holds r.2 s.tdo ∧ c'.state = c.state ∧
      Stands c'.state c'.dev { l with pending := rest }
  clock {c : Jtag δ} {l : Line} {n : Nat} :
    Stands c.state c.dev l → n ≤ MAX_BITS →
    Returns (d.jtag_clock_tck n) c fun r c' => r = true ∧ c'.state = c.state ∧
      ∃ ps, ps.map Pins.tms = List.replicate (ticks n) l.tms ∧
        Stands c'.state c'.dev (l.clock board ps)
  freq {c : Jtag δ} {l : Line} {f : Nat} :
    Stands c.state c.dev l → Accepts f →
    Returns (d.set_tck_freq f) c fun _ c' => c'.state = c.state ∧ Stands c'.state c'.dev l
  freq_fails {c : Jtag δ} {l : Line} {f : Nat} :
    Stands c.state c.dev l → f ≤ MAX_FREQ → ¬ Accepts f → ∃ e, Faults (d.set_tck_freq f) c e

/-! ## The calls of `common.cpp` -/

namespace Adapter

variable {δ : Type} {board : Board} {d : driver δ} (A : Adapter board d) {c : Jtag δ} {l : Line}

theorem tms_seq_spec (data : List Byte) {n : Nat} (h : A.Stands c.state c.dev l) (hn : 1 ≤ n)
    (hn' : n ≤ MAX_BITS) (hlen : n ≤ 8 * data.length) :
    Returns (jtag_tms_seq d data n) c fun r c' => r = true ∧
      c'.state = stateAfter c.state (bitsOf data n) ∧
      ∃ ps, ps.map Pins.tms = bitsOf data n ∧ A.Stands c'.state c'.dev (l.clock board ps) := by
  rw [Returns, jtag_tms_seq_eq d data n c hlen]
  exact A.tms_seq h rfl hn hn' hlen

theorem send_spec {data : List Byte} {n : Nat} {flip read : Bool}
    (h : A.Stands c.state c.dev l) (hshift : c.state.isShift = true) (hroom : A.Room l.pending.length)
    (hn : 1 ≤ n) (hn' : n ≤ MAX_BITS) (hlen : n ≤ 8 * data.length) :
    Returns (jtag_scan_chain_send d data n flip read) c fun r c' => r = true ∧
      c'.state = stateAfterScan c.state flip ∧
      A.Stands c'.state c'.dev (l.scan board data n flip read) := by
  rw [Returns, jtag_scan_chain_send_eq]
  exact A.send (c := withCount c n) h hshift hroom hn hn' hlen

theorem send_fails {data : List Byte} {n : Nat} {flip read : Bool}
    (h : A.Stands c.state c.dev l) (hroom : ¬ A.Room l.pending.length) :
    Faults (jtag_scan_chain_send d data n flip read) c .assert_failed := by
  rw [Faults, jtag_scan_chain_send_eq]
  exact A.send_full (c := withCount c n) h hroom

theorem clock_spec {n : Nat} (h : A.Stands c.state c.dev l) (hn : n ≤ MAX_BITS) :
    Returns (jtag_clock_tck d n) c fun r c' => r = true ∧ c'.state = c.state ∧
      ∃ ps, ps.map Pins.tms = List.replicate (A.ticks n) l.tms ∧
        A.Stands c'.state c'.dev (l.clock board ps) := by
  rw [Returns, jtag_clock_tck_eq]
  exact A.clock (c := withCount c n) h hn

/-- The receive that ends a scan, when the send went well. -/
theorem scan_chain_of_send {data : List Byte} {n size : Nat} {flip read : Bool} (hnone : l.pending = [])
    (hsize : n ≤ 8 * size)
    (hsend : Returns (jtag_scan_chain_send d data n flip read) c fun r c' => r = true ∧
      c'.state = stateAfterScan c.state flip ∧ A.Stands c'.state c'.dev (l.scan board data n flip read)) :
    Returns (jtag_scan_chain d data (List.replicate size 0) n flip read) c fun r c' => r.1 = true ∧
      r.2.length = size ∧
      (if read then Holds r.2 ((board.cycles l.log (scanPins data n flip)).map Cycle.tdo)
        else r.2 = List.replicate size 0) ∧
      c'.state = stateAfterScan c.state flip ∧
      A.Stands c'.state c'.dev (l.clock board (scanPins data n flip)) := by
  unfold jtag_scan_chain
  refine Returns.bind hsend ?_
  rintro _ c' ⟨rfl, hst, h'⟩
  cases read with
  | false => exact returns_pure ⟨rfl, List.length_replicate, rfl, hst, h'⟩
  | true =>
    have hline : (l.scan board data n flip true).pending =
        [⟨n, flip, (board.cycles l.log (scanPins data n flip)).map Cycle.tdo⟩] := by
      simp [Line.scan, hnone]
    refine (A.recv h' hline hsize).mono ?_
    rintro r c'' ⟨hok, hlen, hholds, hst', h''⟩
    refine ⟨hok, hlen, hholds, hst'.trans hst, ?_⟩
    have hclock : { l.scan board data n flip true with pending := [] } =
        l.clock board (scanPins data n flip) := by
      simp [Line.scan, Line.clock, hnone]
    rwa [hclock] at h''

/-- A scan with nothing pending, and the receive of a read. -/
theorem scan_chain_spec {data : List Byte} {n size : Nat} (flip read : Bool)
    (h : A.Stands c.state c.dev l) (hnone : l.pending = []) (hshift : c.state.isShift = true)
    (hroom : A.Room 0) (hn : 1 ≤ n) (hn' : n ≤ MAX_BITS) (hlen : n ≤ 8 * data.length)
    (hsize : n ≤ 8 * size) :
    Returns (jtag_scan_chain d data (List.replicate size 0) n flip read) c fun r c' => r.1 = true ∧
      r.2.length = size ∧
      (if read then Holds r.2 ((board.cycles l.log (scanPins data n flip)).map Cycle.tdo)
        else r.2 = List.replicate size 0) ∧
      c'.state = stateAfterScan c.state flip ∧
      A.Stands c'.state c'.dev (l.clock board (scanPins data n flip)) := by
  have hpending : l.pending.length = 0 := by rw [hnone]; rfl
  exact A.scan_chain_of_send hnone hsize (A.send_spec h hshift (by rwa [hpending]) hn hn' hlen)

/-- Two adapters on one board do the same scan. -/
theorem scan_agrees {δ₂ : Type} {d₂ : driver δ₂} (A₂ : Adapter board d₂) {c₂ : Jtag δ₂} {l₂ : Line}
    {data : List Byte} {n size : Nat} {flip read : Bool} (h : A.Stands c.state c.dev l)
    (h₂ : A₂.Stands c₂.state c₂.dev l₂) (hlog : l.log = l₂.log) (hnone : l.pending = [])
    (hnone₂ : l₂.pending = []) (hstate : c.state = c₂.state) (hshift : c.state.isShift = true)
    (hroom : A.Room 0) (hroom₂ : A₂.Room 0) (hn : 1 ≤ n) (hn' : n ≤ MAX_BITS)
    (hlen : n ≤ 8 * data.length) (hsize : n ≤ 8 * size) :
    ∃ out c' c₂', jtag_scan_chain d data (List.replicate size 0) n flip read c = .ok (true, out) c' ∧
      jtag_scan_chain d₂ data (List.replicate size 0) n flip read c₂ = .ok (true, out) c₂' ∧
      c'.state = c₂'.state ∧ A.Stands c'.state c'.dev (l.clock board (scanPins data n flip)) ∧
      A₂.Stands c₂'.state c₂'.dev (l₂.clock board (scanPins data n flip)) := by
  obtain ⟨⟨_, out⟩, c', hrun, rfl, hout, hholds, hst, h'⟩ :=
    A.scan_chain_spec flip read h hnone hshift hroom hn hn' hlen hsize
  obtain ⟨⟨_, out₂⟩, c₂', hrun₂, rfl, hout₂, hholds₂, hst₂, h₂'⟩ :=
    A₂.scan_chain_spec flip read h₂ hnone₂ (hstate ▸ hshift) hroom₂ hn hn' hlen hsize
  have heq : out₂ = out := by
    cases read with
    | false => exact hholds₂.trans hholds.symm
    | true =>
      rw [hlog] at hholds
      exact Holds.unique hholds₂ hholds (hout₂.trans hout.symm)
  subst heq
  exact ⟨out₂, c', c₂', hrun, hrun₂, by rw [hst, hst₂, hstate], h', h₂'⟩

end Adapter

/-! ## The clock-only fast path -/

open JtagState

/-- One bit and then the clock alone, against all bits as a TMS sequence: both return, with the
same TAP state, and the board saw the same TMS values. -/
def FastPathAgrees {δ : Type} (d : driver δ) (seen : Jtag δ → List Cycle) (c : Jtag δ)
    (data : List Byte) (n : Nat) : Prop :=
  ∃ fast slow,
    (do
      let _ ← jtag_tms_seq d data 1
      jtag_clock_tck d (n - 1)) c = .ok true fast ∧
    jtag_tms_seq d data n c = .ok true slow ∧
    fast.state = slow.state ∧ (seen fast).map Cycle.tms = (seen slow).map Cycle.tms

theorem bitsOf_zeros {data : List Byte} {n : Nat} (h : ∀ i, i < n → bitAt data i = false) :
    bitsOf data n = List.replicate n false := by
  rw [List.eq_replicate_iff]
  refine ⟨bitsOf_length data n, ?_⟩
  intro b hb
  simp only [bitsOf, List.mem_map, List.mem_range] at hb
  obtain ⟨i, hi, rfl⟩ := hb
  exact h i hi

/-- The fast path is right just where the idle clock is worth its cycles. -/
theorem Adapter.fast_path_iff {δ : Type} {board : Board} {d : driver δ} (A : Adapter board d)
    {seen : Jtag δ → List Cycle} (hseen : ∀ c l, A.Stands c.state c.dev l → seen c = l.log)
    {c : Jtag δ} {l : Line} (h : A.Stands c.state c.dev l) (hidle : c.state = RunTestIdle)
    {data : List Byte} {n : Nat} (hzero : ∀ i, i < n → bitAt data i = false) (hn : 1 ≤ n)
    (hn' : n ≤ MAX_BITS) (hlen : n ≤ 8 * data.length) :
    FastPathAgrees d seen c data n ↔ A.ticks (n - 1) = n - 1 := by
  have hone : bitsOf data 1 = [false] := bitsOf_zeros fun i hi => hzero i (by omega)
  obtain ⟨_, c₁, hrun₁, rfl, hst₁, ps₁, hps₁, h₁⟩ :=
    A.tms_seq_spec data h (Nat.le_refl 1) (by omega) (by omega)
  obtain ⟨_, fast, hrun₂, rfl, hst₂, ps₂, hps₂, hfast⟩ := A.clock_spec (n := n - 1) h₁ (by omega)
  obtain ⟨_, slow, hrun, rfl, hst, ps, hps, hslow⟩ := A.tms_seq_spec data h hn hn' hlen
  have hprog : (do
      let _ ← jtag_tms_seq d data 1
      jtag_clock_tck d (n - 1)) c = .ok true fast := (bind_of_ok hrun₁).trans hrun₂
  have htms₂ : ps₂.map Pins.tms = List.replicate (A.ticks (n - 1)) false := by
    rw [hps₂, Line.clock, hps₁, hone]
    rfl
  have hstate : fast.state = slow.state := by
    rw [hst₂, hst₁, hst, hone, bitsOf_zeros hzero, hidle, stateAfter_idle]
    rfl
  have hseen₂ : (seen fast).map Cycle.tms =
      l.log.map Cycle.tms ++ List.replicate (1 + A.ticks (n - 1)) false := by
    rw [hseen fast _ hfast]
    simp only [Line.clock, List.map_append, cycles_tms, hps₁, hone, htms₂, List.append_assoc]
    rw [List.replicate_add]
    rfl
  have hseen' : (seen slow).map Cycle.tms = l.log.map Cycle.tms ++ List.replicate n false := by
    rw [hseen slow _ hslow]
    simp only [Line.clock, List.map_append, cycles_tms, hps, bitsOf_zeros hzero]
  constructor
  · rintro ⟨fast', slow', hfast', hslow', -, heq⟩
    rw [hprog] at hfast'
    rw [hrun] at hslow'
    cases hfast'
    cases hslow'
    rw [hseen₂, hseen', List.append_cancel_left_eq, List.replicate_inj] at heq
    omega
  · intro hticks
    refine ⟨fast, slow, hprog, hrun, hstate, ?_⟩
    rw [hseen₂, hseen', hticks, Nat.add_sub_cancel' hn]

end JtagRemote
