import JtagRemote.Adapter

/-!
# Scans in any TAP state

Outside the Shift states nothing fixes the level of TMS during a scan, but the bits go out on TDI
and TDO is read all the same.
-/

namespace JtagRemote

/-- A scan with these cycles, whose answer waits if it is a read. -/
def Line.scanned (board : Board) (l : Line) (ps : List Pins) (n : Nat) (flip read : Bool) : Line :=
  { l.clock board ps with
    pending := if read then l.pending ++ [⟨n, flip, (board.cycles l.log ps).map Cycle.tdo⟩] else l.pending }

/-- The cycles that a scan may have in a TAP state. -/
structure ScanCycles (st : JtagState) (data : List Byte) (n : Nat) (flip : Bool) (ps : List Pins) : Prop where
  shifts : Shifts data n flip ps
  exact : st.isShift = true → ps = scanPins data n flip

structure Scanner {δ : Type} (board : Board) (d : driver δ) extends Adapter board d where
  room_none : Room 0
  send_any {c : Jtag δ} {l : Line} {data : List Byte} {n : Nat} {flip read : Bool} :
    Stands c.state c.dev l → l.pending = [] → 1 ≤ n → n ≤ MAX_BITS → n ≤ 8 * data.length →
    Returns (d.jtag_scan_chain_send data n flip read) c fun r c' => r = true ∧
      c'.state = stateAfterScan c.state flip ∧ ∃ ps, ScanCycles c.state data n flip ps ∧
        Stands c'.state c'.dev (l.scanned board ps n flip read)

/-- A read scan, in any TAP state. -/
theorem Scanner.read_spec {δ : Type} {board : Board} {d : driver δ} (A : Scanner board d) {c : Jtag δ} {l : Line}
    {data : List Byte} {n size : Nat} (flip : Bool) (h : A.Stands c.state c.dev l) (hnone : l.pending = [])
    (hn : 1 ≤ n) (hn' : n ≤ MAX_BITS) (hlen : n ≤ 8 * data.length) (hsize : n ≤ 8 * size) :
    Returns (jtag_scan_chain d data (List.replicate size 0) n flip true) c fun r c' => r.1 = true ∧
      r.2.length = size ∧ c'.state = stateAfterScan c.state flip ∧ ∃ ps, ScanCycles c.state data n flip ps ∧
        Holds r.2 ((board.cycles l.log ps).map Cycle.tdo) ∧ A.Stands c'.state c'.dev (l.clock board ps) := by
  have hsend : Returns (jtag_scan_chain_send d data n flip true) c fun r c' => r = true ∧
      c'.state = stateAfterScan c.state flip ∧ ∃ ps, ScanCycles c.state data n flip ps ∧
        A.Stands c'.state c'.dev (l.scanned board ps n flip true) := by
    rw [Returns, jtag_scan_chain_send_eq]
    exact A.send_any (c := withCount c n) h hnone hn hn' hlen
  unfold jtag_scan_chain
  refine Returns.bind hsend ?_
  rintro _ c' ⟨rfl, hst, ps, hps, h'⟩
  have hpending : (l.scanned board ps n flip true).pending =
      [⟨n, flip, (board.cycles l.log ps).map Cycle.tdo⟩] := by
    simp [Line.scanned, hnone]
  refine (A.recv h' hpending hsize).mono ?_
  rintro r c'' ⟨hok, hout, hholds, hst', h''⟩
  refine ⟨hok, hout, hst'.trans hst, ps, hps, hholds, ?_⟩
  have hline : { l.scanned board ps n flip true with pending := [] } = l.clock board ps := by
    simp [Line.scanned, Line.clock, hnone]
  rwa [hline] at h''

end JtagRemote
