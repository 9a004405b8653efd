import JtagRemote.Lib.Bits

/-!
# The board

Each rising edge of TCK is one cycle. The TDO bit of a cycle depends on the
cycles before it and on nothing else; what a board does with them is left open.
-/

namespace JtagRemote

/-- The pins that the adapter drives. -/
structure Pins where
  tms : Bool
  tdi : Bool
  deriving DecidableEq, Repr

structure Cycle where
  tms : Bool
  tdi : Bool
  tdo : Bool
  deriving DecidableEq, Repr

def Cycle.pins (c : Cycle) : Pins := ⟨c.tms, c.tdi⟩

/-- `noise` gives the bits of an answer that no documentation fixes. -/
structure Board where
  tdo : List Cycle → Bool
  noise : List Cycle → Byte

/-- The cycles that a board goes through, after the ones in `log`. -/
def Board.cycles (board : Board) (log : List Cycle) : List Pins → List Cycle
  | [] => []
  | p :: ps => ⟨p.tms, p.tdi, board.tdo log⟩ ::
      board.cycles (log ++ [⟨p.tms, p.tdi, board.tdo log⟩]) ps

variable (board : Board)

@[simp] theorem cycles_nil (log : List Cycle) : board.cycles log [] = [] := rfl

@[simp] theorem cycles_pins (log : List Cycle) (ps : List Pins) :
    (board.cycles log ps).map Cycle.pins = ps := by
  induction ps generalizing log with
  | nil => rfl
  | cons p ps ih => simp [Board.cycles, ih, Cycle.pins]

@[simp] theorem cycles_length (log : List Cycle) (ps : List Pins) :
    (board.cycles log ps).length = ps.length := by
  rw [← List.length_map (f := Cycle.pins), cycles_pins]

theorem cycles_append (log : List Cycle) (ps qs : List Pins) :
    board.cycles log (ps ++ qs) =
      board.cycles log ps ++ board.cycles (log ++ board.cycles log ps) qs := by
  induction ps generalizing log with
  | nil => simp
  | cons p ps ih => simp [Board.cycles, ih]

theorem map_tms_eq (cs : List Cycle) : cs.map Cycle.tms = (cs.map Cycle.pins).map Pins.tms := by
  simp [Cycle.pins, Function.comp_def]

theorem map_tdi_eq (cs : List Cycle) : cs.map Cycle.tdi = (cs.map Cycle.pins).map Pins.tdi := by
  simp [Cycle.pins, Function.comp_def]

@[simp] theorem cycles_tms (log : List Cycle) (ps : List Pins) :
    (board.cycles log ps).map Cycle.tms = ps.map Pins.tms := by rw [map_tms_eq, cycles_pins]

@[simp] theorem cycles_tdi (log : List Cycle) (ps : List Pins) :
    (board.cycles log ps).map Cycle.tdi = ps.map Pins.tdi := by rw [map_tdi_eq, cycles_pins]

/-- The cycles are those of the board, after the ones in `log`. -/
def Board.Ran (board : Board) (log cs : List Cycle) : Prop := board.cycles log (cs.map Cycle.pins) = cs

theorem Board.Ran.append {board : Board} {log cs cs' : List Cycle} (h : board.Ran log cs)
    (h' : board.Ran (log ++ cs) cs') : board.Ran log (cs ++ cs') := by
  unfold Board.Ran at *
  rw [List.map_append, cycles_append, h, h']

theorem Board.Ran.split {board : Board} {log cs cs' : List Cycle} (h : board.Ran log (cs ++ cs')) :
    board.Ran log cs ∧ board.Ran (log ++ cs) cs' := by
  unfold Board.Ran at *
  rw [List.map_append, cycles_append] at h
  obtain ⟨hleft, hright⟩ := List.append_inj h (by simp)
  rw [hleft] at hright
  exact ⟨hleft, hright⟩

theorem cycles_ran (board : Board) (log : List Cycle) (ps : List Pins) :
    board.Ran log (board.cycles log ps) := by rw [Board.Ran, cycles_pins]

theorem Board.Ran.tdo {board : Board} {log cyc : List Cycle} (h : board.Ran log cyc) {i : Nat} {c : Cycle} (hc : cyc[i]? = some c) :
    c.tdo = board.tdo (log ++ cyc.take i) := by
  induction cyc generalizing log i with
  | nil => simp at hc
  | cons x cyc ih =>
    rw [Board.Ran, List.map_cons, Board.cycles, List.cons.injEq] at h
    obtain ⟨hx, htail⟩ := h
    cases i with
    | zero =>
      rw [List.getElem?_cons_zero, Option.some.injEq] at hc
      rw [← hc, ← hx, List.take_zero, List.append_nil]
    | succ i =>
      rw [List.getElem?_cons_succ] at hc
      have hx' : (⟨x.pins.tms, x.pins.tdi, board.tdo log⟩ : Cycle) = x := hx
      rw [hx'] at htail
      have := ih htail hc
      rwa [List.append_assoc] at this

/-- The logs of a board that has already seen some cycles. -/
def Board.Since (board : Board) (log₀ log : List Cycle) : Prop := ∃ cs, log = log₀ ++ cs ∧ board.Ran log₀ cs

theorem Board.Since.refl (board : Board) (log : List Cycle) : board.Since log log := ⟨[], (List.append_nil _).symm, rfl⟩

theorem Board.Since.trans {board : Board} {log log' log'' : List Cycle} (h : board.Since log log')
    (h' : board.Since log' log'') : board.Since log log'' := by
  obtain ⟨cs, rfl, hran⟩ := h
  obtain ⟨ds, rfl, hran'⟩ := h'
  exact ⟨cs ++ ds, List.append_assoc _ _ _, hran.append hran'⟩

theorem Board.Since.cycles {board : Board} {log₀ log : List Cycle} (h : board.Since log₀ log) (ps : List Pins) :
    board.Since log₀ (log ++ board.cycles log ps) := by
  obtain ⟨cs, rfl, hran⟩ := h
  exact ⟨cs ++ board.cycles (log₀ ++ cs) ps, List.append_assoc _ _ _, hran.append (cycles_ran board _ ps)⟩

/-- The same was added to both lists. -/
def Extended {α : Type} (xs xs' ys ys' : List α) : Prop := ∃ zs, ys = xs ++ zs ∧ ys' = xs' ++ zs

theorem Extended.refl {α : Type} (xs xs' : List α) : Extended xs xs' xs xs' :=
  ⟨[], (List.append_nil xs).symm, (List.append_nil xs').symm⟩

theorem Extended.append {α : Type} {xs xs' ys ys' : List α} (h : Extended xs xs' ys ys') (zs : List α) :
    Extended xs xs' (ys ++ zs) (ys' ++ zs) := by
  obtain ⟨cs, rfl, rfl⟩ := h
  exact ⟨cs ++ zs, List.append_assoc _ _ _, List.append_assoc _ _ _⟩

/-- After the two logs the board goes on alike. -/
structure Board.Alike (board : Board) (log log' : List Cycle) : Prop where
  tdo : ∀ cs, board.tdo (log' ++ cs) = board.tdo (log ++ cs)
  noise : ∀ cs, board.noise (log' ++ cs) = board.noise (log ++ cs)

theorem Board.Alike.append {board : Board} {log log' : List Cycle} (h : board.Alike log log') (cs : List Cycle) :
    board.Alike (log ++ cs) (log' ++ cs) := by
  refine ⟨fun ds => ?_, fun ds => ?_⟩
  · rw [List.append_assoc, List.append_assoc, h.tdo]
  · rw [List.append_assoc, List.append_assoc, h.noise]

theorem Board.Alike.goes_on {board : Board} {log log' xs xs' : List Cycle} (h : board.Alike log log')
    (hadd : Extended log log' xs xs') : board.Alike xs xs' := by
  obtain ⟨cs, rfl, rfl⟩ := hadd
  exact h.append cs

theorem Board.Alike.tdo_eq {board : Board} {log log' : List Cycle} (h : board.Alike log log') :
    board.tdo log' = board.tdo log := by simpa using h.tdo []

theorem Board.Alike.noise_eq {board : Board} {log log' : List Cycle} (h : board.Alike log log') :
    board.noise log' = board.noise log := by simpa using h.noise []

theorem Board.Alike.cycles {board : Board} {log log' : List Cycle} (h : board.Alike log log') (ps : List Pins) :
    board.cycles log' ps = board.cycles log ps := by
  induction ps generalizing log log' with
  | nil => rfl
  | cons p ps ih =>
    rw [Board.cycles, Board.cycles, h.tdo_eq, ih (h.append _)]

/-- The level of the pins after the cycles; `p` is the level before them. -/
def lastPins (p : Pins) (ps : List Pins) : Pins := ps.getLastD p

@[simp] theorem lastPins_nil (p : Pins) : lastPins p [] = p := rfl

theorem lastPins_append (p : Pins) (ps qs : List Pins) :
    lastPins p (ps ++ qs) = lastPins (lastPins p ps) qs := by
  simp only [lastPins, List.getLastD_eq_getLast?, List.getLast?_append]
  cases qs.getLast? <;> simp

theorem lastPins_tms (p : Pins) (ps : List Pins) :
    (lastPins p ps).tms = (ps.map Pins.tms).getLastD p.tms := by
  simp only [lastPins, List.getLastD_eq_getLast?, List.getLast?_map]
  cases ps.getLast? <;> rfl

/-! ## The cycles of a scan -/

/-- The `k` cycles that shift the bits from `a` on, with TMS low. -/
def dataPins (data : List Byte) (a k : Nat) : List Pins :=
  (List.range k).map fun i => ⟨false, bitAt data (a + i)⟩

/-- The cycles of a scan: TMS is high in the last one when it flips. -/
def scanPins (data : List Byte) (n : Nat) (flip : Bool) : List Pins :=
  (List.range n).map fun i => ⟨flip && decide (i + 1 = n), bitAt data i⟩

/-- The same with TMS held at a level. -/
def heldPins (tms : Bool) (data : List Byte) (a k : Nat) : List Pins :=
  (List.range k).map fun i => ⟨tms, bitAt data (a + i)⟩

theorem heldPins_low (data : List Byte) (a k : Nat) : heldPins false data a k = dataPins data a k := rfl

theorem heldPins_append (tms : Bool) (data : List Byte) (a j k : Nat) :
    heldPins tms data a (j + k) = heldPins tms data a j ++ heldPins tms data (a + j) k := by
  simp [heldPins, List.range_add, Function.comp_def, Nat.add_assoc]

theorem dataPins_append (data : List Byte) (a j k : Nat) :
    dataPins data a (j + k) = dataPins data a j ++ dataPins data (a + j) k := heldPins_append false data a j k

theorem heldPins_level (data : List Byte) (a k : Nat) (p : Pins) :
    (lastPins p (heldPins p.tms data a k)).tms = p.tms := by
  rw [lastPins_tms, List.getLastD_eq_getLast?]
  cases hl : ((heldPins p.tms data a k).map Pins.tms).getLast? with
  | none => rfl
  | some b =>
    have hb := List.mem_of_getLast? hl
    simp only [heldPins, List.map_map, List.mem_map, Function.comp_apply] at hb
    obtain ⟨-, -, rfl⟩ := hb
    rfl

theorem heldPins_tdi (tms : Bool) (data : List Byte) (a k : Nat) :
    (heldPins tms data a k).map Pins.tdi = (List.range k).map fun i => bitAt data (a + i) := by
  simp [heldPins, Function.comp_def]

theorem scanPins_split (data : List Byte) (n : Nat) (flip : Bool) (h : 1 ≤ n) :
    scanPins data n flip = dataPins data 0 (if flip then n - 1 else n) ++
      if flip then [⟨true, bitAt data (n - 1)⟩] else [] := by
  cases flip with
  | false => simp [scanPins, dataPins]
  | true =>
    obtain ⟨m, rfl⟩ : ∃ m, n = m + 1 := ⟨n - 1, by omega⟩
    simp only [scanPins, dataPins, List.range_succ, List.map_append, if_true, Nat.add_sub_cancel,
      List.map_cons, List.map_nil, decide_true, Bool.true_and, Nat.zero_add]
    congr 1
    apply List.map_congr_left
    intro i hi
    have : ¬ i + 1 = m + 1 := by rw [List.mem_range] at hi; omega
    simp only [this, decide_false]

/-- The bits go out on TDI, and a flip has TMS high in the last cycle. -/
structure Shifts (data : List Byte) (n : Nat) (flip : Bool) (ps : List Pins) : Prop where
  tdi : ps.map Pins.tdi = bitsOf data n
  last : flip = true → (ps.map Pins.tms).getLast? = some true

/-- The parts of a scan, whatever the level of TMS is in them. -/
theorem shifts_of_parts {data : List Byte} {n a b : Nat} {flip : Bool} (hn : 1 ≤ n)
    (hab : a + b = if flip then n - 1 else n) (tms tms' : Bool) :
    Shifts data n flip (heldPins tms data 0 a ++ heldPins tms' data a b ++
      if flip then [⟨true, bitAt data (n - 1)⟩] else []) := by
  have hbulk : (heldPins tms data 0 a ++ heldPins tms' data a b).map Pins.tdi =
      bitsOf data (if flip then n - 1 else n) := by
    rw [List.map_append, heldPins_tdi, heldPins_tdi, ← hab, bitsOf, List.range_add]
    simp [Function.comp_def]
  refine ⟨?_, ?_⟩
  · rw [List.map_append, hbulk]
    cases flip with
    | false => simp
    | true =>
      obtain ⟨m, rfl⟩ : ∃ m, n = m + 1 := ⟨n - 1, by omega⟩
      simp [bitsOf_succ]
  · rintro rfl
    simp

/-- A read scan, with the TDO of its cycles. -/
structure Scan where
  bits : Nat
  flip : Bool
  tdo : List Bool
  deriving DecidableEq, Repr

def Scan.size (s : Scan) : Nat × Bool := (s.bits, s.flip)

end JtagRemote
