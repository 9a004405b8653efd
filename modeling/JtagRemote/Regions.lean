import JtagRemote.Tap

/-!
# The regions of a shift

`analyze_bitbang` cuts the cycles of a shift where the TAP enters or leaves a Shift
state. The regions tile the shift, and in each of them the TAP shifts data in
every cycle or in none.
-/

namespace JtagRemote

open JtagState

variable {st : JtagState} {tms : List Byte}

/-- The TAP state in which cycle `i` is taken. -/
def stateAt (st : JtagState) (tms : List Byte) (i : Nat) : JtagState := stateAfter st (bitsOf tms i)

@[simp] theorem stateAt_zero (st : JtagState) (tms : List Byte) : stateAt st tms 0 = st := rfl

theorem stateAt_succ (st : JtagState) (tms : List Byte) (i : Nat) :
    stateAt st tms (i + 1) = next_state (stateAt st tms i) (bitAt tms i) := by
  rw [stateAt, bitsOf_succ, stateAfter_append]
  rfl

theorem stateAt_add (st : JtagState) (tms : List Byte) (i n : Nat) :
    stateAt st tms (i + n) = stateAfter (stateAt st tms i) (bitsFrom tms i n) := by
  rw [stateAt, bitsOf_append, stateAfter_append]
  rfl

theorem stateAt_congr {tms' : List Byte} {n : Nat} (h : ∀ i, i < n → bitAt tms i = bitAt tms' i) :
    stateAt st tms n = stateAt st tms' n := by rw [stateAt, stateAt, bitsOf_congr h]

/-- Cycle `i` shifts data. -/
def shiftsAt (st : JtagState) (tms : List Byte) (i : Nat) : Bool := (stateAt st tms i).isShift

/-- Data goes on being shifted as long as TMS is low. -/
theorem isShift_next {s : JtagState} {b : Bool} (h : s.isShift = true) : (next_state s b).isShift = !b := by
  revert h
  cases s <;> cases b <;> decide

theorem next_low {s : JtagState} (h : s.isShift = true) : next_state s false = s := by
  revert h
  cases s <;> decide

theorem stateAfter_low {st : JtagState} (h : st.isShift = true) (n : Nat) :
    stateAfter st (List.replicate n false) = st := by
  induction n with
  | zero => rfl
  | succ n ih =>
    rw [List.replicate_succ', stateAfter_append, ih]
    exact next_low h

theorem shiftsAt_low {i : Nat} (h : shiftsAt st tms (i + 1) = true) : bitAt tms i = false := by
  rw [shiftsAt, stateAt_succ] at h
  exact next_shift h

/-! ## What a region is -/

structure RegionOk (st : JtagState) (tms : List Byte) (r : Region) : Prop where
  nonempty : r.begin_ < r.end_
  kind : ∀ i, r.begin_ ≤ i → i < r.end_ → shiftsAt st tms i = !r.is_tms
  low : r.is_tms = false → ∀ i, r.begin_ ≤ i → i < r.end_ →
    bitAt tms i = (r.flip_tms && decide (i + 1 = r.end_))

/-- The regions cover the cycles from `a` to `b`, each of them once and in order. -/
inductive Tiles (st : JtagState) (tms : List Byte) : Nat → List Region → Nat → Prop
  | nil (a : Nat) : Tiles st tms a [] a
  | cons {r : Region} {rs : List Region} {b : Nat} : RegionOk st tms r → Tiles st tms r.end_ rs b →
      Tiles st tms r.begin_ (r :: rs) b

theorem Tiles.snoc {a : Nat} {rs : List Region} {r : Region} (h : Tiles st tms a rs r.begin_)
    (hr : RegionOk st tms r) : Tiles st tms a (rs ++ [r]) r.end_ := by
  generalize hb : r.begin_ = b at h
  induction h with
  | nil a =>
    subst hb
    exact .cons hr (.nil _)
  | cons hok _ ih => exact .cons hok (ih hb)

theorem Tiles.le {a b : Nat} {rs : List Region} (h : Tiles st tms a rs b) : a ≤ b := by
  induction h with
  | nil => exact Nat.le_refl _
  | cons hok _ ih =>
    have := hok.nonempty
    omega

/-- The bits of a region. -/
def Region.cut (r : Region) (data : List Byte) : List Bool :=
  bitsFrom data r.begin_ (r.end_ - r.begin_)

theorem RegionOk.congr {tms' : List Byte} {r : Region} (h : RegionOk st tms r)
    (heq : ∀ i, i < r.end_ → bitAt tms i = bitAt tms' i) : RegionOk st tms' r := by
  refine ⟨h.nonempty, ?_, ?_⟩
  · intro i hi hi'
    rw [← h.kind i hi hi', shiftsAt, shiftsAt, stateAt_congr fun j hj => heq j (by omega)]
  · intro hdata i hi hi'
    rw [← heq i hi', h.low hdata i hi hi']

theorem Tiles.congr {tms' : List Byte} {a b : Nat} {rs : List Region} (h : Tiles st tms a rs b)
    (heq : ∀ i, i < b → bitAt tms i = bitAt tms' i) : Tiles st tms' a rs b := by
  induction h with
  | nil a => exact .nil a
  | cons hok htail ih =>
    have hle := htail.le
    exact .cons (hok.congr fun i hi => heq i (by omega)) (ih heq)

/-- The TAP moves along with the bits of a region. -/
theorem RegionOk.stateAt_end {r : Region} (h : RegionOk st tms r) :
    stateAt st tms r.end_ = stateAfter (stateAt st tms r.begin_) (r.cut tms) := by
  have := h.nonempty
  rw [Region.cut, ← stateAt_add, Nat.add_sub_cancel' (by omega)]

theorem RegionOk.isShift {r : Region} (h : RegionOk st tms r) (hdata : r.is_tms = false) :
    (stateAt st tms r.begin_).isShift = true := by
  have := h.kind r.begin_ (Nat.le_refl _) h.nonempty
  rwa [hdata] at this

/-- The TMS bits of a data region are those of a scan. -/
theorem RegionOk.cut_tms {r : Region} (h : RegionOk st tms r) (hdata : r.is_tms = false) :
    r.cut tms = (List.range (r.end_ - r.begin_)).map fun i =>
      r.flip_tms && decide (i + 1 = r.end_ - r.begin_) := by
  apply List.map_congr_left
  intro i hi
  rw [List.mem_range] at hi
  rw [h.low hdata _ (Nat.le_add_right _ _) (by omega)]
  congr 1
  rw [decide_eq_decide]
  omega

/-- A scan leaves the TAP where the bits of the region lead. -/
theorem RegionOk.scan_state {r : Region} (h : RegionOk st tms r) (hdata : r.is_tms = false) :
    stateAfterScan (stateAt st tms r.begin_) r.flip_tms = stateAt st tms r.end_ := by
  have hshift := h.isShift hdata
  obtain ⟨n, hn⟩ : ∃ n, r.end_ - r.begin_ = n + 1 := ⟨r.end_ - r.begin_ - 1, by have := h.nonempty; omega⟩
  have hstay : ∀ k, k ≤ n → stateAt st tms (r.begin_ + k) = stateAt st tms r.begin_ := by
    intro k hk
    induction k with
    | zero => rfl
    | succ k ih =>
      have hbit : bitAt tms (r.begin_ + k) = false := by
        rw [h.low hdata _ (Nat.le_add_right _ _) (by omega)]
        have : ¬ r.begin_ + k + 1 = r.end_ := by omega
        simp [this]
      rw [← Nat.add_assoc, stateAt_succ, ih (by omega), hbit, next_low hshift]
  have hend : r.end_ = r.begin_ + n + 1 := by omega
  have hlast : bitAt tms (r.begin_ + n) = r.flip_tms := by
    rw [h.low hdata _ (Nat.le_add_right _ _) (by omega)]
    simp [hend]
  rw [hend, stateAt_succ, hstay n (Nat.le_refl n), hlast, stateAfterScan]
  cases r.flip_tms with
  | false => exact (next_low hshift).symm
  | true => rfl

theorem Region.length_ok {σ : Type} {r : Region} (h : r.begin_ < r.end_) (s : σ) :
    (r.length : EStateM Fault σ Nat) s = .ok (r.end_ - r.begin_) s := by
  rw [Region.length, bind_of_ok (assert_ok (by simpa using h) s)]
  rfl

theorem Tiles.mem_le {a b : Nat} {rs : List Region} {r : Region} (h : Tiles st tms a rs b) (hr : r ∈ rs) :
    r.end_ ≤ b := by
  induction h with
  | nil => cases hr
  | cons _ htail ih =>
    rcases List.mem_cons.mp hr with rfl | hr
    · exact htail.le
    · exact ih hr

theorem Tiles.ok {a b : Nat} {rs : List Region} {r : Region} (h : Tiles st tms a rs b) (hr : r ∈ rs) :
    RegionOk st tms r := by
  induction h with
  | nil => cases hr
  | cons hok _ ih =>
    rcases List.mem_cons.mp hr with rfl | hr
    · exact hok
    · exact ih hr

theorem Tiles.covers {a b : Nat} {rs : List Region} (h : Tiles st tms a rs b) {i : Nat}
    (hi : a ≤ i) (hi' : i < b) : ∃ r ∈ rs, r.begin_ ≤ i ∧ i < r.end_ := by
  induction h with
  | nil => omega
  | @cons r rs b _ _ ih =>
    rcases Nat.lt_or_ge i r.end_ with hlt | hge
    · exact ⟨r, List.mem_cons_self, hi, hlt⟩
    · obtain ⟨x, hx, hin⟩ := ih hge hi'
      exact ⟨x, List.mem_cons_of_mem _ hx, hin⟩

/-! ## The analysis -/

/-- A region is closed where the TAP starts or stops shifting. -/
def Closed (st : JtagState) (tms : List Byte) (r : Region) : Prop := shiftsAt st tms r.end_ = r.is_tms

/-- After `i` bits: the closed regions tile the bits up to `shift_pos`, and since then the TAP has
shifted in every cycle or in none. -/
structure AnalysisOk (st : JtagState) (tms : List Byte) (i : Nat) (a : Analysis) : Prop where
  tiles : Tiles st tms 0 a.regions a.shift_pos
  closed : ∀ r ∈ a.regions, Closed st tms r
  pos : a.shift_pos ≤ i
  cur : a.cur_state = stateAt st tms i
  same : ∀ j, a.shift_pos ≤ j → j ≤ i → shiftsAt st tms j = shiftsAt st tms i

/-- Only entering and leaving a Shift state count. -/
theorem analyze_step_eq (i : Nat) (b : Bool) (a : Analysis) :
    analyze_step i b a =
      if a.cur_state.isShift = false ∧ (next_state a.cur_state b).isShift = true then
        ⟨i + 1, a.regions ++ [⟨true, false, a.shift_pos, i + 1⟩], next_state a.cur_state b⟩
      else if a.cur_state.isShift = true ∧ (next_state a.cur_state b).isShift = false then
        ⟨i + 1, a.regions ++ [⟨false, true, a.shift_pos, i + 1⟩], next_state a.cur_state b⟩
      else { a with cur_state := next_state a.cur_state b } := by
  obtain ⟨pos, rs, cur⟩ := a
  cases cur <;> cases b <;> rfl

theorem AnalysisOk.step {i : Nat} {a : Analysis} (h : AnalysisOk st tms i a) :
    AnalysisOk st tms (i + 1) (analyze_step i (bitAt tms i) a) := by
  have hnew : next_state a.cur_state (bitAt tms i) = stateAt st tms (i + 1) := by
    rw [stateAt_succ, h.cur]
  have hsame := h.same
  have hpos := h.pos
  rw [analyze_step_eq, hnew, h.cur]
  split
  · rename_i hc
    have hok : RegionOk st tms ⟨true, false, a.shift_pos, i + 1⟩ := by
      refine ⟨?_, ?_, ?_⟩
      · simp only
        omega
      · intro j hj hj'
        rw [hsame j hj (by simp only at hj'; omega)]
        exact hc.1
      · simp
    refine ⟨h.tiles.snoc hok, ?_, Nat.le_refl _, rfl, ?_⟩
    · intro r hr
      rcases List.mem_append.mp hr with hr | hr
      · exact h.closed r hr
      · obtain rfl := List.mem_singleton.mp hr
        exact hc.2
    · intro j hj hj'
      rw [show j = i + 1 from Nat.le_antisymm hj' hj]
  · split
    · rename_i hc
      have hbit : bitAt tms i = true := by
        have := isShift_next (b := bitAt tms i) hc.1
        rw [← stateAt_succ, hc.2] at this
        simpa using this
      have hok : RegionOk st tms ⟨false, true, a.shift_pos, i + 1⟩ := by
        refine ⟨?_, ?_, ?_⟩
        · simp only
          omega
        · intro j hj hj'
          rw [hsame j hj (by simp only at hj'; omega)]
          exact hc.1
        · intro _ j hj hj'
          simp only at hj hj' ⊢
          by_cases hlast : j = i
          · rw [hlast, hbit]
            simp
          · have hlow : bitAt tms j = false := by
              refine @shiftsAt_low st tms j ?_
              rw [hsame (j + 1) (by omega) (by omega)]
              exact hc.1
            simp [hlow, hlast]
      refine ⟨h.tiles.snoc hok, ?_, Nat.le_refl _, rfl, ?_⟩
      · intro r hr
        rcases List.mem_append.mp hr with hr | hr
        · exact h.closed r hr
        · obtain rfl := List.mem_singleton.mp hr
          exact hc.2
      · intro j hj hj'
        rw [show j = i + 1 from Nat.le_antisymm hj' hj]
    · rename_i hc hc'
      have hstay : shiftsAt st tms (i + 1) = shiftsAt st tms i := by
        unfold shiftsAt
        cases h1 : (stateAt st tms i).isShift <;> cases h2 : (stateAt st tms (i + 1)).isShift <;>
          simp_all
      refine ⟨h.tiles, h.closed, by simp only; omega, rfl, ?_⟩
      intro j hj hj'
      rw [hstay]
      rcases Nat.lt_or_ge i j with hlt | hle
      · rw [show j = i + 1 by omega, hstay]
      · exact hsame j hj hle

/-- The last region stays open. -/
theorem AnalysisOk.last {bits : Nat} {a : Analysis} (h : AnalysisOk st tms bits a)
    (hne : a.shift_pos ≠ bits) :
    RegionOk st tms ⟨decide (a.cur_state ≠ ShiftDR ∧ a.cur_state ≠ ShiftIR), false, a.shift_pos, bits⟩ := by
  have hkind : decide (a.cur_state ≠ ShiftDR ∧ a.cur_state ≠ ShiftIR) = !shiftsAt st tms bits := by
    rw [shiftsAt, ← h.cur]
    cases a.cur_state <;> rfl
  have hpos := h.pos
  refine ⟨by simp only; omega, ?_, ?_⟩
  · intro i hi hi'
    simp only at hi hi' ⊢
    rw [h.same i hi (by omega), hkind, Bool.not_not]
  · intro htms i hi hi'
    simp only at htms hi hi' ⊢
    rw [hkind, Bool.not_eq_false'] at htms
    rw [Bool.false_and]
    refine @shiftsAt_low st tms i ?_
    rw [h.same (i + 1) (by omega) (by omega)]
    exact htms

theorem Closed.congr {tms' : List Byte} {r : Region} (h : Closed st tms r)
    (heq : ∀ i, i < r.end_ → bitAt tms i = bitAt tms' i) : Closed st tms' r := by
  rw [Closed, shiftsAt, ← stateAt_congr heq]
  exact h

/-! ## Visits -/

/-- Cycle `i` is the first one of its visit to a Shift state. -/
def enters (st : JtagState) (tms : List Byte) (i : Nat) : Bool :=
  shiftsAt st tms i && (i == 0 || !shiftsAt st tms (i - 1))

/-- The visits to a Shift state in the first `n` cycles. -/
def visits (st : JtagState) (tms : List Byte) (n : Nat) : Nat := (List.range n).countP (enters st tms)

def dataRegions (rs : List Region) : Nat := rs.countP fun r => !r.is_tms

theorem Tiles.empty {a : Nat} {rs : List Region} (h : Tiles st tms a rs a) : rs = [] := by
  cases h with
  | nil => rfl
  | cons hok htail =>
    have := hok.nonempty
    have := htail.le
    omega

theorem RegionOk.count_enters {r : Region} (h : RegionOk st tms r)
    (hstart : r.begin_ = 0 ∨ shiftsAt st tms r.begin_ = !shiftsAt st tms (r.begin_ - 1)) :
    (List.range' r.begin_ (r.end_ - r.begin_)).countP (enters st tms) = dataRegions [r] := by
  obtain ⟨n, hn⟩ : ∃ n, r.end_ - r.begin_ = n + 1 := ⟨r.end_ - r.begin_ - 1, by have := h.nonempty; omega⟩
  have hfirst : enters st tms r.begin_ = !r.is_tms := by
    have hkind := h.kind r.begin_ (Nat.le_refl _) h.nonempty
    rw [enters]
    rcases hstart with h0 | hne
    · simp [h0] at hkind ⊢
      exact hkind
    · rw [hkind] at hne ⊢
      rw [← hne]
      cases r.is_tms <;> simp
  have hrest : (List.range' (r.begin_ + 1) n).countP (enters st tms) = 0 := by
    rw [List.countP_eq_zero]
    intro i hi
    rw [List.mem_range'_1] at hi
    rw [enters, h.kind i (by omega) (by omega), h.kind (i - 1) (by omega) (by omega)]
    have : ¬ i = 0 := by omega
    cases r.is_tms <;> simp [this]
  rw [hn, List.range'_succ, List.countP_cons, hrest, hfirst, dataRegions]
  simp

/-- Each visit to a Shift state is one data region. -/
theorem Tiles.dataRegions_eq {a b : Nat} {rs : List Region} (h : Tiles st tms a rs b)
    (hclosed : ∀ r ∈ rs, r.end_ = b ∨ Closed st tms r)
    (hstart : a = 0 ∨ shiftsAt st tms a = !shiftsAt st tms (a - 1)) :
    dataRegions rs = (List.range' a (b - a)).countP (enters st tms) := by
  induction h with
  | nil a => simp [dataRegions]
  | @cons r rs b hok htail ih =>
    have hne := hok.nonempty
    have hle := htail.le
    have hsplit : List.range' r.begin_ (b - r.begin_) =
        List.range' r.begin_ (r.end_ - r.begin_) ++ List.range' r.end_ (b - r.end_) := by
      have hlen : b - r.begin_ = (r.end_ - r.begin_) + (b - r.end_) := by omega
      have hmid : r.begin_ + (r.end_ - r.begin_) = r.end_ := by omega
      rw [hlen, ← List.range'_append_1, hmid]
    have hcons : dataRegions (r :: rs) = dataRegions [r] + dataRegions rs := by
      rw [dataRegions, dataRegions, dataRegions, ← List.countP_append]
      rfl
    rw [hsplit, List.countP_append, hok.count_enters hstart, hcons]
    congr 1
    rcases hclosed r List.mem_cons_self with hend | hend
    · subst hend
      rw [htail.empty]
      simp [dataRegions]
    · refine ih (fun x hx => hclosed x (List.mem_cons_of_mem _ hx)) (Or.inr ?_)
      rw [hend, hok.kind (r.end_ - 1) (by omega) (by omega), Bool.not_not]

/-- The regions tile the shift, and the state is the one after all its bits. -/
theorem analyze_bitbang_spec {σ : Type} (st : JtagState) (tms : List Byte) (bits : Nat) (s : σ)
    (hlen : bits ≤ 8 * tms.length) :
    Returns (analyze_bitbang st tms bits : EStateM Fault σ (List Region × JtagState)) s fun r s' => s' = s ∧
      Tiles st tms 0 r.1 bits ∧ (∀ x ∈ r.1, x.end_ = bits ∨ Closed st tms x) ∧
      r.2 = stateAt st tms bits := by
  unfold analyze_bitbang
  refine Returns.bind (Returns.forUpto (fun i a s' => s' = s ∧ AnalysisOk st tms i a) ⟨rfl, ?_⟩ ?_) ?_
  · refine ⟨.nil 0, by simp, Nat.le_refl 0, rfl, ?_⟩
    intro j _ hj
    rw [Nat.le_zero.mp hj]
  · rintro i a _ hi ⟨rfl, h⟩
    refine Returns.of_eq_bind (bit_of_ok (by omega) _) ?_
    exact returns_pure ⟨rfl, h.step⟩
  · rintro a _ ⟨rfl, h⟩
    split
    · rename_i hne
      refine returns_pure ⟨rfl, h.tiles.snoc (h.last hne), ?_, h.cur⟩
      intro x hx
      rcases List.mem_append.mp hx with hx | hx
      · exact Or.inr (h.closed x hx)
      · obtain rfl := List.mem_singleton.mp hx
        exact Or.inl rfl
    · rename_i heq
      have hpos : a.shift_pos = bits := by simpa using heq
      refine returns_pure ⟨rfl, ?_, fun x hx => Or.inr (h.closed x hx), h.cur⟩
      rw [← hpos]
      exact h.tiles

/-! ## What the analysis looks at -/

/-- The regions that `analyze_bitbang` cuts. -/
def regionsOf (st : JtagState) (tms : List Byte) (bits : Nat) : List Region :=
  match (analyze_bitbang st tms bits : EStateM Fault Unit (List Region × JtagState)) () with
  | .ok r _ => r.1
  | .error _ _ => []

/-- The loop of the analysis after `n` bits. -/
def analyzed (st : JtagState) (tms : List Byte) : Nat → Analysis
  | 0 => ⟨0, [], st⟩
  | n + 1 => analyze_step n (bitAt tms n) (analyzed st tms n)

/-- The region that is still open at the end is closed there. -/
def Analysis.close (a : Analysis) (bits : Nat) : List Region :=
  if a.shift_pos ≠ bits then
    a.regions ++ [⟨decide (a.cur_state ≠ ShiftDR ∧ a.cur_state ≠ ShiftIR), false, a.shift_pos, bits⟩]
  else a.regions

theorem analyzed_congr {tms' : List Byte} {n : Nat} (h : ∀ i, i < n → bitAt tms i = bitAt tms' i) :
    analyzed st tms n = analyzed st tms' n := by
  induction n with
  | zero => rfl
  | succ n ih => rw [analyzed, analyzed, ih fun i hi => h i (by omega), h n (by omega)]

theorem analyzed_cur (st : JtagState) (tms : List Byte) (n : Nat) :
    (analyzed st tms n).cur_state = stateAt st tms n := by
  induction n with
  | zero => rfl
  | succ n ih =>
    have hcur : (analyze_step n (bitAt tms n) (analyzed st tms n)).cur_state =
        next_state (analyzed st tms n).cur_state (bitAt tms n) := by
      unfold analyze_step
      dsimp only
      split
      · rfl
      · split <;> rfl
    rw [analyzed, hcur, ih, stateAt_succ]

theorem analyze_bitbang_eq {σ : Type} {st : JtagState} {tms : List Byte} {bits : Nat}
    (hlen : bits ≤ 8 * tms.length) (s : σ) :
    (analyze_bitbang st tms bits : EStateM Fault σ (List Region × JtagState)) s =
      .ok ((analyzed st tms bits).close bits, stateAt st tms bits) s := by
  have hloop : Returns (forUpto bits (⟨0, [], st⟩ : Analysis) fun i a => do
      let tms_bit ← bit_of tms i
      pure (analyze_step i tms_bit a) : EStateM Fault σ Analysis) s
      fun a s' => s' = s ∧ a = analyzed st tms bits := by
    refine Returns.forUpto (fun i a s' => s' = s ∧ a = analyzed st tms i) ⟨rfl, rfl⟩ ?_
    rintro i _ _ hi ⟨rfl, rfl⟩
    exact Returns.of_eq_bind (bit_of_ok (by omega) _) (returns_pure ⟨rfl, rfl⟩)
  obtain ⟨_, _, hrun, rfl, rfl⟩ := hloop
  unfold analyze_bitbang
  refine (bind_of_ok hrun).trans ?_
  rw [← analyzed_cur, Analysis.close]
  split <;> rfl

/-- What the analysis finds depends on the bits, and not on the buffer that they lie in. -/
theorem analyze_regions {σ : Type} {st : JtagState} {tms : List Byte} (tms' : List Byte) {bits : Nat}
    (hlen : bits ≤ 8 * tms.length) (hlen' : bits ≤ 8 * tms'.length)
    (h : ∀ i, i < bits → bitAt tms i = bitAt tms' i) (s : σ) :
    (analyze_bitbang st tms bits : EStateM Fault σ (List Region × JtagState)) s =
      .ok (regionsOf st tms' bits, stateAt st tms' bits) s := by
  rw [regionsOf, analyze_bitbang_eq hlen, analyze_bitbang_eq hlen', analyzed_congr h, stateAt_congr h]

theorem regionsOf_tiles {st : JtagState} {tms : List Byte} {bits : Nat} (hlen : bits ≤ 8 * tms.length) :
    Tiles st tms 0 (regionsOf st tms bits) bits ∧
      ∀ r ∈ regionsOf st tms bits, r.end_ = bits ∨ Closed st tms r := by
  obtain ⟨r, _, hrun, rfl, htiles, hclosed, -⟩ := analyze_bitbang_spec st tms bits () hlen
  rw [regionsOf, hrun]
  exact ⟨htiles, hclosed⟩

theorem region_length_keeps {σ τ : Type} {part : σ → τ} (r : Region) :
    Keeps part (r.length : EStateM Fault σ Nat) := (assert_keeps _).bind fun _ => keeps_pure _

theorem analyze_bitbang_keeps {σ τ : Type} {part : σ → τ} (st : JtagState) (tms : List Byte) (bits : Nat) :
    Keeps part (analyze_bitbang st tms bits : EStateM Fault σ (List Region × JtagState)) := by
  unfold analyze_bitbang
  refine (keeps_forUpto fun i a => (bit_of_keeps tms i).bind fun b => keeps_pure _).bind fun a => ?_
  exact keeps_ite (keeps_pure _) (keeps_pure _)

/-! ## Repacking -/

/-- The bits of a region are copied to the front of a blank buffer. -/
theorem repack_spec {σ : Type} {input data : List Byte} {r : Region} {n : Nat} (hsize : input.length = BUFFER_SIZE)
    (h : ∀ i, i < n → bitAt input i = bitAt data i) (hne : r.begin_ < r.end_) (hend : r.end_ ≤ n)
    (hn : n ≤ 8 * BUFFER_SIZE) (s : σ) :
    Returns (forUpto (r.end_ - r.begin_) (List.replicate BUFFER_SIZE 0) fun off b => do
      let bit ← bit_of input (r.begin_ + off)
      or_bit b off bit : EStateM Fault σ (List Byte)) s fun b s' => s' = s ∧
        b.length = BUFFER_SIZE ∧ Holds b (r.cut data) := by
  refine Returns.forUpto (fun k b s' => s' = s ∧ b.length = BUFFER_SIZE ∧
    Holds b (bitsFrom data r.begin_ k)) ⟨rfl, List.length_replicate, holds_replicate _⟩ ?_
  rintro off b t hoff ⟨ht, hlen, hholds⟩
  have hbit := h (r.begin_ + off) (by omega)
  have hnext := hholds.orBit (bitAt input (r.begin_ + off)) (by rw [bitsFrom_length]; omega)
  rw [bitsFrom_length] at hnext
  refine Returns.of_eq_bind (bit_of_ok (by omega) _) ?_
  refine ⟨_, _, or_bit_ok (by omega) _ _, ht, ?_, ?_⟩
  · rw [orBit_length, hlen]
  · rw [bitsFrom_succ, ← hbit]
    exact hnext

end JtagRemote
