import JtagRemote.Rbb.Split

/-!
# Levels and edges

A client sets the levels of the pins. The server takes each command with TCK high
for a cycle; these are the rising edges if TCK is not set high twice in a row.
-/

namespace JtagRemote.Rbb

open JtagState

/-- Only commands that set the pins. -/
def PinSets (cs : List Byte) : Prop := ∀ c ∈ cs, CHAR_0 ≤ c ∧ c ≤ CHAR_7

instance (cs : List Byte) : Decidable (PinSets cs) :=
  inferInstanceAs (Decidable (∀ c ∈ cs, CHAR_0 ≤ c ∧ c ≤ CHAR_7))

/-- The commands at which TCK rises; `level` is the level of TCK before them. -/
def edges (level : Bool) : List Byte → List Pins
  | [] => []
  | c :: cs =>
    match clock c with
    | some p => if level then edges true cs else p :: edges true cs
    | none => edges false cs

/-- TCK is not set high twice in a row. -/
def Toggles (level : Bool) : List Byte → Prop
  | [] => True
  | c :: cs => (level = true → clock c = none) ∧ Toggles (clock c).isSome cs

theorem edges_length_le (level : Bool) (cs : List Byte) : (edges level cs).length ≤ (pins cs).length := by
  induction cs generalizing level with
  | nil => exact Nat.le_refl 0
  | cons c cs ih =>
    rw [edges, pins, List.filterMap_cons]
    cases hc : clock c with
    | none => exact ih false
    | some p =>
      simp only
      split
      · exact Nat.le_succ_of_le (ih true)
      · exact Nat.succ_le_succ (ih true)

theorem edges_eq_iff (level : Bool) (cs : List Byte) : edges level cs = pins cs ↔ Toggles level cs := by
  induction cs generalizing level with
  | nil => simp [edges, pins, Toggles]
  | cons c cs ih =>
    rw [edges, pins, List.filterMap_cons, Toggles]
    cases hc : clock c with
    | none => simpa [pins] using ih false
    | some p =>
      cases level with
      | false => simpa [pins] using ih true
      | true =>
        simp only [if_true, reduceCtorEq, imp_false, not_true_eq_false, false_and, iff_false]
        intro heq
        -- an edge is missing
        have hle := edges_length_le true cs
        rw [heq, List.length_cons, pins] at hle
        omega

theorem PinSets.marks_eq {cs : List Byte} (h : PinSets cs) : marks cs = [] := by
  unfold marks
  generalize 0 = k
  induction cs generalizing k with
  | nil => rfl
  | cons c cs ih =>
    have htail := ih fun x hx => h x (List.mem_cons_of_mem _ hx)
    rw [marksFrom]
    split
    · exact htail (k + 1)
    · rw [if_neg, htail k]
      rintro rfl
      exact absurd (h _ List.mem_cons_self) (by decide)

theorem PinSets.steady {st : JtagState} {cs : List Byte} (h : PinSets cs) : Steady st cs := by
  have hnone := h.marks_eq
  refine ⟨?_, ?_, ?_⟩
  · intro p hp
    rw [hnone] at hp
    cases hp
  · intro i _ _ _
    rw [hnone]
    simp
  · rw [hnone]
    exact .nil

section

variable {δ : Type} {board : Board} {d : driver δ} (A : Adapter board d) {s : Rbb δ} {l : Line}

/-- Pin levels alone are played without an answer. -/
theorem serve_pins (hroom : A.Room 0) (hserves : Serves A s l) {turns : List Turn} (hpins : PinSets (stream turns)) :
    Returns (serve d turns) s fun _ s' => ∃ cyc, Executed A s l (stream turns) s' cyc [] := by
  have hcuts : ∀ t ∈ turns, ¬ Cut t.bytes := by
    intro t ht hcut
    have hset : PinSets t.bytes := fun c hc => hpins c (List.mem_flatMap.mpr ⟨t, ht, hc⟩)
    rw [Cut, hset.marks_eq] at hcut
    cases hcut
  refine (serve_spec A hroom hserves hpins.steady hcuts).mono ?_
  rintro _ s' ⟨cyc, reply, hexec⟩
  have hreply : reply = [] := by
    have := hexec.answers.length
    rw [hpins.marks_eq] at this
    exact List.eq_nil_of_length_eq_zero this
  rw [hreply] at hexec
  exact ⟨cyc, hexec⟩

/-- Each command with TCK high is one cycle, and these are the rising edges just if TCK toggles. -/
theorem rbb_levels_played (hroom : A.Room 0) (hserves : Serves A s l) {turns : List Turn}
    (hpins : PinSets (stream turns)) :
    (Returns (serve d turns) s fun _ s' => ∃ cyc, Executed A s l (stream turns) s' cyc []) ∧
      (edges false (stream turns) = pins (stream turns) ↔ Toggles false (stream turns)) :=
  ⟨serve_pins A hroom hserves hpins, edges_eq_iff false (stream turns)⟩

end

/-- TCK set high twice. -/
def heldTurns : List Turn := [turn (ascii ['4', '4']) (by decide) (by decide)]

theorem heldTurns_pins : PinSets (stream heldTurns) := by decide

theorem rbb_levels_played_held :
    (Returns (serve (mpsse_driver (mpsseUsb Mpsse.blinkBoard Mpsse.idleEngine) (100 + 0) 15) heldTurns)
      (served (benchMpsse RunTestIdle)) fun _ s' => ∃ cyc, Executed (benchMpsseAdapter Mpsse.blinkBoard)
        (served (benchMpsse RunTestIdle)) ⟨[], false, []⟩ (stream heldTurns) s' cyc []) ∧
      (edges false (stream heldTurns) = pins (stream heldTurns) ↔ Toggles false (stream heldTurns)) :=
  rbb_levels_played (benchMpsseAdapter Mpsse.blinkBoard) trivial (served_bench Mpsse.blinkBoard RunTestIdle)
    heldTurns_pins

/-- TCK rises once, and the server clocks twice. -/
theorem held_level_clocks_twice : PinSets (stream heldTurns) ∧ ∃ s' cyc,
    serve (mpsse_driver (mpsseUsb Mpsse.blinkBoard Mpsse.idleEngine) (100 + 0) 15) heldTurns
      (served (benchMpsse RunTestIdle)) = .ok () s' ∧
    Executed (benchMpsseAdapter Mpsse.blinkBoard) (served (benchMpsse RunTestIdle)) ⟨[], false, []⟩
      (stream heldTurns) s' cyc [] ∧
    cyc.length = 2 ∧ (edges false (stream heldTurns)).length = 1 := by
  obtain ⟨_, s', hrun, cyc, hexec⟩ := serve_pins (benchMpsseAdapter Mpsse.blinkBoard) trivial
    (served_bench Mpsse.blinkBoard RunTestIdle) heldTurns_pins
  exact ⟨heldTurns_pins, s', cyc, hrun, hexec, hexec.length, by decide⟩

end JtagRemote.Rbb
