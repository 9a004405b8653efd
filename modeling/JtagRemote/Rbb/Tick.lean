import JtagRemote.Rbb.Scans
import Mathlib.Data.List.Sort

/-!
# One tick of the remote bitbang server

The checks of a tick look at the marks of each region, and at the totals. A read
passes them, or an assert stops the server; what passes is played to the end.
-/

namespace JtagRemote.Rbb

/-- The regions of a read. -/
def regions (st : JtagState) (cs : List Byte) : List Region := regionsOf st (tmsOf cs) (pins cs).length

/-- The cycles whose TDO is sent back. -/
def replied (st : JtagState) (cs : List Byte) : List Nat := (regions st cs).flatMap (answered (marks cs))

/-- What the checks look at. -/
structure Passes (st : JtagState) (cs : List Byte) : Prop where
  rising : ∀ r ∈ regions st cs, r.is_tms = false → Rising (marks cs) r.begin_ (r.end_ - r.begin_)
  total : (marks cs).length = (replied st cs).length

theorem pins_le_tmsOf (cs : List Byte) : (pins cs).length ≤ 8 * (tmsOf cs).length := by
  rw [tmsOf, packBits_length, List.length_map]
  omega

theorem regions_tiles (st : JtagState) (cs : List Byte) :
    Tiles st (tmsOf cs) 0 (regions st cs) (pins cs).length ∧
      ∀ r ∈ regions st cs, r.end_ = (pins cs).length ∨ Closed st (tmsOf cs) r :=
  regionsOf_tiles (pins_le_tmsOf cs)

/-- A client is there, and the adapter has nothing pending. -/
structure Serves {δ : Type} {board : Board} {d : driver δ} (A : Adapter board d) (s : Rbb δ) (l : Line) : Prop where
  connected : 0 ≤ s.sock.client_fd
  alive : s.sock.alive = true
  stands : A.Stands s.jtag.state s.jtag.dev l
  idle : l.pending = []

section

variable {δ : Type} {board : Board} {d : driver δ} (A : Adapter board d) {s₀ s : Rbb δ} {l : Line}
  {st : JtagState} {k b : Nat} {cs : List Byte} {a : Inputs} {rs : List Region} {ps : List Nat} {cyc : List Cycle}

theorem rbb_regions_spec (junk : Junk) (hroom : A.Room 0) (hfilled : Filled ((cs.length + 7) / 8) cs a)
    (hlen : cs.length ≤ BUFFER_SIZE) (halive : s₀.sock.alive = true) (htiles : Tiles st (tmsOf cs) k rs b)
    (hb : b ≤ (pins cs).length)
    (hrising : ∀ r ∈ rs, r.is_tms = false → Rising (marks cs) r.begin_ (r.end_ - r.begin_))
    (h : Playing A s₀ l st cs k ps s cyc) :
    Returns (rbb_regions d junk a rs ps.length) s fun m s' =>
      m = (ps ++ rs.flatMap (answered (marks cs))).length ∧ ∃ cyc',
        Playing A s₀ l st cs b (ps ++ rs.flatMap (answered (marks cs))) s' cyc' := by
  induction htiles generalizing ps s cyc with
  | nil k =>
    rw [List.flatMap_nil, List.append_nil]
    exact returns_pure ⟨rfl, cyc, h⟩
  | @cons r rs b hok htail ih =>
    have hle := htail.le
    have hpins := pins_length_le cs
    have hn : (cs.length + 7) / 8 ≤ BUFFER_SIZE := by
      unfold BUFFER_SIZE at *
      omega
    have hfit : (pins cs).length ≤ BUFFER_SIZE := by omega
    have hregion : Returns (rbb_region d junk a r ps.length) s fun m s' =>
        m = (ps ++ answered (marks cs) r).length ∧ ∃ cyc',
          Playing A s₀ l st cs r.end_ (ps ++ answered (marks cs) r) s' cyc' := by
      have hbounds : (decide (r.begin_ < r.end_) && decide (r.end_ ≤ a.bits)) = true := by
        rw [hfilled.bits]
        simp [hok.nonempty, Nat.le_trans hle hb]
      unfold rbb_region
      refine Returns.of_eq_bind (assert_ok hbounds s) ?_
      split
      · rename_i htms
        have hnone : answered (marks cs) r = [] := by simp [answered, isRead, htms]
        refine Returns.bind (rbb_tms_region_spec A hfilled hn (by omega) (Nat.le_trans hfit (by decide)) h hok htms
          (by omega)) ?_
        intro _ s' hplay
        refine returns_pure ⟨?_, hplay⟩
        rw [hnone, List.append_nil]
      · rename_i hdata
        exact rbb_data_region_spec A junk hroom hfilled hn (by omega) hfit halive h hok (by simpa using hdata)
          (by omega) (hrising r List.mem_cons_self (by simpa using hdata))
    rw [rbb_regions]
    refine Returns.bind hregion ?_
    rintro _ s' ⟨rfl, cyc', h'⟩
    rw [List.flatMap_cons, ← List.append_assoc]
    exact ih hb (fun x hx => hrising x (List.mem_cons_of_mem _ hx)) h'

theorem rbb_regions_fail (junk : Junk) (hroom : A.Room 0) (hfilled : Filled ((cs.length + 7) / 8) cs a)
    (hlen : cs.length ≤ BUFFER_SIZE) (halive : s₀.sock.alive = true) (htiles : Tiles st (tmsOf cs) k rs b)
    (hb : b ≤ (pins cs).length)
    (hrising : ¬ ∀ r ∈ rs, r.is_tms = false → Rising (marks cs) r.begin_ (r.end_ - r.begin_))
    (h : Playing A s₀ l st cs k ps s cyc) :
    Faults (rbb_regions d junk a rs ps.length) s .assert_failed := by
  induction htiles generalizing ps s cyc with
  | nil k => exact absurd (fun r hr => by cases hr) hrising
  | @cons r rs b hok htail ih =>
    have hle := htail.le
    have hpins := pins_length_le cs
    have hn : (cs.length + 7) / 8 ≤ BUFFER_SIZE := by
      unfold BUFFER_SIZE at *
      omega
    rw [rbb_regions]
    by_cases hone : r.is_tms = false → Rising (marks cs) r.begin_ (r.end_ - r.begin_)
    · have hrun := rbb_regions_spec A junk hroom hfilled hlen halive (.cons hok (.nil r.end_)) (by omega)
        (fun x hx hdata => by
          obtain rfl := List.mem_singleton.mp hx
          exact hone hdata) h
      have hsingle : rbb_regions d junk a [r] ps.length = rbb_region d junk a r ps.length := by
        rw [rbb_regions]
        exact bind_pure _
      rw [hsingle] at hrun
      refine Returns.bind_faults hrun ?_
      rintro _ s' ⟨rfl, cyc', h'⟩
      rw [List.flatMap_singleton] at h' ⊢
      refine ih hb (fun hall => hrising fun x hx hdata => ?_) h'
      rcases List.mem_cons.mp hx with rfl | hx
      · exact hone hdata
      · exact hall x hx hdata
    · rw [Classical.not_imp] at hone
      have hbounds : (decide (r.begin_ < r.end_) && decide (r.end_ ≤ a.bits)) = true := by
        rw [hfilled.bits]
        simp [hok.nonempty, Nat.le_trans hle hb]
      have hdata : ¬ r.is_tms = true := by simp [hone.1]
      refine Faults.bind ?_
      unfold rbb_region
      refine Faults.of_eq_bind (assert_ok hbounds s) ?_
      rw [if_neg hdata]
      exact rbb_data_region_fails junk hfilled hn (by omega) hok.nonempty (by omega) hone.2 _

/-- Before the first region. -/
theorem Serves.playing (h : Serves A s l) (cs : List Byte) : Playing A s l s.jtag.state cs 0 [] s [] := by
  refine ⟨rfl, fun i hi => by omega, rfl, rfl, ⟨l.tms, ?_⟩, ⟨[], rfl, (wrote_nil _).symm⟩, Nat.le_refl 0⟩
  have hline : (⟨l.log ++ [], l.tms, []⟩ : Line) = l := by
    rw [List.append_nil, ← h.idle]
  rw [hline]
  exact h.stands

/-- A read that passes the checks is played. -/
theorem rbb_execute_spec (junk : Junk) (hroom : A.Room 0) (h : Serves A s l) (hlen : cs.length ≤ BUFFER_SIZE)
    (hpass : Passes s.jtag.state cs) :
    Returns (rbb_execute d junk cs) s fun _ s' => ∃ cyc,
      Playing A s l s.jtag.state cs (pins cs).length (replied s.jtag.state cs) s' cyc := by
  unfold rbb_execute
  refine Returns.bind (rbb_commands_spec junk hlen) ?_
  rintro a s ⟨rfl, hfilled⟩
  have hpins := pins_length_le cs
  refine Returns.get_bind ?_
  rw [hfilled.bits]
  have htms_size := hfilled.tms_size
  refine Returns.of_eq_bind (analyze_regions (tmsOf cs) (by omega) (pins_le_tmsOf cs)
    (fun i hi => hfilled.tms i (by omega)) s) ?_
  refine Returns.bind (rbb_regions_spec A junk hroom hfilled hlen h.alive (regions_tiles s.jtag.state cs).1
    (Nat.le_refl _) hpass.rising (h.playing A cs)) ?_
  rintro m s' ⟨hm, cyc, hplay⟩
  rw [List.nil_append] at hm hplay
  refine Returns.get_bind ?_
  refine Returns.of_eq_bind (assert_ok (by rw [hplay.state]; exact decide_eq_true rfl) s') ?_
  refine ⟨_, _, assert_ok ?_ s', cyc, hplay⟩
  rw [hm, hfilled.read_bits, hpass.total]
  exact decide_eq_true rfl

/-- One that does not pass stops the server. -/
theorem rbb_execute_fails (junk : Junk) (hroom : A.Room 0) (h : Serves A s l) (hlen : cs.length ≤ BUFFER_SIZE)
    (hpass : ¬ Passes s.jtag.state cs) : Faults (rbb_execute d junk cs) s .assert_failed := by
  unfold rbb_execute
  refine Returns.bind_faults (rbb_commands_spec junk hlen) ?_
  rintro a s ⟨rfl, hfilled⟩
  have hpins := pins_length_le cs
  refine Faults.of_eq_bind (get_apply s) ?_
  rw [hfilled.bits]
  have htms_size := hfilled.tms_size
  refine Faults.of_eq_bind (analyze_regions (tmsOf cs) (by omega) (pins_le_tmsOf cs)
    (fun i hi => hfilled.tms i (by omega)) s) ?_
  by_cases hrising : ∀ r ∈ regions s.jtag.state cs, r.is_tms = false →
      Rising (marks cs) r.begin_ (r.end_ - r.begin_)
  · refine Returns.bind_faults (rbb_regions_spec A junk hroom hfilled hlen h.alive (regions_tiles s.jtag.state cs).1
      (Nat.le_refl _) hrising (h.playing A cs)) ?_
    rintro m s' ⟨hm, cyc, hplay⟩
    rw [List.nil_append] at hm hplay
    refine Faults.of_eq_bind (get_apply s') ?_
    refine Faults.of_eq_bind (assert_ok (by rw [hplay.state]; exact decide_eq_true rfl) s') ?_
    refine ⟨_, assert_fails ?_ s'⟩
    rw [hm, hfilled.read_bits]
    exact decide_eq_false fun htotal => hpass ⟨hrising, htotal⟩
  · exact Faults.bind (rbb_regions_fail A junk hroom hfilled hlen h.alive (regions_tiles s.jtag.state cs).1
      (Nat.le_refl _) hrising (h.playing A cs))

/-- What the tick does with the bytes of a read. -/
theorem jtag_rbb_tick_eq (hfd : 0 ≤ s.sock.client_fd) (junk : Junk) (accept : Bool) (hne : cs ≠ [])
    (hlen : cs.length ≤ BUFFER_SIZE) :
    jtag_rbb_tick d junk ⟨deliver cs, accept⟩ s = rbb_execute d junk cs s := by
  obtain ⟨c, cs, rfl⟩ := List.exists_cons_of_ne_nil hne
  unfold jtag_rbb_tick
  rw [bind_of_ok (get_apply s), if_pos hfd, deliver]
  simp only
  rw [List.take_of_length_le hlen]

end

end JtagRemote.Rbb
