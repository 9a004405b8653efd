import JtagRemote.Drivers
import JtagRemote.Mpsse.Bounds
import JtagRemote.Xvc.Parse
import Mathlib.Algebra.Order.Field.Basic
import Mathlib.Data.Rat.Cast.Order
import Mathlib.Tactic.IntervalCases
import Mathlib.Tactic.NormNum
import Mathlib.Tactic.Ring

/-!
# The period that `settck` asks for

The period is rounded to a frequency, and the frequency to a divisor. The first
rounding goes to the nearest, so that the clock may come out faster than asked.
-/

namespace JtagRemote.Xvc

open Mpsse

/-- The period in ns of 60 MHz / (2 * (1 + divisor)). -/
def actualPeriod (divisor : Byte) : ℚ := 1000 / (60 / (2 * (1 + divisor.toNat)))

/-- The divisor is well computed, it fits its byte, and the clock is no faster than asked. -/
structure Paced (tck : Nat) : Prop where
  defined : ∀ usb c, ¬ Faults (mpsse_set_tck_freq usb (xvc_freq tck)) c .div_by_zero
  no_wrap : 60 / 2 + xvc_freq tck - 1 < 2 ^ 64 ∧ 1 ≤ (60 / 2 + xvc_freq tck - 1) / xvc_freq tck
  sent : ∃ divisor : Byte, divisor.toNat = (60 / 2 + xvc_freq tck - 1) / xvc_freq tck - 1 ∧
    (∀ usb c d, mpsse_set_tck_freq usb (xvc_freq tck) c = .ok true d →
      Sends c c.state [([TCK_DIVISOR, divisor, 0x00], .other), ([DIS_DIV_5], .other)] true d) ∧
    (tck : ℚ) ≤ actualPeriod divisor

/-- The first and the last of each run of periods that come out right. -/
def keptPeriods : List (Nat × Nat) :=
  [(1, 66), (69, 100), (106, 166), (182, 200), (223, 266), (286, 333), (401, 500), (667, 1000)]

def KeptPeriod (tck : Nat) : Prop := ∃ r ∈ keptPeriods, r.1 ≤ tck ∧ tck ≤ r.2

instance (tck : Nat) : Decidable (KeptPeriod tck) := by
  unfold KeptPeriod
  infer_instance

/-! ## The two roundings -/

variable {tck : Nat}

/-- `round` gives the frequency whose interval of periods holds the period. -/
theorem freq_bounds (h : 1 ≤ tck) :
    xvc_freq tck * (2 * tck) ≤ 2000 + tck ∧ 2000 + tck < (xvc_freq tck + 1) * (2 * tck) :=
  ⟨Nat.div_mul_le_self _ _, Nat.lt_mul_of_div_lt (Nat.lt_succ_self _) (by omega)⟩

theorem freq_small (h : 69 ≤ tck) : xvc_freq tck ≤ 14 := by
  apply Nat.le_of_lt_succ
  unfold xvc_freq
  rw [Nat.div_lt_iff_lt_mul (by omega)]
  omega

/-- Three times the period against a hundred half periods of 60 MHz. -/
theorem keptPeriod_iff (h : 1 ≤ tck) :
    KeptPeriod tck ↔ 1 ≤ xvc_freq tck ∧ 3 * tck ≤ 100 * halfPeriods (xvc_freq tck) := by
  rcases Nat.lt_or_ge tck 69 with hlt | hge
  · revert h
    revert tck
    decide
  · have hsmall := freq_small hge
    obtain ⟨hlow, hhigh⟩ := freq_bounds h
    unfold KeptPeriod keptPeriods halfPeriods
    generalize xvc_freq tck = f at *
    simp only [List.mem_cons, List.not_mem_nil, or_false, exists_eq_or_imp, exists_eq_left]
    interval_cases f <;> omega

theorem period_le_iff {q : Nat} {divisor : Byte} (hq : 1 ≤ q) (h : divisor.toNat = q - 1) :
    (tck : ℚ) ≤ actualPeriod divisor ↔ 3 * tck ≤ 100 * q := by
  have hsucc : ((1 : ℚ) + divisor.toNat) = q := by
    rw [h, Nat.cast_sub hq]
    push_cast
    ring
  unfold actualPeriod
  rw [hsucc, div_div_eq_mul_div, le_div_iff₀ (by norm_num)]
  constructor
  · intro hle
    have : (tck : ℚ) * 60 ≤ 1000 * (2 * q) := hle
    have : tck * 60 ≤ 1000 * (2 * q) := by exact_mod_cast this
    omega
  · intro hle
    have : tck * 60 ≤ 1000 * (2 * q) := by omega
    exact_mod_cast this

/-! ## The divisor -/

theorem set_tck_freq_defined {f : Nat} (usb : Usb) (c : Jtag Mpsse) (h : 1 ≤ f) (hle : f ≤ 2 ^ 32) :
    ¬ Faults (mpsse_set_tck_freq usb f) c .div_by_zero := by
  have hends : Ends (mpsse_set_tck_freq usb f) c (fun e => e ≠ Fault.div_by_zero) fun _ _ => True := by
    unfold mpsse_set_tck_freq
    refine Ends.bind flush_ends fun _ d _ => ends_ite (fun _ => ?_) fun _ => ends_pure trivial
    rw [if_neg (by omega)]
    simp only [if_neg (divisor_defined h hle)]
    exact write_ends _
  exact hends.not_faults fun hne => hne rfl

theorem divisor_byte {f : Nat} (h : 1 ≤ f) (hle : f ≤ 2 ^ 32) :
    ((mpsse_divisor f).setWidth 8).toNat = halfPeriods f - 1 := by
  have := halfPeriods_le h
  rw [divisor_eq h hle, BitVec.toNat_setWidth, BitVec.toNat_ofNat]
  omega

/-- From 2001 ns on the frequency is zero. -/
theorem Paced.freq_pos (h : Paced tck) : 1 ≤ xvc_freq tck := by
  by_contra hnot
  have hzero : xvc_freq tck = 0 := by omega
  have hdel := mpsseUsb_delivers blinkBoard idleEngine
  exact h.defined _ idleMpsse (hzero ▸ set_tck_freq_zero hdel _)

theorem Paced.kept (h : Paced tck) (hpos : 1 ≤ tck) : KeptPeriod tck := by
  have hfreq := h.freq_pos
  obtain ⟨divisor, hdiv, -, hslow⟩ := h.sent
  exact (keptPeriod_iff hpos).mpr ⟨hfreq, (period_le_iff (halfPeriods_pos hfreq) hdiv).mp hslow⟩

theorem KeptPeriod.paced (h : KeptPeriod tck) (hpos : 1 ≤ tck) : Paced tck := by
  obtain ⟨hfreq, hslow⟩ := (keptPeriod_iff hpos).mp h
  have hle : xvc_freq tck ≤ 2 ^ 32 := (xvc_freq_le (by omega)).trans (by decide)
  have hbyte := divisor_byte hfreq hle
  refine ⟨fun usb c => set_tck_freq_defined usb c hfreq hle, ⟨by omega, halfPeriods_pos hfreq⟩, _, hbyte, ?_, ?_⟩
  · intro usb c d hrun
    exact set_tck_freq_spec _ c _ _ hrun
  · exact (period_le_iff (halfPeriods_pos hfreq) hbyte).mpr hslow

/-- Which periods come out right: the ones in `keptPeriods`, and no other. -/
theorem settck_paces (tck : BitVec 32) (h : 1 ≤ tck.toNat) : Paced tck.toNat ↔ KeptPeriod tck.toNat :=
  ⟨fun hp => hp.kept h, fun hk => hk.paced h⟩

theorem settck_paces_hundred : 1 ≤ (100#32).toNat ∧ (Paced (100#32).toNat ↔ KeptPeriod (100#32).toNat) :=
  ⟨by decide, settck_paces 100#32 (by decide)⟩

/-- At 2001 ns the frequency is zero, and at 67 ns the clock has a period of 66.7 ns. -/
theorem settck_overclocks : ¬ Paced (2001#32).toNat ∧ ¬ Paced (67#32).toNat := by
  constructor
  · intro h
    exact absurd (h.kept (by decide)) (by decide)
  · intro h
    exact absurd (h.kept (by decide)) (by decide)

end JtagRemote.Xvc
