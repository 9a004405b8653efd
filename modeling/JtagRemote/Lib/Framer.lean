import Mathlib.Data.List.Basic
import Mathlib.Tactic.Common

/-!
# Cutting a stream into units

A framer tells how long the unit at the front of a stream is, as soon as all of it
is there. What it says does not change when more of the stream comes in, so the
units do not depend on the pieces in which the stream arrives.
-/

namespace JtagRemote

structure Framer (α : Type) where
  next : List α → Option Nat
  pos {w : List α} {n : Nat} : next w = some n → 1 ≤ n
  le {w : List α} {n : Nat} : next w = some n → n ≤ w.length
  stable {w : List α} {n : Nat} (x : List α) : next w = some n → next (w ++ x) = some n

namespace Framer

variable {α : Type} {F : Framer α}

/-- The units at the front of `w`, and what is left when no more unit is complete. -/
inductive Splits (F : Framer α) : List α → List (List α) → List α → Prop
  | stop {w : List α} : F.next w = none → Splits F w [] w
  | unit {w : List α} {n : Nat} {us : List (List α)} {rest : List α} : F.next w = some n →
      Splits F (w.drop n) us rest → Splits F w (w.take n :: us) rest

theorem Splits.flatten {w rest : List α} {us : List (List α)} (h : F.Splits w us rest) :
    us.flatten ++ rest = w := by
  induction h with
  | stop _ => rfl
  | unit _ _ ih => rw [List.flatten_cons, List.append_assoc, ih, List.take_append_drop]

theorem Splits.unique {w rest rest' : List α} {us us' : List (List α)} (h : F.Splits w us rest)
    (h' : F.Splits w us' rest') : us = us' ∧ rest = rest' := by
  induction h generalizing us' with
  | stop hnone =>
    cases h' with
    | stop _ => exact ⟨rfl, rfl⟩
    | unit hn _ => rw [hnone] at hn; cases hn
  | unit hn _ ih =>
    cases h' with
    | stop hnone => rw [hnone] at hn; cases hn
    | unit hn' htail =>
      rw [hn] at hn'
      cases hn'
      obtain ⟨rfl, rfl⟩ := ih htail
      exact ⟨rfl, rfl⟩

/-- More of the stream: the units that were there stay, and the rest goes on. -/
theorem Splits.append {w rest x rest' : List α} {us us' : List (List α)} (h : F.Splits w us rest)
    (h' : F.Splits (rest ++ x) us' rest') : F.Splits (w ++ x) (us ++ us') rest' := by
  induction h with
  | stop _ => exact h'
  | unit hn _ ih =>
    have hle := F.le hn
    have htail := ih h'
    rw [← List.drop_append_of_le_length hle] at htail
    have hunit := Splits.unit (F.stable x hn) htail
    rwa [List.take_append_of_le_length hle] at hunit

/-- A unit whose length the framer knows comes off the front. -/
theorem Splits.cons {u w rest : List α} {us : List (List α)} (hu : F.next u = some u.length)
    (h : F.Splits w us rest) : F.Splits (u ++ w) (u :: us) rest := by
  have hn := F.stable w hu
  have htail : F.Splits ((u ++ w).drop u.length) us rest := by rwa [List.drop_left]
  have := Splits.unit hn htail
  rwa [List.take_left] at this

theorem Splits.of_none {w rest : List α} {us : List (List α)} (h : F.Splits w us rest) (hnone : F.next w = none) :
    us = [] ∧ rest = w := by
  cases h with
  | stop _ => exact ⟨rfl, rfl⟩
  | unit hn _ =>
    rw [hnone] at hn
    cases hn

theorem Splits.tail {x u w rest : List α} {us : List (List α)} (h : F.Splits x us rest) (hx : x = u ++ w)
    (hu : F.next u = some u.length) : ∃ us', us = u :: us' ∧ F.Splits w us' rest := by
  have hn := F.stable w hu
  rw [← hx] at hn
  cases h with
  | stop hnone =>
    rw [hnone] at hn
    cases hn
  | @unit _ n us _ hn' hus =>
    rw [hn'] at hn
    cases hn
    rw [hx, List.drop_left] at hus
    rw [hx, List.take_left]
    exact ⟨us, rfl, hus⟩

theorem next_nil (F : Framer α) : F.next [] = none := by
  cases hn : F.next [] with
  | none => rfl
  | some n =>
    have hpos := F.pos hn
    have hle := F.le hn
    rw [List.length_nil] at hle
    omega

theorem Splits.whole {u : List α} (hu : F.next u = some u.length) : F.Splits u [u] [] := by
  have := Splits.cons hu (.stop F.next_nil)
  rwa [List.append_nil] at this

/-- A piece of a unit holds no unit. -/
theorem next_take {u : List α} (hu : F.next u = some u.length) {n : Nat} (hn : n < u.length) :
    F.next (u.take n) = none := by
  cases hm : F.next (u.take n) with
  | none => rfl
  | some m =>
    have hle := F.le hm
    have hwhole := F.stable (u.drop n) hm
    rw [List.take_append_drop, hu, Option.some.injEq] at hwhole
    rw [List.length_take] at hle
    omega

/-! ## Units of one size -/

def blocks (α : Type) (n : Nat) (hn : 1 ≤ n) : Framer α where
  next w := if n ≤ w.length then some n else none
  pos h := by
    split at h
    · cases h
      exact hn
    · cases h
  le h := by
    split at h
    · cases h
      assumption
    · cases h
  stable x h := by
    split at h
    · cases h
      rw [List.length_append, if_pos (by omega)]
    · cases h

theorem blocks_short {n : Nat} {hn : 1 ≤ n} {w : List α} (h : w.length < n) : (blocks α n hn).next w = none :=
  if_neg (by omega)

theorem blocks_full {n : Nat} {hn : 1 ≤ n} {w : List α} (h : w.length = n) :
    (blocks α n hn).next w = some w.length := by
  rw [h]
  exact if_pos (Nat.le_of_eq h.symm)

/-- Cut at multiples of the size, less than one unit is left. -/
theorem Splits.blocks_length {n : Nat} {hn : 1 ≤ n} {w rest : List α} {us : List (List α)}
    (h : (blocks α n hn).Splits w us rest) : w.length = n * us.length + rest.length ∧ rest.length < n := by
  induction h with
  | @stop w hnone =>
    have hlt : w.length < n := by
      by_contra hle
      have hsome : (blocks α n hn).next w = some n := if_pos (by omega)
      rw [hnone] at hsome
      cases hsome
    exact ⟨by simp, hlt⟩
  | @unit w m us rest hm _ ih =>
    have hle := (blocks α n hn).le hm
    have hsize : m = n := by
      change (if n ≤ w.length then some n else none) = some m at hm
      split at hm
      · cases hm
        rfl
      · cases hm
    subst hsize
    obtain ⟨hlen, hrest⟩ := ih
    rw [List.length_drop] at hlen
    refine ⟨?_, hrest⟩
    rw [List.length_cons, Nat.mul_succ]
    omega

end Framer

end JtagRemote
