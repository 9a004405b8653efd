import Mathlib.Algebra.Ring.Nat
import Mathlib.Data.List.Basic
import Mathlib.Data.List.SplitLengths

/-!
# Shift registers

A register is the list of its bits in the order in which they leave it. Registers
in series are given from the one at the output on; an empty one is a wire.
-/

namespace JtagRemote

variable {α : Type}

/-- What leaves the register as `a` goes in. -/
def shiftOut (reg : List α) (a : α) : α := reg.headD a

def shiftIn (reg : List α) (a : α) : List α := (reg ++ [a]).tail

theorem shift_cons (reg : List α) (a : α) : shiftOut reg a :: shiftIn reg a = reg ++ [a] := by
  cases reg <;> rfl

theorem shiftIn_length (reg : List α) (a : α) : (shiftIn reg a).length = reg.length := by simp [shiftIn]

/-! ## A row of bits -/

def shiftAll (reg as : List α) : List α := as.foldl shiftIn reg

/-- What leaves the register as a row of bits goes in. -/
def shiftOuts (reg : List α) : List α → List α
  | [] => []
  | a :: as => shiftOut reg a :: shiftOuts (shiftIn reg a) as

/-- The bits of the register leave first, and then those that went in. -/
theorem shiftOuts_then (reg as : List α) : shiftOuts reg as ++ shiftAll reg as = reg ++ as := by
  induction as generalizing reg with
  | nil => simp [shiftOuts, shiftAll]
  | cons a as ih =>
    have hrest := ih (shiftIn reg a)
    rw [shiftOuts, shiftAll, List.foldl_cons, ← shiftAll, List.cons_append, hrest, ← List.cons_append, shift_cons]
    simp

theorem shiftOuts_length (reg as : List α) : (shiftOuts reg as).length = as.length := by
  induction as generalizing reg with
  | nil => rfl
  | cons a as ih => exact congrArg (· + 1) (ih _)

theorem shiftOuts_eq (reg as : List α) : shiftOuts reg as = (reg ++ as).take as.length := by
  rw [← shiftOuts_then, ← shiftOuts_length reg as, List.take_left]

theorem shiftAll_eq (reg as : List α) : shiftAll reg as = (reg ++ as).drop as.length := by
  rw [← shiftOuts_then, ← shiftOuts_length reg as, List.drop_left]

/-! ## Registers in series -/

def seriesOut (regs : List (List α)) (a : α) : α := regs.foldr shiftOut a

/-- Each register takes what leaves the one behind it. -/
def seriesIn : List (List α) → α → List (List α)
  | [], _ => []
  | reg :: regs, a => shiftIn reg (seriesOut regs a) :: seriesIn regs a

/-- Registers in series are one long register. -/
theorem seriesOut_eq (regs : List (List α)) (a : α) : seriesOut regs a = shiftOut regs.flatten a := by
  induction regs with
  | nil => rfl
  | cons reg regs ih =>
    rw [seriesOut, List.foldr_cons, ← seriesOut, ih, List.flatten_cons]
    cases reg <;> rfl

theorem seriesIn_flatten (regs : List (List α)) (a : α) :
    (seriesIn regs a).flatten = shiftIn regs.flatten a := by
  induction regs with
  | nil => rfl
  | cons reg regs ih =>
    rw [seriesIn, List.flatten_cons, ih, seriesOut_eq, List.flatten_cons]
    cases reg with
    | nil => rfl
    | cons b reg =>
      have h := shift_cons regs.flatten a
      simp only [shiftIn, List.cons_append, List.tail_cons] at h ⊢
      rw [List.append_assoc, List.singleton_append, h, List.append_assoc]

theorem seriesIn_lengths (regs : List (List α)) (a : α) :
    (seriesIn regs a).map List.length = regs.map List.length := by
  induction regs with
  | nil => rfl
  | cons reg regs ih => rw [seriesIn, List.map_cons, List.map_cons, ih, shiftIn_length]

/-- The long register is cut into the registers again. -/
theorem splitLengths_flatten (regs : List (List α)) : (regs.map List.length).splitLengths regs.flatten = regs := by
  induction regs with
  | nil => rfl
  | cons reg regs ih =>
    rw [List.map_cons, List.flatten_cons, List.splitLengths_cons, List.take_left, List.drop_left, ih]

end JtagRemote
