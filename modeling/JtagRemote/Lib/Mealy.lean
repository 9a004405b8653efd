import JtagRemote.Lib.Prog
import Mathlib.Algebra.Ring.Nat
import Mathlib.Data.List.Basic

/-!
# Mealy machines

A machine takes one input after the other, and answers each of them from the state
that it is in. Two rows of inputs are alike when the machine cannot tell them apart.
A program follows a machine when it says what the machine answers.
-/

namespace JtagRemote

structure Mealy (σ ι ο : Type) where
  step : σ → ι → σ
  out : σ → ι → ο

namespace Mealy

variable {σ ι ο : Type} (m : Mealy σ ι ο)

/-- The state after the inputs. -/
def run (q : σ) (xs : List ι) : σ := xs.foldl m.step q

/-- One answer for each input. -/
def outs (q : σ) : List ι → List ο
  | [] => []
  | x :: xs => m.out q x :: outs (m.step q x) xs

@[simp] theorem run_nil (q : σ) : m.run q [] = q := rfl

@[simp] theorem run_cons (q : σ) (x : ι) (xs : List ι) : m.run q (x :: xs) = m.run (m.step q x) xs := rfl

theorem run_append (q : σ) (xs ys : List ι) : m.run q (xs ++ ys) = m.run (m.run q xs) ys := List.foldl_append

@[simp] theorem outs_nil (q : σ) : m.outs q [] = [] := rfl

@[simp] theorem outs_cons (q : σ) (x : ι) (xs : List ι) :
    m.outs q (x :: xs) = m.out q x :: m.outs (m.step q x) xs := rfl

theorem outs_append (q : σ) (xs ys : List ι) : m.outs q (xs ++ ys) = m.outs q xs ++ m.outs (m.run q xs) ys := by
  induction xs generalizing q with
  | nil => rfl
  | cons x xs ih => simp [ih]

@[simp] theorem outs_length (q : σ) (xs : List ι) : (m.outs q xs).length = xs.length := by
  induction xs generalizing q with
  | nil => rfl
  | cons x xs ih => simp [ih]

/-- An answer comes from the state after the inputs before it. -/
theorem outs_getElem? (q : σ) (xs : List ι) (i : Nat) :
    (m.outs q xs)[i]? = (xs[i]?).map (m.out (m.run q (xs.take i))) := by
  induction xs generalizing q i with
  | nil => rfl
  | cons x xs ih =>
    cases i with
    | zero => rfl
    | succ i => simpa using ih (m.step q x) i

/-! ## Inputs that the machine cannot tell apart -/

/-- Input by input, the machine answers alike and goes on alike. -/
def Alike (q : σ) : List ι → List ι → Prop
  | [], [] => True
  | x :: xs, y :: ys => m.out q x = m.out q y ∧ m.step q x = m.step q y ∧ Alike (m.step q x) xs ys
  | _, _ => False

variable {m} {q : σ} {xs ys : List ι}

theorem Alike.run (h : m.Alike q xs ys) : m.run q xs = m.run q ys := by
  induction xs generalizing q ys with
  | nil =>
    cases ys with
    | nil => rfl
    | cons y ys => exact h.elim
  | cons x xs ih =>
    cases ys with
    | nil => exact h.elim
    | cons y ys =>
      obtain ⟨-, hstep, hrest⟩ := h
      rw [run_cons, run_cons, ih hrest, hstep]

theorem Alike.outs (h : m.Alike q xs ys) : m.outs q xs = m.outs q ys := by
  induction xs generalizing q ys with
  | nil =>
    cases ys with
    | nil => rfl
    | cons y ys => exact h.elim
  | cons x xs ih =>
    cases ys with
    | nil => exact h.elim
    | cons y ys =>
      obtain ⟨hout, hstep, hrest⟩ := h
      rw [outs_cons, outs_cons, hout, ih hrest, hstep]

end Mealy

/-! ## Programs that follow a machine -/

/-- From `s`, the program says what the machine answers to the inputs from `q` on, and where it ends stands
for where the machine ends. -/
def Follows {σ ι ο ε S α : Type} (m : Mealy σ ι (List ο)) (said : S → List ο) (stands : S → σ → Prop)
    (p : EStateM ε S α) (s : S) (q : σ) (xs : List ι) : Prop :=
  Returns p s fun _ t => stands t (m.run q xs) ∧ said t = said s ++ (m.outs q xs).flatten

section

variable {σ ι ο ε S α β ξ : Type} {m : Mealy σ ι (List ο)} {said : S → List ο} {stands stands' : S → σ → Prop}
  {s : S} {q : σ}

/-- A program that says nothing, and moves nothing. -/
theorem follows_quiet {p : EStateM ε S α} (h : Returns p s fun _ t => stands t q ∧ said t = said s) :
    Follows m said stands p s q [] := by
  apply h.mono
  rintro _ t ⟨hstands, hsaid⟩
  exact ⟨hstands, hsaid.trans (List.append_nil _).symm⟩

theorem follows_one {p : EStateM ε S α} {x : ι}
    (h : Returns p s fun _ t => stands t (m.step q x) ∧ said t = said s ++ m.out q x) :
    Follows m said stands p s q [x] := by
  apply h.mono
  rintro _ t ⟨hstands, hsaid⟩
  refine ⟨hstands, ?_⟩
  rw [hsaid, Mealy.outs_cons, Mealy.outs_nil, List.flatten_singleton]

theorem Follows.bind {p : EStateM ε S α} {f : α → EStateM ε S β} {xs ys : List ι}
    (h : Follows m said stands p s q xs)
    (hf : ∀ a t, stands t (m.run q xs) → Follows m said stands' (f a) t (m.run q xs) ys) :
    Follows m said stands' (p >>= f) s q (xs ++ ys) := by
  apply Returns.bind h
  rintro a t ⟨hstands, hsaid⟩
  apply (hf a t hstands).mono
  rintro _ u ⟨hstands', hsaid'⟩
  rw [Mealy.run_append, Mealy.outs_append, List.flatten_append]
  exact ⟨hstands', by rw [hsaid', hsaid, List.append_assoc]⟩

/-- Block after block. `Good` says of the blocks that are left what each of them needs. -/
theorem Follows.forM {f : ξ → EStateM ε S PUnit} {asks : ξ → List ι} (Good : σ → List ξ → Prop)
    (hnext : ∀ {q x l}, Good q (x :: l) → Good (m.run q (asks x)) l)
    (hstep : ∀ {s q x l}, stands s q → Good q (x :: l) → Follows m said stands (f x) s q (asks x))
    (h : stands s q) {l : List ξ} (hgood : Good q l) : Follows m said stands (l.forM f) s q (l.flatMap asks) := by
  induction l generalizing s q with
  | nil => exact follows_quiet (returns_pure ⟨h, rfl⟩)
  | cons x l ih => exact (hstep h hgood).bind fun _ _ ht => ih ht (hnext hgood)

end

end JtagRemote
