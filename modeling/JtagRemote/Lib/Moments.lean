import Mathlib.Data.List.Basic

/-!
# What holds between the steps of a row

A row of operations is done one after the other, as long as they succeed. `Along` is a
Hoare triple for such a row that also says what holds at each moment in it.
-/

namespace JtagRemote

variable {σ ο : Type}

/-- From one state some of the operations are done, and the last ones are left. -/
inductive Passes (step : ο → σ → Option σ) : σ → List ο → σ → List ο → Prop
  | here (s : σ) (os : List ο) : Passes step s os s os
  | next {s t u : σ} {o : ο} {os rest : List ο} : step o s = some t → Passes step t os u rest →
      Passes step s (o :: os) u rest

variable {step : ο → σ → Option σ}

theorem Passes.append_cases {s t : σ} {os ps rest : List ο} (h : Passes step s (os ++ ps) t rest) :
    (∃ os', rest = os' ++ ps ∧ Passes step s os t os') ∨
      ∃ u, Passes step s os u [] ∧ Passes step u ps t rest := by
  induction os generalizing s with
  | nil => exact Or.inr ⟨s, .here s [], h⟩
  | cons o os ih =>
    cases h with
    | here => exact Or.inl ⟨o :: os, rfl, .here _ _⟩
    | next hstep hrest =>
      rcases ih hrest with ⟨os', rfl, h⟩ | ⟨u, hu, h⟩
      · exact Or.inl ⟨os', rfl, .next hstep h⟩
      · exact Or.inr ⟨u, .next hstep hu, h⟩

theorem passes_of_foldlM {s t : σ} {os : List ο} (h : os.foldlM (fun s o => step o s) s = some t) :
    Passes step s os t [] := by
  induction os generalizing s with
  | nil =>
    cases h
    exact .here _ _
  | cons o os ih =>
    obtain ⟨u, ho, hos⟩ := Option.bind_eq_some_iff.mp h
    exact .next ho (ih hos)

/-- A row is done to its end, or to an operation that fails. -/
theorem passes_until_stuck (step : ο → σ → Option σ) (os : List ο) (s : σ) :
    ∃ t rest, Passes step s os t rest ∧ (rest = [] ∨ ∃ o os', rest = o :: os' ∧ step o t = none) := by
  induction os generalizing s with
  | nil => exact ⟨s, [], .here s [], Or.inl rfl⟩
  | cons o os ih =>
    cases hstep : step o s with
    | none => exact ⟨s, o :: os, .here s _, Or.inr ⟨o, os, rfl, hstep⟩⟩
    | some u =>
      obtain ⟨t, rest, hpass, hend⟩ := ih u
      exact ⟨t, rest, .next hstep hpass, hend⟩

/-- Where the operations have come to: the next one finds `N`, and behind the last one there is `Q`. -/
def Meets (N : σ → ο → Prop) (Q : σ → Prop) (t : σ) : List ο → Prop
  | [] => Q t
  | o :: _ => N t o

/-- From a state in `P`, the row keeps `I` at every moment, does each operation in a state that is fit for it,
and ends in `Q`. -/
def Along (step : ο → σ → Option σ) (I : σ → Prop) (N : σ → ο → Prop) (P : σ → Prop) (os : List ο) (Q : σ → Prop) :
    Prop := ∀ s, P s → ∀ t rest, Passes step s os t rest → I t ∧ Meets N Q t rest

variable {I P Q R : σ → Prop} {N : σ → ο → Prop}

theorem along_nil (hI : ∀ s, P s → I s) : Along step I N P [] P := by
  intro s hs t rest h
  cases h
  exact ⟨hI s hs, hs⟩

theorem Along.cons {o : ο} {os : List ο} (hP : ∀ s, P s → I s ∧ N s o)
    (hstep : ∀ s t, P s → step o s = some t → Q t) (h : Along step I N Q os R) : Along step I N P (o :: os) R := by
  intro s hs t rest hpass
  cases hpass with
  | here => exact hP s hs
  | next ho hrest => exact h _ (hstep s _ hs ho) t rest hrest

theorem Along.append {os ps : List ο} (h : Along step I N P os Q) (h' : Along step I N Q ps R) :
    Along step I N P (os ++ ps) R := by
  intro s hs t rest hpass
  rcases hpass.append_cases with ⟨os', rfl, hos⟩ | ⟨u, hu, hps⟩
  · obtain ⟨hI, hmeets⟩ := h s hs t os' hos
    cases os' with
    | nil => exact h' t hmeets t ps (.here t ps)
    | cons o os' => exact ⟨hI, hmeets⟩
  · exact h' u (h s hs u [] hu).2 t rest hps

theorem along_flatMap {α : Type} {l : List α} {f : α → List ο} (hI : ∀ s, P s → I s)
    (h : ∀ a ∈ l, Along step I N P (f a) P) : Along step I N P (l.flatMap f) P := by
  induction l with
  | nil => exact along_nil hI
  | cons a l ih =>
    rw [List.flatMap_cons]
    exact (h a List.mem_cons_self).append (ih fun b hb => h b (List.mem_cons_of_mem a hb))

end JtagRemote
