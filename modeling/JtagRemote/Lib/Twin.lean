import JtagRemote.Lib.Prog

/-!
# Two runs of a program

What two runs have in common that begin in related states: the answers, the faults,
and that the states are related again.
-/

namespace JtagRemote

variable {ε σ τ α β : Type}

/-- Both runs return the same, in states in `Q`, or both stop with the same fault, in states in `E`. -/
inductive Agree (E Q : σ → σ → Prop) : EStateM.Result ε σ α → EStateM.Result ε σ α → Prop
  | ok {a : α} {t t' : σ} : Q t t' → Agree E Q (.ok a t) (.ok a t')
  | error {e : ε} {t t' : σ} : E t t' → Agree E Q (.error e t) (.error e t')

/-- From states in `R`, the runs agree. -/
def Twins (E R Q : σ → σ → Prop) (p : EStateM ε σ α) : Prop := ∀ s s', R s s' → Agree E Q (p s) (p s')

variable {E R Q S : σ → σ → Prop}

/-! ## Two runs at hand -/

theorem Agree.mono {r r' : EStateM.Result ε σ α} {E' Q' : σ → σ → Prop} (h : Agree E Q r r')
    (hE : ∀ t t', E t t' → E' t t') (hQ : ∀ t t', Q t t' → Q' t t') : Agree E' Q' r r' := by
  cases h with
  | ok h => exact .ok (hQ _ _ h)
  | error h => exact .error (hE _ _ h)

theorem Agree.bind_both {x x' : EStateM ε σ α} {f f' : α → EStateM ε σ β} {s s' : σ} (hx : Agree E R (x s) (x' s'))
    (hf : ∀ a t t', x s = .ok a t → x' s' = .ok a t' → R t t' → Agree E Q (f a t) (f' a t')) :
    Agree E Q ((x >>= f) s) ((x' >>= f') s') := by
  rw [bind_apply, bind_apply]
  generalize hr : x s = r at hx
  generalize hr' : x' s' = r' at hx
  cases hx with
  | ok h => exact hf _ _ _ hr hr' h
  | error h => exact .error h

theorem Agree.bind {x x' : EStateM ε σ α} {f f' : α → EStateM ε σ β} {s s' : σ} (hx : Agree E R (x s) (x' s'))
    (hf : ∀ a t t', x s = .ok a t → R t t' → Agree E Q (f a t) (f' a t')) :
    Agree E Q ((x >>= f) s) ((x' >>= f') s') := hx.bind_both fun a t t' hrun _ ht => hf a t t' hrun ht

theorem Agree.answer {r r' : EStateM.Result ε σ α} (h : Agree E Q r r') :
    JtagRemote.answer r = JtagRemote.answer r' := by
  cases h <;> rfl

/-- What one of the runs ensures besides. -/
theorem Agree.and_ensures {p : EStateM ε σ α} {s : σ} {r' : EStateM.Result ε σ α} {P : σ → Prop}
    (h : Agree E Q (p s) r') (hp : Ensures p s fun _ t => P t) : Agree E (fun t t' => Q t t' ∧ P t) (p s) r' := by
  generalize hr : p s = r at h
  cases h with
  | ok h => exact .ok ⟨h, hp _ _ hr⟩
  | error h => exact .error h

theorem Agree.and_ensures_right {p : EStateM ε σ α} {s' : σ} {r : EStateM.Result ε σ α} {P : σ → Prop}
    (h : Agree E Q r (p s')) (hp : Ensures p s' fun _ t => P t) : Agree E (fun t t' => Q t t' ∧ P t') r (p s') := by
  generalize hr : p s' = r' at h
  cases h with
  | ok h => exact .ok ⟨h, hp _ _ hr⟩
  | error h => exact .error h

/-! ## Rules -/

theorem Twins.bind {x : EStateM ε σ α} {f : α → EStateM ε σ β} (hx : Twins E R Q x) (hf : ∀ a, Twins E Q S (f a)) :
    Twins E R S (x >>= f) := fun s s' hs => (hx s s' hs).bind fun a t t' _ ht => hf a t t' ht

theorem twins_pure (a : α) : Twins E R R (pure a : EStateM ε σ α) := fun _ _ h => .ok h

theorem twins_throw (hE : ∀ s s', R s s' → E s s') (e : ε) : Twins E R Q (throw e : EStateM ε σ α) :=
  fun s s' h => .error (hE s s' h)

theorem Twins.get_bind {f : σ → EStateM ε σ α} (h : ∀ s s', R s s' → Agree E Q (f s s) (f s' s')) :
    Twins E R Q (get >>= f) := h

theorem twins_modify {g : σ → σ} (h : ∀ s s', R s s' → Q (g s) (g s')) :
    Twins E R Q (modify g : EStateM ε σ PUnit) := fun s s' hs => .ok (h s s' hs)

theorem twins_ite {c : Prop} [Decidable c] {p q : EStateM ε σ α} (hp : c → Twins E R Q p)
    (hq : ¬ c → Twins E R Q q) : Twins E R Q (if c then p else q) := by
  split
  · exact hp (by assumption)
  · exact hq (by assumption)

theorem twins_forUpto {n : Nat} {a : α} {f : Nat → α → EStateM ε σ α} (hf : ∀ i b, Twins E R R (f i b)) :
    Twins E R R (forUpto n a f) := by
  induction n with
  | zero => exact twins_pure a
  | succ n ih => exact ih.bind fun b => hf n b

theorem twins_forWhile {n : Nat} {f : Nat → EStateM ε σ Bool} (hf : ∀ i, Twins E R R (f i)) :
    Twins E R R (forWhile n f) := by
  induction n with
  | zero => exact twins_pure true
  | succ n ih => exact ih.bind fun ok => twins_ite (fun _ => hf n) fun _ => twins_pure false

theorem twins_forM {l : List α} {f : α → EStateM ε σ PUnit} (hf : ∀ a, Twins E R R (f a)) :
    Twins E R R (l.forM f) := by
  induction l with
  | nil => exact twins_pure _
  | cons a l ih => exact (hf a).bind fun _ => ih

theorem twins_focus {part : σ → τ} {put : τ → σ → σ} {p : EStateM ε τ α} {E' P P' : τ → τ → Prop}
    (hp : Twins E' P P' p) (hin : ∀ s s', R s s' → P (part s) (part s'))
    (hout : ∀ s s' t t', R s s' → P' t t' → Q (put t s) (put t' s'))
    (hE : ∀ s s' t t', R s s' → E' t t' → E (put t s) (put t' s')) : Twins E R Q (focus part put p) := by
  intro s s' hs
  have hrun := hp _ _ (hin s s' hs)
  unfold focus
  generalize p (part s) = r at hrun
  generalize p (part s') = r' at hrun
  cases hrun with
  | ok h => exact .ok (hout s s' _ _ hs h)
  | error h => exact .error (hE s s' _ _ hs h)

end JtagRemote
