import Mathlib.Algebra.Ring.Nat
import Mathlib.Data.List.Basic
import Mathlib.Tactic.Common

/-!
# Programs that may stop with a fault

Sequential code is an `EStateM ε σ α`: it changes a state and either returns or
stops with a fault. `Returns` is total correctness, `Ensures` is partial
correctness, and the rules below follow the shape of the program.
-/

namespace JtagRemote

variable {ε σ τ α β : Type}

/-! ## What a program does from a state -/

/-- From `s`, the program returns, and `Q` holds of the result and the final state. -/
def Returns (p : EStateM ε σ α) (s : σ) (Q : α → σ → Prop) : Prop :=
  ∃ a s', p s = .ok a s' ∧ Q a s'

/-- If the program returns from `s`, then `Q` holds of the result and the final state. -/
def Ensures (p : EStateM ε σ α) (s : σ) (Q : α → σ → Prop) : Prop :=
  ∀ a s', p s = .ok a s' → Q a s'

/-- From `s`, the program stops with the fault `e`. -/
def Faults (p : EStateM ε σ α) (s : σ) (e : ε) : Prop := ∃ s', p s = .error e s'

theorem bind_apply (x : EStateM ε σ α) (f : α → EStateM ε σ β) (s : σ) :
    (x >>= f) s = match x s with
      | .ok a s' => f a s'
      | .error e s' => .error e s' := rfl

@[simp] theorem pure_apply (a : α) (s : σ) : (pure a : EStateM ε σ α) s = .ok a s := rfl

@[simp] theorem get_apply (s : σ) : (get : EStateM ε σ σ) s = .ok s s := rfl

@[simp] theorem modify_apply (f : σ → σ) (s : σ) :
    (modify f : EStateM ε σ PUnit) s = .ok () (f s) := rfl

@[simp] theorem set_apply (t s : σ) : (set t : EStateM ε σ PUnit) s = .ok () t := rfl

@[simp] theorem throw_apply (e : ε) (s : σ) : (throw e : EStateM ε σ α) s = .error e s := rfl

theorem bind_of_ok {x : EStateM ε σ α} {f : α → EStateM ε σ β} {s s' : σ} {a : α}
    (h : x s = .ok a s') : (x >>= f) s = f a s' := by rw [bind_apply, h]

theorem bind_of_error {x : EStateM ε σ α} {f : α → EStateM ε σ β} {s s' : σ} {e : ε}
    (h : x s = .error e s') : (x >>= f) s = .error e s' := by rw [bind_apply, h]

theorem bind_eq_ok {x : EStateM ε σ α} {f : α → EStateM ε σ β} {s t : σ} {b : β} :
    (x >>= f) s = .ok b t ↔ ∃ a s', x s = .ok a s' ∧ f a s' = .ok b t := by
  rw [bind_apply]
  cases hx : x s with
  | ok a s' => simp
  | error e s' => simp

/-! ## Rules for total correctness -/

theorem Returns.mono {p : EStateM ε σ α} {s : σ} {P Q : α → σ → Prop} (h : Returns p s P)
    (hPQ : ∀ a s', P a s' → Q a s') : Returns p s Q := by
  obtain ⟨a, s', hp, hP⟩ := h
  exact ⟨a, s', hp, hPQ a s' hP⟩

theorem Returns.bind {x : EStateM ε σ α} {f : α → EStateM ε σ β} {s : σ} {P : α → σ → Prop}
    {Q : β → σ → Prop} (hx : Returns x s P) (hf : ∀ a s', P a s' → Returns (f a) s' Q) :
    Returns (x >>= f) s Q := by
  obtain ⟨a, s', hp, hP⟩ := hx
  obtain ⟨b, t, hb, hQ⟩ := hf a s' hP
  exact ⟨b, t, by rw [bind_of_ok hp, hb], hQ⟩

theorem returns_pure {a : α} {s : σ} {Q : α → σ → Prop} (h : Q a s) :
    Returns (pure a : EStateM ε σ α) s Q := ⟨a, s, rfl, h⟩

/-- A step that is known: the rest runs from where it ends. -/
theorem Returns.of_eq_bind {x : EStateM ε σ α} {f : α → EStateM ε σ β} {s s' : σ} {a : α}
    {Q : β → σ → Prop} (hx : x s = .ok a s') (hf : Returns (f a) s' Q) : Returns (x >>= f) s Q := by
  obtain ⟨b, t, hb, hQ⟩ := hf
  exact ⟨b, t, by rw [bind_of_ok hx, hb], hQ⟩

theorem Returns.get_bind {f : σ → EStateM ε σ α} {s : σ} {Q : α → σ → Prop}
    (h : Returns (f s) s Q) : Returns (get >>= f) s Q := h

theorem Returns.set_bind {t : σ} {f : PUnit → EStateM ε σ α} {s : σ} {Q : α → σ → Prop}
    (h : Returns (f ⟨⟩) t Q) : Returns (set t >>= f) s Q := h

theorem Returns.modify_bind {g : σ → σ} {f : PUnit → EStateM ε σ α} {s : σ} {Q : α → σ → Prop}
    (h : Returns (f ⟨⟩) (g s) Q) : Returns (modify g >>= f) s Q := h

theorem returns_modify {g : σ → σ} {s : σ} {Q : PUnit → σ → Prop} (h : Q ⟨⟩ (g s)) :
    Returns (modify g : EStateM ε σ PUnit) s Q := ⟨⟨⟩, g s, rfl, h⟩

theorem Returns.ensures {p : EStateM ε σ α} {s : σ} {Q : α → σ → Prop} (h : Returns p s Q) :
    Ensures p s Q := by
  obtain ⟨a, s', hp, hQ⟩ := h
  intro b t ht
  rw [hp] at ht
  cases ht
  exact hQ

theorem Returns.and {p : EStateM ε σ α} {s : σ} {P Q : α → σ → Prop} (hP : Returns p s P)
    (hQ : Ensures p s Q) : Returns p s fun a s' => P a s' ∧ Q a s' := by
  obtain ⟨a, s', hp, hP⟩ := hP
  exact ⟨a, s', hp, hP, hQ a s' hp⟩

/-! ## Rules for partial correctness -/

theorem Ensures.mono {p : EStateM ε σ α} {s : σ} {P Q : α → σ → Prop} (h : Ensures p s P)
    (hPQ : ∀ a s', P a s' → Q a s') : Ensures p s Q := fun a s' hp => hPQ a s' (h a s' hp)

theorem Ensures.bind {x : EStateM ε σ α} {f : α → EStateM ε σ β} {s : σ} {P : α → σ → Prop}
    {Q : β → σ → Prop} (hx : Ensures x s P) (hf : ∀ a s', P a s' → Ensures (f a) s' Q) :
    Ensures (x >>= f) s Q := by
  intro b t ht
  obtain ⟨a, s', ha, hb⟩ := bind_eq_ok.mp ht
  exact hf a s' (hx a s' ha) b t hb

theorem Ensures.of_eq_bind {x : EStateM ε σ α} {f : α → EStateM ε σ β} {s s' : σ} {a : α}
    {Q : β → σ → Prop} (hx : x s = .ok a s') (hf : Ensures (f a) s' Q) : Ensures (x >>= f) s Q := by
  intro b t ht
  rw [bind_of_ok hx] at ht
  exact hf b t ht

/-- Whatever the first step does. -/
theorem Ensures.any_bind {x : EStateM ε σ α} {f : α → EStateM ε σ β} {s : σ} {Q : β → σ → Prop}
    (hf : ∀ a s', Ensures (f a) s' Q) : Ensures (x >>= f) s Q := by
  intro b t ht
  obtain ⟨a, s', -, hb⟩ := bind_eq_ok.mp ht
  exact hf a s' b t hb

theorem Ensures.get_bind {f : σ → EStateM ε σ α} {s : σ} {Q : α → σ → Prop}
    (h : Ensures (f s) s Q) : Ensures (get >>= f) s Q := h

theorem Ensures.set_bind {t : σ} {f : PUnit → EStateM ε σ α} {s : σ} {Q : α → σ → Prop}
    (h : Ensures (f ⟨⟩) t Q) : Ensures (set t >>= f) s Q := h

theorem Ensures.modify_bind {g : σ → σ} {f : PUnit → EStateM ε σ α} {s : σ} {Q : α → σ → Prop}
    (h : Ensures (f ⟨⟩) (g s) Q) : Ensures (modify g >>= f) s Q := h

theorem Ensures.and {p : EStateM ε σ α} {s : σ} {P Q : α → σ → Prop} (hP : Ensures p s P)
    (hQ : Ensures p s Q) : Ensures p s fun a s' => P a s' ∧ Q a s' :=
  fun a s' hp => ⟨hP a s' hp, hQ a s' hp⟩

theorem ensures_modify {g : σ → σ} {s : σ} {Q : PUnit → σ → Prop} (h : Q ⟨⟩ (g s)) :
    Ensures (modify g : EStateM ε σ PUnit) s Q := (returns_modify h).ensures

theorem ensures_pure {a : α} {s : σ} {Q : α → σ → Prop} (h : Q a s) :
    Ensures (pure a : EStateM ε σ α) s Q := by
  rintro b t ⟨⟩
  exact h

theorem ensures_throw {e : ε} {s : σ} {Q : α → σ → Prop} :
    Ensures (throw e : EStateM ε σ α) s Q := by
  rintro b t ⟨⟩

theorem ensures_ite {c : Prop} [Decidable c] {p q : EStateM ε σ α} {s : σ} {Q : α → σ → Prop}
    (hp : c → Ensures p s Q) (hq : ¬ c → Ensures q s Q) : Ensures (if c then p else q) s Q := by
  split
  · exact hp (by assumption)
  · exact hq (by assumption)

/-! ## Rules for programs that avoid a fault -/

/-- From `s`, the program does not stop with `e`, and if it returns, then `Q` holds. -/
structure Guards (p : EStateM ε σ α) (s : σ) (e : ε) (Q : α → σ → Prop) : Prop where
  ensures : Ensures p s Q
  avoids : ∀ t, p s ≠ .error e t

theorem Guards.of_eq {p : EStateM ε σ α} {q : EStateM ε σ α} {s s' : σ} {e : ε} {Q : α → σ → Prop}
    (heq : p s = q s') (h : Guards q s' e Q) : Guards p s e Q := by
  refine ⟨?_, ?_⟩
  · intro a t ht
    exact h.ensures a t (heq ▸ ht)
  · rw [heq]
    exact h.avoids

theorem Returns.guards {p : EStateM ε σ α} {s : σ} {e : ε} {Q : α → σ → Prop} (h : Returns p s Q) : Guards p s e Q := by
  refine ⟨h.ensures, fun t ht => ?_⟩
  obtain ⟨a, s', hrun, -⟩ := h
  rw [hrun] at ht
  cases ht

/-- A program that stops with another fault. -/
theorem Faults.guards {p : EStateM ε σ α} {s : σ} {e e' : ε} {Q : α → σ → Prop} (h : Faults p s e') (hne : e' ≠ e) :
    Guards p s e Q := by
  obtain ⟨t, hrun⟩ := h
  refine ⟨fun a s' hok => ?_, fun t' hfault => ?_⟩
  · rw [hrun] at hok
    cases hok
  · rw [hrun] at hfault
    cases hfault
    exact hne rfl

theorem Guards.mono {p : EStateM ε σ α} {s : σ} {e : ε} {P Q : α → σ → Prop} (h : Guards p s e P)
    (hPQ : ∀ a s', P a s' → Q a s') : Guards p s e Q := ⟨h.ensures.mono hPQ, h.avoids⟩

theorem Guards.bind {x : EStateM ε σ α} {f : α → EStateM ε σ β} {s : σ} {e : ε} {P : α → σ → Prop}
    {Q : β → σ → Prop} (hx : Guards x s e P) (hf : ∀ a s', P a s' → Guards (f a) s' e Q) :
    Guards (x >>= f) s e Q := by
  refine ⟨hx.ensures.bind fun a s' h => (hf a s' h).ensures, ?_⟩
  intro t ht
  rw [bind_apply] at ht
  cases hrun : x s with
  | ok a s' =>
    rw [hrun] at ht
    exact (hf a s' (hx.ensures a s' hrun)).avoids t ht
  | error e' s' =>
    rw [hrun] at ht
    cases ht
    exact hx.avoids _ hrun

theorem guards_pure {a : α} {s : σ} {e : ε} {Q : α → σ → Prop} (h : Q a s) :
    Guards (pure a : EStateM ε σ α) s e Q := ⟨ensures_pure h, fun _ ht => by cases ht⟩

theorem guards_throw {e e' : ε} (hne : e' ≠ e) {s : σ} {Q : α → σ → Prop} :
    Guards (throw e' : EStateM ε σ α) s e Q := by
  refine ⟨ensures_throw, ?_⟩
  rintro t ⟨⟩
  exact hne rfl

theorem Guards.get_bind {f : σ → EStateM ε σ α} {s : σ} {e : ε} {Q : α → σ → Prop}
    (h : Guards (f s) s e Q) : Guards (get >>= f) s e Q := ⟨h.ensures, h.avoids⟩

theorem Guards.set_bind {t : σ} {f : PUnit → EStateM ε σ α} {s : σ} {e : ε} {Q : α → σ → Prop}
    (h : Guards (f ⟨⟩) t e Q) : Guards (set t >>= f) s e Q := ⟨h.ensures, h.avoids⟩

theorem Guards.modify_bind {g : σ → σ} {f : PUnit → EStateM ε σ α} {s : σ} {e : ε} {Q : α → σ → Prop}
    (h : Guards (f ⟨⟩) (g s) e Q) : Guards (modify g >>= f) s e Q := ⟨h.ensures, h.avoids⟩

theorem guards_modify {g : σ → σ} {s : σ} {e : ε} {Q : PUnit → σ → Prop} (h : Q ⟨⟩ (g s)) :
    Guards (modify g : EStateM ε σ PUnit) s e Q := ⟨ensures_modify h, fun _ ht => by cases ht⟩

theorem guards_ite {c : Prop} [Decidable c] {p q : EStateM ε σ α} {s : σ} {e : ε} {Q : α → σ → Prop}
    (hp : c → Guards p s e Q) (hq : ¬ c → Guards q s e Q) : Guards (if c then p else q) s e Q := by
  split
  · exact hp (by assumption)
  · exact hq (by assumption)

/-! ## Faults -/

theorem Faults.bind {x : EStateM ε σ α} {f : α → EStateM ε σ β} {s : σ} {e : ε}
    (h : Faults x s e) : Faults (x >>= f) s e := by
  obtain ⟨s', hs'⟩ := h
  exact ⟨s', bind_of_error hs'⟩

theorem Faults.of_eq_bind {x : EStateM ε σ α} {f : α → EStateM ε σ β} {s s' : σ} {a : α} {e : ε}
    (hx : x s = .ok a s') (hf : Faults (f a) s' e) : Faults (x >>= f) s e := by
  obtain ⟨t, ht⟩ := hf
  exact ⟨t, by rw [bind_of_ok hx, ht]⟩

theorem Returns.bind_faults {x : EStateM ε σ α} {f : α → EStateM ε σ β} {s : σ}
    {P : α → σ → Prop} {e : ε} (hx : Returns x s P) (hf : ∀ a s', P a s' → Faults (f a) s' e) :
    Faults (x >>= f) s e := by
  obtain ⟨a, s', hp, hP⟩ := hx
  obtain ⟨t, ht⟩ := hf a s' hP
  exact ⟨t, by rw [bind_of_ok hp, ht]⟩

theorem Faults.not_ok {p : EStateM ε σ α} {s t : σ} {e : ε} {a : α} (h : Faults p s e) : p s ≠ .ok a t := by
  obtain ⟨t', ht'⟩ := h
  rw [ht']
  simp

theorem Faults.not_returns {p : EStateM ε σ α} {s : σ} {e : ε} (h : Faults p s e)
    (Q : α → σ → Prop) : ¬ Returns p s Q := by
  obtain ⟨t, ht⟩ := h
  rintro ⟨a, s', hs', -⟩
  rw [ht] at hs'
  cases hs'

/-! ## Rules for programs that may only stop with some faults -/

/-- From `s`, the program returns and `Q` holds, or it stops with a fault of `F`. -/
def Ends (p : EStateM ε σ α) (s : σ) (F : ε → Prop) (Q : α → σ → Prop) : Prop :=
  match p s with
  | .ok a t => Q a t
  | .error e _ => F e

section

variable {F : ε → Prop}

theorem Returns.ends {p : EStateM ε σ α} {s : σ} {Q : α → σ → Prop} (h : Returns p s Q) : Ends p s F Q := by
  obtain ⟨a, t, hrun, hQ⟩ := h
  rw [Ends, hrun]
  exact hQ

theorem Ends.mono {p : EStateM ε σ α} {s : σ} {P Q : α → σ → Prop} (h : Ends p s F P)
    (hPQ : ∀ a t, P a t → Q a t) : Ends p s F Q := by
  unfold Ends at h ⊢
  split at h
  · exact hPQ _ _ h
  · exact h

theorem Ends.weaken {p : EStateM ε σ α} {s : σ} {G : ε → Prop} {Q : α → σ → Prop} (h : Ends p s F Q)
    (hFG : ∀ e, F e → G e) : Ends p s G Q := by
  unfold Ends at h ⊢
  split at h
  · exact h
  · exact hFG _ h

theorem Ends.of_eq {p q : EStateM ε σ α} {s t : σ} {Q : α → σ → Prop} (heq : p s = q t) (h : Ends q t F Q) :
    Ends p s F Q := by
  rw [Ends, heq]
  exact h

theorem Ends.ensures {p : EStateM ε σ α} {s : σ} {Q : α → σ → Prop} (h : Ends p s F Q) : Ensures p s Q := by
  intro a t hrun
  rwa [Ends, hrun] at h

theorem Ends.not_faults {p : EStateM ε σ α} {s : σ} {e : ε} {Q : α → σ → Prop} (h : Ends p s F Q)
    (he : ¬ F e) : ¬ Faults p s e := by
  rintro ⟨t, ht⟩
  rw [Ends, ht] at h
  exact he h

theorem Ends.and {p : EStateM ε σ α} {s : σ} {P Q : α → σ → Prop} (hP : Ends p s F P) (hQ : Ensures p s Q) :
    Ends p s F fun a t => P a t ∧ Q a t := by
  unfold Ends at hP ⊢
  split at hP
  · exact ⟨hP, hQ _ _ (by assumption)⟩
  · exact hP

theorem Ends.bind {x : EStateM ε σ α} {f : α → EStateM ε σ β} {s : σ} {P : α → σ → Prop}
    {Q : β → σ → Prop} (hx : Ends x s F P) (hf : ∀ a t, P a t → Ends (f a) t F Q) : Ends (x >>= f) s F Q := by
  unfold Ends at hx
  split at hx
  · rename_i a t hrun
    rw [Ends, bind_of_ok hrun]
    exact hf a t hx
  · rename_i e t hrun
    rwa [Ends, bind_of_error hrun]

theorem ends_pure {a : α} {s : σ} {Q : α → σ → Prop} (h : Q a s) : Ends (pure a : EStateM ε σ α) s F Q := h

theorem ends_throw {e : ε} {s : σ} {Q : α → σ → Prop} (h : F e) : Ends (throw e : EStateM ε σ α) s F Q := h

theorem Ends.of_eq_bind {x : EStateM ε σ α} {f : α → EStateM ε σ β} {s t : σ} {a : α} {Q : β → σ → Prop}
    (hx : x s = .ok a t) (hf : Ends (f a) t F Q) : Ends (x >>= f) s F Q := by
  rw [Ends, bind_of_ok hx]
  exact hf

theorem Ends.get_bind {f : σ → EStateM ε σ α} {s : σ} {Q : α → σ → Prop} (h : Ends (f s) s F Q) :
    Ends (get >>= f) s F Q := h

theorem Ends.set_bind {t : σ} {f : PUnit → EStateM ε σ α} {s : σ} {Q : α → σ → Prop} (h : Ends (f ⟨⟩) t F Q) :
    Ends (set t >>= f) s F Q := h

theorem Ends.modify_bind {g : σ → σ} {f : PUnit → EStateM ε σ α} {s : σ} {Q : α → σ → Prop}
    (h : Ends (f ⟨⟩) (g s) F Q) : Ends (modify g >>= f) s F Q := h

theorem ends_ite {c : Prop} [Decidable c] {p q : EStateM ε σ α} {s : σ} {Q : α → σ → Prop}
    (hp : c → Ends p s F Q) (hq : ¬ c → Ends q s F Q) : Ends (if c then p else q) s F Q := by
  split
  · exact hp (by assumption)
  · exact hq (by assumption)

end

/-! ## A part of the state -/

/-- Runs a program on a part of the state and leaves the rest as it was. -/
def focus (part : σ → τ) (put : τ → σ → σ) (p : EStateM ε τ α) : EStateM ε σ α := fun s =>
  match p (part s) with
  | .ok a t => .ok a (put t s)
  | .error e t => .error e (put t s)

theorem Returns.focus {part : σ → τ} {put : τ → σ → σ} {p : EStateM ε τ α} {s : σ}
    {P : α → τ → Prop} (h : Returns p (part s) P) :
    Returns (focus part put p) s fun a s' => ∃ t, P a t ∧ s' = put t s := by
  obtain ⟨a, t, hp, hP⟩ := h
  exact ⟨a, put t s, by simp [JtagRemote.focus, hp], t, hP, rfl⟩

theorem Ensures.focus {part : σ → τ} {put : τ → σ → σ} {p : EStateM ε τ α} {s : σ}
    {P : α → τ → Prop} (h : Ensures p (part s) P) :
    Ensures (focus part put p) s fun a s' => ∃ t, P a t ∧ s' = put t s := by
  intro a s' hs'
  unfold JtagRemote.focus at hs'
  split at hs'
  · rename_i b t hp
    cases hs'
    exact ⟨t, h a t hp, rfl⟩
  · cases hs'

theorem Guards.focus {part : σ → τ} {put : τ → σ → σ} {p : EStateM ε τ α} {s : σ} {e : ε}
    {P : α → τ → Prop} (h : Guards p (part s) e P) :
    Guards (focus part put p) s e fun a s' => ∃ t, P a t ∧ s' = put t s := by
  refine ⟨h.ensures.focus, ?_⟩
  intro t ht
  unfold JtagRemote.focus at ht
  split at ht
  · cases ht
  · rename_i hrun
    cases ht
    exact h.avoids _ hrun

theorem Ends.focus {part : σ → τ} {put : τ → σ → σ} {p : EStateM ε τ α} {s : σ} {F : ε → Prop}
    {P : α → τ → Prop} (h : Ends p (part s) F P) :
    Ends (focus part put p) s F fun a s' => ∃ t, P a t ∧ s' = put t s := by
  unfold Ends at h
  unfold Ends JtagRemote.focus
  cases hrun : p (part s) with
  | ok a t =>
    rw [hrun] at h
    exact ⟨t, h, rfl⟩
  | error e t =>
    rw [hrun] at h
    exact h

theorem Faults.focus {part : σ → τ} {put : τ → σ → σ} {p : EStateM ε τ α} {s : σ} {e : ε}
    (h : Faults p (part s) e) : Faults (focus part put p) s e := by
  obtain ⟨t, ht⟩ := h
  exact ⟨put t s, by simp [JtagRemote.focus, ht]⟩

/-! ## Counting loops -/

/-- `for (i = 0; i < n; i++) a = f(i, a)`. -/
def forUpto (n : Nat) (a : α) (f : Nat → α → EStateM ε σ α) : EStateM ε σ α :=
  match n with
  | 0 => pure a
  | n + 1 => do
    let b ← forUpto n a f
    f n b

/-- `for (i = 0; i < n; i++) if (!f(i)) return false; return true`. -/
def forWhile (n : Nat) (f : Nat → EStateM ε σ Bool) : EStateM ε σ Bool :=
  match n with
  | 0 => pure true
  | n + 1 => do
    if ← forWhile n f then f n else pure false

/-- The invariant rule: `I i` holds when `i` rounds are done. -/
theorem Returns.forUpto {n : Nat} {a : α} {f : Nat → α → EStateM ε σ α} {s : σ}
    (I : Nat → α → σ → Prop) (h0 : I 0 a s)
    (hstep : ∀ i b t, i < n → I i b t → Returns (f i b) t (I (i + 1))) :
    Returns (forUpto n a f) s (I n) := by
  induction n with
  | zero => exact returns_pure h0
  | succ n ih =>
    apply Returns.bind (ih fun i b t hi => hstep i b t (by omega))
    intro b t hb
    exact hstep n b t (by omega) hb

theorem Guards.forUpto {n : Nat} {a : α} {f : Nat → α → EStateM ε σ α} {s : σ} {e : ε}
    (I : Nat → α → σ → Prop) (h0 : I 0 a s)
    (hstep : ∀ i b t, i < n → I i b t → Guards (f i b) t e (I (i + 1))) :
    Guards (forUpto n a f) s e (I n) := by
  induction n with
  | zero => exact guards_pure h0
  | succ n ih =>
    apply Guards.bind (ih fun i b t hi => hstep i b t (by omega))
    intro b t hb
    exact hstep n b t (by omega) hb

theorem Ends.forUpto {n : Nat} {a : α} {f : Nat → α → EStateM ε σ α} {s : σ} {F : ε → Prop}
    (I : Nat → α → σ → Prop) (h0 : I 0 a s)
    (hstep : ∀ i b t, i < n → I i b t → Ends (f i b) t F (I (i + 1))) :
    Ends (forUpto n a f) s F (I n) := by
  induction n with
  | zero => exact ends_pure h0
  | succ n ih =>
    apply Ends.bind (ih fun i b t hi => hstep i b t (by omega))
    intro b t hb
    exact hstep n b t (by omega) hb

theorem Ensures.forUpto {n : Nat} {a : α} {f : Nat → α → EStateM ε σ α} {s : σ}
    (I : Nat → α → σ → Prop) (h0 : I 0 a s)
    (hstep : ∀ i b t, i < n → I i b t → Ensures (f i b) t (I (i + 1))) :
    Ensures (forUpto n a f) s (I n) := by
  induction n with
  | zero => exact ensures_pure h0
  | succ n ih =>
    refine Ensures.bind (ih fun i b t hi => hstep i b t (by omega)) ?_
    intro b t hb
    exact hstep n b t (by omega) hb

/-- A round that stops, stops the loop. -/
theorem Faults.forUpto {n k : Nat} {a : α} {f : Nat → α → EStateM ε σ α} {s : σ} {e : ε}
    (I : α → σ → Prop) (h0 : I a s) (hk : k < n)
    (hstep : ∀ i b t, i < k → I b t → Returns (f i b) t I) (hstop : ∀ b t, I b t → Faults (f k b) t e) :
    Faults (forUpto n a f) s e := by
  induction n with
  | zero => omega
  | succ n ih =>
    rcases Nat.lt_or_ge k n with hlt | hge
    · exact (ih hlt).bind
    · have hkn : k = n := by omega
      subst hkn
      exact Returns.bind_faults (Returns.forUpto (fun _ => I) h0 fun i b t hi => hstep i b t hi) hstop

/-- The invariant rule for a loop that stops at the first `false`. -/
theorem Ensures.forWhile {n : Nat} {f : Nat → EStateM ε σ Bool} {s : σ}
    (I : Nat → σ → Prop) (h0 : I 0 s)
    (hstep : ∀ i t, i < n → I i t → Ensures (f i) t fun r u => r = true → I (i + 1) u) :
    Ensures (forWhile n f) s fun r u => r = true → I n u := by
  induction n with
  | zero => exact ensures_pure fun _ => h0
  | succ n ih =>
    have hn := ih fun i t hi => hstep i t (by omega)
    refine Ensures.bind hn ?_
    intro r t hr
    cases r with
    | false => exact ensures_pure fun h => absurd h (by decide)
    | true => exact hstep n t (by omega) (hr rfl)

theorem forUpto_congr {n : Nat} {a : α} {f g : Nat → α → EStateM ε σ α}
    (h : ∀ i b, i < n → f i b = g i b) : forUpto n a f = forUpto n a g := by
  induction n with
  | zero => rfl
  | succ n ih =>
    rw [forUpto, forUpto, ih fun i b hi => h i b (by omega)]
    exact congrArg _ (funext fun b => h n b (by omega))

/-- A loop that gives `false` got it from one of its rounds, the ones before it gave `true`. -/
theorem forWhile_stops {n : Nat} {f : Nat → EStateM ε σ Bool} {s t : σ} (h : forWhile n f s = .ok false t) :
    ∃ i, i < n ∧ ∃ u, forWhile i f s = .ok true u ∧ f i u = .ok false t := by
  induction n with
  | zero => cases h
  | succ n ih =>
    obtain ⟨r, u, hrun, hrest⟩ := bind_eq_ok.mp h
    cases r with
    | false =>
      cases hrest
      obtain ⟨i, hi, hstop⟩ := ih hrun
      exact ⟨i, by omega, hstop⟩
    | true => exact ⟨n, by omega, u, hrun, hrest⟩

theorem Ends.forWhile {n : Nat} {f : Nat → EStateM ε σ Bool} {s : σ} {F : ε → Prop}
    (I : σ → Prop) (h0 : I s) (hstep : ∀ i t, i < n → I t → Ends (f i) t F fun _ => I) :
    Ends (forWhile n f) s F fun _ => I := by
  induction n with
  | zero => exact ends_pure h0
  | succ n ih =>
    apply Ends.bind (ih fun i t hi => hstep i t (by omega))
    intro r t ht
    exact ends_ite (fun _ => hstep n t (by omega) ht) fun _ => ends_pure ht

theorem Returns.forWhile {n : Nat} {f : Nat → EStateM ε σ Bool} {s : σ}
    (I : Nat → σ → Prop) (h0 : I 0 s)
    (hstep : ∀ i t, i < n → I i t → Returns (f i) t fun r u => r = true ∧ I (i + 1) u) :
    Returns (forWhile n f) s fun r u => r = true ∧ I n u := by
  induction n with
  | zero => exact returns_pure ⟨rfl, h0⟩
  | succ n ih =>
    apply Returns.bind (ih fun i t hi => hstep i t (by omega))
    rintro r t ⟨rfl, ht⟩
    exact hstep n t (by omega) ht

/-! ## Loops over a list -/

theorem Ends.forM {l : List α} {f : α → EStateM ε σ PUnit} {s : σ} {F : ε → Prop} (I : σ → Prop) (h0 : I s)
    (hstep : ∀ a ∈ l, ∀ t, I t → Ends (f a) t F fun _ => I) : Ends (l.forM f) s F fun _ => I := by
  induction l generalizing s with
  | nil => exact ends_pure h0
  | cons a m ih =>
    apply Ends.bind (hstep a List.mem_cons_self s h0)
    intro _ t ht
    exact ih ht fun b hb => hstep b (List.mem_cons_of_mem a hb)

/-! ## What a program leaves alone -/

/-- The program leaves this part of the state as it is. -/
def Keeps (part : σ → τ) (p : EStateM ε σ α) : Prop := ∀ s, Ensures p s fun _ t => part t = part s

section

variable {part : σ → τ}

theorem Keeps.bind {p : EStateM ε σ α} {f : α → EStateM ε σ β} (hp : Keeps part p)
    (hf : ∀ a, Keeps part (f a)) : Keeps part (p >>= f) :=
  fun s => Ensures.bind (hp s) fun a t ht => (hf a t).mono fun _ _ hu => hu.trans ht

theorem Keeps.get_bind {f : σ → EStateM ε σ α} (hf : ∀ s, Keeps part (f s)) : Keeps part (get >>= f) :=
  fun s => Ensures.get_bind (hf s s)

theorem keeps_pure (a : α) : Keeps part (pure a : EStateM ε σ α) := fun _ => ensures_pure rfl

theorem keeps_throw (e : ε) : Keeps part (throw e : EStateM ε σ α) := fun _ => ensures_throw

theorem keeps_modify {g : σ → σ} (h : ∀ s, part (g s) = part s) : Keeps part (modify g : EStateM ε σ PUnit) :=
  fun s => ensures_modify (h s)

theorem keeps_ite {c : Prop} [Decidable c] {p q : EStateM ε σ α} (hp : Keeps part p) (hq : Keeps part q) :
    Keeps part (if c then p else q) := fun s => ensures_ite (fun _ => hp s) fun _ => hq s

theorem keeps_of_same {p : EStateM ε σ α} (h : ∀ s, Ensures p s fun _ t => t = s) : Keeps part p :=
  fun s => (h s).mono fun _ _ ht => by rw [ht]

theorem keeps_focus {υ : Type} {sub : σ → υ} {put : υ → σ → σ} {p : EStateM ε υ α}
    (h : ∀ t s, part (put t s) = part s) : Keeps part (focus sub put p) := by
  intro s a t hrun
  unfold focus at hrun
  split at hrun
  · cases hrun
    exact h _ _
  · cases hrun

/-- A part of the part that the program runs on. -/
theorem Keeps.focus {υ ν : Type} {sub : σ → υ} {put : υ → σ → σ} {inner : υ → ν} {p : EStateM ε υ α}
    (hp : Keeps inner p) (h : ∀ t s, sub (put t s) = t) :
    Keeps (fun s => inner (sub s)) (JtagRemote.focus sub put p) := by
  intro s a s' hrun
  unfold JtagRemote.focus at hrun
  split at hrun
  · rename_i t ht
    cases hrun
    exact (congrArg inner (h t s)).trans (hp _ _ _ ht)
  · cases hrun

theorem keeps_forUpto {n : Nat} {a : α} {f : Nat → α → EStateM ε σ α} (hf : ∀ i a, Keeps part (f i a)) :
    Keeps part (forUpto n a f) := by
  induction n with
  | zero => exact keeps_pure a
  | succ n ih => exact ih.bind fun b => hf n b

theorem keeps_forM {l : List α} {f : α → EStateM ε σ PUnit} (hf : ∀ a, Keeps part (f a)) :
    Keeps part (l.forM f) := by
  induction l with
  | nil => exact keeps_pure _
  | cons a l ih => exact (hf a).bind fun _ => ih

end

/-! ## Runs of steps -/

/-- The states that a row of steps leads to. -/
inductive Reaches {ι : Type} (step : ι → EStateM ε σ PUnit) : σ → σ → Prop
  | refl (s : σ) : Reaches step s s
  | tick {s t u : σ} {i : ι} : Reaches step s t → step i t = .ok ⟨⟩ u → Reaches step s u

/-- What each step keeps holds all along. -/
theorem Reaches.invariant {ι : Type} {step : ι → EStateM ε σ PUnit} {s t : σ} {P : σ → Prop}
    (h : Reaches step s t) (h0 : P s) (hstep : ∀ i t, P t → Ensures (step i) t fun _ => P) : P t := by
  induction h with
  | refl => exact h0
  | tick _ hrun ih => exact hstep _ _ ih _ _ hrun

/-- A row of steps that returns leads somewhere. -/
theorem Reaches.of_forM {ι : Type} {step : ι → EStateM ε σ PUnit} {is : List ι} {s t u : σ}
    (h : Reaches step s t) (hrun : is.forM step t = .ok ⟨⟩ u) : Reaches step s u := by
  induction is generalizing t with
  | nil =>
    cases hrun
    exact h
  | cons i is ih =>
    obtain ⟨_, v, hstep, hrest⟩ := bind_eq_ok.mp hrun
    exact ih (.tick h hstep) hrest

/-! ## Runs that are computed -/

/-- Where a run ended. -/
def finalState (r : EStateM.Result ε σ α) : σ :=
  match r with
  | .ok _ t => t
  | .error _ t => t

def returned (r : EStateM.Result ε σ α) : Bool :=
  match r with
  | .ok _ _ => true
  | .error _ _ => false

theorem of_returned {r : EStateM.Result ε σ PUnit} (h : returned r = true) : r = .ok ⟨⟩ (finalState r) := by
  cases r with
  | ok _ t => rfl
  | error e t => cases h

/-- What a run returned. -/
def answer (r : EStateM.Result ε σ α) : Option α :=
  match r with
  | .ok a _ => some a
  | .error _ _ => none

theorem of_answer {r : EStateM.Result ε σ α} {a : α} (h : answer r = some a) : r = .ok a (finalState r) := by
  cases r with
  | ok b t =>
    cases h
    rfl
  | error e t => cases h

/-- The fault that stopped a run. -/
def stopped (r : EStateM.Result ε σ α) : Option ε :=
  match r with
  | .ok _ _ => none
  | .error e _ => some e

theorem of_stopped {r : EStateM.Result ε σ α} {e : ε} (h : stopped r = some e) : r = .error e (finalState r) := by
  cases r with
  | ok a t => cases h
  | error e' t =>
    cases h
    rfl

/-! ## Wherever a program ends -/

/-- The program ends in a state that is so related to the first, whether it returns or stops. -/
def Within (R : σ → σ → Prop) (p : EStateM ε σ α) : Prop := ∀ s, R s (finalState (p s))

section

variable {R : σ → σ → Prop}

theorem Within.ensures {p : EStateM ε σ α} (h : Within R p) (s : σ) : Ensures p s fun _ t => R s t := by
  intro a t ht
  have := h s
  rwa [ht] at this

theorem within_modify {g : σ → σ} (h : ∀ s, R s (g s)) : Within R (modify g : EStateM ε σ PUnit) := h

theorem Within.get_bind {f : σ → EStateM ε σ α} (h : ∀ s, Within R (f s)) : Within R (get >>= f) := fun s => h s s

theorem within_ite {c : Prop} [Decidable c] {p q : EStateM ε σ α} (hp : Within R p) (hq : Within R q) :
    Within R (if c then p else q) := by
  split
  · exact hp
  · exact hq

theorem within_focus {part : σ → τ} {put : τ → σ → σ} {S : τ → τ → Prop} {p : EStateM ε τ α} (h : Within S p)
    (hput : ∀ s t, S (part s) t → R s (put t s)) : Within R (focus part put p) := by
  intro s
  have hs := h (part s)
  unfold focus
  cases hrun : p (part s) with
  | ok a t =>
    rw [hrun] at hs
    exact hput s t hs
  | error e t =>
    rw [hrun] at hs
    exact hput s t hs

variable [IsPreorder σ R]

theorem within_pure (a : α) : Within R (pure a : EStateM ε σ α) := fun s => refl_of R s

theorem within_throw (e : ε) : Within R (throw e : EStateM ε σ α) := fun s => refl_of R s

theorem Within.bind {x : EStateM ε σ α} {f : α → EStateM ε σ β} (hx : Within R x) (hf : ∀ a, Within R (f a)) :
    Within R (x >>= f) := by
  intro s
  have hs := hx s
  rw [bind_apply]
  cases hrun : x s with
  | ok a t =>
    rw [hrun] at hs
    exact trans_of R hs (hf a t)
  | error e t =>
    rw [hrun] at hs
    exact hs

theorem within_forUpto {n : Nat} {a : α} {f : Nat → α → EStateM ε σ α} (hf : ∀ i a, Within R (f i a)) :
    Within R (forUpto n a f) := by
  induction n with
  | zero => exact within_pure a
  | succ n ih => exact ih.bind fun b => hf n b

theorem within_forWhile {n : Nat} {f : Nat → EStateM ε σ Bool} (hf : ∀ i, Within R (f i)) :
    Within R (forWhile n f) := by
  induction n with
  | zero => exact within_pure true
  | succ n ih => exact ih.bind fun r => within_ite (hf n) (within_pure false)

end

end JtagRemote
