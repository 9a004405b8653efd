import Mathlib.Algebra.Ring.Nat
import Mathlib.Data.List.Basic
import Mathlib.Tactic.Common

/-!
# Machines that are fed one symbol at a time

Symbols wait until they form a command, which then runs. What a machine does
with a stream is determined by the commands in it, and not by how the stream is
handed over.
-/

namespace JtagRemote

variable {α κ τ : Type}

structure Fed (α τ : Type) where
  waiting : List α
  machine : τ

section

variable (parse : List α → Option κ) (exec : κ → τ → τ)

def feed (s : Fed α τ) (a : α) : Fed α τ :=
  match parse (s.waiting ++ [a]) with
  | some c => ⟨[], exec c s.machine⟩
  | none => ⟨s.waiting ++ [a], s.machine⟩

def feedAll (s : Fed α τ) (l : List α) : Fed α τ := l.foldl (feed parse exec) s

/-- `w` is one whole command, and no shorter start of it is. -/
def IsCommand (w : List α) (c : κ) : Prop :=
  w ≠ [] ∧ parse w = some c ∧ ∀ u v, w = u ++ v → u ≠ [] → v ≠ [] → parse u = none

end

variable {parse : List α → Option κ} {exec : κ → τ → τ}

theorem feedAll_append (s : Fed α τ) (l m : List α) :
    feedAll parse exec s (l ++ m) = feedAll parse exec (feedAll parse exec s l) m :=
  List.foldl_append

@[simp] theorem feedAll_nil (s : Fed α τ) : feedAll parse exec s [] = s := rfl

/-- Symbols that do not complete a command only wait. -/
theorem feedAll_waiting (q w : List α) (m : τ)
    (h : ∀ u v, w = u ++ v → u ≠ [] → parse (q ++ u) = none) :
    feedAll parse exec ⟨q, m⟩ w = ⟨q ++ w, m⟩ := by
  induction w generalizing q with
  | nil => simp
  | cons a w ih =>
    have ha : parse (q ++ [a]) = none := h [a] w rfl (by simp)
    have hstep : feed parse exec ⟨q, m⟩ a = ⟨q ++ [a], m⟩ := by simp only [feed, ha]
    rw [feedAll, List.foldl_cons, hstep]
    have hw : ∀ u v, w = u ++ v → u ≠ [] → parse ((q ++ [a]) ++ u) = none := by
      rintro u v rfl -
      rw [List.append_assoc]
      exact h (a :: u) v rfl (by simp)
    rw [← feedAll, ih _ hw, List.append_assoc]
    rfl

/-- A whole command runs, and leaves nothing behind. -/
theorem feedAll_command {w : List α} {c : κ} (h : IsCommand parse w c) (m : τ) :
    feedAll parse exec ⟨[], m⟩ w = ⟨[], exec c m⟩ := by
  obtain ⟨hne, hc, hpre⟩ := h
  obtain ⟨u, a, rfl⟩ := List.eq_nil_or_concat w |>.resolve_left hne
  have hu : feedAll parse exec ⟨[], m⟩ u = ⟨u, m⟩ := by
    rw [feedAll_waiting]
    · rfl
    · rintro x y rfl hx
      exact hpre x (y ++ [a]) (by simp) hx (by simp)
  rw [List.concat_eq_append, feedAll_append, hu]
  rw [List.concat_eq_append] at hc
  simp only [feedAll, List.foldl_cons, List.foldl_nil, feed, hc]

/-- A list of whole commands runs in order. -/
theorem feedAll_commands {ws : List (List α × κ)} (h : ∀ w ∈ ws, IsCommand parse w.1 w.2) (m : τ) :
    feedAll parse exec ⟨[], m⟩ (ws.flatMap Prod.fst) =
      ⟨[], (ws.map Prod.snd).foldl (fun m c => exec c m) m⟩ := by
  induction ws generalizing m with
  | nil => rfl
  | cons w ws ih =>
    have hw := h w (by simp)
    rw [List.flatMap_cons, feedAll_append, feedAll_command hw,
      ih (fun v hv => h v (by simp [hv])), List.map_cons, List.foldl_cons]

/-- The commands of a stream are determined: none is the start of another. -/
theorem commands_unique {us vs : List (List α)} (hu : ∀ u ∈ us, ∃ c, IsCommand parse u c)
    (hv : ∀ v ∈ vs, ∃ c, IsCommand parse v c) (h : us.flatten = vs.flatten) : us = vs := by
  induction us generalizing vs with
  | nil =>
    cases vs with
    | nil => rfl
    | cons v vs =>
      obtain ⟨c, hne, -⟩ := hv v List.mem_cons_self
      exact absurd (List.append_eq_nil_iff.mp h.symm).1 hne
  | cons u us ih =>
    obtain ⟨c, hune, hc, hupre⟩ := hu u List.mem_cons_self
    cases vs with
    | nil => exact absurd (List.append_eq_nil_iff.mp h).1 hune
    | cons v vs =>
      obtain ⟨d, hvne, hd, hvpre⟩ := hv v List.mem_cons_self
      have hsame : u = v ∧ us.flatten = vs.flatten := by
        rw [List.flatten_cons, List.flatten_cons] at h
        rcases List.append_eq_append_iff.mp h with ⟨w, rfl, hw⟩ | ⟨w, rfl, hw⟩
        · rcases List.eq_nil_or_concat w with rfl | ⟨_, _, rfl⟩
          · exact ⟨(List.append_nil u).symm, hw⟩
          · rw [hvpre u _ rfl hune (by simp)] at hc
            cases hc
        · rcases List.eq_nil_or_concat w with rfl | ⟨_, _, rfl⟩
          · exact ⟨List.append_nil v, hw.symm⟩
          · rw [hupre v _ rfl hvne (by simp)] at hd
            cases hd
      obtain ⟨rfl, hrest⟩ := hsame
      rw [ih (fun w hw => hu w (List.mem_cons_of_mem _ hw)) (fun w hw => hv w (List.mem_cons_of_mem _ hw)) hrest]

end JtagRemote
