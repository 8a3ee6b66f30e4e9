import Mathlib.Data.List.Basic

/-!
# Guarded transition machines

A machine is an initial state and an executable step function: `step s e` is `some t` when the
event `e` is possible in `s` and leads to `t`. An environment assumption is a *guard*, a relation
between a state and the event taken in it; `Steps G s t` is a run whose every step meets `G`.
An invariant is proved once per step (`Steps.invariant`, `Reachable.invariant`), and a fact that
also needs an earlier invariant is proved under it (`Reachable.invariant_under`).
-/

namespace Tour.Lib

universe u v

/-- An initial state and a partial step function. -/
structure Machine (σ : Type u) (ε : Type v) where
  init : σ
  step : σ → ε → Option σ

namespace Machine

variable {σ : Type u} {ε : Type v} (M : Machine σ ε)

/-- Replay a list of events; `none` if one of them is not possible. -/
def run : σ → List ε → Option σ
  | s, [] => some s
  | s, e :: es => (M.step s e).bind fun t => run t es

theorem run_cons (s : σ) (e : ε) (es : List ε) :
    M.run s (e :: es) = (M.step s e).bind fun t => M.run t es := rfl

theorem run_cons_some {s t : σ} {e : ε} (h : M.step s e = some t) (es : List ε) :
    M.run s (e :: es) = M.run t es := by
  rw [run_cons, h]; rfl

theorem run_append (s : σ) (es fs : List ε) :
    M.run s (es ++ fs) = (M.run s es).bind fun t => M.run t fs := by
  induction es generalizing s with
  | nil => rfl
  | cons e es ih =>
    rw [List.cons_append, run_cons, run_cons, Option.bind_assoc]
    exact congrArg _ (funext fun t => ih t)

/-- `Steps G s t`: a finite run from `s` to `t` in which every step meets the guard `G`. -/
inductive Steps (G : σ → ε → Prop) : σ → σ → Prop
  | refl (s : σ) : Steps G s s
  | tail {s t u : σ} {e : ε} : Steps G s t → G t e → M.step t e = some u → Steps G s u

/-- The states of the runs from the initial state. -/
def Reachable (G : σ → ε → Prop) (s : σ) : Prop := M.Steps G M.init s

variable {M} {G : σ → ε → Prop}

theorem Steps.trans {s t u : σ} (h₁ : M.Steps G s t) (h₂ : M.Steps G t u) : M.Steps G s u := by
  induction h₂ with
  | refl => exact h₁
  | tail _ hg hs ih => exact ih.tail hg hs

/-- A run under a stronger guard is a run under a weaker one. -/
theorem Steps.mono {G' : σ → ε → Prop} (hG : ∀ s e, G s e → G' s e) {s t : σ}
    (h : M.Steps G s t) : M.Steps G' s t := by
  induction h with
  | refl => exact .refl _
  | tail _ hg hs ih => exact ih.tail (hG _ _ hg) hs

theorem Steps.invariant {I : σ → Prop}
    (hstep : ∀ s e t, I s → G s e → M.step s e = some t → I t) {s t : σ}
    (h : M.Steps G s t) (hs : I s) : I t := by
  induction h with
  | refl => exact hs
  | tail _ hg hst ih => exact hstep _ _ _ ih hg hst

/-- A list of events that can be replayed is a run. -/
theorem Steps.of_run {P : ε → Prop} {s t : σ} {es : List ε} (hes : ∀ e ∈ es, P e)
    (h : M.run s es = some t) : M.Steps (fun _ => P) s t := by
  induction es generalizing s with
  | nil => cases h; exact .refl _
  | cons e es ih =>
    rw [List.forall_mem_cons] at hes
    rw [run_cons, Option.bind_eq_some_iff] at h
    obtain ⟨u, hu, ht⟩ := h
    exact ((Steps.refl s).tail hes.1 hu).trans (ih hes.2 ht)

/-- Replay a list of events, checking the guard of every step. -/
def guardedRun (M : Machine σ ε) (G : σ → ε → Prop) [∀ s e, Decidable (G s e)] :
    σ → List ε → Option σ
  | s, [] => some s
  | s, e :: es => if G s e then (M.step s e).bind fun t => guardedRun M G t es else none

section Guarded

variable [∀ s e, Decidable (G s e)]

theorem guardedRun_cons {s t : σ} {e : ε} {es : List ε} :
    M.guardedRun G s (e :: es) = some t ↔
      G s e ∧ ∃ u, M.step s e = some u ∧ M.guardedRun G u es = some t := by
  unfold guardedRun
  split
  · rename_i hg
    simp only [Option.bind_eq_some_iff, hg, true_and]
    cases es <;> rfl
  · rename_i hg
    simp [hg]

theorem guardedRun_append {s t u : σ} {es fs : List ε} (h₁ : M.guardedRun G s es = some t)
    (h₂ : M.guardedRun G t fs = some u) : M.guardedRun G s (es ++ fs) = some u := by
  induction es generalizing s with
  | nil => cases h₁; exact h₂
  | cons e es ih =>
    obtain ⟨hg, v, hv, hrest⟩ := guardedRun_cons.1 h₁
    exact guardedRun_cons.2 ⟨hg, v, hv, ih hrest⟩

theorem Steps.of_guardedRun {s t : σ} {es : List ε} (h : M.guardedRun G s es = some t) :
    M.Steps G s t := by
  induction es generalizing s with
  | nil => cases h; exact .refl _
  | cons e es ih =>
    obtain ⟨hg, u, hu, ht⟩ := guardedRun_cons.1 h
    exact ((Steps.refl s).tail hg hu).trans (ih ht)

theorem Reachable.of_guardedRun {s : σ} (es : List ε) (h : M.guardedRun G M.init es = some s) :
    M.Reachable G s := Steps.of_guardedRun h

end Guarded

theorem Reachable.step {s t : σ} {e : ε} (h : M.Reachable G s) (hg : G s e)
    (hs : M.step s e = some t) : M.Reachable G t :=
  Steps.tail h hg hs

theorem Reachable.mono {G' : σ → ε → Prop} (hG : ∀ s e, G s e → G' s e) {s : σ}
    (h : M.Reachable G s) : M.Reachable G' s :=
  Steps.mono hG h

theorem Reachable.of_run {P : ε → Prop} {s : σ} (es : List ε) (hes : ∀ e ∈ es, P e)
    (h : M.run M.init es = some s) : M.Reachable (fun _ => P) s := Steps.of_run hes h

/-- What holds initially and is preserved by every step holds in every reachable state. -/
theorem Reachable.invariant {I : σ → Prop} (hinit : I M.init)
    (hstep : ∀ s e t, I s → G s e → M.step s e = some t → I t) {s : σ}
    (h : M.Reachable G s) : I s :=
  Steps.invariant hstep h hinit

/-- The step of one invariant may use another that is already known of the reachable states. -/
theorem Reachable.invariant_under {J I : σ → Prop} (hJ : ∀ s, M.Reachable G s → J s)
    (hinit : I M.init) (hstep : ∀ s e t, J s → I s → G s e → M.step s e = some t → I t) {s : σ}
    (h : M.Reachable G s) : I s := by
  have key : ∀ t, M.Steps G M.init t → I t := by
    intro t ht
    induction ht with
    | refl => exact hinit
    | tail hr hg hs ih => exact hstep _ _ _ (hJ _ hr) ih hg hs
  exact key s h

/-- When each step of a reachable state is matched by a run of another machine, the state is matched
by a state that the other reaches. -/
theorem Reachable.simulated {τ : Type u} {φ : Type v} {N : Machine τ φ} {G' : τ → φ → Prop}
    {R : σ → τ → Prop} (hinit : R M.init N.init)
    (hstep : ∀ s e s' t, M.Reachable G s → R s t → G s e → M.step s e = some s' →
      ∃ t', N.Steps G' t t' ∧ R s' t') {s : σ} (h : M.Reachable G s) :
    ∃ t, N.Reachable G' t ∧ R s t := by
  refine h.invariant_under (J := M.Reachable G) (I := fun s => ∃ t, N.Reachable G' t ∧ R s t)
    (fun _ hs => hs) ⟨N.init, .refl _, hinit⟩ ?_
  rintro s e s' hreach ⟨t, ht, hrel⟩ hg hs
  obtain ⟨t', hrun, hrel'⟩ := hstep s e s' t hreach hrel hg hs
  exact ⟨t', ht.trans hrun, hrel'⟩

end Machine

end Tour.Lib
