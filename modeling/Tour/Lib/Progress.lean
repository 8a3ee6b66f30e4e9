import Tour.Lib.Machine

/-!
# What must happen

The environment of a machine answers each step with an event that meets the guard. `Goes` says that
it has an answer and that the machine has a next state for each; `Inevitable` says that a state of a
set is reached within a number of steps whatever the answers are, and that the machine is never
stuck before. It follows from a rank that each step lowers (`inevitable_of_rank`).
-/

namespace Tour.Lib.Machine

universe u v

variable {σ : Type u} {ε : Type v} (M : Machine σ ε) (G : σ → ε → Prop)

/-- The environment has an answer in `s`, and each leads to a state with `Q`. -/
structure Goes (Q : σ → Prop) (s : σ) : Prop where
  offered : ∃ e, G s e
  leads : ∀ e, G s e → ∃ t, M.step s e = some t ∧ Q t

/-- `P` holds after at most `n` steps, whatever the environment answers. -/
def Inevitable (P : σ → Prop) : Nat → σ → Prop
  | 0, s => P s
  | n + 1, s => P s ∨ M.Goes G (Inevitable P n) s

variable {M G}

theorem Goes.imp {Q R : σ → Prop} {s : σ} (h : M.Goes G Q s) (hQR : ∀ t, Q t → R t) :
    M.Goes G R s := by
  refine ⟨h.offered, fun e he => ?_⟩
  obtain ⟨t, ht, hQ⟩ := h.leads e he
  exact ⟨t, ht, hQR t hQ⟩

theorem Inevitable.now {P : σ → Prop} {s : σ} (h : P s) (n : Nat) : M.Inevitable G P n s := by
  cases n with
  | zero => exact h
  | succ n => exact Or.inl h

theorem Inevitable.mono {P : σ → Prop} {m n : Nat} (hmn : m ≤ n) {s : σ}
    (h : M.Inevitable G P m s) : M.Inevitable G P n s := by
  induction m generalizing n s with
  | zero => exact .now h n
  | succ m ih =>
    rcases h with h | h
    · exact .now h n
    · cases n with
      | zero => exact absurd hmn (Nat.not_succ_le_zero m)
      | succ n => exact Or.inr (h.imp fun t ht => ih (Nat.le_of_succ_le_succ hmn) ht)

/-- Steps that lower a rank come to an end; `R s k` is that the rank of `s` is `k`. -/
theorem inevitable_of_rank {P : σ → Prop} {R : σ → Nat → Prop}
    (hstep : ∀ s k, R s k → P s ∨ M.Goes G (fun t => ∃ j < k, R t j) s) {k : Nat} {s : σ}
    (h : R s k) : M.Inevitable G P k s := by
  induction k using Nat.strongRecOn generalizing s with
  | ind k ih =>
    rcases hstep s k h with hnow | hgoes
    · exact .now hnow k
    · cases k with
      | zero =>
        -- a rank of 0 cannot be lowered
        obtain ⟨e, he⟩ := hgoes.offered
        obtain ⟨t, -, j, hj, -⟩ := hgoes.leads e he
        exact absurd hj (Nat.not_lt_zero j)
      | succ k =>
        refine Or.inr (hgoes.imp fun t ht => ?_)
        obtain ⟨j, hj, hrank⟩ := ht
        exact (ih j hj hrank).mono (Nat.le_of_lt_succ hj)

end Tour.Lib.Machine
