import Mathlib.Algebra.BigOperators.Group.List.Basic
import Mathlib.Data.Nat.ModEq

/-!
# One's complement sums

Addition with end-around carry on the numbers up to `m`, where `m` is the largest word (`2 ^ 16 - 1`
for 16-bit words). Zero has two representations, `0` and `m`, and a sum is `0` only when every
summand is: `reduce m t` is the representation that a sum of total `t` has. Two totals have the same
representation exactly when they are congruent modulo `m` and zero together (`reduce_inj`), and
everything else follows from that: the order of the summands and of the carries does not matter
(`onesSum_eq`), and neither does when the carries are folded back (`fold_fold`).
-/

namespace Tour.Lib

/-- Addition with end-around carry. -/
def onesAdd (m a b : Nat) : Nat := if a + b ≤ m then a + b else a + b - m

/-- The one's complement sum of a list of words. -/
def onesSum (m : Nat) (ws : List Nat) : Nat := ws.foldl (onesAdd m) 0

/-- The representation of a total: `0` for zero, and otherwise one of `1, ..., m`. -/
def reduce (m t : Nat) : Nat := if t = 0 then 0 else (t - 1) % m + 1

variable {m : Nat}

@[simp] theorem reduce_zero : reduce m 0 = 0 := rfl

theorem reduce_eq_zero {t : Nat} : reduce m t = 0 ↔ t = 0 := by
  unfold reduce
  split <;> simp [*]

theorem reduce_le (hm : 0 < m) (t : Nat) : reduce m t ≤ m := by
  unfold reduce
  split
  · exact Nat.zero_le m
  · exact Nat.mod_lt _ hm

theorem reduce_of_le {t : Nat} (h : t ≤ m) : reduce m t = t := by
  unfold reduce
  split
  · rename_i ht
    exact ht.symm
  · rw [Nat.mod_eq_of_lt (by omega)]
    omega

theorem reduce_modEq (t : Nat) : reduce m t ≡ t [MOD m] := by
  unfold reduce
  split
  · rename_i ht
    rw [ht]
  · rename_i ht
    have hsucc : t = (t - 1) + 1 := by omega
    have hmod : (t - 1) % m + 1 ≡ (t - 1) + 1 [MOD m] := (Nat.mod_modEq _ _).add_right 1
    rwa [← hsucc] at hmod

/-- A total has one representation. -/
theorem eq_reduce {r t : Nat} (hr : r ≤ m) (hmod : r ≡ t [MOD m]) (hzero : r = 0 ↔ t = 0) :
    r = reduce m t := by
  have hmod' : r ≡ reduce m t [MOD m] := hmod.trans (reduce_modEq t).symm
  rcases Nat.eq_zero_or_pos r with rfl | hpos
  · rw [hzero.1 rfl, reduce_zero]
  have hred : 0 < reduce m t := by
    rw [Nat.pos_iff_ne_zero, ne_eq, reduce_eq_zero, ← hzero]
    omega
  have hle := reduce_le (Nat.lt_of_lt_of_le hpos hr) t
  -- two numbers in `1, ..., m` that agree modulo `m`
  have hpred : r - 1 ≡ reduce m t - 1 [MOD m] := by
    apply Nat.ModEq.add_right_cancel' 1
    rwa [Nat.sub_add_cancel hpos, Nat.sub_add_cancel hred]
  have := hpred.eq_of_lt_of_lt (by omega) (by omega)
  omega

theorem reduce_inj (hm : 0 < m) {s t : Nat} :
    reduce m s = reduce m t ↔ s ≡ t [MOD m] ∧ (s = 0 ↔ t = 0) := by
  constructor
  · intro h
    refine ⟨?_, by rw [← @reduce_eq_zero m s, h, reduce_eq_zero]⟩
    exact (reduce_modEq s).symm.trans (h ▸ reduce_modEq t)
  · rintro ⟨hmod, hzero⟩
    exact eq_reduce (reduce_le hm s) ((reduce_modEq s).trans hmod) (reduce_eq_zero.trans hzero)

/-- A total is all ones exactly when it is a positive multiple of `m`. -/
theorem reduce_eq_self (hm : 0 < m) {t : Nat} : reduce m t = m ↔ 0 < t ∧ m ∣ t := by
  have hself := @reduce_inj m hm t m
  rw [reduce_of_le (Nat.le_refl m)] at hself
  have hdvd : t ≡ m [MOD m] ↔ m ∣ t := by
    rw [← Nat.modEq_zero_iff_dvd]
    exact ⟨fun h => h.trans (by simp [Nat.ModEq]), fun h => h.trans (by simp [Nat.ModEq])⟩
  rw [hself, hdvd]
  constructor
  · rintro ⟨hd, hz⟩
    exact ⟨by omega, hd⟩
  · rintro ⟨hpos, hd⟩
    exact ⟨hd, by omega⟩

/-! ## Sums -/

theorem onesAdd_reduce (hm : 0 < m) (s : Nat) {w : Nat} (hw : w ≤ m) :
    onesAdd m (reduce m s) w = reduce m (s + w) := by
  have hle := reduce_le hm s
  have hmod : reduce m s + w ≡ s + w [MOD m] := (reduce_modEq s).add_right w
  have hs := @reduce_eq_zero m s
  unfold onesAdd
  split
  · rename_i h
    exact eq_reduce h hmod (by omega)
  · rename_i h
    refine eq_reduce (by omega) ?_ (by omega)
    have hsub : reduce m s + w - m + m ≡ s + w [MOD m] := by
      rwa [Nat.sub_add_cancel (by omega)]
    simpa [Nat.ModEq] using hsub

/-- The one's complement sum depends on the total alone. -/
theorem onesSum_eq (hm : 0 < m) {ws : List Nat} (hws : ∀ w ∈ ws, w ≤ m) :
    onesSum m ws = reduce m ws.sum := by
  have hfold : ∀ s, ws.foldl (onesAdd m) (reduce m s) = reduce m (s + ws.sum) := by
    induction ws with
    | nil => intro s; rfl
    | cons w ws ih =>
      intro s
      rw [List.forall_mem_cons] at hws
      rw [List.foldl_cons, onesAdd_reduce hm s hws.1, ih hws.2, List.sum_cons, Nat.add_assoc]
  have := hfold 0
  rwa [reduce_zero, Nat.zero_add] at this

/-! ## Folding carries back -/

/-- One folding step: the part above a word is added to the word. -/
def foldCarry (m t : Nat) : Nat := t / (m + 1) + t % (m + 1)

theorem foldCarry_reduce (hm : 0 < m) (t : Nat) : reduce m (foldCarry m t) = reduce m t := by
  have hdiv := Nat.div_add_mod t (m + 1)
  rw [reduce_inj hm, foldCarry]
  constructor
  · have hsplit : t = m * (t / (m + 1)) + (t / (m + 1) + t % (m + 1)) := by
      rw [Nat.add_mul, Nat.one_mul] at hdiv
      omega
    have hmod : m * (t / (m + 1)) + (t / (m + 1) + t % (m + 1)) ≡
        0 + (t / (m + 1) + t % (m + 1)) [MOD m] :=
      (Nat.modEq_zero_iff_dvd.2 (Nat.dvd_mul_right m _)).add_right _
    rw [Nat.zero_add, ← hsplit] at hmod
    exact hmod.symm
  · constructor
    · intro h
      obtain ⟨hq, hr⟩ := Nat.add_eq_zero_iff.1 h
      rw [← hdiv, hq, hr, Nat.mul_zero]
    · rintro rfl
      simp

/-- Two folding steps are enough for a total of two words; the second may carry once more, and that
carry is out of the word. -/
theorem fold_fold (hm : 0 < m) {t : Nat} (ht : t < (m + 1) * (m + 1)) :
    (foldCarry m t + foldCarry m t / (m + 1)) % (m + 1) = reduce m t := by
  have hhi : t / (m + 1) < m + 1 := Nat.div_lt_of_lt_mul ht
  have hlo : t % (m + 1) < m + 1 := Nat.mod_lt _ (Nat.succ_pos m)
  have hs : foldCarry m t ≤ 2 * m := by unfold foldCarry; omega
  rw [← foldCarry_reduce hm t]
  rcases Nat.lt_or_ge (foldCarry m t) (m + 1) with hlt | hge
  · rw [Nat.div_eq_of_lt hlt, Nat.add_zero, Nat.mod_eq_of_lt hlt, reduce_of_le (by omega)]
  · have hone : foldCarry m t / (m + 1) = 1 := Nat.div_eq_of_lt_le (by omega) (by omega)
    have hsub : foldCarry m t + 1 = (foldCarry m t - m) + (m + 1) := by omega
    rw [hone, hsub, Nat.add_mod_right, Nat.mod_eq_of_lt (by omega)]
    refine eq_reduce (by omega) ?_ (by omega)
    have hadd : foldCarry m t - m + m ≡ foldCarry m t [MOD m] := by
      rw [Nat.sub_add_cancel (by omega)]
    simpa [Nat.ModEq] using hadd

end Tour.Lib
