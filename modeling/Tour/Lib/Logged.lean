/-!
# Computations with a log

A computation that may fail, and that keeps a log of what it did also when it fails. The log is what
a safety statement is about (every access in it is allowed); the result is that of the computation
without a log, since `result` takes sequencing to sequencing (`result_bind`). `Logged.All P` says that
every item of the log satisfies `P`, and `all_bind` is its rule for sequencing.
-/

namespace Tour.Lib

universe u v w

/-- What was done, and the result when there is one. -/
structure Logged (ε : Type u) (α : Type v) where
  log : List ε
  result : Option α

namespace Logged

variable {ε : Type u} {α β : Type v}

instance : Monad (Logged ε) where
  pure a := ⟨[], some a⟩
  bind x f :=
    match x.result with
    | none => ⟨x.log, none⟩
    | some a => ⟨x.log ++ (f a).log, (f a).result⟩

/-- A computation that leaves no trace. -/
def lift (x : Option α) : Logged ε α := ⟨[], x⟩

/-- Every item of the log satisfies `P`. -/
def All (P : ε → Prop) (x : Logged ε α) : Prop := ∀ e ∈ x.log, P e

@[simp] theorem result_pure (a : α) : (pure a : Logged ε α).result = some a := rfl

@[simp] theorem log_pure (a : α) : (pure a : Logged ε α).log = [] := rfl

@[simp] theorem result_lift (x : Option α) : (lift x : Logged ε α).result = x := rfl

@[simp] theorem log_lift (x : Option α) : (lift x : Logged ε α).log = [] := rfl

variable {x : Logged ε α} {f : α → Logged ε β}

theorem bind_of_some {a : α} (h : x.result = some a) :
    x >>= f = ⟨x.log ++ (f a).log, (f a).result⟩ := by
  obtain ⟨log, result⟩ := x
  cases h
  rfl

theorem bind_of_none (h : x.result = none) : x >>= f = ⟨x.log, none⟩ := by
  obtain ⟨log, result⟩ := x
  cases h
  rfl

@[simp] theorem lift_some_bind (a : α) : lift (some a) >>= f = f a := rfl

@[simp] theorem result_bind : (x >>= f).result = x.result.bind fun a => (f a).result := by
  cases h : x.result with
  | none => rw [bind_of_none h]; rfl
  | some a => rw [bind_of_some h]; rfl

/-! ## What holds of a log -/

variable {P : ε → Prop}

@[simp] theorem all_pure (a : α) : (pure a : Logged ε α).All P := fun e he => by cases he

@[simp] theorem all_lift (x : Option α) : (lift x : Logged ε α).All P := fun e he => by cases he

/-- A log satisfies `P` when that of the first computation does, and that of the second for the
result that the first one has. -/
theorem all_bind : (x >>= f).All P ↔ x.All P ∧ ∀ a, x.result = some a → (f a).All P := by
  unfold All
  cases h : x.result with
  | none =>
    rw [bind_of_none h]
    exact ⟨fun hx => ⟨hx, fun a ha => by cases ha⟩, fun hx => hx.1⟩
  | some a =>
    rw [bind_of_some h, List.forall_mem_append]
    refine and_congr_right fun _ => ⟨fun hf b hb => ?_, fun hf => hf a rfl⟩
    cases hb
    exact hf

end Logged

end Tour.Lib
