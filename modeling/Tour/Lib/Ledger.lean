import Mathlib.Data.List.Nodup
import Tour.Lib.Machine

/-!
# Ledgers of resources

What was taken, and what was given back, in the order of the calls. Giving back what was not taken, or
giving it back again, is refused (`free` is `none`), so that a resource is given back at most once by
construction; the ledger is settled when each has been given back (`Settled`), which is then exactly
once (`Settled.count`). A list of calls that take, use and give back resources is replayed as a run of
a machine, which refuses the use of a resource that is not held (`book`).
-/

namespace Tour.Lib

/-- The resources that were taken and those that were given back. -/
structure Ledger (β : Type) where
  taken : List β
  freed : List β
  once : freed.Nodup

namespace Ledger

variable {β : Type}

/-- Nothing was taken. -/
def empty : Ledger β := ⟨[], [], List.nodup_nil⟩

def take (l : Ledger β) (b : β) : Ledger β := { l with taken := b :: l.taken }

def free [DecidableEq β] (l : Ledger β) (b : β) : Option (Ledger β) :=
  if h : b ∈ l.taken ∧ b ∉ l.freed then
    some ⟨l.taken, b :: l.freed, List.nodup_cons.2 ⟨h.2, l.once⟩⟩
  else none

/-- All that was taken has been given back, but for `held`. -/
structure Settled (l : Ledger β) (held : List β) : Prop where
  mem : ∀ b, b ∈ l.taken ↔ b ∈ held ∨ b ∈ l.freed
  apart : ∀ b ∈ held, b ∉ l.freed
  nodup : held.Nodup

theorem settled_empty : (empty : Ledger β).Settled [] :=
  ⟨fun b => by simp [empty], List.forall_mem_nil _, List.nodup_nil⟩

variable {l : Ledger β} {b : β} {held : List β}

/-- What was not taken before is held from then on. -/
theorem Settled.take (h : l.Settled held) (hb : b ∉ l.taken) : (l.take b).Settled (b :: held) := by
  rw [h.mem, not_or] at hb
  refine ⟨fun c => ?_, List.forall_mem_cons.2 ⟨hb.2, h.apart⟩, List.nodup_cons.2 ⟨hb.1, h.nodup⟩⟩
  simp only [Ledger.take, List.mem_cons, h.mem c, or_assoc]

/-- The order of what is held does not matter. -/
theorem Settled.perm {held' : List β} (h : l.Settled held) (hperm : held.Perm held') :
    l.Settled held' :=
  ⟨fun b => by rw [h.mem b, hperm.mem_iff], fun b hb => h.apart b (hperm.mem_iff.2 hb),
    hperm.nodup_iff.1 h.nodup⟩

variable [DecidableEq β]

/-- What is held can be given back. -/
theorem Settled.free (h : l.Settled (b :: held)) :
    ∃ l', l.free b = some l' ∧ l'.Settled held ∧ l'.taken = l.taken := by
  obtain ⟨hout, hnodup⟩ := List.nodup_cons.1 h.nodup
  have htaken : b ∈ l.taken := (h.mem b).2 (Or.inl List.mem_cons_self)
  have hb := h.apart b List.mem_cons_self
  refine ⟨_, dif_pos ⟨htaken, hb⟩, ⟨fun c => ?_, fun c hc hfreed => ?_, hnodup⟩, rfl⟩
  · rw [h.mem c, List.mem_cons, List.mem_cons, or_assoc, or_left_comm]
  · rcases List.mem_cons.1 hfreed with rfl | hfreed
    · exact hout hc
    · exact h.apart c (List.mem_cons_of_mem _ hc) hfreed

/-- What was taken has been given back exactly once. -/
theorem Settled.count (h : l.Settled []) (hb : b ∈ l.taken) : l.freed.count b = 1 := by
  rcases (h.mem b).1 hb with hheld | hfreed
  · cases hheld
  · exact List.count_eq_one_of_mem l.once hfreed

/-! ## Replaying calls -/

/-- What a call does with a resource. -/
inductive Op (β : Type)
  | take (b : β)
  | use (b : β)
  | free (b : β)

def post (l : Ledger β) : Op β → Option (Ledger β)
  | .take b => some (l.take b)
  | .use b => if b ∈ l.taken ∧ b ∉ l.freed then some l else none
  | .free b => l.free b

/-- The ledger of the calls from the beginning. -/
def book (β : Type) [DecidableEq β] : Machine (Ledger β) (Op β) := ⟨empty, post⟩

theorem book_run_cons {l₁ : Ledger β} {op : Op β} (h : l.post op = some l₁) (ops : List (Op β)) :
    (book β).run l (op :: ops) = (book β).run l₁ ops := by
  have hstep : (book β).step l op = some l₁ := h
  exact (book β).run_cons_some hstep ops

theorem book_append {l l₁ l₂ : Ledger β} {ops ops' : List (Op β)}
    (h₁ : (book β).run l ops = some l₁) (h₂ : (book β).run l₁ ops' = some l₂) :
    (book β).run l (ops ++ ops') = some l₂ := by
  rw [Machine.run_append, h₁]
  exact h₂

theorem Settled.use (h : l.Settled held) (hb : b ∈ held) : l.post (.use b) = some l :=
  if_pos ⟨(h.mem b).2 (Or.inl hb), h.apart b hb⟩

/-- What is held may be used. -/
theorem Settled.uses (h : l.Settled held) {bs : List β} (hbs : ∀ b ∈ bs, b ∈ held) :
    (book β).run l (bs.map .use) = some l := by
  induction bs with
  | nil => rfl
  | cons b bs ih =>
    rw [List.forall_mem_cons] at hbs
    rw [List.map_cons, book_run_cons (h.use hbs.1)]
    exact ih hbs.2

/-- What is held may be given back. -/
theorem Settled.frees {bs : List β} (h : l.Settled (bs ++ held)) :
    ∃ l', (book β).run l (bs.map .free) = some l' ∧ l'.Settled held := by
  induction bs generalizing l with
  | nil => exact ⟨l, rfl, h⟩
  | cons b bs ih =>
    obtain ⟨l₁, hfree, h₁, -⟩ := Settled.free h
    have hfree : l.post (.free b) = some l₁ := hfree
    obtain ⟨l', hrun, h'⟩ := ih h₁
    exact ⟨l', by rw [List.map_cons, book_run_cons hfree]; exact hrun, h'⟩

/-- What the ledger has as taken was taken by the calls. -/
theorem mem_taken_of_run {l l' : Ledger β} {ops : List (Op β)} (h : (book β).run l ops = some l')
    (hb : b ∈ l'.taken) : b ∈ l.taken ∨ .take b ∈ ops := by
  induction ops generalizing l with
  | nil =>
    cases h
    exact Or.inl hb
  | cons op ops ih =>
    obtain ⟨l₁, hop, hrest⟩ := Option.bind_eq_some_iff.1 h
    rcases ih hrest with hold | hlater
    · have hpost : l.post op = some l₁ := hop
      cases op with
      | take c =>
        cases hpost
        rcases List.mem_cons.1 hold with rfl | hold
        · exact Or.inr List.mem_cons_self
        · exact Or.inl hold
      | use c =>
        simp only [post] at hpost
        split at hpost
        · cases hpost
          exact Or.inl hold
        · cases hpost
      | free c =>
        simp only [post, Ledger.free] at hpost
        split at hpost
        · cases hpost
          exact Or.inl hold
        · cases hpost
    · exact Or.inr (List.mem_cons_of_mem _ hlater)

/-! ## What calls leave -/

/-- The calls can be replayed from the beginning, and leave what is in `held`. -/
def Leaves (ops : List (Op β)) (held : List β) : Prop :=
  ∃ l : Ledger β, (book β).run .empty ops = some l ∧ l.Settled held

theorem leaves_nil : Leaves ([] : List (Op β)) [] := ⟨.empty, rfl, settled_empty⟩

variable {ops : List (Op β)}

theorem Leaves.perm {held' : List β} (h : Leaves ops held) (hperm : held.Perm held') :
    Leaves ops held' := by
  obtain ⟨l, hrun, hsettled⟩ := h
  exact ⟨l, hrun, hsettled.perm hperm⟩

/-- A call that takes what no call has taken. -/
theorem Leaves.take (h : Leaves ops held) (hnew : .take b ∉ ops) :
    Leaves (ops ++ [.take b]) (b :: held) := by
  obtain ⟨l, hrun, hsettled⟩ := h
  have hb : b ∉ l.taken := by
    intro hb
    rcases mem_taken_of_run hrun hb with hempty | hmem
    · cases hempty
    · exact hnew hmem
  exact ⟨l.take b, book_append hrun rfl, hsettled.take hb⟩

theorem Leaves.use (h : Leaves ops held) (hb : b ∈ held) : Leaves (ops ++ [.use b]) held := by
  obtain ⟨l, hrun, hsettled⟩ := h
  exact ⟨l, book_append hrun (book_run_cons (hsettled.use hb) []), hsettled⟩

/-- A call that gives back what is held. -/
theorem Leaves.free (h : Leaves ops (b :: held)) : Leaves (ops ++ [.free b]) held := by
  obtain ⟨l, hrun, hsettled⟩ := h
  obtain ⟨l', hfree, hsettled', -⟩ := hsettled.free
  have hpost : l.post (.free b) = some l' := hfree
  exact ⟨l', book_append hrun (book_run_cons hpost []), hsettled'⟩

end Ledger

end Tour.Lib
