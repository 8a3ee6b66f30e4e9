import Tour.Cache.Pointers

/-!
# Sequences of cache calls

A caller of `cache.c` allocates entries, adds each fresh one once and removes by any live pointer.
`CacheModel` is what the calls mean on lists; `RefinesFrom` says that the pointer structure follows
it, with well formed links and no access to a freed node, after every call of a sequence. It does
exactly as long as no removal hits the head of a list of two or more nodes or compares more bytes than
an address has.
-/

namespace Tour

open Lib

/-- The list, and the live entries that are not linked into it. -/
structure CacheModel where
  list : List Node
  loose : List Node

def CacheModel.empty : CacheModel := ⟨[], []⟩

/-- One call: `calloc` an entry and fill it in, add it, or remove by a pointer. -/
inductive CacheCall
  | calloc (p : Addr) (e : Cache)
  | addToCache (p : Addr)
  | removeFromCache (p : Addr)

/-- What a call does to the lists and returns; `none` when the caller may not make it: `calloc`
yields an address that is not live, only a fresh entry is added, and the pointer of a removal is
live. -/
def CacheModel.call (s : CacheModel) : CacheCall → Option (CacheModel × Bool)
  | .calloc p e =>
    if p ∈ addrs (s.list ++ s.loose) then none else some (⟨s.list, (p, e) :: s.loose⟩, true)
  | .addToCache p =>
    (entryAt s.loose p).map fun e =>
      (⟨addToCache s.list (p, e), s.loose.filter fun x => x.1 ≠ p⟩, true)
  | .removeFromCache p =>
    (entryAt (s.list ++ s.loose) p).map fun e =>
      (⟨removeFromCache s.list (p, e), s.loose⟩, removeFromCacheRet s.list (p, e))

/-- The same call on the heap. -/
def Mem.call (m : Mem) : CacheCall → Option (Mem × Bool)
  | .calloc p e => (m.heap.alloc p e).map fun h => (⟨h, m.list⟩, true)
  | .addToCache p => m.addToCache (some p)
  | .removeFromCache p => m.removeFromCache (some p)

/-- After every call the heap is well linked as the list of the model, and the call returned what
the model returns without touching a freed node. -/
def RefinesFrom (m : Mem) (s : CacheModel) : List CacheCall → Prop
  | [] => True
  | c :: cs => ∀ s' r, s.call c = some (s', r) →
    ∃ m', m.call c = some (m', r) ∧ WellLinked m' s'.list ∧ RefinesFrom m' s' cs

/-- The call does not remove the head of a list of two or more nodes. -/
def CacheModel.keepsHead (s : CacheModel) : CacheCall → Bool
  | .removeFromCache p =>
    match entryAt (s.list ++ s.loose) p, s.list with
    | some e, head :: _ :: _ => !isSameCache head (p, e)
    | _, _ => true
  | _ => true

/-- The comparisons of the call stay inside the addresses of the entries. -/
def CacheModel.comparesInside (s : CacheModel) : CacheCall → Bool
  | .removeFromCache p =>
    match entryAt (s.list ++ s.loose) p with
    | some e => ComparesInside s.list (p, e)
    | none => true
  | _ => true

/-- Each call of the sequence keeps the head and stays inside. -/
def SafeFrom (s : CacheModel) : List CacheCall → Prop
  | [] => True
  | c :: cs => (s.comparesInside c = true ∧ s.keepsHead c = true) ∧
    ∀ s' r, s.call c = some (s', r) → SafeFrom s' cs

/-! ## One call -/

section Call

variable {m : Mem} {s s' : CacheModel} {c : CacheCall} {r : Bool}

theorem entryAt_mem_of_call {p : Addr} (hc : s.call (.removeFromCache p) = some (s', r)) :
    ∃ e, (p, e) ∈ s.list ++ s.loose ∧ entryAt (s.list ++ s.loose) p = some e ∧
      s' = ⟨removeFromCache s.list (p, e), s.loose⟩ ∧ r = removeFromCacheRet s.list (p, e) := by
  simp only [CacheModel.call, Option.map_eq_some_iff] at hc
  obtain ⟨e, he, hs⟩ := hc
  cases hs
  exact ⟨e, entryAt_some he, he, rfl, rfl⟩

theorem keepsHead_removeFromCache {p : Addr} {e : Cache} {head b : Node} {ys : List Node}
    (hentry : entryAt (s.list ++ s.loose) p = some e) (hlist : s.list = head :: b :: ys) :
    s.keepsHead (.removeFromCache p) = !isSameCache head (p, e) := by
  simp only [CacheModel.keepsHead, hentry]
  rw [hlist]

theorem comparesInside_removeFromCache {p : Addr} {e : Cache}
    (hentry : entryAt (s.list ++ s.loose) p = some e) :
    s.comparesInside (.removeFromCache p) = true ↔ ComparesInside s.list (p, e) := by
  simp only [CacheModel.comparesInside, hentry, decide_eq_true_eq]

theorem safe_of_call_none (hc : s.call c = none) :
    s.comparesInside c = true ∧ s.keepsHead c = true := by
  cases c with
  | calloc p e => exact ⟨rfl, rfl⟩
  | addToCache p => exact ⟨rfl, rfl⟩
  | removeFromCache p =>
    have hentry : entryAt (s.list ++ s.loose) p = none := by
      simpa [CacheModel.call] using hc
    simp [CacheModel.comparesInside, CacheModel.keepsHead, hentry]

theorem removeFromCache_miss {e : Node} (hl : Linked m s.list s.loose)
    (he : e ∈ s.list ++ s.loose) (hinside : ComparesInside s.list e)
    (hno : ∀ n ∈ s.list, isSameCache n e = false) :
    m.removeFromCache (some e.1) = some (m, false) ∧ removeFromCache s.list e = s.list ∧
      removeFromCacheRet s.list e = false := by
  have hfind : s.list.find? (fun n => isSameCache n e) = none := by
    rw [List.find?_eq_none]; intro n hn; simp [hno n hn]
  refine ⟨?_, List.eraseP_of_forall_not (by simpa using hno), ?_⟩
  · simp only [Mem.removeFromCache, hl.search he hinside, hfind, Option.map_none, bind, Option.bind]
  · rw [removeFromCacheRet, List.any_eq_false]; intro n hn; simp [hno n hn]

theorem removeFromCache_hit {e n : Node} {xs ys : List Node} (hl : Linked m s.list s.loose)
    (he : e ∈ s.list ++ s.loose) (hinside : ComparesInside s.list e) (hlist : s.list = xs ++ n :: ys)
    (hxs : ∀ x ∈ xs, isSameCache x e = false) (hn : isSameCache n e = true) :
    m.removeFromCache (some e.1) = (m.unlink n.1).map (fun m' => (m', true)) ∧
      removeFromCache s.list e = xs ++ ys ∧ removeFromCacheRet s.list e = true := by
  have hfind : s.list.find? (fun n => isSameCache n e) = some n := by
    rw [hlist, List.find?_append, List.find?_eq_none.2 (fun x hx => by simp [hxs x hx])]
    simp [hn]
  refine ⟨?_, ?_, ?_⟩
  · simp only [Mem.removeFromCache, hl.search he hinside, hfind, Option.map_some, bind, Option.bind]
    cases m.unlink n.1 <;> rfl
  · rw [removeFromCache, hlist, List.eraseP_append_right _ (by simpa using hxs),
      List.eraseP_cons_of_pos (p := fun node => isSameCache node e) hn]
  · rw [removeFromCacheRet, List.any_eq_true]
    exact ⟨n, by rw [hlist]; exact List.mem_append_right _ List.mem_cons_self, hn⟩

/-- A safe call is followed by the heap, and keeps the invariant. -/
theorem call_refines (hl : Linked m s.list s.loose) (hc : s.call c = some (s', r))
    (hi : s.comparesInside c = true) (hk : s.keepsHead c = true) :
    ∃ m', m.call c = some (m', r) ∧ Linked m' s'.list s'.loose := by
  cases c with
  | calloc p e =>
    simp only [CacheModel.call] at hc
    split at hc
    · cases hc
    · rename_i hp
      cases hc
      rw [addrs_append, List.mem_append, not_or] at hp
      obtain ⟨h, he, hl'⟩ := hl.alloc e hp.1 hp.2
      exact ⟨⟨h, m.list⟩, by simp only [Mem.call, he, Option.map_some], hl'⟩
  | addToCache p =>
    simp only [CacheModel.call, Option.map_eq_some_iff] at hc
    obtain ⟨e, he, hs⟩ := hc
    cases hs
    exact hl.addToCache (entryAt_some he)
  | removeFromCache p =>
    obtain ⟨e, hmem, hentry, rfl, rfl⟩ := entryAt_mem_of_call hc
    have hinside := (comparesInside_removeFromCache hentry).1 hi
    by_cases hex : ∃ n ∈ s.list, isSameCache n (p, e) = true
    · obtain ⟨n₀, hn₀, hsame₀⟩ := hex
      obtain ⟨n, xs, ys, hno, hn, hlist, -⟩ :=
        List.exists_of_eraseP (p := fun n => isSameCache n (p, e)) hn₀ hsame₀
      obtain ⟨hrun, hrem, hret⟩ := removeFromCache_hit hl hmem hinside hlist
        (fun x hx => by simpa using hno x hx) hn
      simp only [Mem.call, hrun, hrem, hret]
      rcases List.eq_nil_or_concat xs with rfl | ⟨xs, b, rfl⟩
      · -- the head: the list is this node alone
        cases ys with
        | nil =>
          rw [hlist] at hl
          obtain ⟨m', hm', hl'⟩ := hl.unlink_single
          exact ⟨m', by rw [hm']; rfl, hl'⟩
        | cons b ys =>
          rw [keepsHead_removeFromCache hentry hlist, hn] at hk
          cases hk
      · rw [List.concat_eq_append, List.append_assoc, List.singleton_append] at hlist
        rw [hlist] at hl
        obtain ⟨m', hm', hl'⟩ := hl.unlink_mid
        exact ⟨m', by rw [hm']; rfl, by simpa using hl'⟩
    · have hno : ∀ n ∈ s.list, isSameCache n (p, e) = false := by
        intro n hn
        by_contra hsame
        exact hex ⟨n, hn, by simpa using hsame⟩
      obtain ⟨hrun, hrem, hret⟩ := removeFromCache_miss hl hmem hinside hno
      exact ⟨m, by simp only [Mem.call, hrun, hret], by simpa only [hrem] using hl⟩

/-- A removal that compares more bytes than an address has leaves an entry. -/
theorem call_outside (hl : Linked m s.list s.loose) (hc : s.call c = some (s', r))
    (hi : s.comparesInside c = false) : m.call c = none := by
  cases c with
  | calloc p e => cases hi
  | addToCache p => cases hi
  | removeFromCache p =>
    obtain ⟨e, hmem, hentry, -, -⟩ := entryAt_mem_of_call hc
    have houtside : ¬ComparesInside s.list (p, e) := by
      rw [← comparesInside_removeFromCache hentry, hi]
      exact Bool.false_ne_true
    simp only [Mem.call, Mem.removeFromCache, hl.search_outside hmem houtside, bind, Option.bind]

/-- A call that does not keep the head leaves a list that is not well linked. -/
theorem call_breaks (hl : Linked m s.list s.loose) (hc : s.call c = some (s', r))
    (hi : s.comparesInside c = true) (hk : s.keepsHead c = false) :
    ∀ m', m.call c = some (m', r) → ¬WellLinked m' s'.list := by
  cases c with
  | calloc p e => simp [CacheModel.keepsHead] at hk
  | addToCache p => simp [CacheModel.keepsHead] at hk
  | removeFromCache p =>
    obtain ⟨e, hmem, hentry, rfl, rfl⟩ := entryAt_mem_of_call hc
    cases hlist : s.list with
    | nil => simp [CacheModel.keepsHead, hlist] at hk
    | cons n l =>
      cases l with
      | nil => simp [CacheModel.keepsHead, hlist] at hk
      | cons b ys =>
        have hn : isSameCache n (p, e) = true := by
          rw [keepsHead_removeFromCache hentry hlist] at hk
          simpa using hk
        have hsplit : s.list = [] ++ n :: b :: ys := hlist
        obtain ⟨hrun, hrem, -⟩ := removeFromCache_hit hl hmem
          ((comparesInside_removeFromCache hentry).1 hi) hsplit (by simp) hn
        obtain ⟨m₁, hm₁, d, hd, hprev⟩ := (hlist ▸ hl : Linked m (n :: b :: ys) s.loose).unlink_head
        intro m' hm' hw
        simp only [Mem.call, hrun, hm₁, Option.map_some, Option.some.injEq, Prod.mk.injEq] at hm'
        obtain ⟨rfl, -⟩ := hm'
        obtain ⟨d', hd', hnull⟩ := hw.headPrev b (by rw [hlist] at hrem; simp [hrem])
        rw [hd] at hd'
        cases hd'
        rw [hprev] at hnull
        cases hnull

end Call

/-! ## Sequences -/

/-- From a well linked state the calls are followed exactly as long as they are safe. -/
theorem refinesFrom_iff {m : Mem} {s : CacheModel} (hl : Linked m s.list s.loose)
    (calls : List CacheCall) : RefinesFrom m s calls ↔ SafeFrom s calls := by
  induction calls generalizing m s with
  | nil => exact Iff.rfl
  | cons c cs ih =>
    cases hc : s.call c with
    | none =>
      constructor
      · exact fun _ => ⟨safe_of_call_none hc, fun s' r h => by rw [hc] at h; cases h⟩
      · exact fun _ s' r h => by rw [hc] at h; cases h
    | some sr =>
      obtain ⟨s', r⟩ := sr
      cases hi : s.comparesInside c with
      | false =>
        have hnone := call_outside hl hc hi
        constructor
        · intro h
          obtain ⟨m', hm', -⟩ := h s' r hc
          rw [hnone] at hm'
          cases hm'
        · rintro ⟨⟨hi', -⟩, -⟩
          rw [hi] at hi'
          cases hi'
      | true =>
        cases hk : s.keepsHead c with
        | true =>
          obtain ⟨m', hm', hl'⟩ := call_refines hl hc hi hk
          constructor
          · intro h
            refine ⟨⟨hi, hk⟩, fun s₁ r₁ h₁ => ?_⟩
            obtain ⟨m₁, hm₁, -, hrest⟩ := h s₁ r₁ h₁
            rw [hc] at h₁
            cases h₁
            rw [hm'] at hm₁
            cases hm₁
            exact (ih hl').1 hrest
          · rintro ⟨-, h⟩ s₁ r₁ h₁
            have hrest := h s₁ r₁ h₁
            rw [hc] at h₁
            cases h₁
            exact ⟨m', hm', hl'.wellLinked, (ih hl').2 hrest⟩
        | false =>
          constructor
          · intro h
            obtain ⟨m', hm', hw, -⟩ := h s' r hc
            exact absurd hw (call_breaks hl hc hi hk m' hm')
          · rintro ⟨⟨-, hk'⟩, -⟩
            rw [hk] at hk'
            cases hk'

/-- **The cache as a pointer structure**: from the empty cache, a sequence of calls is followed,
with well formed links after every call, exactly when no removal hits the head of a list of two or
more nodes, and none compares more bytes of an address than there are. -/
theorem cache_refines_iff (calls : List CacheCall) :
    RefinesFrom Mem.empty CacheModel.empty calls ↔ SafeFrom CacheModel.empty calls :=
  refinesFrom_iff Linked.empty calls

/-- Two entries, the head removed, then the other one: the second removal stores through the
stale `prev` into the freed node. -/
theorem cache_not_refines :
    ¬RefinesFrom Mem.empty CacheModel.empty
      [.calloc 1 .calloc, .addToCache 1, .calloc 2 .calloc, .addToCache 2, .removeFromCache 2,
        .removeFromCache 1] := by
  intro h
  obtain ⟨m₁, h₁, -, h⟩ := h _ _ rfl
  obtain ⟨m₂, h₂, -, h⟩ := h _ _ rfl
  obtain ⟨m₃, h₃, -, h⟩ := h _ _ rfl
  obtain ⟨m₄, h₄, -, h⟩ := h _ _ rfl
  obtain ⟨m₅, h₅, -, h⟩ := h _ _ rfl
  obtain ⟨m₆, h₆, -, -⟩ := h _ _ rfl
  cases h₁; cases h₂; cases h₃; cases h₄; cases h₅
  cases h₆

end Tour
