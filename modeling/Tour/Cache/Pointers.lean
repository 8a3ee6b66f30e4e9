import Tour.Cache.Basic

/-!
# The cache as a pointer structure

The functions of `cache.c` on the heap, link by link, and how far they implement the list functions
of `Tour.Cache.Basic`. `addToCache` on a fresh node always does. `removeFromCache` moves `*list`
past a removed head but leaves the new head's `prev` naming the freed node (`unlink_head`), so it
does as long as the head of a list of two or more nodes is not what is removed (`unlink_mid`,
`unlink_single`).
-/

namespace Tour

open Lib

/-- The heap of cache nodes and the head pointer `*list`. -/
structure Mem where
  heap : Heap Cache
  list : Option Addr

namespace Mem

def empty : Mem := ⟨∅, none⟩

/-- `isSameCache(c1, c2)`: equal pointers are not dereferenced. -/
def isSameCache (m : Mem) : Option Addr → Option Addr → Option Bool
  | some c1, some c2 =>
    if c1 = c2 then some true
    else do
      let x ← m.heap.load c1
      let y ← m.heap.load c2
      compareContent x.val y.val
  | _, _ => some false

/-- `addToCache(&list, entry)` and its return value. -/
def addToCache (m : Mem) : Option Addr → Option (Mem × Bool)
  | none => some (m, false)
  | some entry =>
    match m.list with
    | some head => do
      let h ← m.heap.setNext entry (some head)
      let h ← h.setPrev entry none
      let h ← h.setPrev head (some entry)
      some (⟨h, some entry⟩, true)
    | none => do
      let h ← m.heap.setNext entry none
      let h ← h.setPrev entry none
      some (⟨h, some entry⟩, true)

/-- The body of `removeFromCache` once `node` is the node to remove. -/
def unlink (m : Mem) (node : Addr) : Option Mem := do
  let c ← m.heap.load node
  match c.prev with
  | none =>
    let h ← m.heap.free node
    some ⟨h, c.next⟩
  | some p => do
    let h ← m.heap.setNext p c.next
    let c ← h.load node
    let h ← h.setPrevOf c.next c.prev
    let h ← h.free node
    some ⟨h, m.list⟩

/-- `removeFromCache(&list, entry)` and its return value. -/
def removeFromCache (m : Mem) : Option Addr → Option (Mem × Bool)
  | none => some (m, false)
  | some entry => do
    let found ← m.heap.search (fun node => m.isSameCache (some node) (some entry))
      (m.heap.size + 1) m.list
    match found with
    | none => some (m, false)
    | some node => do
      let m' ← m.unlink node
      some (m', true)

/-- `getCacheBySocket(list, sock)`. -/
def getCacheBySocket (m : Mem) (sock : Int) : Option (Option Addr) :=
  m.heap.search (fun node => (m.heap.load node).map fun c => c.val.domainSocket == sock)
    (m.heap.size + 1) m.list

/-- The comparison of two entries in memory. -/
theorem isSameCache_of_load {m : Mem} {c1 c2 : Addr} {x y : Cell Cache}
    (h₁ : m.heap.load c1 = some x) (h₂ : m.heap.load c2 = some y) :
    m.isSameCache (some c1) (some c2) = compareNodes (c1, x.val) (c2, y.val) := by
  by_cases heq : c1 = c2
  · simp [isSameCache, compareNodes, heq]
  · simp [isSameCache, compareNodes, heq, h₁, h₂]

/-- On a list that ends, the search for the same entry stops at the first node that is the same,
unless it leaves an array. -/
theorem search_same {m : Mem} {ns : List Node} {e : Addr} {cell : Cell Cache}
    (hchain : Chain m.heap m.list ns) (hload : m.heap.load e = some cell) :
    m.heap.search (fun node => m.isSameCache (some node) (some e)) (m.heap.size + 1) m.list =
      if ComparesInside ns (e, cell.val) then
        some ((ns.find? fun n => Tour.isSameCache n (e, cell.val)).map Prod.fst)
      else none := by
  have htest : ∀ n ∈ ns, m.isSameCache (some n.1) (some e) = compareNodes n (e, cell.val) := by
    intro n hn
    obtain ⟨c, hc, hcv⟩ := hchain.live n hn
    rw [isSameCache_of_load hc hload, hcv]
  rw [hchain.searchM htest (Nat.lt_succ_of_le (hchain.length_le hchain.nodup)),
    findM?_compareNodes]
  split <;> rfl

end Mem

/-! ## Well linked lists -/

/-- The list `ns` is what the links say, in both directions, and no link of a live node names a
freed one. -/
structure WellLinked (m : Mem) (ns : List Node) : Prop where
  visits : Chain m.heap m.list ns
  nodup : (addrs ns).Nodup
  headPrev : ∀ n, ns.head? = some n → ∃ c, m.heap.load n.1 = some c ∧ c.prev = none
  nextPrev : ∀ l₁ a b l₂, ns = l₁ ++ a :: b :: l₂ →
    ∃ c, m.heap.load b.1 = some c ∧ c.prev = some a.1
  noDangling : ∀ a c b, m.heap.load a = some c → (c.next = some b ∨ c.prev = some b) → b ∈ m.heap

/-- The invariant of the calls: the list is one doubly linked segment, and every other live node is
loose, with null links. -/
structure Linked (m : Mem) (ns loose : List Node) : Prop where
  seg : ∃ lst, Seg m.heap m.list none ns none lst
  nodup : (addrs ns ++ addrs loose).Nodup
  unlinked : ∀ n ∈ loose, m.heap.load n.1 = some ⟨n.2, none, none⟩
  live : ∀ a ∈ m.heap, a ∈ addrs ns ∨ a ∈ addrs loose

/-- The links of a segment name nodes of the segment or its two ends. -/
theorem Seg.links {h : Heap Cache} {p prv q lst : Option Addr} {ns : List Node}
    (hs : Seg h p prv ns q lst) {a b : Addr} {c : Cell Cache} (ha : a ∈ addrs ns)
    (hc : h.load a = some c) (hb : c.next = some b ∨ c.prev = some b) :
    b ∈ addrs ns ∨ some b = q ∨ some b = prv := by
  induction ns generalizing p prv with
  | nil => cases ha
  | cons n ns ih =>
    obtain ⟨-, nxt, hl, hrest⟩ := hs
    rw [addrs_cons] at ha ⊢
    rcases List.mem_cons.1 ha with rfl | ha
    · rw [hl] at hc
      cases hc
      rcases hb with hb | hb
      · simp only at hb
        subst hb
        cases ns with
        | nil => exact Or.inr (Or.inl hrest.1)
        | cons m ns => cases hrest.1; simp
      · exact Or.inr (Or.inr hb.symm)
    · rcases ih hrest ha with h | h | h
      · exact Or.inl (List.mem_cons_of_mem _ h)
      · exact Or.inr (Or.inl h)
      · cases h; exact Or.inl List.mem_cons_self

namespace Linked

variable {m : Mem} {ns loose : List Node}

theorem empty : Linked Mem.empty [] [] where
  seg := ⟨none, rfl, rfl⟩
  nodup := by simp
  unlinked := by intro n hn; cases hn
  live := by intro a ha; exact absurd ha (AList.notMem_empty a)

theorem chain (hl : Linked m ns loose) : Chain m.heap m.list ns := hl.seg.elim fun _ hs => hs.chain

theorem nodup_list (hl : Linked m ns loose) : (addrs ns).Nodup :=
  (List.nodup_append.1 hl.nodup).1

theorem not_mem_list (hl : Linked m ns loose) {n : Node} (hn : n ∈ loose) : n.1 ∉ addrs ns := by
  intro ha
  exact (List.nodup_append.1 hl.nodup).2.2 _ ha _ (List.mem_map_of_mem hn) rfl

theorem wellLinked (hl : Linked m ns loose) : WellLinked m ns where
  visits := hl.chain
  nodup := hl.nodup_list
  headPrev := by
    intro n hn
    obtain ⟨lst, hs⟩ := hl.seg
    cases ns with
    | nil => cases hn
    | cons a ns =>
      cases hn
      obtain ⟨-, nxt, hload, -⟩ := hs
      exact ⟨_, hload, rfl⟩
  nextPrev := by
    rintro l₁ a b l₂ rfl
    obtain ⟨lst, hs⟩ := hl.seg
    obtain ⟨r, l, -, -, nxt, -, -, nxt', hload, -⟩ := Seg.append.1 hs
    exact ⟨_, hload, rfl⟩
  noDangling := by
    intro a c b hc hb
    obtain ⟨lst, hs⟩ := hl.seg
    rcases hl.live a (Heap.mem_iff_load.2 ⟨c, hc⟩) with ha | ha
    · rcases Seg.links hs ha hc hb with h | h | h
      · obtain ⟨v, hv⟩ := mem_addrs.1 h
        obtain ⟨c', hc', -⟩ := hs.chain.live _ hv
        exact Heap.mem_iff_load.2 ⟨c', hc'⟩
      · cases h
      · cases h
    · obtain ⟨v, hv⟩ := mem_addrs.1 ha
      have hu := hl.unlinked _ hv
      rw [hc] at hu
      cases hu
      rcases hb with hb | hb <;> cases hb

theorem load_val (hl : Linked m ns loose) {n : Node} (hn : n ∈ ns ++ loose) :
    ∃ c, m.heap.load n.1 = some c ∧ c.val = n.2 := by
  rcases List.mem_append.1 hn with hn | hn
  · exact hl.chain.live n hn
  · exact ⟨_, hl.unlinked n hn, rfl⟩

/-! ## `calloc` and `addToCache` -/

theorem alloc (hl : Linked m ns loose) {p : Addr} (e : Cache) (hp : p ∉ addrs ns)
    (hp' : p ∉ addrs loose) :
    ∃ h, m.heap.alloc p e = some h ∧ Linked ⟨h, m.list⟩ ns ((p, e) :: loose) := by
  have hdead : p ∉ m.heap := fun h => (hl.live p h).elim hp hp'
  have hframe : ∀ a, a ≠ p → Heap.load (m.heap.insert p ⟨e, none, none⟩) a = m.heap.load a := by
    intro a ha; rw [Heap.load_insert, if_neg ha]
  refine ⟨_, Heap.alloc_of_not_mem e hdead, ?_, ?_, ?_, ?_⟩
  · obtain ⟨lst, hs⟩ := hl.seg
    exact ⟨lst, hs.frame fun a ha => hframe a (by rintro rfl; exact hp ha)⟩
  · rw [addrs_cons, List.nodup_middle, List.nodup_cons]
    exact ⟨by simp [hp, hp'], hl.nodup⟩
  · intro n hn
    rcases List.mem_cons.1 hn with rfl | hn'
    · exact (Heap.load_insert ..).trans (if_pos rfl)
    · have hne : n.1 ≠ p := fun h => hp' (h ▸ List.mem_map_of_mem hn')
      exact (hframe n.1 hne).trans (hl.unlinked n hn')
  · intro a ha
    rcases (AList.mem_insert _).1 ha with rfl | ha
    · exact Or.inr (by simp)
    · exact (hl.live a ha).imp_right fun h => by simp [h]

theorem addToCache (hl : Linked m ns loose) {n : Node} (hn : n ∈ loose) :
    ∃ m', m.addToCache (some n.1) = some (m', true) ∧
      Linked m' (n :: ns) (loose.filter fun x => x.1 ≠ n.1) := by
  have hnns : n.1 ∉ addrs ns := hl.not_mem_list hn
  have hload := hl.unlinked n hn
  obtain ⟨lst, hs⟩ := hl.seg
  -- the two stores to the new node
  let h₁ : Heap Cache := m.heap.insert n.1 ⟨n.2, m.list, none⟩
  let h₂ : Heap Cache := AList.insert n.1 ⟨n.2, m.list, none⟩ h₁
  have e₁ : m.heap.setNext n.1 m.list = some h₁ := Heap.modify_of_load _ hload
  have e₂ : Heap.setPrev h₁ n.1 none = some h₂ :=
    Heap.modify_of_load _ ((Heap.load_insert ..).trans (if_pos rfl))
  have hframe : ∀ a, a ≠ n.1 → Heap.load h₂ a = m.heap.load a := by
    intro a ha
    rw [Heap.load_insert, if_neg ha, Heap.load_insert, if_neg ha]
  have hnew : Heap.load h₂ n.1 = some ⟨n.2, m.list, none⟩ :=
    (Heap.load_insert ..).trans (if_pos rfl)
  have hseg : Seg h₂ m.list none ns none lst :=
    hs.frame fun a ha => hframe a (by rintro rfl; exact hnns ha)
  have hlive : ∀ a ∈ h₂, a ∈ addrs (n :: ns) ∨ a ∈ addrs (loose.filter fun x => x.1 ≠ n.1) := by
    intro a ha
    by_cases han : a = n.1
    · exact Or.inl (by simp [han])
    · have ha' : a ∈ m.heap := by
        obtain ⟨c, hc⟩ := Heap.mem_iff_load.1 ha
        exact Heap.mem_iff_load.2 ⟨c, (hframe a han) ▸ hc⟩
      rcases hl.live a ha' with h | h
      · exact Or.inl (by simp [h])
      · obtain ⟨v, hv⟩ := mem_addrs.1 h
        exact Or.inr (mem_addrs.2 ⟨v, List.mem_filter.2 ⟨hv, by simpa using han⟩⟩)
  have hnodup : (addrs (n :: ns) ++ addrs (loose.filter fun x => x.1 ≠ n.1)).Nodup := by
    have hsub : (addrs ns ++ addrs (loose.filter fun x => x.1 ≠ n.1)).Sublist
        (addrs ns ++ addrs loose) :=
      (List.Sublist.refl _).append ((List.filter_sublist).map Prod.fst)
    rw [addrs_cons, List.cons_append, List.nodup_cons]
    refine ⟨?_, hl.nodup.sublist hsub⟩
    rw [List.mem_append, not_or]
    refine ⟨hnns, fun h => ?_⟩
    obtain ⟨v, hv⟩ := mem_addrs.1 h
    simpa using (List.mem_filter.1 hv).2
  have hloose : ∀ x ∈ loose.filter (fun x => x.1 ≠ n.1),
      x.1 ≠ n.1 ∧ m.heap.load x.1 = some ⟨x.2, none, none⟩ := by
    intro x hx
    obtain ⟨hx, hne⟩ := List.mem_filter.1 hx
    exact ⟨by simpa using hne, hl.unlinked x hx⟩
  cases ns with
  | nil =>
    have hnull : m.list = none := hs.1
    refine ⟨⟨h₂, some n.1⟩, ?_, ⟨some n.1, rfl, none, ?_, rfl, rfl⟩, hnodup, ?_, hlive⟩
    · simp only [Mem.addToCache, hnull, bind, Option.bind]
      rw [hnull] at e₁
      simp only [e₁, e₂]
    · rw [hnull] at hnew; exact hnew
    · intro x hx
      rw [hframe x.1 (hloose x hx).1]; exact (hloose x hx).2
  | cons b ns =>
    have hhead : m.list = some b.1 := hs.1
    have hbn : b.1 ≠ n.1 := by
      intro h
      exact hnns (by simp [← h])
    obtain ⟨h₃, e₃, hs₃, hf₃⟩ := hseg.setPrev hl.nodup_list (some n.1)
    have hnew₃ : h₃.load n.1 = some ⟨n.2, m.list, none⟩ := (hf₃ n.1 hbn.symm).trans hnew
    refine ⟨⟨h₃, some n.1⟩, ?_, ⟨lst, rfl, m.list, hnew₃, hs₃⟩, hnodup, ?_, ?_⟩
    · simp only [Mem.addToCache, hhead, bind, Option.bind]
      rw [hhead] at e₁
      simp only [e₁, e₂, e₃]
    · intro x hx
      have hxb : x.1 ≠ b.1 := by
        intro h
        have := hl.not_mem_list (List.mem_of_mem_filter hx)
        exact this (by simp [h])
      rw [hf₃ x.1 hxb, hframe x.1 (hloose x hx).1]
      exact (hloose x hx).2
    · intro a ha
      by_cases hab : a = b.1
      · exact Or.inl (by simp [hab])
      · refine hlive a ?_
        obtain ⟨c, hc⟩ := Heap.mem_iff_load.1 ha
        exact Heap.mem_iff_load.2 ⟨c, (hf₃ a hab) ▸ hc⟩

/-! ## `removeFromCache` -/

/-- The search of `removeFromCache` stops at the first node that is the same as the entry. -/
theorem search (hl : Linked m ns loose) {e : Node} (he : e ∈ ns ++ loose)
    (hinside : ComparesInside ns e) :
    m.heap.search (fun node => m.isSameCache (some node) (some e.1)) (m.heap.size + 1) m.list =
      some ((ns.find? fun n => Tour.isSameCache n e).map Prod.fst) := by
  obtain ⟨c, hc, hcv⟩ := hl.load_val he
  rw [Mem.search_same hl.chain hc, hcv, if_pos hinside]

/-- Otherwise `memcmp` leaves an address. -/
theorem search_outside (hl : Linked m ns loose) {e : Node} (he : e ∈ ns ++ loose)
    (houtside : ¬ComparesInside ns e) :
    m.heap.search (fun node => m.isSameCache (some node) (some e.1)) (m.heap.size + 1) m.list =
      none := by
  obtain ⟨c, hc, hcv⟩ := hl.load_val he
  rw [Mem.search_same hl.chain hc, hcv, if_neg houtside]

/-- Unlinking a node behind another one restores the invariant. -/
theorem unlink_mid {xs ys : List Node} {b n : Node} (hl : Linked m (xs ++ b :: n :: ys) loose) :
    ∃ m', m.unlink n.1 = some m' ∧ Linked m' (xs ++ b :: ys) loose := by
  obtain ⟨lst, hs⟩ := hl.seg
  obtain ⟨r, l, hxs, hr, nxtb, hb, hnb, nxt, hn, hys⟩ := Seg.append.1 hs
  subst hr hnb
  have hnd : (addrs xs ++ (b.1 :: n.1 :: addrs ys)).Nodup := by simpa using hl.nodup_list
  obtain ⟨-, hnd₂, hdis⟩ := List.nodup_append.1 hnd
  obtain ⟨hb_not, hnd₃⟩ := List.nodup_cons.1 hnd₂
  obtain ⟨hn_not, hnd_ys⟩ := List.nodup_cons.1 hnd₃
  have hbn : b.1 ≠ n.1 := fun h => hb_not (h ▸ List.mem_cons_self)
  have hb_ys : b.1 ∉ addrs ys := fun h => hb_not (List.mem_cons_of_mem _ h)
  -- b->next = node->next
  let h₁ : Heap Cache := m.heap.insert b.1 ⟨b.2, nxt, l⟩
  have e₁ : m.heap.setNext b.1 nxt = some h₁ := Heap.modify_of_load _ hb
  have hf₁ : ∀ a, a ≠ b.1 → h₁.load a = m.heap.load a := by
    intro a ha; rw [Heap.load_insert, if_neg ha]
  have hn₁ : h₁.load n.1 = some ⟨n.2, nxt, some b.1⟩ := (hf₁ n.1 hbn.symm).trans hn
  have hys₁ : Seg h₁ nxt (some n.1) ys none lst :=
    hys.frame fun a ha => hf₁ a (by rintro rfl; exact hb_ys ha)
  -- node->next->prev = b, when there is a next node
  obtain ⟨h₂, e₂, ⟨lst', hys₂⟩, hf₂⟩ := hys₁.relink hnd_ys (some b.1)
  have hn₂ : h₂.load n.1 = some ⟨n.2, nxt, some b.1⟩ := (hf₂ n.1 hn_not).trans hn₁
  have hf₃ : ∀ a, a ≠ n.1 → Heap.load (h₂.erase n.1) a = h₂.load a := by
    intro a ha; rw [Heap.load_erase, if_neg ha]
  have hframe : ∀ a, a ∉ b.1 :: n.1 :: addrs ys →
      Heap.load (h₂.erase n.1) a = m.heap.load a := by
    intro a ha
    simp only [List.mem_cons, not_or] at ha
    rw [hf₃ a ha.2.1, hf₂ a ha.2.2, hf₁ a ha.1]
  refine ⟨⟨h₂.erase n.1, m.list⟩, ?_, ⟨lst', Seg.append.2 ⟨some b.1, l, ?_, rfl, nxt, ?_, ?_⟩⟩,
    ?_, ?_, ?_⟩
  · simp only [Mem.unlink, hn, e₁, hn₁, e₂, Heap.free_of_load hn₂, bind, Option.bind]
  · exact hxs.frame fun a ha => hframe a fun hc => hdis a ha a hc rfl
  · rw [hf₃ b.1 hbn, hf₂ b.1 hb_ys, Heap.load_insert, if_pos rfl]
  · exact hys₂.frame fun a ha => hf₃ a (by rintro rfl; exact hn_not ha)
  · refine hl.nodup.sublist (List.Sublist.append ?_ (List.Sublist.refl _))
    exact (List.Sublist.append_left ((List.sublist_cons_self n ys).cons_cons b) xs).map Prod.fst
  · intro x hx
    have hx' := hl.not_mem_list hx
    rw [hframe x.1 fun hc => hx' (by
        simp only [addrs_append, addrs_cons]
        exact List.mem_append_right _ hc)]
    exact hl.unlinked x hx
  · intro a ha
    by_cases hin : a ∈ addrs (xs ++ b :: ys)
    · exact Or.inl hin
    · refine Or.inr ?_
      obtain ⟨c, hc⟩ := Heap.mem_iff_load.1 ha
      have han : a ≠ n.1 := by
        rintro rfl
        rw [Heap.load_erase, if_pos rfl] at hc
        cases hc
      simp only [addrs_append, addrs_cons, List.mem_append, List.mem_cons, not_or] at hin
      have hc' : m.heap.load a = some c := by
        rw [← hframe a (by simp [hin.2.1, han, hin.2.2])]; exact hc
      rcases hl.live a (Heap.mem_iff_load.2 ⟨c, hc'⟩) with h | h
      · simp only [addrs_append, addrs_cons, List.mem_append, List.mem_cons] at h
        rcases h with h | h | h | h
        · exact absurd h hin.1
        · exact absurd h hin.2.1
        · exact absurd h han
        · exact absurd h hin.2.2
      · exact h

theorem unlink_single {n : Node} (hl : Linked m [n] loose) :
    ∃ m', m.unlink n.1 = some m' ∧ Linked m' [] loose := by
  obtain ⟨lst, -, nxt, hn, rfl, -⟩ := hl.seg
  have hf : ∀ a, a ≠ n.1 → Heap.load (m.heap.erase n.1) a = m.heap.load a := by
    intro a ha; rw [Heap.load_erase, if_neg ha]
  refine ⟨⟨m.heap.erase n.1, none⟩, ?_, ⟨none, rfl, rfl⟩, ?_, ?_, ?_⟩
  · simp only [Mem.unlink, hn, Heap.free_of_load hn, bind, Option.bind]
  · simpa using (List.nodup_append.1 hl.nodup).2.1
  · intro x hx
    rw [hf x.1 fun h => hl.not_mem_list hx (by simp [h])]
    exact hl.unlinked x hx
  · intro a ha
    obtain ⟨c, hc⟩ := Heap.mem_iff_load.1 ha
    have han : a ≠ n.1 := by
      rintro rfl
      rw [Heap.load_erase, if_pos rfl] at hc
      cases hc
    rcases hl.live a (Heap.mem_iff_load.2 ⟨c, (hf a han) ▸ hc⟩) with h | h
    · exact absurd (by simpa using h) han
    · exact Or.inr h

/-- Unlinking the head of a longer list leaves the `prev` of the new head at the freed node. -/
theorem unlink_head {n b : Node} {ys : List Node} (hl : Linked m (n :: b :: ys) loose) :
    ∃ m', m.unlink n.1 = some m' ∧ ∃ c, m'.heap.load b.1 = some c ∧ c.prev = some n.1 := by
  obtain ⟨lst, -, nxt, hn, rfl, nxt', hb, -⟩ := hl.seg
  have hbn : b.1 ≠ n.1 := by
    intro h
    have := hl.nodup_list
    simp [h] at this
  refine ⟨⟨m.heap.erase n.1, some b.1⟩, ?_, ⟨b.2, nxt', some n.1⟩, ?_, rfl⟩
  · simp only [Mem.unlink, hn, Heap.free_of_load hn, bind, Option.bind]
  · rw [Heap.load_erase, if_neg hbn]; exact hb

end Linked

end Tour
