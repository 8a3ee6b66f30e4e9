import Tour.Cache.Pointers
import Tour.Arp.Descriptors

/-!
# `accept` on the heap

The branch of `run_arp` on the listening socket, on the cache as a pointer structure. When
`getCacheBySocket` misses, it is the step of the daemon (`accept_refines`). When it hits, the entry
it found is linked again in front of the list it is in, and `next` runs in a cycle
(`accept_relinks`). `accept_safe_iff` says for which results of `accept` the list is what it should
be.
-/

namespace Tour

open Lib Machine

namespace Mem

variable {m m' : Mem} {ns : List Node} {a : Addr}

/-- `addToCache` of a live node never fails, links the old list behind it, and changes no value and
no other `next`. -/
theorem addToCache_live {c : Cell Cache} (hc : m.heap.load a = some c)
    (hhead : ∀ b, m.list = some b → b ∈ m.heap) :
    ∃ m', m.addToCache (some a) = some (m', true) ∧ m'.list = some a ∧
      (∃ d, m'.heap.load a = some d ∧ d.val = c.val ∧ d.next = m.list) ∧
      ∀ b d, b ≠ a → m.heap.load b = some d →
        ∃ d', m'.heap.load b = some d' ∧ d'.val = d.val ∧ d'.next = d.next := by
  obtain ⟨h₁, e₁⟩ : ∃ h, m.heap.setNext a m.list = some h := ⟨_, Heap.modify_of_load _ hc⟩
  have l₁ : ∀ b, h₁.load b = if b = a then some { c with next := m.list } else m.heap.load b := by
    intro b; rw [Heap.load_modify e₁, hc]; rfl
  obtain ⟨h₂, e₂⟩ : ∃ h, h₁.setPrev a none = some h :=
    ⟨_, Heap.modify_of_load _ ((l₁ a).trans (if_pos rfl))⟩
  have l₂ : ∀ b, h₂.load b =
      if b = a then some { c with next := m.list, prev := none } else m.heap.load b := by
    intro b
    rw [Heap.load_modify e₂, l₁ a, if_pos rfl, l₁ b]
    split <;> rfl
  cases hlist : m.list with
  | none =>
    refine ⟨⟨h₂, some a⟩, ?_, rfl, ⟨_, (l₂ a).trans (if_pos rfl), rfl, hlist⟩, ?_⟩
    · rw [hlist] at e₁
      simp only [addToCache, hlist, bind, Option.bind, e₁, e₂]
    · intro b d hb hd
      exact ⟨d, by rw [l₂ b, if_neg hb, hd], rfl, rfl⟩
  | some head =>
    have hlive : ∃ d, h₂.load head = some d := by
      rw [l₂ head]
      split
      · exact ⟨_, rfl⟩
      · exact Heap.mem_iff_load.1 (hhead head hlist)
    obtain ⟨d₀, hd₀⟩ := hlive
    obtain ⟨h₃, e₃⟩ : ∃ h, h₂.setPrev head (some a) = some h := ⟨_, Heap.modify_of_load _ hd₀⟩
    -- the last store changes one `prev`
    have l₃ : ∀ b d, h₂.load b = some d →
        ∃ d', h₃.load b = some d' ∧ d'.val = d.val ∧ d'.next = d.next := by
      intro b d hd
      by_cases hb : b = head
      · subst hb
        exact ⟨{ d with prev := some a }, by rw [Heap.load_modify e₃, if_pos rfl, hd]; rfl, rfl, rfl⟩
      · exact ⟨d, by rw [Heap.load_modify e₃, if_neg hb, hd], rfl, rfl⟩
    refine ⟨⟨h₃, some a⟩, ?_, rfl, ?_, ?_⟩
    · rw [hlist] at e₁
      simp only [addToCache, hlist, bind, Option.bind, e₁, e₂, e₃]
    · obtain ⟨d, hd, hv, hnext⟩ := l₃ a _ ((l₂ a).trans (if_pos rfl))
      exact ⟨d, hd, hv, hnext.trans hlist⟩
    · intro b d hb hd
      exact l₃ b d (by rw [l₂ b, if_neg hb, hd])

theorem getCacheBySocket_chain (hm : Chain m.heap m.list ns) (hn : (addrs ns).Nodup) (sock : Int) :
    m.getCacheBySocket sock = some ((Tour.getCacheBySocket ns sock).map Prod.fst) := by
  refine hm.search (P := fun node => node.2.domainSocket == sock) ?_
    (Nat.lt_succ_of_le (hm.length_le hn))
  intro n hmem
  obtain ⟨c, hc, hv⟩ := hm.live n hmem
  rw [hc, Option.map_some, hv]

/-- The branch of `run_arp` on the listening socket when `accept` returns `sfd`; `fresh` is what
`calloc` yields. -/
def accept (m : Mem) (sfd : Int) (fresh : Addr) : Option Mem := do
  let found ← m.getCacheBySocket sfd
  let (m, ce) ← match found with
    | none => do
      let h ← m.heap.alloc fresh Cache.calloc
      some ((⟨h, m.list⟩ : Mem), fresh)
    | some ce => some (m, ce)
  let c ← m.heap.load ce
  let h ← m.heap.setVal ce { c.val with domainSocket := sfd, state := .connection }
  let (m, added) ← addToCache ⟨h, m.list⟩ (some ce)
  if added then some m
  else do
    let h ← m.heap.free ce
    some ⟨h, m.list⟩

end Mem

section Accept

variable {m : Mem} {ns : List Node} {sfd : Int} {fresh : Addr}

/-- A miss puts one new entry in front of the list. -/
theorem accept_miss (hm : Chain m.heap m.list ns) (hn : (addrs ns).Nodup) (hfresh : fresh ∉ m.heap)
    (hmiss : getCacheBySocket ns sfd = none) :
    ∃ m', m.accept sfd fresh = some m' ∧ m'.list = some fresh ∧
      Chain m'.heap m'.list ((fresh, freshEntry sfd) :: ns) := by
  have hne : ∀ a ∈ m.heap, a ≠ fresh := fun a ha heq => hfresh (heq ▸ ha)
  have hlive : ∀ a ∈ addrs ns, a ∈ m.heap := by
    intro a ha
    obtain ⟨v, hv⟩ := mem_addrs.1 ha
    obtain ⟨c, hc, -⟩ := hm.live _ hv
    exact Heap.mem_iff_load.2 ⟨c, hc⟩
  -- the cell that `calloc` yields, and the two stores into it
  have e₁ := Heap.alloc_of_not_mem Cache.calloc hfresh
  have l₁ : Heap.load (m.heap.insert fresh ⟨Cache.calloc, none, none⟩) fresh =
      some ⟨Cache.calloc, none, none⟩ := (Heap.load_insert ..).trans (if_pos rfl)
  obtain ⟨h₂, e₂⟩ : ∃ h, Heap.setVal (m.heap.insert fresh ⟨Cache.calloc, none, none⟩) fresh
      (freshEntry sfd) = some h := ⟨_, Heap.modify_of_load _ l₁⟩
  have l₂ : ∀ b, h₂.load b = if b = fresh then some ⟨freshEntry sfd, none, none⟩
      else m.heap.load b := by
    intro b
    rw [Heap.load_modify e₂, l₁, Heap.load_insert]
    split <;> rfl
  have hhead : ∀ b, (⟨h₂, m.list⟩ : Mem).list = some b → b ∈ h₂ := by
    intro b hb
    cases ns with
    | nil => cases hm.symm.trans hb
    | cons n ns =>
      cases hm.1.symm.trans hb
      obtain ⟨c, hc, -⟩ := hm.2
      refine Heap.mem_iff_load.2 ⟨c, ?_⟩
      rw [l₂, if_neg (hne _ (hlive _ (by simp))), hc]
  obtain ⟨m', e₃, hlist, ⟨d, hd, hv, hnext⟩, hrest⟩ :=
    Mem.addToCache_live (m := ⟨h₂, m.list⟩) ((l₂ fresh).trans (if_pos rfl)) hhead
  refine ⟨m', ?_, hlist, hlist, d, hd, hv, ?_⟩
  · simp only [Mem.accept, Mem.getCacheBySocket_chain hm hn, hmiss, Option.map_none, bind,
      Option.bind, e₁, l₁]
    rw [show ({ Cache.calloc with domainSocket := sfd, state := .connection } : Cache) =
      freshEntry sfd from rfl, e₂]
    simp only [e₃, if_true]
  · rw [hnext]
    refine hm.frame fun a ha c hc => hrest a c (hne a (hlive a ha)) ?_
    rw [l₂, if_neg (hne a (hlive a ha)), hc]

/-- A hit on an entry of the list puts that entry in front of the list it is in: it is the new head
and its `next` is the old head. -/
theorem accept_relinks {n : Node} (hm : Chain m.heap m.list ns) (hn : (addrs ns).Nodup)
    (hhit : getCacheBySocket ns sfd = some n) {m' : Mem} (h : m.accept sfd fresh = some m') :
    m'.list = some n.1 ∧ ∃ d, m'.heap.load n.1 = some d ∧ d.next = m.list := by
  have hmem : n ∈ ns := List.mem_of_find?_eq_some hhit
  obtain ⟨c, hc, -⟩ := hm.live n hmem
  simp only [Mem.accept, Mem.getCacheBySocket_chain hm hn, hhit, Option.map_some, bind,
    Option.bind, hc] at h
  obtain ⟨h₁, e₁⟩ : ∃ h, m.heap.setVal n.1 { c.val with domainSocket := sfd, state := .connection } =
      some h := ⟨_, Heap.modify_of_load _ hc⟩
  have l₁ : ∀ b ∈ m.heap, b ∈ h₁ := by
    intro b hb
    obtain ⟨d, hd⟩ := Heap.mem_iff_load.1 hb
    rw [Heap.mem_iff_load, Heap.load_modify e₁, hc, hd]
    split
    · exact ⟨_, rfl⟩
    · exact ⟨_, rfl⟩
  have hhead : ∀ b, (⟨h₁, m.list⟩ : Mem).list = some b → b ∈ h₁ := by
    intro b hb
    cases ns with
    | nil => cases hmem
    | cons x ns =>
      cases hm.1.symm.trans hb
      obtain ⟨d, hd, -⟩ := hm.2
      exact l₁ _ (Heap.mem_iff_load.2 ⟨d, hd⟩)
  obtain ⟨m₂, e₂, hlist, ⟨d, hd, -, hnext⟩, -⟩ :=
    Mem.addToCache_live (m := ⟨h₁, m.list⟩) (a := n.1)
      ((Heap.load_modify e₁).trans (by rw [if_pos rfl, hc]; rfl)) hhead
  simp only [e₁, e₂, if_true, Option.some.injEq] at h
  subst h
  exact ⟨hlist, d, hd, hnext⟩

end Accept

/-- The step of the daemon on the listening socket is what the heap does. -/
theorem accept_refines {w w' : World} {m : Mem} {rset : Int → Bool} {sfd : Int} {fresh : Addr}
    (hm : Chain m.heap m.list w.cache) (hn : (addrs w.cache).Nodup) (hfresh : fresh ∉ m.heap)
    (h : stepAccept w rset sfd fresh = some w') :
    ∃ m', m.accept sfd fresh = some m' ∧ Chain m'.heap m'.list w'.cache := by
  unfold stepAccept at h
  split at h
  · cases h
  rename_i hmiss
  split at h
  · cases h
  cases h
  obtain ⟨m', hacc, -, hchain⟩ := accept_miss hm hn hfresh hmiss
  exact ⟨m', hacc, hchain⟩

/-- In a run whose accepts fail or are fresh, the lookup of a fresh descriptor misses. -/
theorem accept_misses {cfg : Config} {w : World} (h : (daemon cfg).Reachable AcceptSound w)
    {sfd : Int} (hpos : 0 < sfd) (hfree : w.fds sfd = none) : getCacheBySocket w.cache sfd = none :=
  getCacheBySocket_none.2 ((reachable_fdInv h).not_held hpos hfree)

/-! ## When accepting is safe -/

/-- What the list should be after `accept` returned `sfd`: unchanged after a failure, and otherwise
with one fresh entry in front; in both cases it ends, and visits no node twice. -/
def AcceptSafe (m : Mem) (cache : List Node) (sfd : Int) (fresh : Addr) : Prop :=
  let expected := if sfd < 0 then cache else (fresh, freshEntry sfd) :: cache
  Chain m.heap m.list expected ∧ (addrs expected).Nodup

/-- **Accepting is safe** exactly when `accept` succeeded with a descriptor that no entry holds. -/
theorem accept_safe_iff {cfg : Config} {w : World}
    (h : (daemon cfg).Reachable (fun _ _ => True) w) {m : Mem}
    (hm : Chain m.heap m.list w.cache) {fresh : Addr} (hfresh : fresh ∉ m.heap) (sfd : Int) :
    (∃ m', m.accept sfd fresh = some m' ∧ AcceptSafe m' w.cache sfd fresh) ↔
      0 ≤ sfd ∧ ∀ n ∈ w.cache, n.2.domainSocket ≠ sfd := by
  have hn := (reachable_consistent h).cache.nodup
  have hnot : fresh ∉ addrs w.cache := by
    intro hmem
    obtain ⟨v, hv⟩ := mem_addrs.1 hmem
    obtain ⟨c, hc, -⟩ := hm.live _ hv
    exact hfresh (Heap.mem_iff_load.2 ⟨c, hc⟩)
  rw [← getCacheBySocket_none]
  constructor
  · rintro ⟨m', hacc, hchain, hnodup⟩
    cases hfound : getCacheBySocket w.cache sfd with
    | none =>
      refine ⟨?_, rfl⟩
      by_contra hneg
      rw [if_pos (Int.not_le.1 hneg)] at hchain
      obtain ⟨m₂, hacc₂, hlist, -⟩ := accept_miss hm hn hfresh hfound
      cases hacc.symm.trans hacc₂
      -- the new head is no node of the old list
      rw [hlist] at hchain
      cases hcache : w.cache with
      | nil => rw [hcache] at hchain; cases hchain
      | cons n ns =>
        rw [hcache] at hchain hnot
        cases hchain.1
        exact hnot (by simp)
    | some n =>
      exfalso
      obtain ⟨hlist, d, hd, hnext⟩ := accept_relinks hm hn hfound hacc
      have hmem : n ∈ w.cache := List.mem_of_find?_eq_some hfound
      rw [hlist] at hchain
      split at hchain
      · -- the head of the old list would be followed by itself
        cases hcache : w.cache with
        | nil => rw [hcache] at hmem; cases hmem
        | cons x ns =>
          rw [hcache] at hchain hm hn
          obtain ⟨hhead, c, hc, -, hrest⟩ := hchain
          have hx : n.1 = x.1 := Option.some.inj hhead
          rw [← hx, hd] at hc
          cases hc
          rw [hnext, hm.1] at hrest
          cases ns with
          | nil => cases hrest
          | cons y ns =>
            have hxy : x.1 = y.1 := Option.some.inj hrest.1
            rw [addrs_cons, addrs_cons, hxy, List.nodup_cons] at hn
            exact hn.1 List.mem_cons_self
      · cases hchain.1
        exact hnot (List.mem_map_of_mem hmem)
  · rintro ⟨hpos, hmiss⟩
    obtain ⟨m', hacc, -, hchain⟩ := accept_miss hm hn hfresh hmiss
    refine ⟨m', hacc, ?_⟩
    rw [AcceptSafe, if_neg (Int.not_lt.2 hpos)]
    exact ⟨hchain, List.nodup_cons.2 ⟨hnot, hn⟩⟩

/-- The heap while one client, accepted as descriptor 5, is connected. -/
def oneClient : Mem := ⟨AList.insert 100 ⟨freshEntry 5, none, none⟩ ∅, some 100⟩

theorem accept_safe_second :
    ∃ m', oneClient.accept 6 200 = some m' ∧ AcceptSafe m' [(100, freshEntry 5)] 6 200 := by
  have hrun : (daemon loneHost).guardedRun (fun _ _ => True) .init
      [readable [3], .tick, .accept 5 100, .tick] = some ⟨[(100, freshEntry 5)], .select, _, _, _⟩ :=
    rfl
  refine (accept_safe_iff (m := oneClient) (Steps.of_guardedRun hrun) ⟨rfl, _, rfl, rfl, rfl⟩
    (by decide) 6).2 ?_
  refine ⟨by decide, fun n hn => ?_⟩
  cases List.mem_singleton.1 hn
  decide

/-- A failed `accept` on an empty cache adds an entry with the descriptor -1. -/
theorem accept_unsafe :
    ¬∀ (cfg : Config) (w : World) (rset : Int → Bool) (m : Mem) (fresh : Addr) (sfd : Int),
      (daemon cfg).Reachable (fun _ _ => True) w → w.pc = .accept rset →
      Chain m.heap m.list w.cache → fresh ∉ m.heap →
      ∃ m', m.accept sfd fresh = some m' ∧ AcceptSafe m' w.cache sfd fresh := by
  intro h
  have hrun : (daemon loneHost).guardedRun (fun _ _ => True) .init [readable [3], .tick] =
      some ⟨[], .accept _, _, _, _⟩ := rfl
  obtain ⟨m', hacc, hchain, -⟩ := h loneHost _ _ Mem.empty 100 (-1) (Steps.of_guardedRun hrun) rfl
    rfl (AList.notMem_empty _)
  cases hacc
  cases hchain

end Tour
