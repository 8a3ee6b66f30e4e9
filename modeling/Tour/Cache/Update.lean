import Tour.Cache.Pointers

/-!
# Comparing and updating entries

`isSameCache` of `cache.c` as a relation between the entries in memory, and the two functions that
look up an entry with it and do not remove it: `getFromCache` and `updateCache`. The comparison covers
as many address bytes as its second argument declares, so that it is an equivalence only as far as the
bytes beyond them do not matter (`sameCache_equivalence_iff`); and `updateCache` copies the address of
an entry but not its length, so that it makes the node agree with the entry exactly when the two had
the same length before (`updateCache_agrees_iff`).
-/

namespace Tour

open Lib

/-- `getFromCache`. -/
def getFromCache (list : List Node) (entry : Node) : Option Node :=
  list.find? fun node => isSameCache node entry

/-- The stores of `updateCache` into the node that it found. -/
def Cache.update (node entry : Cache) : Option Cache := do
  let addr ← entry.hw.sllAddr.read 0 entry.hw.sllHalen.toNat
  let addr ← node.hw.sllAddr.write 0 addr
  some { node with
    ipaddress := entry.ipaddress
    hw := { node.hw with
      sllIfindex := entry.hw.sllIfindex, sllHatype := entry.hw.sllHatype, sllAddr := addr } }

namespace Mem

/-- `getFromCache(list, entry)`. -/
def getFromCache (m : Mem) : Option Addr → Option (Option Addr)
  | none => some none
  | some entry => m.heap.search (fun node => m.isSameCache (some node) (some entry))
      (m.heap.size + 1) m.list

/-- `updateCache(list, entry)` and its return value. -/
def updateCache (m : Mem) : Option Addr → Option (Mem × Bool)
  | none => some (m, false)
  | some entry => do
    let found ← m.heap.search (fun node => m.isSameCache (some node) (some entry))
      (m.heap.size + 1) m.list
    match found with
    | none => some (m, false)
    | some node => do
      let c ← m.heap.load node
      let e ← m.heap.load entry
      let val ← c.val.update e.val
      let h ← m.heap.setVal node val
      some (⟨h, m.list⟩, true)

end Mem

/-! ## `isSameCache` as a relation -/

/-- `isSameCache(c1, c2)` returns true. -/
def Mem.SameCache (m : Mem) (c1 c2 : Addr) : Prop := m.isSameCache (some c1) (some c2) = some true

instance (m : Mem) (c1 c2 : Addr) : Decidable (m.SameCache c1 c2) :=
  inferInstanceAs (Decidable (_ = _))

/-- The bytes of two addresses from `lo` up to `hi` are the same. -/
def sameBetween {m : Nat} (a b : Buf m) (lo hi : Nat) : Prop :=
  (a.bytes.take hi).drop lo = (b.bytes.take hi).drop lo

section Bytes

variable {m lo hi : Nat} {a b c : Buf m}

theorem sameBytes_iff : sameBytes a b hi = true ↔ a.bytes.take hi = b.bytes.take hi := by
  rw [sameBytes, beq_iff_eq]

theorem sameBytes_mono (h : sameBytes a b hi = true) (hle : lo ≤ hi) : sameBytes a b lo = true := by
  rw [sameBytes_iff] at h ⊢
  rw [← Nat.min_eq_left hle, ← List.take_take, h, List.take_take]

/-- More bytes agree when those in between do. -/
theorem sameBytes_extend (h : sameBytes a b lo = true) :
    sameBytes a b hi = true ↔ sameBetween a b lo hi := by
  rw [sameBytes_iff, sameBetween]
  constructor
  · intro heq
    rw [heq]
  · intro heq
    have hmin := sameBytes_iff.1 (sameBytes_mono h (Nat.min_le_left lo hi))
    have hlow : (a.bytes.take hi).take lo = (b.bytes.take hi).take lo := by
      rw [List.take_take, List.take_take]
      exact hmin
    rw [← List.take_append_drop lo (a.bytes.take hi), hlow, heq, List.take_append_drop]

end Bytes

/-- Two entries of one interface and one IP address whose link addresses begin with the same bytes, as
many as the second entry declares. -/
structure Alike (c d : Cache) : Prop where
  ifindex : c.hw.sllIfindex = d.hw.sllIfindex
  addr : c.hw.sllAddr.bytes.take d.hw.sllHalen.toNat = d.hw.sllAddr.bytes.take d.hw.sllHalen.toNat
  ip : c.ipaddress = d.ipaddress

section Content

variable {c d e : Cache}

theorem sameContent_iff : sameContent c d = true ↔ Alike c d := by
  simp only [sameContent, Bool.and_eq_true, beq_iff_eq, sameBytes_iff]
  constructor
  · rintro ⟨⟨hi, hb⟩, hip⟩
    exact ⟨hi, hb, hip⟩
  · exact fun h => ⟨⟨h.ifindex, h.addr⟩, h.ip⟩

/-- Turned around, the comparison also covers the bytes that only the first entry declares. -/
theorem Alike.comm (h : Alike c d) : Alike d c ↔
    sameBetween c.hw.sllAddr d.hw.sllAddr d.hw.sllHalen.toNat c.hw.sllHalen.toNat := by
  rw [← sameBytes_extend (sameBytes_iff.2 h.addr), sameBytes_iff]
  exact ⟨fun h' => h'.addr.symm, fun h' => ⟨h.ifindex.symm, h'.symm, h.ip.symm⟩⟩

/-- Composed, it covers the bytes that the third entry declares. -/
theorem Alike.comp (h : Alike c d) (h' : Alike d e) : Alike c e ↔
    sameBetween c.hw.sllAddr d.hw.sllAddr d.hw.sllHalen.toNat e.hw.sllHalen.toNat := by
  rw [← sameBytes_extend (sameBytes_iff.2 h.addr), sameBytes_iff, h'.addr]
  exact ⟨fun h => h.addr, fun hb => ⟨h.ifindex.trans h'.ifindex, hb, h.ip.trans h'.ip⟩⟩

end Content

section Relation

variable {m : Mem} {a₁ a₂ a₃ : Addr} {c₁ c₂ c₃ : Cell Cache}

/-- Equal pointers are the same without a look at the memory; other pointers are compared by
content. -/
theorem sameCache_iff (h₁ : m.heap.load a₁ = some c₁) (h₂ : m.heap.load a₂ = some c₂)
    (hhalen : c₂.val.hw.sllHalen ≤ 8) : m.SameCache a₁ a₂ ↔ a₁ = a₂ ∨ Alike c₁.val c₂.val := by
  rw [Mem.SameCache, Mem.isSameCache_of_load h₁ h₂, compareNodes_eq, if_pos fun _ _ => hhalen,
    Option.some.injEq, isSameCache, Bool.or_eq_true, beq_iff_eq, sameContent_iff]

theorem sameCache_self (m : Mem) (a : Addr) : m.SameCache a a := by
  simp [Mem.SameCache, Mem.isSameCache]

/-- What an equivalence relation says about three entries. -/
structure EquivalenceAt (m : Mem) (a₁ a₂ a₃ : Addr) : Prop where
  refl : m.SameCache a₁ a₁
  symm : m.SameCache a₁ a₂ → m.SameCache a₂ a₁
  trans : m.SameCache a₁ a₂ → m.SameCache a₂ a₃ → m.SameCache a₁ a₃

/-- Where the first entry is like the second, another object, the bytes behind those that the second
declares are the same in both: up to the length of the first entry, and up to that of the third,
another object again, where the second is like it. -/
def UnseenAgree (a₁ a₂ a₃ : Addr) (c₁ c₂ c₃ : Cache) : Prop :=
  a₁ ≠ a₂ → Alike c₁ c₂ →
    sameBetween c₁.hw.sllAddr c₂.hw.sllAddr c₂.hw.sllHalen.toNat c₁.hw.sllHalen.toNat ∧
      (a₁ ≠ a₃ → a₂ ≠ a₃ → Alike c₂ c₃ →
        sameBetween c₁.hw.sllAddr c₂.hw.sllAddr c₂.hw.sllHalen.toNat c₃.hw.sllHalen.toNat)

/-- **`isSameCache` is an equivalence relation** on three entries of at most eight address bytes exactly
when the bytes that it does not look at agree. -/
theorem sameCache_equivalence_iff (h₁ : m.heap.load a₁ = some c₁) (h₂ : m.heap.load a₂ = some c₂)
    (h₃ : m.heap.load a₃ = some c₃) (hhalen₁ : c₁.val.hw.sllHalen ≤ 8)
    (hhalen₂ : c₂.val.hw.sllHalen ≤ 8) (hhalen₃ : c₃.val.hw.sllHalen ≤ 8) :
    EquivalenceAt m a₁ a₂ a₃ ↔ UnseenAgree a₁ a₂ a₃ c₁.val c₂.val c₃.val := by
  have h₁₂ := sameCache_iff h₁ h₂ hhalen₂
  have h₂₁ := sameCache_iff h₂ h₁ hhalen₁
  have h₂₃ := sameCache_iff h₂ h₃ hhalen₃
  have h₁₃ := sameCache_iff h₁ h₃ hhalen₃
  constructor
  · rintro ⟨-, hsymm, htrans⟩ hne hsame
    refine ⟨?_, fun hne₁₃ hne₂₃ hsame' => ?_⟩
    · have hback := h₂₁.1 (hsymm (h₁₂.2 (Or.inr hsame)))
      exact hsame.comm.1 (hback.resolve_left (Ne.symm hne))
    · have hcomp := h₁₃.1 (htrans (h₁₂.2 (Or.inr hsame)) (h₂₃.2 (Or.inr hsame')))
      exact (hsame.comp hsame').1 (hcomp.resolve_left hne₁₃)
  · intro hagree
    refine ⟨sameCache_self m a₁, fun h => ?_, fun h h' => ?_⟩
    · rcases h₁₂.1 h with rfl | hsame
      · exact sameCache_self m a₁
      · by_cases heq : a₁ = a₂
        · exact h₂₁.2 (Or.inl heq.symm)
        · exact h₂₁.2 (Or.inr (hsame.comm.2 (hagree heq hsame).1))
    · by_cases heq : a₁ = a₂
      · rw [heq]
        exact h'
      by_cases heq₂₃ : a₂ = a₃
      · rw [← heq₂₃]
        exact h
      by_cases heq₁₃ : a₁ = a₃
      · exact h₁₃.2 (Or.inl heq₁₃)
      · have hsame := (h₁₂.1 h).resolve_left heq
        have hsame' := (h₂₃.1 h').resolve_left heq₂₃
        have hbytes := (hagree heq hsame).2 heq₁₃ heq₂₃ hsame'
        exact h₁₃.2 (Or.inr ((hsame.comp hsame').2 hbytes))

end Relation

/-- A resolved entry with a link address of which `halen` bytes count. -/
def entryWith (halen : UInt8) (addr : List UInt8) : Cache :=
  ⟨.zero, -1, .complete, { Hwaddr.zero with sllHalen := halen, sllAddr := .fill 8 addr }⟩

/-- A list of the node `c` at 1, and two entries at 2 and 3 outside it. -/
def nodeAndEntries (c d e : Cache) : Mem :=
  ⟨(((∅ : Heap Cache).insert 3 ⟨e, none, none⟩).insert 2 ⟨d, none, none⟩).insert 1 ⟨c, none, none⟩,
    some 1⟩

/-- Three entries of which the first two have the same address are related as they should be. -/
theorem sameCache_equivalence_six : EquivalenceAt
    (nodeAndEntries (entryWith 6 [2, 4]) (entryWith 6 [2, 4]) (entryWith 6 [2, 5])) 1 2 3 :=
  (sameCache_equivalence_iff rfl rfl rfl (by decide) (by decide) (by decide)).2
    fun _ _ => ⟨rfl, fun _ _ hlike => absurd (sameContent_iff.2 hlike) (by decide)⟩

/-- An entry that declares six bytes is the same as one that declares none, and not the other way
round. -/
theorem sameCache_not_equivalence :
    ¬∀ (m : Mem) (a₁ a₂ a₃ : Addr) (c₁ c₂ c₃ : Cell Cache), m.heap.load a₁ = some c₁ →
      m.heap.load a₂ = some c₂ → m.heap.load a₃ = some c₃ → c₁.val.hw.sllHalen ≤ 8 →
      c₂.val.hw.sllHalen ≤ 8 → c₃.val.hw.sllHalen ≤ 8 → EquivalenceAt m a₁ a₂ a₃ := by
  intro h
  have heq := h (nodeAndEntries (entryWith 6 [2]) (entryWith 0 []) (entryWith 0 [])) 1 2 3 _ _ _
    rfl rfl rfl (by decide) (by decide) (by decide)
  exact absurd (heq.symm (by decide)) (by decide)

/-! ## The stores of `updateCache` -/

section Stores

variable {node entry : Cache}

/-- For an address of at most eight bytes the copies of `updateCache` stay inside their arrays. -/
theorem update_of_fits (node : Cache) (h : entry.hw.sllHalen ≤ 8) : ∃ addr : Buf 8,
    addr.bytes = entry.hw.sllAddr.bytes.take entry.hw.sllHalen.toNat ++
      node.hw.sllAddr.bytes.drop entry.hw.sllHalen.toNat ∧
    node.update entry = some { node with
      ipaddress := entry.ipaddress
      hw := { node.hw with
        sllIfindex := entry.hw.sllIfindex, sllHatype := entry.hw.sllHatype, sllAddr := addr } } := by
  have hlen : entry.hw.sllHalen.toNat ≤ 8 := UInt8.le_iff_toNat_le.1 h
  have hread : entry.hw.sllAddr.read 0 entry.hw.sllHalen.toNat =
      some (entry.hw.sllAddr.bytes.take entry.hw.sllHalen.toNat) :=
    Buf.read_eq_some.2 ⟨by omega, rfl⟩
  have hcount := Buf.read_length hread
  obtain ⟨addr, haddr, hbytes⟩ := Buf.write_at (List.nil_append node.hw.sllAddr.bytes).symm
    (entry.hw.sllAddr.bytes.take entry.hw.sllHalen.toNat)
    (by rw [hcount, node.hw.sllAddr.length_eq]; exact hlen)
  rw [List.length_nil] at haddr
  rw [List.nil_append, hcount] at hbytes
  exact ⟨addr, hbytes, by simp only [Cache.update, hread, haddr, bind, Option.bind]⟩

/-- The node `c` holds what `updateCache` is to store, and its own state and descriptor. -/
structure UpdatedTo (node entry c : Cache) : Prop where
  ipaddress : c.ipaddress = entry.ipaddress
  ifindex : c.hw.sllIfindex = entry.hw.sllIfindex
  hatype : c.hw.sllHatype = entry.hw.sllHatype
  addr : c.hw.sllAddr.bytes.take entry.hw.sllHalen.toNat =
    entry.hw.sllAddr.bytes.take entry.hw.sllHalen.toNat
  state : c.state = node.state
  domainSocket : c.domainSocket = node.domainSocket

/-- The stores, and what they leave out: the length of the address. -/
theorem update_spec (node : Cache) (h : entry.hw.sllHalen ≤ 8) : ∃ c, node.update entry = some c ∧
    UpdatedTo node entry c ∧ c.hw.sllHalen = node.hw.sllHalen := by
  obtain ⟨addr, hbytes, hupdate⟩ := update_of_fits node h
  have hlen : entry.hw.sllHalen.toNat ≤ 8 := UInt8.le_iff_toNat_le.1 h
  have htake : (entry.hw.sllAddr.bytes.take entry.hw.sllHalen.toNat).length =
      entry.hw.sllHalen.toNat := by
    rw [List.length_take, entry.hw.sllAddr.length_eq]
    omega
  refine ⟨_, hupdate, ⟨rfl, rfl, rfl, ?_, rfl, rfl⟩, rfl⟩
  rw [hbytes]
  exact List.take_left' htake

/-- Updating an entry with itself stores what is there. -/
theorem update_self (h : entry.hw.sllHalen ≤ 8) : entry.update entry = some entry := by
  obtain ⟨addr, hbytes, hupdate⟩ := update_of_fits entry h
  rw [List.take_append_drop] at hbytes
  rw [hupdate, Buf.ext hbytes]

/-- The node is then the same as the entry. -/
theorem UpdatedTo.sameContent {c : Cache} (h : UpdatedTo node entry c) :
    sameContent c entry = true :=
  sameContent_iff.2 ⟨h.ifindex, h.addr, h.ipaddress⟩

end Stores

/-! ## `getFromCache` and `updateCache` -/

section Update

variable {m : Mem} {ns : List Node} {e : Addr} {cell : Cell Cache}

theorem getFromCache_chain (hchain : Chain m.heap m.list ns) (hload : m.heap.load e = some cell)
    (hhalen : cell.val.hw.sllHalen ≤ 8) :
    m.getFromCache (some e) = some ((getFromCache ns (e, cell.val)).map Prod.fst) :=
  (Mem.search_same hchain hload).trans (if_pos (Or.inl hhalen))

/-- An update of the first node that passes a test leaves it the first, when it still passes. -/
theorem find_updateAt {P : Node → Bool} {n : Node} {c : Cache} (hnodup : (addrs ns).Nodup)
    (hfind : ns.find? P = some n) (hP : P (n.1, c) = true) :
    (updateAt ns n.1 fun _ => c).find? P = some (n.1, c) := by
  obtain ⟨-, l₁, l₂, rfl, hbefore⟩ := List.find?_eq_some_iff_append.1 hfind
  rw [updateAt_middle hnodup]
  exact List.find?_eq_some_iff_append.2 ⟨hP, l₁, l₂, rfl, hbefore⟩

/-- What `updateCache` is to do: it reports whether `getFromCache` finds the entry, and then it makes
that node agree with the entry, in its place; everything else stays. -/
def UpdateAgrees (m : Mem) (ns : List Node) (e : Addr) (entry : Cache) : Prop :=
  ∃ m' found, m.getFromCache (some e) = some found ∧
    m.updateCache (some e) = some (m', found.isSome) ∧ (found = none → m' = m) ∧
    ∀ a, found = some a → m'.getFromCache (some e) = some (some a) ∧
      ∃ c c', (a, c) ∈ ns ∧ Chain m'.heap m'.list (updateAt ns a fun _ => c') ∧
        UpdatedTo c entry c' ∧ c'.hw.sllHalen = entry.hw.sllHalen

/-- `updateCache` for an entry that is found: one node is updated, the length of its address is not,
and the entry is found at the same place again. -/
theorem updateCache_found (hchain : Chain m.heap m.list ns) (hload : m.heap.load e = some cell)
    (hhalen : cell.val.hw.sllHalen ≤ 8) {n : Node}
    (hfind : getFromCache ns (e, cell.val) = some n) :
    ∃ m' c, m.updateCache (some e) = some (m', true) ∧
      m'.getFromCache (some e) = some (some n.1) ∧ n ∈ ns ∧
      Chain m'.heap m'.list (updateAt ns n.1 fun _ => c) ∧
      UpdatedTo n.2 cell.val c ∧ c.hw.sllHalen = n.2.hw.sllHalen := by
  have hn : n ∈ ns := List.mem_of_find?_eq_some hfind
  obtain ⟨d, hd, hdv⟩ := hchain.live n hn
  obtain ⟨c, hc, hupdated, hkept⟩ := update_spec n.2 hhalen
  obtain ⟨h', hset⟩ : ∃ h', m.heap.setVal n.1 c = some h' := ⟨_, Heap.modify_of_load _ hd⟩
  have hchain' : Chain h' m.list (updateAt ns n.1 fun _ => c) := hchain.setVal hset
  -- the entry itself is as it was, also when it is the node
  obtain ⟨cell', hload', hval⟩ : ∃ cell', h'.load e = some cell' ∧ cell'.val = cell.val := by
    have hframe := Heap.load_modify (b := e) hset
    by_cases heq : e = n.1
    · rw [heq, hd] at hload
      cases hload
      rw [← hdv, update_self hhalen] at hc
      cases hc
      rw [if_pos heq, hd] at hframe
      exact ⟨_, hframe, rfl⟩
    · rw [if_neg heq, hload] at hframe
      exact ⟨cell, hframe, rfl⟩
  have hagain : getFromCache (updateAt ns n.1 fun _ => c) (e, cell'.val) = some (n.1, c) := by
    rw [hval]
    refine find_updateAt hchain.nodup hfind ?_
    rw [isSameCache, hupdated.sameContent, Bool.or_true]
  refine ⟨⟨h', m.list⟩, c, ?_, ?_, hn, hchain', hupdated, hkept⟩
  · have hsearch := getFromCache_chain hchain hload hhalen
    rw [hfind, Option.map_some] at hsearch
    simp only [Mem.updateCache, show m.heap.search _ _ _ = _ from hsearch, hd, hload, hdv, hc, hset, bind, Option.bind]
  · rw [getFromCache_chain hchain' hload' (hval ▸ hhalen), hagain]
    rfl

/-- The node that agrees with the entry afterwards had an address of the same length before. -/
theorem UpdateAgrees.length (hchain : Chain m.heap m.list ns) (hload : m.heap.load e = some cell)
    (hhalen : cell.val.hw.sllHalen ≤ 8) {n : Node} (h : UpdateAgrees m ns e cell.val)
    (hfind : getFromCache ns (e, cell.val) = some n) :
    n.2.hw.sllHalen = cell.val.hw.sllHalen := by
  obtain ⟨m', c, hupdate, -, hn, hchain', -, hkept⟩ :=
    updateCache_found hchain hload hhalen hfind
  obtain ⟨m₁, found, hget, hupdate₁, -, hfound⟩ := h
  rw [getFromCache_chain hchain hload hhalen, hfind] at hget
  cases hget
  rw [hupdate] at hupdate₁
  cases hupdate₁
  obtain ⟨-, d, d', -, hchain₁, -, hlen⟩ := hfound n.1 rfl
  -- what the property says of the node is said of what is stored
  have hmem : (n.1, d') ∈ updateAt ns n.1 fun _ => c := by
    rw [hchain'.unique hchain₁]
    exact mem_updateAt_self hn
  rcases mem_updateAt.1 hmem with ⟨-, hne⟩ | ⟨-, -, heq⟩
  · exact absurd rfl hne
  · rw [← hkept, ← hlen, (Prod.mk.inj heq).2]

/-- **`updateCache` makes the list agree with the entry** exactly when the node that it finds has an
address of the same length already. -/
theorem updateCache_agrees_iff (hchain : Chain m.heap m.list ns)
    (hload : m.heap.load e = some cell) (hhalen : cell.val.hw.sllHalen ≤ 8) :
    UpdateAgrees m ns e cell.val ↔
      ∀ n, getFromCache ns (e, cell.val) = some n → n.2.hw.sllHalen = cell.val.hw.sllHalen := by
  refine ⟨fun h n hn => h.length hchain hload hhalen hn, fun hlen => ?_⟩
  have hget := getFromCache_chain hchain hload hhalen
  cases hfind : getFromCache ns (e, cell.val) with
  | none =>
    rw [hfind, Option.map_none] at hget
    have hupdate : m.updateCache (some e) = some (m, false) := by
      simp only [Mem.updateCache, show m.heap.search _ _ _ = _ from hget, bind, Option.bind]
    exact ⟨m, none, hget, hupdate, fun _ => rfl, fun a ha => (by cases ha)⟩
  | some n =>
    rw [hfind, Option.map_some] at hget
    obtain ⟨m', c, hupdate, hagain, hn, hchain', hupdated, hkept⟩ :=
      updateCache_found hchain hload hhalen hfind
    refine ⟨m', some n.1, hget, hupdate, fun h => (by cases h), ?_⟩
    intro a ha
    cases ha
    exact ⟨hagain, n.2, c, hn, hchain', hupdated, hkept.trans (hlen n hfind)⟩

end Update

theorem chain_nodeAndEntries (c d e : Cache) :
    Chain (nodeAndEntries c d e).heap (nodeAndEntries c d e).list [(1, c)] :=
  ⟨rfl, _, rfl, rfl, rfl⟩

/-- An entry outside the list that has the same address as the node. -/
theorem updateCache_agrees_six : UpdateAgrees
    (nodeAndEntries (entryWith 6 [2, 4]) (entryWith 6 [2, 4]) (entryWith 6 []))
    [(1, entryWith 6 [2, 4])] 2 (entryWith 6 [2, 4]) :=
  (@updateCache_agrees_iff _ _ 2 ⟨entryWith 6 [2, 4], none, none⟩ (chain_nodeAndEntries ..) rfl
    (by decide)).2 fun n hn => by cases hn; rfl

/-- An entry that declares no address bytes is found, and the node keeps its six. -/
theorem updateCache_keeps_length :
    ¬∀ (m : Mem) (ns : List Node) (e : Addr) (cell : Cell Cache), Chain m.heap m.list ns →
      m.heap.load e = some cell → cell.val.hw.sllHalen ≤ 8 → UpdateAgrees m ns e cell.val := by
  intro h
  have hchain := chain_nodeAndEntries (entryWith 6 [2]) (entryWith 0 []) (entryWith 0 [])
  have hlen := (h _ _ 2 ⟨entryWith 0 [], none, none⟩ hchain rfl (by decide)).length hchain rfl
    (by decide) (n := (1, entryWith 6 [2])) rfl
  exact absurd hlen (by decide)

end Tour
