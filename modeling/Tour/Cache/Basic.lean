import Tour.Lib.Bytes
import Tour.Lib.LinkedHeap

/-!
# Cache entries and the cache as a list

`struct Cache` of `cache.h` without its two links, and the functions of `cache.c` on the list of
its nodes. A node is an entry together with its address: `isSameCache` first compares the two
pointers. The links are added in `Tour.Cache.Pointers`, where the same functions are stated on the
heap.
-/

namespace Tour

open Lib

/-! ## Addresses -/

/-- `AF_INET`, which is also `PF_INET`. -/
def afInet : UInt16 := 2

/-- `ETH_ALEN`, the length of an Ethernet address. -/
def ethAlen : Nat := 6

/-- `ARPHRD_ETHER`. -/
def arphrdEther : UInt16 := 1

/-- An IPv4 address, `struct in_addr`, as its four bytes in memory. -/
abbrev InAddr := Buf 4

/-- `struct sockaddr`: the family and 14 bytes. A `struct sockaddr_in` puts the port in the first
two of them, the address in the next four and `sin_zero` in the last eight. -/
structure Sockaddr where
  saFamily : UInt16
  saData : Buf 14
deriving DecidableEq

namespace Sockaddr

def zero : Sockaddr := ⟨0, .zero 14⟩

def sinPort (s : Sockaddr) : Buf 2 := s.saData.slice 0 2 (by decide)

def sinAddr (s : Sockaddr) : InAddr := s.saData.slice 2 4 (by decide)

/-- The object as `memcmp` sees it. -/
def bytes (s : Sockaddr) : List UInt8 := le16 s.saFamily ++ s.saData.bytes

/-- `memcmp` on two whole addresses decides their equality: there is no padding. -/
theorem bytes_inj {s t : Sockaddr} : s.bytes = t.bytes ↔ s = t := by
  constructor
  · intro h
    obtain ⟨hf, hd⟩ := List.append_inj h rfl
    have hfam : s.saFamily = t.saFamily := by
      simp only [le16, List.cons.injEq, and_true] at hf
      rw [← ofLe16_le16 s.saFamily, ← ofLe16_le16 t.saFamily, hf.1, hf.2]
    cases s; cases t
    simp only at hfam hd
    rw [hfam, Buf.ext hd]
  · rintro rfl; rfl

end Sockaddr

/-- `struct hwaddr` of `api.h`. -/
structure Hwaddr where
  sllIfindex : Int
  sllIfhatype : UInt16
  sllIfhalen : UInt8
  sllIfaddr : Buf 8
  sllHatype : UInt16
  sllHalen : UInt8
  sllAddr : Buf 8
deriving DecidableEq

def Hwaddr.zero : Hwaddr := ⟨0, 0, 0, .zero 8, 0, 0, .zero 8⟩

/-! ## Entries -/

/-- `STATE_CONNECTION`, `STATE_INCOMPLETE`, `STATE_COMPLETE`. -/
inductive CacheState
  | connection
  | incomplete
  | complete
deriving DecidableEq

/-- `struct Cache` without its links. -/
structure Cache where
  ipaddress : Sockaddr
  domainSocket : Int
  state : CacheState
  hw : Hwaddr
deriving DecidableEq

/-- `calloc(1, sizeof(Cache))`; `STATE_CONNECTION` is 0. -/
def Cache.calloc : Cache := ⟨.zero, 0, .connection, .zero⟩

/-- An entry at its address. -/
abbrev Node := Addr × Cache

/-- `!memcmp(a, b, n)`, which may not leave the two arrays. -/
def memEqual {m : Nat} (a b : Buf m) (n : Nat) : Option Bool := do
  let x ← a.read 0 n
  let y ← b.read 0 n
  some (x == y)

/-- The content comparison of `isSameCache`, on the extent that the second entry declares. -/
def compareContent (c1 c2 : Cache) : Option Bool :=
  if c1.hw.sllIfindex = c2.hw.sllIfindex then do
    let same ← memEqual c1.hw.sllAddr c2.hw.sllAddr c2.hw.sllHalen.toNat
    some (same && c1.ipaddress == c2.ipaddress)
  else some false

/-- The first `n` bytes of two arrays agree. -/
def sameBytes {m : Nat} (a b : Buf m) (n : Nat) : Bool := a.bytes.take n == b.bytes.take n

/-- The result of the comparison, when it leaves no array (`compareContent_eq`). -/
def sameContent (c1 c2 : Cache) : Bool :=
  c1.hw.sllIfindex == c2.hw.sllIfindex &&
    sameBytes c1.hw.sllAddr c2.hw.sllAddr c2.hw.sllHalen.toNat && c1.ipaddress == c2.ipaddress

/-- `isSameCache` of two non-null pointers: equal ones are not dereferenced. -/
def compareNodes (c1 c2 : Node) : Option Bool :=
  if c1.1 = c2.1 then some true else compareContent c1.2 c2.2

/-- Its result (`compareNodes_eq`). -/
def isSameCache (c1 c2 : Node) : Bool := c1.1 == c2.1 || sameContent c1.2 c2.2

/-! ## The cache as a list -/

def addToCache (list : List Node) (entry : Node) : List Node := entry :: list

/-- The comparisons of a search for `entry` leave no array: `entry` declares at most eight bytes, or no
node before its own is of its interface, and then `memcmp` is not called. -/
def ComparesInside (list : List Node) (entry : Node) : Prop :=
  entry.2.hw.sllHalen ≤ 8 ∨
    ∀ node ∈ list.takeWhile fun node => node.1 ≠ entry.1, node.2.hw.sllIfindex ≠ entry.2.hw.sllIfindex

instance (list : List Node) (entry : Node) : Decidable (ComparesInside list entry) :=
  inferInstanceAs (Decidable (_ ∨ _))

/-- `removeFromCache`: drop the first node that is the same as `entry`. -/
def removeFromCache (list : List Node) (entry : Node) : List Node :=
  list.eraseP fun node => isSameCache node entry

/-- The value `removeFromCache` returns. -/
def removeFromCacheRet (list : List Node) (entry : Node) : Bool :=
  list.any fun node => isSameCache node entry

def getCacheBySocket (list : List Node) (sock : Int) : Option Node :=
  list.find? fun node => node.2.domainSocket == sock

def getCacheByIpAddr (list : List Node) (ipaddress : Sockaddr) : Option Node :=
  list.find? fun node => node.2.ipaddress == ipaddress

/-- The entry at an address. -/
def entryAt (list : List Node) (a : Addr) : Option Cache :=
  (list.find? fun node => node.1 == a).map Prod.snd

/-- `a->next`. -/
def nextOf : List Node → Addr → Option Addr
  | [], _ => none
  | node :: rest, a => if node.1 = a then rest.head?.map Prod.fst else nextOf rest a

/-- Store into the entry at an address. -/
def updateAt (list : List Node) (a : Addr) (f : Cache → Cache) : List Node :=
  list.map fun node => if node.1 = a then (node.1, f node.2) else node

/-! ## Comparison -/

theorem memEqual_eq {m : Nat} (a b : Buf m) (n : Nat) :
    memEqual a b n = if n ≤ m then some (sameBytes a b n) else none := by
  by_cases hn : n ≤ m
  · have ha : a.read 0 n = some (a.bytes.take n) := Buf.read_eq_some.2 ⟨by omega, rfl⟩
    have hb : b.read 0 n = some (b.bytes.take n) := Buf.read_eq_some.2 ⟨by omega, rfl⟩
    simp only [memEqual, ha, hb, bind, Option.bind_some, if_pos hn, sameBytes]
  · have ha : a.read 0 n = none := by
      rw [← Option.not_isSome_iff_eq_none, Buf.read_isSome]
      omega
    simp only [memEqual, ha, bind, Option.bind_none, if_neg hn]

/-- The comparison is of interfaces only, or of at most eight address bytes. -/
theorem compareContent_eq (c1 c2 : Cache) : compareContent c1 c2 =
    if c1.hw.sllIfindex = c2.hw.sllIfindex → c2.hw.sllHalen ≤ 8 then some (sameContent c1 c2)
    else none := by
  by_cases hindex : c1.hw.sllIfindex = c2.hw.sllIfindex
  · rw [compareContent, if_pos hindex, memEqual_eq]
    by_cases hlen : c2.hw.sllHalen.toNat ≤ 8
    · have hle : c2.hw.sllHalen ≤ 8 := hlen
      simp only [if_pos hlen, hle, implies_true, if_true, bind, Option.bind_some, sameContent, hindex,
        BEq.rfl, Bool.true_and]
    · have hgt : ¬c2.hw.sllHalen ≤ 8 := hlen
      simp only [if_neg hlen, hindex, hgt, forall_true_left, if_false, bind, Option.bind_none]
  · have hne : (c1.hw.sllIfindex == c2.hw.sllIfindex) = false := beq_eq_false_iff_ne.2 hindex
    rw [compareContent, if_neg hindex, if_pos fun heq => absurd heq hindex]
    simp only [sameContent, hne, Bool.false_and]

theorem compareNodes_eq (c1 c2 : Node) : compareNodes c1 c2 =
    if c1.1 ≠ c2.1 → c1.2.hw.sllIfindex = c2.2.hw.sllIfindex → c2.2.hw.sllHalen ≤ 8 then
      some (isSameCache c1 c2)
    else none := by
  by_cases heq : c1.1 = c2.1
  · rw [compareNodes, if_pos heq, if_pos fun hne => absurd heq hne]
    simp only [isSameCache, heq, BEq.rfl, Bool.true_or]
  · have hne : (c1.1 == c2.1) = false := beq_eq_false_iff_ne.2 heq
    rw [compareNodes, if_neg heq, compareContent_eq]
    simp only [ne_eq, heq, not_false_eq_true, forall_true_left, isSameCache, hne, Bool.false_or]

@[simp] theorem isSameCache_self (n : Node) : isSameCache n n = true := by simp [isSameCache]

theorem sameContent_ip {c1 c2 : Cache} (h : sameContent c1 c2 = true) :
    c1.ipaddress = c2.ipaddress := by
  simp only [sameContent, Bool.and_eq_true, beq_iff_eq] at h
  exact h.2

theorem isSameCache_ip {n m : Node} (h : isSameCache n m = true) :
    n.1 = m.1 ∨ n.2.ipaddress = m.2.ipaddress := by
  simp only [isSameCache, Bool.or_eq_true, beq_iff_eq] at h
  exact h.imp_right sameContent_ip

/-- The search for an entry finds the first node that is the same, unless it leaves an array. -/
theorem findM?_compareNodes (list : List Node) (entry : Node) :
    (list.findM? fun node => compareNodes node entry) =
      if ComparesInside list entry then some (list.find? fun node => isSameCache node entry)
      else none := by
  induction list with
  | nil => exact (if_pos (Or.inr (List.forall_mem_nil _))).symm
  | cons n list ih =>
    rw [List.findM?, compareNodes_eq]
    by_cases heq : n.1 = entry.1
    · have hinside : ComparesInside (n :: list) entry := Or.inr (by simp [heq])
      have hsame : isSameCache n entry = true := by simp [isSameCache, heq]
      have hfind : (n :: list).find? (fun node => isSameCache node entry) = some n :=
        List.find?_cons_of_pos hsame
      rw [if_pos fun hne => absurd heq hne, if_pos hinside, hsame, hfind]
      rfl
    by_cases hhalen : entry.2.hw.sllHalen ≤ 8
    · have hinside : ∀ l, ComparesInside l entry := fun l => Or.inl hhalen
      rw [if_pos fun _ _ => hhalen, ih, if_pos (hinside _), if_pos (hinside _), List.find?_cons]
      cases isSameCache n entry <;> rfl
    · have hiff : ComparesInside (n :: list) entry ↔
          n.2.hw.sllIfindex ≠ entry.2.hw.sllIfindex ∧ ComparesInside list entry := by
        simp only [ComparesInside, hhalen, false_or]
        rw [List.takeWhile_cons_of_pos (by simpa using heq), List.forall_mem_cons]
      by_cases hindex : n.2.hw.sllIfindex = entry.2.hw.sllIfindex
      · rw [if_neg fun h => hhalen (h heq hindex), if_neg fun h => (hiff.1 h).1 hindex]
        rfl
      · have hsame : isSameCache n entry = false := by simp [isSameCache, sameContent, heq, hindex]
        have hinside : ComparesInside (n :: list) entry ↔ ComparesInside list entry :=
          hiff.trans (and_iff_right hindex)
        have hfind : (n :: list).find? (fun node => isSameCache node entry) =
            list.find? fun node => isSameCache node entry := List.find?_cons_of_neg (by simp [hsame])
        rw [if_pos fun _ h => absurd h hindex, hsame, hfind]
        simp only [hinside]
        exact ih

/-! ## Lookups and stores -/

section List

variable {list : List Node} {a : Addr} {f : Cache → Cache}

theorem addrs_updateAt : addrs (updateAt list a f) = addrs list := by
  unfold addrs updateAt
  rw [List.map_map]
  refine List.map_congr_left fun n _ => ?_
  simp only [Function.comp]
  split <;> rfl

theorem mem_updateAt {n : Node} :
    n ∈ updateAt list a f ↔ (n ∈ list ∧ n.1 ≠ a) ∨ ∃ c, (a, c) ∈ list ∧ n = (a, f c) := by
  simp only [updateAt, List.mem_map]
  constructor
  · rintro ⟨m, hm, rfl⟩
    split
    · rename_i e
      exact Or.inr ⟨m.2, by rw [← e]; exact hm, by rw [e]⟩
    · rename_i e
      exact Or.inl ⟨hm, e⟩
  · rintro (⟨hn, hne⟩ | ⟨c, hc, rfl⟩)
    · exact ⟨n, hn, if_neg hne⟩
    · exact ⟨(a, c), hc, if_pos rfl⟩

theorem mem_updateAt_self {c : Cache} (h : (a, c) ∈ list) : (a, f c) ∈ updateAt list a f :=
  mem_updateAt.2 (Or.inr ⟨c, h, rfl⟩)

theorem mem_of_asked {key : Sockaddr} {n : Node}
    (hn : n ∈ updateAt list a fun c => { c with state := .incomplete, ipaddress := key })
    (hstate : n.2.state = .complete) : n ∈ list := by
  rcases mem_updateAt.1 hn with ⟨hn, -⟩ | ⟨c, -, rfl⟩
  · exact hn
  · cases hstate

theorem entryAt_some {c : Cache} (h : entryAt list a = some c) : (a, c) ∈ list := by
  simp only [entryAt, Option.map_eq_some_iff] at h
  obtain ⟨n, hn, rfl⟩ := h
  have ha : n.1 = a := by simpa using List.find?_some hn
  rw [← ha]
  exact List.mem_of_find?_eq_some hn

theorem entryAt_of_mem {c : Cache} (hn : (addrs list).Nodup) (h : (a, c) ∈ list) :
    entryAt list a = some c := by
  induction list with
  | nil => cases h
  | cons n list ih =>
    rw [addrs_cons, List.nodup_cons] at hn
    rcases List.mem_cons.1 h with rfl | h
    · simp [entryAt]
    · have hne : (n.1 == a) = false := by
        rw [beq_eq_false_iff_ne]
        rintro rfl
        exact hn.1 (mem_addrs.2 ⟨c, h⟩)
      have := ih hn.2 h
      simpa [entryAt, hne] using this

theorem node_unique {n m : Node} (hn : (addrs list).Nodup) (h₁ : n ∈ list) (h₂ : m ∈ list)
    (h : n.1 = m.1) : n = m := by
  have e₁ := entryAt_of_mem hn (a := n.1) (c := n.2) h₁
  have e₂ := entryAt_of_mem hn (a := m.1) (c := m.2) h₂
  rw [h, e₂] at e₁
  exact Prod.ext h (Option.some.inj e₁).symm

theorem entry_unique {c d : Cache} (hn : (addrs list).Nodup) (h₁ : (a, c) ∈ list)
    (h₂ : (a, d) ∈ list) : c = d :=
  congrArg Prod.snd (node_unique hn h₁ h₂ rfl)

theorem getCacheByIpAddr_some {ip : Sockaddr} {n : Node} (h : getCacheByIpAddr list ip = some n) :
    n ∈ list ∧ n.2.ipaddress = ip :=
  ⟨List.mem_of_find?_eq_some h, by simpa using List.find?_some h⟩

theorem getCacheByIpAddr_none {ip : Sockaddr} :
    getCacheByIpAddr list ip = none ↔ ∀ n ∈ list, n.2.ipaddress ≠ ip := by
  simp [getCacheByIpAddr]

theorem getCacheBySocket_none {sock : Int} :
    getCacheBySocket list sock = none ↔ ∀ n ∈ list, n.2.domainSocket ≠ sock := by
  simp [getCacheBySocket]

end List

/-! ## The entry in the middle -/

theorem nextOf_middle {l₁ l₂ : List Node} {n : Node} (h : (addrs (l₁ ++ n :: l₂)).Nodup) :
    nextOf (l₁ ++ n :: l₂) n.1 = l₂.head?.map Prod.fst := by
  induction l₁ with
  | nil => exact if_pos rfl
  | cons m l₁ ih =>
    rw [List.cons_append, addrs_cons, List.nodup_cons] at h
    have hne : m.1 ≠ n.1 := by
      rintro heq
      exact h.1 (heq ▸ List.mem_map_of_mem (f := Prod.fst) (by simp))
    rw [List.cons_append, nextOf, if_neg hne, ih h.2]

theorem updateAt_middle {done ns : List Node} {n : Node} {f : Cache → Cache}
    (hnodup : (addrs (done ++ n :: ns)).Nodup) :
    updateAt (done ++ n :: ns) n.1 f = done ++ (n.1, f n.2) :: ns := by
  rw [addrs_append, addrs_cons, List.nodup_middle, List.nodup_cons] at hnodup
  have hid : ∀ l : List Node, n.1 ∉ addrs l →
      l.map (fun m => if m.1 = n.1 then (m.1, f m.2) else m) = l := by
    intro l hl
    refine (List.map_congr_left fun m hm => if_neg ?_).trans (List.map_id l)
    rintro heq
    exact hl (heq ▸ List.mem_map_of_mem hm)
  rw [List.mem_append, not_or] at hnodup
  rw [updateAt, List.map_append, List.map_cons, hid done hnodup.1.1, hid ns hnodup.1.2, if_pos rfl]

/-! ## Removal -/

section Remove

variable {list : List Node} {rm : Node}

theorem mem_of_mem_removeFromCache {n : Node} (h : n ∈ removeFromCache list rm) : n ∈ list :=
  List.mem_of_mem_eraseP h

theorem removeFromCache_sublist : (removeFromCache list rm).Sublist list := List.eraseP_sublist

/-- Removal of an entry of the list deletes no node behind it. -/
theorem removeFromCache_middle (l₁ l₂ : List Node) :
    removeFromCache (l₁ ++ rm :: l₂) rm = removeFromCache (l₁ ++ [rm]) rm ++ l₂ := by
  have hmem : rm ∈ l₁ ++ [rm] := by simp
  rw [List.append_cons]
  exact @List.eraseP_append_left _ (fun node => isSameCache node rm) rm (isSameCache_self rm) _ l₂
    hmem

theorem mem_removeFromCache_of_ne {n : Node} (hn : n ∈ list) (h : isSameCache n rm = false) :
    n ∈ removeFromCache list rm := by
  unfold removeFromCache
  rw [List.mem_eraseP_of_neg (by simp [h])]
  exact hn

end Remove

end Tour
