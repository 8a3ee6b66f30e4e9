import Mathlib.Data.List.AList
import Mathlib.Data.List.Nodup
import Mathlib.Data.List.Perm.Subperm

/-!
# Linked lists in an explicit heap

A heap maps live addresses to cells with a value, a `next` and a `prev` link. Loads and stores are
checked: they are `none` at an address that is not live, so a computation that succeeds touched no
freed cell. `Chain h p ns` says that following `next` from `p` visits exactly the nodes `ns` and
ends at the null pointer; `Seg h p prv ns q lst` is the doubly linked segment `ns` that starts at
`p`, whose first `prev` is `prv`, whose last `next` is `q` and whose last node is `lst`.
-/

namespace Tour.Lib

/-- Addresses; the null pointer is the `none` of `Option Addr`. -/
abbrev Addr := Nat

/-- A list node in memory. -/
structure Cell (α : Type) where
  val : α
  next : Option Addr
  prev : Option Addr
deriving DecidableEq

/-- The live cells. -/
abbrev Heap (α : Type) := AList fun _ : Addr => Cell α

namespace Heap

variable {α : Type} (h : Heap α)

/-- Load a cell; `none` when the address is not live. -/
def load (a : Addr) : Option (Cell α) := h.lookup a

/-- Change a live cell in place. -/
def modify (a : Addr) (f : Cell α → Cell α) : Option (Heap α) :=
  (h.load a).map fun c => h.insert a (f c)

/-- `a->next = p`. -/
def setNext (a : Addr) (p : Option Addr) : Option (Heap α) := h.modify a fun c => { c with next := p }

/-- `a->prev = p`. -/
def setPrev (a : Addr) (p : Option Addr) : Option (Heap α) := h.modify a fun c => { c with prev := p }

/-- `if (p != NULL) p->prev = q;` -/
def setPrevOf (p q : Option Addr) : Option (Heap α) :=
  match p with
  | some a => h.setPrev a q
  | none => some h

/-- Store a new value in a live cell. -/
def setVal (a : Addr) (v : α) : Option (Heap α) := h.modify a fun c => { c with val := v }

/-- `calloc`: a cell with null links at an address that is not live. -/
def alloc (a : Addr) (v : α) : Option (Heap α) :=
  if a ∈ h then none else some (h.insert a ⟨v, none, none⟩)

/-- `free`: the address stops being live; freeing it again fails. -/
def free (a : Addr) : Option (Heap α) := if a ∈ h then some (h.erase a) else none

/-- The number of live cells. -/
def size : Nat := h.keys.length

variable {h}

theorem load_insert (a b : Addr) (c : Cell α) :
    Heap.load (h.insert a c) b = if b = a then some c else h.load b := by
  unfold load
  split
  · rename_i e; subst e; exact AList.lookup_insert h
  · rename_i e; exact AList.lookup_insert_ne e

theorem load_erase (a b : Addr) :
    Heap.load (h.erase a) b = if b = a then none else h.load b := by
  unfold load
  split
  · rename_i e; subst e; exact AList.lookup_erase b h
  · rename_i e; exact AList.lookup_erase_ne e

theorem mem_iff_load {a : Addr} : a ∈ h ↔ ∃ c, h.load a = some c := by
  rw [← AList.lookup_isSome, Option.isSome_iff_exists]; rfl

theorem modify_of_load {a : Addr} {c : Cell α} (f : Cell α → Cell α) (hc : h.load a = some c) :
    h.modify a f = some (h.insert a (f c)) := by
  simp only [modify, hc, Option.map_some]

/-- A store changes the cell it names and no other. -/
theorem load_modify {a b : Addr} {f : Cell α → Cell α} {h' : Heap α} (hm : h.modify a f = some h') :
    h'.load b = if b = a then (h.load a).map f else h.load b := by
  obtain ⟨c, hc, rfl⟩ := Option.map_eq_some_iff.1 hm
  rw [load_insert, hc]
  rfl

theorem alloc_of_not_mem {a : Addr} (v : α) (ha : a ∉ h) :
    h.alloc a v = some (h.insert a ⟨v, none, none⟩) := by
  simp only [alloc, ha, if_false]

theorem free_of_load {a : Addr} {c : Cell α} (hc : h.load a = some c) :
    h.free a = some (h.erase a) := by
  simp only [free, mem_iff_load.2 ⟨c, hc⟩, if_true]

end Heap

variable {α : Type}

/-! ## Following `next` -/

/-- Following `next` from `p` visits the nodes `ns`, each live, and ends at the null pointer. -/
def Chain (h : Heap α) : Option Addr → List (Addr × α) → Prop
  | p, [] => p = none
  | p, n :: ns => p = some n.1 ∧ ∃ c, h.load n.1 = some c ∧ c.val = n.2 ∧ Chain h c.next ns

/-- The addresses of a list of nodes. -/
def addrs (ns : List (Addr × α)) : List Addr := ns.map Prod.fst

@[simp] theorem addrs_nil : addrs ([] : List (Addr × α)) = [] := rfl

@[simp] theorem addrs_cons (n : Addr × α) (ns : List (Addr × α)) :
    addrs (n :: ns) = n.1 :: addrs ns := rfl

@[simp] theorem addrs_append (xs ys : List (Addr × α)) :
    addrs (xs ++ ys) = addrs xs ++ addrs ys := List.map_append

theorem mem_addrs {a : Addr} {ns : List (Addr × α)} : a ∈ addrs ns ↔ ∃ v, (a, v) ∈ ns := by
  simp [addrs]

namespace Chain

variable {h h' : Heap α} {p : Option Addr} {ns : List (Addr × α)}

theorem live (hc : Chain h p ns) : ∀ n ∈ ns, ∃ c, h.load n.1 = some c ∧ c.val = n.2 := by
  induction ns generalizing p with
  | nil => intro n hn; cases hn
  | cons m ns ih =>
    obtain ⟨-, c, hl, hv, hrest⟩ := hc
    intro n hn
    rcases List.mem_cons.1 hn with rfl | hn
    · exact ⟨c, hl, hv⟩
    · exact ih hrest n hn

/-- Cells outside the chain do not matter, and neither do its `prev` links. -/
theorem frame (hc : Chain h p ns) (heq : ∀ a ∈ addrs ns, ∀ c, h.load a = some c →
    ∃ c', h'.load a = some c' ∧ c'.val = c.val ∧ c'.next = c.next) : Chain h' p ns := by
  induction ns generalizing p with
  | nil => exact hc
  | cons n ns ih =>
    obtain ⟨hp, c, hl, hv, hrest⟩ := hc
    obtain ⟨c', hl', hv', hnext⟩ := heq n.1 (by simp) c hl
    refine ⟨hp, c', hl', hv'.trans hv, ih (hnext ▸ hrest) fun a ha => heq a (by simp [ha])⟩

theorem length_le (hc : Chain h p ns) (hn : (addrs ns).Nodup) : ns.length ≤ h.size := by
  have hsub : addrs ns ⊆ h.keys := by
    intro a ha
    obtain ⟨v, hv⟩ := mem_addrs.1 ha
    obtain ⟨c, hl, -⟩ := hc.live _ hv
    exact AList.mem_keys.1 (Heap.mem_iff_load.2 ⟨c, hl⟩)
  have hle := (hn.subperm hsub).length_le
  simpa [addrs, Heap.size] using hle

/-- What `next` visits from a pointer is determined. -/
theorem unique {ms : List (Addr × α)} (hc : Chain h p ns) (hm : Chain h p ms) : ns = ms := by
  induction ns generalizing p ms with
  | nil =>
    cases hc
    cases ms with
    | nil => rfl
    | cons m ms => cases hm.1
  | cons n ns ih =>
    obtain ⟨rfl, c, hl, hv, hrest⟩ := hc
    cases ms with
    | nil => cases hm
    | cons m ms =>
      obtain ⟨hp, d, hl', hv', hrest'⟩ := hm
      have ha : n.1 = m.1 := Option.some.inj hp
      rw [← ha, hl] at hl'
      cases hl'
      rw [ih hrest hrest', Prod.ext ha (hv.symm.trans hv')]

theorem append {xs ys : List (Addr × α)} (hc : Chain h p (xs ++ ys)) : ∃ q, Chain h q ys := by
  induction xs generalizing p with
  | nil => exact ⟨p, hc⟩
  | cons x xs ih =>
    obtain ⟨-, c, -, -, hrest⟩ := hc
    exact ih hrest

/-- A list that ends visits no node twice: from the second visit on it would be as long as from the
first. -/
theorem nodup (hc : Chain h p ns) : (addrs ns).Nodup := by
  induction ns generalizing p with
  | nil => exact List.nodup_nil
  | cons n ns ih =>
    obtain ⟨c, hl, hv, hrest⟩ := hc.2
    rw [addrs_cons, List.nodup_cons]
    refine ⟨fun hmem => ?_, ih hrest⟩
    obtain ⟨v, hmem⟩ := mem_addrs.1 hmem
    obtain ⟨xs, ys, rfl⟩ := List.append_of_mem hmem
    obtain ⟨q, hq⟩ := hrest.append
    have hsame := (hq.1 ▸ hq).unique (hc.1 ▸ hc)
    have hlen := congrArg List.length hsame
    simp only [List.length_cons, List.length_append] at hlen
    omega

/-- A store into a node changes its value in the list. -/
theorem setVal {a : Addr} {v : α} (hc : Chain h p ns) (hs : h.setVal a v = some h') :
    Chain h' p (ns.map fun n => if n.1 = a then (n.1, v) else n) := by
  induction ns generalizing p with
  | nil => exact hc
  | cons n ns ih =>
    obtain ⟨hp, c, hl, hv, hrest⟩ := hc
    have hload := Heap.load_modify (b := n.1) hs
    rw [List.map_cons]
    split
    · rename_i ha
      rw [if_pos ha, ← ha, hl] at hload
      exact ⟨hp, _, hload, rfl, ih hrest⟩
    · rename_i ha
      rw [if_neg ha, hl] at hload
      exact ⟨hp, _, hload, hv, ih hrest⟩

end Chain

/-! ## Adding at the end -/

/-- `*tailp = a;`, where `tailp` points to the head of a list or to the `next` of its last node. -/
def Heap.link (h : Heap α) (head tail : Option Addr) (a : Addr) : Option (Heap α × Option Addr) :=
  match tail with
  | none => some (h, some a)
  | some t => (h.setNext t (some a)).map fun h' => (h', head)

/-- A list with a pointer to its last node. -/
structure Tailed (h : Heap α) (head tail : Option Addr) (ns : List (Addr × α)) : Prop where
  chain : Chain h head ns
  last : tail = (addrs ns).getLast?

/-- A store into the `next` of the last node lengthens the list. -/
theorem Chain.setNext_last {h h' : Heap α} {p prv : Option Addr} {a : Addr} {v : α} {n : Addr × α}
    {xs : List (Addr × α)} (hc : Chain h p (xs ++ [n])) (hs : h.setNext n.1 (some a) = some h')
    (ha : h.load a = some ⟨v, none, prv⟩) (hout : a ∉ addrs (xs ++ [n])) :
    Chain h' p (xs ++ [n] ++ [(a, v)]) := by
  have hnodup := hc.nodup
  induction xs generalizing p with
  | nil =>
    obtain ⟨hp, c, hl, hv, -⟩ := hc
    have hn := Heap.load_modify (b := n.1) hs
    have hnew := Heap.load_modify (b := a) hs
    rw [if_pos rfl, hl] at hn
    rw [if_neg (fun heq => hout (by simp [heq])), ha] at hnew
    exact ⟨hp, _, hn, hv, rfl, _, hnew, rfl, rfl⟩
  | cons x xs ih =>
    obtain ⟨hp, c, hl, hv, hrest⟩ := hc
    rw [List.cons_append, addrs_cons, List.nodup_cons] at hnodup
    rw [List.cons_append, addrs_cons, List.mem_cons, not_or] at hout
    have hx := Heap.load_modify (b := x.1) hs
    rw [if_neg (fun heq => hnodup.1 (by simp [heq])), hl] at hx
    exact ⟨hp, c, hx, hv, ih hrest hout.2 hnodup.2⟩

theorem Tailed.link {h : Heap α} {head tail prv : Option Addr} {a : Addr} {v : α}
    {ns : List (Addr × α)} (ht : Tailed h head tail ns) (ha : h.load a = some ⟨v, none, prv⟩)
    (hout : a ∉ addrs ns) : ∃ h' head', h.link head tail a = some (h', head') ∧
      Tailed h' head' (some a) (ns ++ [(a, v)]) ∧ ∀ b, b ∈ h' ↔ b ∈ h := by
  obtain ⟨hc, rfl⟩ := ht
  have hlast : some a = (addrs (ns ++ [(a, v)])).getLast? := by simp
  rcases List.eq_nil_or_concat ns with rfl | ⟨xs, n, rfl⟩
  · exact ⟨h, some a, rfl, ⟨⟨rfl, _, ha, rfl, rfl⟩, hlast⟩, fun b => Iff.rfl⟩
  · rw [List.concat_eq_append] at *
    obtain ⟨c, hl, -⟩ := hc.live n (by simp)
    have hs := Heap.modify_of_load (fun c => { c with next := some a }) hl
    refine ⟨_, head, ?_, ⟨hc.setNext_last hs ha hout, hlast⟩, fun b => ?_⟩
    · rw [addrs_append, addrs_cons, addrs_nil, List.getLast?_concat]
      simp only [Heap.link, Heap.setNext, hs, Option.map_some]
    · rw [AList.mem_insert, or_iff_right_of_imp]
      rintro rfl
      exact Heap.mem_iff_load.2 ⟨c, hl⟩

/-- Cells outside the list do not matter. -/
theorem Tailed.frame {h h' : Heap α} {head tail : Option Addr} {ns : List (Addr × α)}
    (ht : Tailed h head tail ns) (heq : ∀ a ∈ addrs ns, h'.load a = h.load a) :
    Tailed h' head tail ns :=
  ⟨ht.chain.frame fun a ha c hc => ⟨c, (heq a ha).trans hc, rfl, rfl⟩, ht.last⟩

/-- A store into the last node. -/
theorem Tailed.setVal {h : Heap α} {head : Option Addr} {a : Addr} {v : α} {ns : List (Addr × α)}
    (ht : Tailed h head (some a) (ns ++ [(a, v)])) (v' : α) : ∃ h', h.setVal a v' = some h' ∧
      Tailed h' head (some a) (ns ++ [(a, v')]) ∧ ∀ b, b ∈ h' ↔ b ∈ h := by
  obtain ⟨c, hl, -⟩ := ht.chain.live (a, v) (by simp)
  have hs : h.setVal a v' = some (h.insert a { c with val := v' }) := Heap.modify_of_load _ hl
  have hout : a ∉ addrs ns := by
    have hnodup := ht.chain.nodup
    rw [addrs_append, List.nodup_append] at hnodup
    exact fun ha => hnodup.2.2 a ha a (by simp) rfl
  have hmap : ns.map (fun n => if n.1 = a then (n.1, v') else n) = ns := by
    rw [List.map_congr_left fun n hn => if_neg fun heq => hout (mem_addrs.2 ⟨n.2, heq ▸ hn⟩),
      List.map_id']
  have hchain := ht.chain.setVal hs
  rw [List.map_append, hmap, List.map_singleton, if_pos rfl] at hchain
  refine ⟨_, hs, ⟨hchain, by simp⟩, fun b => ?_⟩
  rw [AList.mem_insert, or_iff_right_of_imp]
  rintro rfl
  exact Heap.mem_iff_load.2 ⟨c, hl⟩

/-! ## Freeing the first node -/

/-- The rest of a chain does not go through the first node. -/
theorem Chain.erase_first {h : Heap α} {p : Option Addr} {n : Addr × α} {ns : List (Addr × α)}
    (hc : Chain h p (n :: ns)) : p = some n.1 ∧ ∃ c, h.load n.1 = some c ∧ c.val = n.2 ∧
      Chain (h.erase n.1) c.next ns := by
  have hnodup := hc.nodup
  rw [addrs_cons, List.nodup_cons] at hnodup
  obtain ⟨hp, c, hl, hv, hrest⟩ := hc
  refine ⟨hp, c, hl, hv, hrest.frame fun a ha d hd => ⟨d, ?_, rfl, rfl⟩⟩
  rw [Heap.load_erase, if_neg fun heq : a = n.1 => hnodup.1 (heq ▸ ha), hd]

/-- Where the nodes of a list are all there is, the others are what is left. -/
theorem Heap.mem_erase_first {β : Type} {h : Heap β} {n : Addr × α} {ns : List (Addr × α)}
    (hn : (addrs (n :: ns)).Nodup) (hh : ∀ a, a ∈ h ↔ a ∈ addrs (n :: ns)) (a : Addr) :
    a ∈ h.erase n.1 ↔ a ∈ addrs ns := by
  rw [addrs_cons, List.nodup_cons] at hn
  rw [AList.mem_erase, hh, addrs_cons, List.mem_cons]
  constructor
  · rintro ⟨hne, ha⟩
    exact ha.resolve_left hne
  · exact fun ha => ⟨fun heq => hn.1 (heq ▸ ha), Or.inr ha⟩

/-! ## Searching -/

/-- `while (node != NULL) { if (test(node)) break; node = node->next; }`: the node at which the
loop stops. The loop runs at most once per live cell unless it never ends, so `fuel` is the number
of live cells plus one. -/
def Heap.search (h : Heap α) (test : Addr → Option Bool) : Nat → Option Addr → Option (Option Addr)
  | 0, _ => none
  | _ + 1, none => some none
  | fuel + 1, some a => do
    if ← test a then some (some a)
    else
      let c ← h.load a
      search h test fuel c.next

/-- On a chain the loop ends where the search in the list does. -/
theorem Chain.searchM {h : Heap α} {test : Addr → Option Bool} {Q : Addr × α → Option Bool}
    {p : Option Addr} {ns : List (Addr × α)} (hc : Chain h p ns)
    (htest : ∀ n ∈ ns, test n.1 = Q n) {fuel : Nat} (hf : ns.length < fuel) :
    h.search test fuel p = (ns.findM? Q).map (Option.map Prod.fst) := by
  induction ns generalizing p fuel with
  | nil =>
    cases fuel with
    | zero => cases hf
    | succ fuel => cases hc; rfl
  | cons n ns ih =>
    cases fuel with
    | zero => cases hf
    | succ fuel =>
      obtain ⟨hp, c, hl, -, hrest⟩ := hc
      subst hp
      have hfuel : ns.length < fuel := by simpa using hf
      have hrec := ih hrest (fun m hm => htest m (List.mem_cons_of_mem _ hm)) hfuel
      have htn := htest n List.mem_cons_self
      cases hQ : Q n with
      | none => simp [Heap.search, List.findM?, htn, hQ]
      | some b =>
        cases b with
        | true => simp [Heap.search, List.findM?, htn, hQ]
        | false => simp [Heap.search, List.findM?, htn, hQ, hl, hrec]

/-- The loop ends at the first node that passes a test that does not fail. -/
theorem Chain.search {h : Heap α} {test : Addr → Option Bool} {P : Addr × α → Bool}
    {p : Option Addr} {ns : List (Addr × α)} (hc : Chain h p ns)
    (htest : ∀ n ∈ ns, test n.1 = some (P n)) {fuel : Nat} (hf : ns.length < fuel) :
    h.search test fuel p = some ((ns.find? P).map Prod.fst) := by
  rw [hc.searchM htest hf]
  exact congrArg (Option.map _) (List.findM?_pure P ns)

/-! ## Doubly linked segments -/

/-- The doubly linked segment `ns` (see the module docstring). -/
def Seg (h : Heap α) :
    Option Addr → Option Addr → List (Addr × α) → Option Addr → Option Addr → Prop
  | p, prv, [], q, lst => p = q ∧ prv = lst
  | p, prv, n :: ns, q, lst =>
    p = some n.1 ∧ ∃ nxt, h.load n.1 = some ⟨n.2, nxt, prv⟩ ∧ Seg h nxt (some n.1) ns q lst

namespace Seg

variable {h h' : Heap α} {p prv q lst : Option Addr} {ns xs ys : List (Addr × α)}

/-- Cells outside the segment do not matter. -/
theorem frame (hs : Seg h p prv ns q lst) (heq : ∀ a ∈ addrs ns, h'.load a = h.load a) :
    Seg h' p prv ns q lst := by
  induction ns generalizing p prv with
  | nil => exact hs
  | cons n ns ih =>
    obtain ⟨hp, nxt, hl, hrest⟩ := hs
    refine ⟨hp, nxt, ?_, ih hrest fun a ha => heq a (by simp [ha])⟩
    rw [heq n.1 (by simp), hl]

theorem append : Seg h p prv (xs ++ ys) q lst ↔
    ∃ r l, Seg h p prv xs r l ∧ Seg h r l ys q lst := by
  induction xs generalizing p prv with
  | nil =>
    constructor
    · intro hs; exact ⟨p, prv, ⟨rfl, rfl⟩, hs⟩
    · rintro ⟨r, l, ⟨rfl, rfl⟩, hs⟩; exact hs
  | cons n xs ih =>
    constructor
    · rintro ⟨hp, nxt, hl, hrest⟩
      obtain ⟨r, l, hx, hy⟩ := ih.1 hrest
      exact ⟨r, l, ⟨hp, nxt, hl, hx⟩, hy⟩
    · rintro ⟨r, l, ⟨hp, nxt, hl, hx⟩, hy⟩
      exact ⟨hp, nxt, hl, ih.2 ⟨r, l, hx, hy⟩⟩

theorem chain (hs : Seg h p prv ns none lst) : Chain h p ns := by
  induction ns generalizing p prv with
  | nil => exact hs.1
  | cons n ns ih =>
    obtain ⟨hp, nxt, hl, hrest⟩ := hs
    exact ⟨hp, _, hl, rfl, ih hrest⟩

theorem setPrev {n : Addr × α} (hs : Seg h p prv (n :: ns) q lst) (hn : (addrs (n :: ns)).Nodup)
    (prv' : Option Addr) : ∃ h', h.setPrev n.1 prv' = some h' ∧ Seg h' p prv' (n :: ns) q lst ∧
      ∀ a, a ≠ n.1 → h'.load a = h.load a := by
  obtain ⟨hp, nxt, hl, hrest⟩ := hs
  have hframe : ∀ a, a ≠ n.1 → Heap.load (h.insert n.1 ⟨n.2, nxt, prv'⟩) a = h.load a := by
    intro a ha; rw [Heap.load_insert, if_neg ha]
  refine ⟨_, Heap.modify_of_load _ hl, ⟨hp, nxt, ?_, ?_⟩, hframe⟩
  · rw [Heap.load_insert, if_pos rfl]
  · refine hrest.frame fun a ha => hframe a ?_
    rintro rfl
    exact (List.nodup_cons.1 hn).1 ha

theorem relink (hs : Seg h p prv ns none lst) (hn : (addrs ns).Nodup) (prv' : Option Addr) :
    ∃ h', h.setPrevOf p prv' = some h' ∧
      (∃ lst', Seg h' p prv' ns none lst') ∧ ∀ a, a ∉ addrs ns → h'.load a = h.load a := by
  cases ns with
  | nil =>
    obtain ⟨rfl, -⟩ := hs
    exact ⟨h, rfl, ⟨prv', rfl, rfl⟩, fun _ _ => rfl⟩
  | cons n ns =>
    obtain ⟨h', he, hs', hf⟩ := hs.setPrev hn prv'
    obtain ⟨rfl, -⟩ := hs
    refine ⟨h', he, ⟨lst, hs'⟩, fun a ha => hf a ?_⟩
    rintro rfl
    exact ha (by simp)

end Seg

end Tour.Lib
