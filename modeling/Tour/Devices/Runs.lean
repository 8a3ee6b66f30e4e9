import Tour.Devices.HwAddrs

/-!
# The runs of `get_hw_addrs`

Everything that `get_hw_addrs` can do, said once. What the answers of the kernel make of a pass of
the growing loop is `pass`, and which allocation fails first among the records is `firstFailure`;
the loop ends at the first pass that does not ask for another (`EndsAt`). `GrowCase`, `ListCase` and
`CallCase` are the cases of the two loops and of the whole call, with what the process holds in each.
-/

namespace Tour

open Lib

variable (env : HwAddrsEnv)

/-! ## The passes -/

/-- `len` in a pass. -/
def lenAt (k : Nat) : Int32 := Int32.ofNat (100 * sizeofIfreq + k * (10 * sizeofIfreq))

/-- `lastlen` in a pass. -/
def lastlenAt : Nat → Int32
  | 0 => 0
  | k + 1 =>
    match env.gifconf k with
    | .error _ => lastlenAt k
    | .ok table => ifcLen (table.take (capacity (lenAt k)))

/-- What becomes of a pass. -/
inductive Pass
  /-- The buffer cannot be allocated. -/
  | noBuffer
  /-- `SIOCGIFCONF` fails for good. -/
  | fatal
  /-- There is another pass. -/
  | again
  /-- The loop ends with these records. -/
  | done (records : List Ifreq)

/-- The pass `k`, when there is one. -/
def pass (k : Nat) : Pass :=
  if !env.mallocOk k (lenAt k) then .noBuffer
  else match env.gifconf k with
    | .error e => if e ≠ .einval ∨ lastlenAt env k ≠ 0 then .fatal else .again
    | .ok table =>
      let records := table.take (capacity (lenAt k))
      if ifcLen records = lastlenAt env k then .done records else .again

/-- The growing loop gets to the pass `m`. -/
def Reached (m : Nat) : Prop := ∀ j < m, pass env j = .again

/-- The growing loop ends at the pass `m`. -/
def EndsAt (m : Nat) : Prop := Reached env m ∧ pass env m ≠ .again

variable {env}

theorem lenAt_succ (k : Nat) : lenAt (k + 1) = lenAt k + Int32.ofNat (10 * sizeofIfreq) := by
  rw [lenAt, lenAt, ← Int32.ofNat_add]
  congr 1
  rw [Nat.add_mul, Nat.one_mul, Nat.add_assoc]

/-- The socket and the buffers `bufs` of the passes before `k` are held, and no list yet. -/
structure Buffers (p : Proc) (k : Nat) (bufs : List Nat) : Prop where
  sockOpen : p.sockOpen = true
  settled : p.bufs.Settled bufs
  below : ∀ b ∈ p.bufs.taken, b < k
  nodes : p.nodes = ∅
  ips : p.ips = ∅

/-! ## The growing loop -/

section Grow

variable {p : Proc} {k : Nat}

theorem Buffers.take (h : Buffers p k []) :
    Buffers { p with bufs := p.bufs.take k } (k + 1) [k] := by
  refine ⟨h.sockOpen, h.settled.take fun hk => Nat.lt_irrefl k (h.below k hk), ?_, h.nodes, h.ips⟩
  exact List.forall_mem_cons.2 ⟨Nat.lt_succ_self k, fun b hb => Nat.lt_succ_of_lt (h.below b hb)⟩

theorem Buffers.freeBuf {buf : Nat} (h : Buffers p k [buf]) :
    ∃ p', p.freeBuf buf = some p' ∧ Buffers p' k [] := by
  obtain ⟨bufs, hfree, hsettled, htaken⟩ := h.settled.free
  refine ⟨{ p with bufs := bufs }, ?_, h.sockOpen, hsettled, ?_, h.nodes, h.ips⟩
  · simp only [Proc.freeBuf, hfree, bind, Option.bind]
  · rw [htaken]
    exact h.below

/-- How the growing loop ends at the pass `m`. -/
inductive GrowCase (m : Nat) : Pass → Grown → Prop
  | noBuffer {p : Proc} (h : Buffers p m []) : GrowCase m .noBuffer (.closeSock p)
  | fatal {p : Proc} (h : Buffers p (m + 1) [m]) : GrowCase m .fatal (.freeBuf p m)
  | done {p : Proc} {rs : List Ifreq} (h : Buffers p (m + 1) [m]) :
    GrowCase m (.done rs) (.records p m rs)

/-- One pass. -/
theorem growLoop_step (env : HwAddrsEnv) (fuel : Nat) (h : Buffers p k []) :
    (pass env k = .again ∧ ∃ p', Buffers p' (k + 1) [] ∧
      growLoop env (fuel + 1) k (lenAt k) (lastlenAt env k) p =
        growLoop env fuel (k + 1) (lenAt (k + 1)) (lastlenAt env (k + 1)) p') ∨
    (pass env k ≠ .again ∧ ∃ r, GrowCase k (pass env k) r ∧
      growLoop env (fuel + 1) k (lenAt k) (lastlenAt env k) p = some r) := by
  obtain ⟨p', hfree, h'⟩ := h.take.freeBuf
  rw [growLoop, pass, lenAt_succ]
  cases env.mallocOk k (lenAt k) with
  | false => exact .inr ⟨by simp, _, .noBuffer h, rfl⟩
  | true =>
    simp only [Bool.not_true, Bool.false_eq_true, if_false, lastlenAt]
    cases env.gifconf k with
    | error e =>
      by_cases hfatal : e ≠ .einval ∨ lastlenAt env k ≠ 0
      · simp only [if_pos hfatal]
        exact .inr ⟨by simp, _, .fatal h.take, rfl⟩
      · simp only [if_neg hfatal, hfree]
        exact .inl ⟨trivial, p', h', rfl⟩
    | ok table =>
      by_cases hdone : ifcLen (table.take (capacity (lenAt k))) = lastlenAt env k
      · simp only [if_pos hdone]
        exact .inr ⟨by simp, _, .done h.take, rfl⟩
      · simp only [if_neg hdone, hfree]
        exact .inl ⟨trivial, p', h', rfl⟩

/-- With fuel for the passes that are left, the loop ends as the pass `m` says. -/
theorem growLoop_run {m fuel : Nat} (hm : EndsAt env m) (h : Buffers p k []) (hk : k ≤ m)
    (hfuel : m - k < fuel) : ∃ r, GrowCase m (pass env m) r ∧
      growLoop env fuel k (lenAt k) (lastlenAt env k) p = some r := by
  induction fuel generalizing p k with
  | zero => cases hfuel
  | succ fuel ih =>
    rcases growLoop_step env fuel h with ⟨hagain, p', h', hstep⟩ | ⟨hend, hrun⟩
    · have hlt : k < m := Nat.lt_of_le_of_ne hk fun heq => hm.2 (heq ▸ hagain)
      rw [hstep]
      exact ih h' hlt (by omega)
    · have heq : k = m := by
        by_contra hne
        exact hend (hm.1 k (Nat.lt_of_le_of_ne hk hne))
      rw [← heq]
      exact hrun

/-- A loop that ends does so at some pass. -/
theorem growLoop_ends {fuel : Nat} {r : Grown} (h : Buffers p k [])
    (hbefore : Reached env k)
    (hrun : growLoop env fuel k (lenAt k) (lastlenAt env k) p = some r) :
    ∃ m, EndsAt env m ∧ GrowCase m (pass env m) r := by
  induction fuel generalizing p k with
  | zero => cases hrun
  | succ fuel ih =>
    rcases growLoop_step env fuel h with ⟨hagain, p', h', hstep⟩ | ⟨hend, r', hcase, hrun'⟩
    · rw [hstep] at hrun
      refine ih h' (fun j hj => ?_) hrun
      rcases Nat.lt_succ_iff_lt_or_eq.1 hj with hj | rfl
      · exact hbefore j hj
      · exact hagain
    · rw [hrun'] at hrun
      cases hrun
      exact ⟨k, ⟨hbefore, hend⟩, hcase⟩

end Grow

/-! ## The records -/

/-- The allocation that fails first. -/
inductive Failure
  | hwa
  | ip

/-- The allocation that fails first for the records from `i` on. -/
def firstFailure (env : HwAddrsEnv) : List Ifreq → Nat → Option Failure
  | [], _ => none
  | item :: items, i =>
    if !isEth0 item.ifrName then firstFailure env items (i + 1)
    else if !env.hwaOk i then some .hwa
    else if !env.ipOk i then some .ip
    else firstFailure env items (i + 1)

/-- The device that the record `item` at `i` is listed as. -/
def hwaInfoOf (env : HwAddrsEnv) (i : Nat) (item : Ifreq) : HwaInfo :=
  let q := query env i { item with ifrName := cutColon item.ifrName }
  ⟨q.1, q.2.toInt, item.addr⟩

/-- The devices of the records from `i` on. -/
def hwaInfos (env : HwAddrsEnv) : List Ifreq → Nat → List HwaInfo
  | [], _ => []
  | item :: items, i =>
    if isEth0 item.ifrName then hwaInfoOf env i item :: hwaInfos env items (i + 1)
    else hwaInfos env items (i + 1)

/-- The device that a node stands for. -/
def HwaNode.info (ips : Heap Sockaddr) (n : HwaNode) : Option HwaInfo := do
  let a ← n.ipAddr
  let c ← ips.load a
  some ⟨n.ifHaddr, n.ifIndex.toInt, c.val⟩

/-- The list `ns` has been built from records before `i`, for the devices `ds`; its nodes and their
addresses are all that is allocated for it. -/
structure Build.Lists (b : Build) (i : Nat) (ns : List (Addr × HwaNode)) (ds : List HwaInfo) :
    Prop where
  list : Tailed b.proc.nodes b.head b.tail ns
  below : ∀ a ∈ addrs ns, a < i
  nodes : ∀ a, a ∈ b.proc.nodes ↔ a ∈ addrs ns
  ips : ∀ a, a ∈ b.proc.ips ↔ a ∈ addrs ns
  ipAddr : ∀ n ∈ ns, n.2.ipAddr = some n.1
  infos : ns.map (fun n => n.2.info b.proc.ips) = ds.map some

/-- The socket and the buffers are as they were. -/
def Build.Keeps (b b' : Build) : Prop :=
  b'.proc.sockOpen = b.proc.sockOpen ∧ b'.proc.bufs = b.proc.bufs

section List

variable {b : Build} {i : Nat} {ns : List (Addr × HwaNode)} {ds : List HwaInfo} {item : Ifreq}

theorem Build.Lists.mono (h : b.Lists i ns ds) {j : Nat} (hij : i ≤ j) : b.Lists j ns ds :=
  { h with below := fun a ha => Nat.lt_of_lt_of_le (h.below a ha) hij }

theorem Build.Keeps.refl (b : Build) : b.Keeps b := ⟨rfl, rfl⟩

theorem Build.Keeps.trans {b₁ b₂ b₃ : Build} (h : b₁.Keeps b₂) (h' : b₂.Keeps b₃) : b₁.Keeps b₃ :=
  ⟨h'.1.trans h.1, h'.2.trans h.2⟩

/-- The node for a record is allocated and linked in. -/
theorem Build.Lists.linkHwa (h : b.Lists i ns ds) (v : HwaNode) : ∃ nodes nodes' head,
    b.proc.nodes.alloc i v = some nodes ∧ nodes.link b.head b.tail i = some (nodes', head) ∧
    Tailed nodes' head (some i) (ns ++ [(i, v)]) ∧
    ∀ a, a ∈ nodes' ↔ a ∈ addrs (ns ++ [(i, v)]) := by
  have hout : i ∉ addrs ns := fun hi => Nat.lt_irrefl i (h.below i hi)
  have hfresh : i ∉ b.proc.nodes := by rwa [h.nodes]
  have hframe : Tailed (b.proc.nodes.insert i ⟨v, none, none⟩) b.head b.tail ns := by
    refine h.list.frame fun a ha => ?_
    rw [Heap.load_insert, if_neg fun heq : a = i => hout (heq ▸ ha)]
  obtain ⟨nodes', head, hlink, htailed, hmem⟩ :=
    hframe.link ((Heap.load_insert i i _).trans (if_pos rfl)) hout
  refine ⟨_, nodes', head, Heap.alloc_of_not_mem v hfresh, hlink, htailed, fun a => ?_⟩
  rw [hmem, AList.mem_insert, h.nodes, addrs_append, List.mem_append, or_comm]
  simp

/-- A record of another name is skipped. -/
theorem addHwa_skip (hname : isEth0 item.ifrName = false) :
    addHwa env i item b = some (.next b) := by
  simp [addHwa, hname]

theorem addHwa_noHwa (hname : isEth0 item.ifrName = true) (hno : env.hwaOk i = false) :
    addHwa env i item b = some (.freeHwa b) := by
  simp [addHwa, hname, hno]

/-- When the IP address cannot be allocated, the node is in the list already. -/
theorem addHwa_noIp (h : b.Lists i ns ds) (hname : isEth0 item.ifrName = true)
    (hok : env.hwaOk i = true) (hno : env.ipOk i = false) :
    ∃ b', addHwa env i item b = some (.freeBuf b') ∧ b.Keeps b' ∧ i ∈ b'.proc.nodes := by
  obtain ⟨nodes, nodes', head, halloc, hlink, htailed, hmem⟩ :=
    h.linkHwa { HwaNode.calloc with ifName := terminated item.ifrName }
  obtain ⟨nodes'', hset, -, hmem'⟩ := htailed.setVal { HwaNode.calloc with
    ifName := terminated item.ifrName
    ipAlias := if sameName b.lastname (cutColon item.ifrName) then ipAlias else 0 }
  refine ⟨⟨{ b.proc with nodes := nodes'' }, head, some i, cutColon item.ifrName⟩, ?_, ⟨rfl, rfl⟩,
    (hmem' i).2 ((hmem i).2 (by simp))⟩
  simp only [addHwa, hname, hok, hno, halloc, hlink, hset, Bool.not_true, Bool.not_false,
    Bool.false_eq_true, if_false, if_true, bind, Option.bind]

/-- The node at `i`, last in the list, is filled in and its IP address is stored. -/
theorem Build.Lists.add (h : b.Lists i ns ds) {nodes : Heap HwaNode} {head : Option Addr}
    {v : HwaNode} (ht : Tailed nodes head (some i) (ns ++ [(i, v)]))
    (hmem : ∀ a, a ∈ nodes ↔ a ∈ addrs (ns ++ [(i, v)])) (hip : v.ipAddr = some i) (ip : Sockaddr)
    (name : Buf 16) :
    (⟨{ b.proc with nodes := nodes, ips := b.proc.ips.insert i ⟨ip, none, none⟩ }, head, some i,
      name⟩ : Build).Lists (i + 1) (ns ++ [(i, v)])
        (ds ++ [⟨v.ifHaddr, v.ifIndex.toInt, ip⟩]) := by
  have hout : i ∉ addrs ns := fun hi => Nat.lt_irrefl i (h.below i hi)
  refine ⟨ht, fun a ha => ?_, hmem, fun a => ?_, fun n hn => ?_, ?_⟩
  · rw [addrs_append, List.mem_append] at ha
    rcases ha with ha | ha
    · exact Nat.lt_succ_of_lt (h.below a ha)
    · rw [addrs_cons, addrs_nil, List.mem_singleton] at ha
      exact ha ▸ Nat.lt_succ_self i
  · rw [AList.mem_insert, h.ips, addrs_append, List.mem_append, or_comm]
    simp
  · rcases List.mem_append.1 hn with hn | hn
    · exact h.ipAddr n hn
    · cases List.mem_singleton.1 hn
      exact hip
  · -- the addresses of the other nodes are where they were
    have hold : ns.map (fun n => n.2.info (b.proc.ips.insert i ⟨ip, none, none⟩)) =
        ns.map fun n => n.2.info b.proc.ips := by
      refine List.map_congr_left fun n hn => ?_
      have hne : n.1 ≠ i := fun heq => hout (mem_addrs.2 ⟨n.2, heq ▸ hn⟩)
      simp only [HwaNode.info, h.ipAddr n hn, bind, Option.bind_some, Heap.load_insert, if_neg hne]
    rw [List.map_append, List.map_append, hold, h.infos]
    simp only [List.map_singleton, HwaNode.info, hip, bind, Option.bind_some, Heap.load_insert,
      if_true]

/-- The device of a record is added at the end of the list. -/
theorem addHwa_ok (h : b.Lists i ns ds) (hname : isEth0 item.ifrName = true)
    (hok : env.hwaOk i = true) (hipOk : env.ipOk i = true) :
    ∃ b' n, addHwa env i item b = some (.next b') ∧ b.Keeps b' ∧
      b'.Lists (i + 1) (ns ++ [n]) (ds ++ [hwaInfoOf env i item]) := by
  obtain ⟨nodes, nodes', head, halloc, hlink, htailed, hmem⟩ :=
    h.linkHwa { HwaNode.calloc with ifName := terminated item.ifrName }
  obtain ⟨nodes₁, hset₁, htailed₁, hmem₁⟩ := htailed.setVal { HwaNode.calloc with
    ifName := terminated item.ifrName
    ipAlias := if sameName b.lastname (cutColon item.ifrName) then ipAlias else 0 }
  obtain ⟨nodes₂, hset₂, htailed₂, hmem₂⟩ := htailed₁.setVal
    { ifName := terminated item.ifrName
      ipAlias := if sameName b.lastname (cutColon item.ifrName) then ipAlias else 0
      ipAddr := some i
      ifHaddr := (query env i { item with ifrName := cutColon item.ifrName }).1
      ifIndex := (query env i { item with ifrName := cutColon item.ifrName }).2 }
  have hips : b.proc.ips.alloc i item.addr = some (b.proc.ips.insert i ⟨item.addr, none, none⟩) :=
    Heap.alloc_of_not_mem _ fun hi => Nat.lt_irrefl i (h.below i ((h.ips i).1 hi))
  have hlists := h.add htailed₂
    (fun a => by rw [hmem₂, hmem₁, hmem, addrs_append, addrs_append]; rfl) rfl item.addr
    (cutColon item.ifrName)
  refine ⟨_, _, ?_, ?_, hlists⟩
  · simp only [addHwa, hname, hok, hipOk, halloc, hlink, hset₁, hset₂, hips, Bool.not_true,
      Bool.false_eq_true, if_false, bind, Option.bind]
  · exact ⟨rfl, rfl⟩

/-- How the loop over the records from `i` on ends, by the allocation that fails first. -/
inductive ListCase (env : HwAddrsEnv) (b : Build) (ds : List HwaInfo) (items : List Ifreq)
    (i : Nat) : Option Failure → Listed → Prop
  | done {b' : Build} {ns : List (Addr × HwaNode)}
    (h : b'.Lists (i + items.length) ns (ds ++ hwaInfos env items i)) (hkeeps : b.Keeps b') :
    ListCase env b ds items i none (.next b')
  | hwa {b' : Build} {j : Nat} {ns : List (Addr × HwaNode)} {ds' : List HwaInfo}
    (h : b'.Lists j ns ds') (hkeeps : b.Keeps b') :
    ListCase env b ds items i (some .hwa) (.freeHwa b')
  | ip {b' : Build} {a : Addr} (h : a ∈ b'.proc.nodes) (hkeeps : b.Keeps b') :
    ListCase env b ds items i (some .ip) (.freeBuf b')

/-- The case of the rest of the loop is the case of the loop. -/
theorem ListCase.cons {b' : Build} {ds' : List HwaInfo} {items : List Ifreq} {f : Option Failure}
    {r : Listed} (h : ListCase env b' ds' items (i + 1) f r) (hkeeps : b.Keeps b')
    (hds : ds' ++ hwaInfos env items (i + 1) = ds ++ hwaInfos env (item :: items) i) :
    ListCase env b ds (item :: items) i f r := by
  have hindex : i + (item :: items).length = i + 1 + items.length := by
    rw [List.length_cons]
    omega
  cases h with
  | done h hkeeps' =>
    rw [hds, ← hindex] at h
    exact .done h (hkeeps.trans hkeeps')
  | hwa h hkeeps' => exact .hwa h (hkeeps.trans hkeeps')
  | ip h hkeeps' => exact .ip h (hkeeps.trans hkeeps')

theorem listLoop_cases (env : HwAddrsEnv) (items : List Ifreq) (h : b.Lists i ns ds) :
    ∃ r, listLoop env items i b = some r ∧
      ListCase env b ds items i (firstFailure env items i) r := by
  induction items generalizing b i ns ds with
  | nil => exact ⟨_, rfl, .done (by simpa [hwaInfos] using h) (.refl b)⟩
  | cons item items ih =>
    rw [listLoop, firstFailure]
    cases hname : isEth0 item.ifrName with
    | false =>
      obtain ⟨r, hrun, hcase⟩ := ih (h.mono (Nat.le_succ i))
      refine ⟨r, by rw [addHwa_skip hname]; exact hrun, hcase.cons (.refl b) ?_⟩
      simp [hwaInfos, hname]
    | true =>
      cases hok : env.hwaOk i with
      | false =>
        refine ⟨.freeHwa b, by rw [addHwa_noHwa hname hok]; rfl, ?_⟩
        exact .hwa h (.refl b)
      | true =>
        cases hipOk : env.ipOk i with
        | false =>
          obtain ⟨b', hadd, hkeeps, hnode⟩ := addHwa_noIp h hname hok hipOk
          exact ⟨.freeBuf b', by rw [hadd]; rfl, .ip hnode hkeeps⟩
        | true =>
          obtain ⟨b', n, hadd, hkeeps, h'⟩ := addHwa_ok h hname hok hipOk
          obtain ⟨r, hrun, hcase⟩ := ih h'
          refine ⟨r, by rw [hadd]; exact hrun, hcase.cons hkeeps ?_⟩
          simp [hwaInfos, hname]

/-- A chain that is all there is, with the address of each node, is freed from its head on. -/
theorem freeHwaInfo_chain {p : Proc} {hwa : Option Addr} {ns : List (Addr × HwaNode)} {fuel : Nat}
    (hc : Chain p.nodes hwa ns) (hnodes : ∀ a, a ∈ p.nodes ↔ a ∈ addrs ns)
    (hips : ∀ a, a ∈ p.ips ↔ a ∈ addrs ns) (hip : ∀ n ∈ ns, n.2.ipAddr = some n.1)
    (hfuel : ns.length < fuel) : ∃ p', p.freeHwaInfo fuel hwa = some p' ∧
      p'.sockOpen = p.sockOpen ∧ p'.bufs = p.bufs ∧ ∀ a, a ∉ p'.nodes ∧ a ∉ p'.ips := by
  induction ns generalizing p hwa fuel with
  | nil =>
    cases fuel with
    | zero => cases hfuel
    | succ fuel =>
      cases hc
      refine ⟨p, rfl, rfl, rfl, fun a => ?_⟩
      rw [hnodes, hips]
      exact ⟨List.not_mem_nil, List.not_mem_nil⟩
  | cons n ns ih =>
    cases fuel with
    | zero => cases hfuel
    | succ fuel =>
      have hnodup := hc.nodup
      obtain ⟨rfl, c, hl, hv, hrest⟩ := hc.erase_first
      have hipc : c.val.ipAddr = some n.1 := by rw [hv]; exact hip n List.mem_cons_self
      have hnode : n.1 ∈ p.nodes := (hnodes n.1).2 (by simp)
      have hmem : n.1 ∈ p.ips := (hips n.1).2 (by simp)
      obtain ⟨p', hrun, hsock, hbufs, hempty⟩ :=
        ih (p := { p with nodes := p.nodes.erase n.1, ips := p.ips.erase n.1 }) hrest
          (Heap.mem_erase_first hnodup hnodes) (Heap.mem_erase_first hnodup hips)
          (fun m hm => hip m (List.mem_cons_of_mem _ hm)) (Nat.lt_of_succ_lt_succ hfuel)
      refine ⟨p', ?_, hsock, hbufs, hempty⟩
      simp only [Proc.freeHwaInfo, hl, hipc, Proc.freeIp, Heap.free, hmem, hnode, if_true, bind,
        Option.bind]
      exact hrun

end List

/-! ## The call -/

/-- The socket is closed, each buffer was freed, and no list is held. -/
structure Clean (p : Proc) : Prop where
  closed : p.sockOpen = false
  settled : p.bufs.Settled []
  list : ∀ a, a ∉ p.nodes ∧ a ∉ p.ips

/-- How the call ends when the growing loop ends with this pass. -/
inductive CallCase (env : HwAddrsEnv) : Pass → Proc × Option Addr → Prop
  | noBuffer {p : Proc} (h : Clean p) : CallCase env .noBuffer (p, none)
  | fatal {p : Proc} (h : Clean p) : CallCase env .fatal (p, none)
  | hwa {p : Proc} {rs : List Ifreq} (hfail : firstFailure env rs 0 = some .hwa) (h : Clean p) :
    CallCase env (.done rs) (p, none)
  | ip {p : Proc} {rs : List Ifreq} {a : Addr} (hfail : firstFailure env rs 0 = some .ip)
    (hbufs : p.bufs.Settled []) (h : a ∈ p.nodes) : CallCase env (.done rs) (p, none)
  | list {b : Build} {rs : List Ifreq} {i : Nat} {ns : List (Addr × HwaNode)}
    (hfail : firstFailure env rs 0 = none) (hopen : b.proc.sockOpen = true)
    (hbufs : b.proc.bufs.Settled []) (h : b.Lists i ns (hwaInfos env rs 0)) :
    CallCase env (.done rs) (b.proc, b.head)

theorem getHwAddrs_noSocket (fuel : Nat) (hs : env.socketOk = false) :
    getHwAddrs env fuel = some (.init, none) := by
  simp [getHwAddrs, hs]

theorem Buffers.init : Buffers { Proc.init with sockOpen := true } 0 [] :=
  ⟨rfl, Ledger.settled_empty, List.forall_mem_nil _, rfl, rfl⟩

/-- With every buffer freed and no list, closing the socket leaves nothing. -/
theorem Buffers.clean {p : Proc} {k : Nat} (h : Buffers p k []) : Clean p.close := by
  refine ⟨rfl, h.settled, fun a => ?_⟩
  simp only [Proc.close, h.nodes, h.ips]
  exact ⟨AList.notMem_empty a, AList.notMem_empty a⟩

/-- The list is empty before the loop over the records. -/
theorem Buffers.lists {p : Proc} {k : Nat} {bufs : List Nat} (h : Buffers p k bufs)
    (name : Buf 16) : (⟨p, none, none, name⟩ : Build).Lists 0 [] [] := by
  refine ⟨⟨rfl, rfl⟩, List.forall_mem_nil _, ?_, ?_, List.forall_mem_nil _, rfl⟩
  · simp [h.nodes, AList.notMem_empty]
  · simp [h.ips, AList.notMem_empty]

/-- The buffer is freed, whatever has become of the list. -/
theorem freeBuf_held {p : Proc} {buf : Nat} (h : p.bufs.Settled [buf]) : ∃ bufs,
    p.freeBuf buf = some { p with bufs := bufs } ∧ bufs.Settled [] := by
  obtain ⟨bufs, hfree, hsettled, -⟩ := h.free
  exact ⟨bufs, by simp only [Proc.freeBuf, hfree, bind, Option.bind], hsettled⟩

/-- What follows the growing loop, by the way it ended. -/
theorem getHwAddrsFrom_cases (env : HwAddrsEnv) {m : Nat} {pass : Pass} {g : Grown}
    (hcase : GrowCase m pass g) :
    ∃ r, getHwAddrsFrom env g = some r ∧ CallCase env pass r := by
  cases hcase with
  | noBuffer h => exact ⟨_, rfl, .noBuffer h.clean⟩
  | fatal h =>
    obtain ⟨p', hfree, h'⟩ := h.freeBuf
    exact ⟨_, by rw [getHwAddrsFrom, hfree]; rfl, .fatal h'.clean⟩
  | @done p rs h =>
    obtain ⟨r, hrun, hlist⟩ := listLoop_cases env rs
      (h.lists ⟨0 :: env.stack.bytes, by simp⟩)
    have hsettled : ∀ {b : Build}, b.proc.bufs = p.bufs → b.proc.bufs.Settled [m] :=
      fun heq => heq ▸ h.settled
    rw [getHwAddrsFrom, hrun]
    generalize hfail : firstFailure env rs 0 = f at hlist
    cases hlist with
    | @hwa b j ns ds hb hkeeps =>
      have hlength := hb.list.chain.length_le hb.list.chain.nodup
      obtain ⟨p₁, hfree₁, -, hbufs₁, hempty⟩ :=
        freeHwaInfo_chain hb.list.chain hb.nodes hb.ips hb.ipAddr (Nat.lt_succ_of_le hlength)
      obtain ⟨bufs, hfree₂, hsettled₂⟩ := freeBuf_held (hbufs₁ ▸ hsettled hkeeps.2)
      have hclean : Clean (Proc.close { p₁ with bufs := bufs }) := ⟨rfl, hsettled₂, hempty⟩
      refine ⟨_, ?_, .hwa hfail hclean⟩
      simp only [bind, Option.bind, hfree₁, hfree₂]
    | @ip b a ha hkeeps =>
      obtain ⟨bufs, hfree, hsettled'⟩ := freeBuf_held (hsettled hkeeps.2)
      refine ⟨(Proc.close { b.proc with bufs := bufs }, none), ?_, .ip hfail hsettled' ha⟩
      simp only [bind, Option.bind, hfree]
    | @done b ns hb hkeeps =>
      obtain ⟨bufs, hfree, hsettled'⟩ := freeBuf_held (hsettled hkeeps.2)
      let b' : Build := { b with proc := { b.proc with bufs := bufs } }
      have hlists : b'.Lists (0 + rs.length) ns (hwaInfos env rs 0) := { hb with }
      have hopen : b'.proc.sockOpen = true := hkeeps.1.trans h.sockOpen
      refine ⟨_, ?_, .list hfail hopen hsettled' hlists⟩
      simp only [bind, Option.bind, hfree]
      rfl

/-- With fuel for its passes, the call returns. -/
theorem getHwAddrs_run {m fuel : Nat} (hs : env.socketOk = true) (hm : EndsAt env m)
    (hfuel : m < fuel) : ∃ r, getHwAddrs env fuel = some r ∧ CallCase env (pass env m) r := by
  obtain ⟨g, hcase, hgrow⟩ := growLoop_run hm Buffers.init (Nat.zero_le m) hfuel
  obtain ⟨r, hfrom, hcall⟩ := getHwAddrsFrom_cases env hcase
  refine ⟨r, ?_, hcall⟩
  simp only [getHwAddrs, hs, Bool.not_true, Bool.false_eq_true, if_false]
  exact Option.bind_eq_some_iff.2 ⟨g, hgrow, hfrom⟩

/-- A call that returns has come to the end of the growing loop. -/
theorem getHwAddrs_ends {fuel : Nat} {r : Proc × Option Addr} (hs : env.socketOk = true)
    (hrun : getHwAddrs env fuel = some r) : ∃ m, EndsAt env m ∧ CallCase env (pass env m) r := by
  simp only [getHwAddrs, hs, Bool.not_true, Bool.false_eq_true, if_false] at hrun
  obtain ⟨g, hgrow, hfrom⟩ := Option.bind_eq_some_iff.1 hrun
  obtain ⟨m, hm, hcase⟩ :=
    growLoop_ends Buffers.init (fun j hj => absurd hj (Nat.not_lt_zero j)) hgrow
  obtain ⟨r', hfrom', hcall⟩ := getHwAddrsFrom_cases env hcase
  rw [hfrom] at hfrom'
  cases hfrom'
  exact ⟨m, hm, hcall⟩

/-! ## A host -/

/-- The answers of `steadyHost`. -/
def steadyMac (_ : Nat) (_ : Buf 16) : Sockaddr := ⟨arphrdEther, .fill 14 [2, 0, 0, 0, 0, 1]⟩

def steadyIndex (_ : Nat) (_ : Buf 16) : Int32 := 2

/-- The host where every call that can succeed does, and the table stays the same. -/
def steadyHost (table : List Ifreq) : HwAddrsEnv where
  socketOk := true
  mallocOk _ len := 0 ≤ len
  malloc_size _ _ := of_decide_eq_true
  gifconf _ := .ok table
  stack := .zero 15
  hwaOk _ := true
  ipOk _ := true
  gifhwaddr i r := some (steadyMac i r.ifrName)
  gifindex i r := some (steadyIndex i r.ifrName)

/-- The name `eth0`. -/
def eth0 : List UInt8 := [0x65, 0x74, 0x68, 0x30]

/-- The record of an interface. -/
def recordOf (name : List UInt8) : Ifreq := ⟨.fill 16 name, .zero 24⟩

end Tour
