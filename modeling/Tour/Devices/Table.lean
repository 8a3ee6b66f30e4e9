import Tour.Devices.Runs

/-!
# The devices of a fixed table

When no call fails and the table of the interfaces does not change, a pass that has room for the
whole table is followed by one that reads the same length, and no pass before it is: the growing loop
ends with the whole table, and the list has the devices named `eth0` in the order of the table. The
size of the buffer is an `int`. For a table of more than `maxRecords` the loop comes to a pass with a
negative size, which `malloc` does not grant: some allocation fails in such a call
(`FixedTable.length_le`).
-/

namespace Tour

open Lib

/-- The longest table for which no size is negative. -/
def maxRecords : Nat := 53687080

/-- Every call that is made succeeds, `SIOCGIFCONF` reads `table`, and the other two ioctls answer for
the record at an index by its name. -/
structure FixedTable (env : HwAddrsEnv) (table : List Ifreq) (mac : Nat → Buf 16 → Sockaddr)
    (index : Nat → Buf 16 → Int32) : Prop where
  socketOk : env.socketOk = true
  mallocOk : ∀ k, Reached env k → env.mallocOk k (lenAt k) = true
  gifconf : ∀ k, env.gifconf k = .ok table
  hwaOk : ∀ i, env.hwaOk i = true
  ipOk : ∀ i, env.ipOk i = true
  gifhwaddr : ∀ i r, env.gifhwaddr i r = some (mac i r.ifrName)
  gifindex : ∀ i r, env.gifindex i r = some (index i r.ifrName)

/-- The devices of a table: the records named `eth0`, each with its MAC, index and IP address. -/
def devicesOf (table : List Ifreq) (mac : Nat → Buf 16 → Sockaddr)
    (index : Nat → Buf 16 → Int32) : List HwaInfo :=
  (table.zipIdx.filter fun e => isEth0 e.1.ifrName).map fun e =>
    ⟨(mac e.2 e.1.ifrName).saData.slice 0 6 (by decide), (index e.2 e.1.ifrName).toInt, e.1.addr⟩

/-- With enough fuel the growing loop ends with the whole table, and the call returns the list of
its devices. -/
def Complete (env : HwAddrsEnv) (table : List Ifreq) (mac : Nat → Buf 16 → Sockaddr)
    (index : Nat → Buf 16 → Int32) : Prop :=
  ∃ k, ∀ fuel, k < fuel →
    (∃ p buf, growLoop env fuel 0 (Int32.ofNat (100 * sizeofIfreq)) 0
      { Proc.init with sockOpen := true } = some (.records p buf table)) ∧
    ∃ p head ns, getHwAddrs env fuel = some (p, head) ∧ Chain p.nodes head ns ∧
      ns.map (fun n => n.2.info p.ips) = (devicesOf table mac index).map some

/-! ## Lengths -/

/-- The lengths of what two buffers have room for. -/
theorem ifcLen_take_inj (table : List Ifreq) {a b : Nat} (ha : a ≤ maxRecords + 10)
    (hb : b ≤ maxRecords + 10) :
    ifcLen (table.take a) = ifcLen (table.take b) ↔ min a table.length = min b table.length := by
  have hlt : ∀ c ≤ maxRecords + 10, sizeofIfreq * min c table.length < 2 ^ 31 := by
    intro c hc
    simp only [maxRecords, sizeofIfreq] at *
    omega
  rw [ifcLen, ifcLen, List.length_take, List.length_take, ← Int32.toInt_inj,
    Int32.toInt_ofNat_of_lt (hlt a ha), Int32.toInt_ofNat_of_lt (hlt b hb)]
  simp only [sizeofIfreq]
  omega

/-- The size of the buffer in a pass before it is negative. -/
theorem toInt_lenAt {k : Nat} (hk : 100 + 10 * k ≤ maxRecords + 10) :
    (lenAt k).toInt = ((100 + 10 * k) * sizeofIfreq : Nat) := by
  have hlt : 100 * sizeofIfreq + k * (10 * sizeofIfreq) < 2 ^ 31 := by
    simp only [maxRecords, sizeofIfreq] at *
    omega
  rw [lenAt, Int32.toInt_ofNat_of_lt hlt]
  simp only [sizeofIfreq]
  omega

theorem lenAt_nonneg {k : Nat} (hk : 100 + 10 * k ≤ maxRecords + 10) : 0 ≤ lenAt k := by
  rw [Int32.le_iff_toInt_le, toInt_lenAt hk]
  exact Int.natCast_nonneg _

/-- In each pass the buffer has room for ten records more. -/
theorem capacity_lenAt {k : Nat} (hk : 100 + 10 * k ≤ maxRecords + 10) :
    capacity (lenAt k) = 100 + 10 * k := by
  rw [capacity, toInt_lenAt hk, Int.toNat_natCast, Nat.mul_div_cancel _ (by decide)]

section Passes

variable {env : HwAddrsEnv} {table : List Ifreq}

theorem pass_eq (hconf : ∀ k, env.gifconf k = .ok table) {k : Nat}
    (hmalloc : env.mallocOk k (lenAt k) = true) : pass env k =
    if ifcLen (table.take (capacity (lenAt k))) = lastlenAt env k then
      .done (table.take (capacity (lenAt k)))
    else .again := by
  simp [pass, hmalloc, hconf]

theorem lastlenAt_succ (hconf : ∀ k, env.gifconf k = .ok table) (k : Nat) :
    lastlenAt env (k + 1) = ifcLen (table.take (capacity (lenAt k))) := by
  simp [lastlenAt, hconf]

/-- The first pass is the last for an empty table only: no other length is the sentinel. -/
theorem pass_zero (hconf : ∀ k, env.gifconf k = .ok table)
    (hmalloc : env.mallocOk 0 (lenAt 0) = true) :
    pass env 0 = if table = [] then .done [] else .again := by
  have hcap : capacity (lenAt 0) = 100 := capacity_lenAt (by decide)
  have hzero : lastlenAt env 0 = ifcLen (table.take 0) := rfl
  have hinj := ifcLen_take_inj table (a := 100) (b := 0) (by decide) (Nat.zero_le _)
  rw [pass_eq hconf hmalloc, hcap, hzero]
  by_cases hnil : table = []
  · simp [hnil]
  · have hlength := List.length_pos_iff.2 hnil
    rw [if_neg hnil, if_neg]
    rw [hinj]
    omega

/-- A later pass is the last exactly when the one before it had room for the whole table. -/
theorem pass_succ (hconf : ∀ k, env.gifconf k = .ok table) {k : Nat}
    (hk : 100 + 10 * (k + 1) ≤ maxRecords + 10)
    (hmalloc : env.mallocOk (k + 1) (lenAt (k + 1)) = true) :
    pass env (k + 1) = if table.length ≤ 100 + 10 * k then .done table else .again := by
  have hinj := ifcLen_take_inj table hk (b := 100 + 10 * k) (by omega)
  rw [pass_eq hconf hmalloc, lastlenAt_succ hconf, capacity_lenAt hk, capacity_lenAt (by omega)]
  by_cases hle : table.length ≤ 100 + 10 * k
  · rw [if_pos hle, if_pos (hinj.2 (by omega)), List.take_of_length_le (by omega)]
  · rw [if_neg hle, if_neg]
    rw [hinj]
    omega

/-- The pass that ends the growing loop. -/
def endPass (table : List Ifreq) : Nat :=
  if table = [] then 0 else (table.length - 100 + 9) / 10 + 1

/-- The size of the buffer is not negative before the loop ends. -/
theorem endPass_le (hlen : table.length ≤ maxRecords) :
    100 + 10 * endPass table ≤ maxRecords + 10 := by
  rw [endPass]
  rw [maxRecords] at *
  split <;> omega

theorem pass_endPass (hconf : ∀ k, env.gifconf k = .ok table) (hlen : table.length ≤ maxRecords)
    (hmalloc : env.mallocOk (endPass table) (lenAt (endPass table)) = true) :
    pass env (endPass table) = .done table := by
  have hle := endPass_le hlen
  by_cases hnil : table = []
  · rw [endPass, if_pos hnil] at hmalloc ⊢
    rw [pass_zero hconf hmalloc, if_pos hnil, hnil]
  · rw [endPass, if_neg hnil] at hmalloc hle ⊢
    rw [pass_succ hconf hle hmalloc, if_pos (by omega)]

variable {mac : Nat → Buf 16 → Sockaddr} {index : Nat → Buf 16 → Int32}

/-- The loop goes on as long as no pass had room for the whole table. -/
theorem FixedTable.reached (h : FixedTable env table mac index) (hnil : table ≠ []) {k : Nat}
    (hk : 100 + 10 * k ≤ maxRecords + 20) (hshort : ∀ j, j + 1 < k → 100 + 10 * j < table.length) :
    Reached env k := by
  induction k with
  | zero => exact fun j hj => absurd hj (Nat.not_lt_zero j)
  | succ k ih =>
    have hbefore : Reached env k := ih (by omega) fun j hj => hshort j (Nat.lt_succ_of_lt hj)
    intro j hj
    rcases Nat.lt_succ_iff_lt_or_eq.1 hj with hj | rfl
    · exact hbefore j hj
    · have hmalloc := h.mallocOk j hbefore
      cases j with
      | zero => rw [pass_zero h.gifconf hmalloc, if_neg hnil]
      | succ j =>
        have hlong := hshort j (Nat.lt_succ_self _)
        rw [pass_succ h.gifconf (by omega) hmalloc, if_neg (Nat.not_le.2 hlong)]

/-- For a longer table some allocation is of a negative size. -/
theorem FixedTable.length_le (h : FixedTable env table mac index) : table.length ≤ maxRecords := by
  by_contra hlong
  rw [maxRecords] at hlong
  have hnil : table ≠ [] := by
    rintro rfl
    exact hlong (Nat.zero_le _)
  have hreached : Reached env 5368700 :=
    h.reached hnil (by decide) fun j hj => by omega
  exact absurd (env.malloc_size _ _ (h.mallocOk _ hreached)) (by decide)

theorem FixedTable.endsAt (h : FixedTable env table mac index) :
    EndsAt env (endPass table) ∧ pass env (endPass table) = .done table := by
  have hle := endPass_le h.length_le
  have hreached : Reached env (endPass table) := by
    by_cases hnil : table = []
    · rw [endPass, if_pos hnil]
      exact fun j hj => absurd hj (Nat.not_lt_zero j)
    · refine h.reached hnil (by omega) fun j hj => ?_
      rw [endPass, if_neg hnil] at hj
      omega
  have hdone := pass_endPass h.gifconf h.length_le (h.mallocOk _ hreached)
  exact ⟨⟨hreached, by rw [hdone]; simp⟩, hdone⟩

end Passes

/-! ## Records -/

/-- The MAC that was stored is read back. -/
theorem Ifreq.setHwaddr_hwaddr (r : Ifreq) (hw : Sockaddr) :
    (r.setHwaddr hw).hwaddr = hw.saData.slice 0 6 (by decide) := by
  apply Buf.ext
  have hdata := hw.saData.length_eq
  simp only [hwaddr, setHwaddr, Buf.slice_bytes, Sockaddr.bytes, le16, List.cons_append,
    List.nil_append, List.drop_succ_cons, List.drop_zero]
  rw [List.take_append_of_le_length (by omega)]

/-- The index that was stored is read back. -/
theorem Ifreq.setIfindex_ifindex (r : Ifreq) (index : Int32) :
    (r.setIfindex index).ifindex = index := by
  rw [ifindex, setIfindex, ofLe32_le32, Int32.toInt32_toUInt32]

/-- There is no colon in `eth0`. -/
theorem cutColon_eth0 {name : Buf 16} (h : isEth0 name = true) : cutColon name = name := by
  obtain ⟨bytes, hlength⟩ := name
  have htake : bytes.take 5 = [0x65, 0x74, 0x68, 0x30, 0] := by simpa [isEth0] using h
  have hbytes : bytes = [0x65, 0x74, 0x68, 0x30, 0] ++ bytes.drop 5 := by
    rw [← htake, List.take_append_drop]
  rw [cutColon]
  simp only
  rw [if_neg]
  rw [hbytes]
  simp

section Lists

variable {env : HwAddrsEnv} {table : List Ifreq} {mac : Nat → Buf 16 → Sockaddr}
  {index : Nat → Buf 16 → Int32}

theorem FixedTable.hwaInfoOf_eq (h : FixedTable env table mac index) (i : Nat) {item : Ifreq}
    (hname : isEth0 item.ifrName = true) : hwaInfoOf env i item =
      ⟨(mac i item.ifrName).saData.slice 0 6 (by decide), (index i item.ifrName).toInt,
        item.addr⟩ := by
  simp only [hwaInfoOf, query, cutColon_eth0 hname, h.gifhwaddr, h.gifindex,
    Ifreq.setHwaddr_hwaddr, Ifreq.setIfindex_ifindex]
  rfl

theorem FixedTable.hwaInfos_eq (h : FixedTable env table mac index) (items : List Ifreq) (i : Nat) :
    hwaInfos env items i = ((items.zipIdx i).filter fun e => isEth0 e.1.ifrName).map fun e =>
      ⟨(mac e.2 e.1.ifrName).saData.slice 0 6 (by decide), (index e.2 e.1.ifrName).toInt,
        e.1.addr⟩ := by
  induction items generalizing i with
  | nil => rfl
  | cons item items ih =>
    rw [hwaInfos, List.zipIdx_cons, ih]
    cases hname : isEth0 item.ifrName with
    | false => simp [hname]
    | true => simp [hname, h.hwaInfoOf_eq i hname]

/-- No allocation fails. -/
theorem FixedTable.firstFailure_eq (h : FixedTable env table mac index) (items : List Ifreq)
    (i : Nat) : firstFailure env items i = none := by
  induction items generalizing i with
  | nil => rfl
  | cons item items ih => simp [firstFailure, h.hwaOk, h.ipOk, ih]

/-- The call that ends at `m` with these records. -/
theorem FixedTable.run (h : FixedTable env table mac index) {m fuel : Nat} {records : List Ifreq}
    (hm : EndsAt env m) (hdone : pass env m = .done records) (hfuel : m < fuel) :
    (∃ p buf, growLoop env fuel 0 (Int32.ofNat (100 * sizeofIfreq)) 0
      { Proc.init with sockOpen := true } = some (.records p buf records)) ∧
    ∃ p head ns, getHwAddrs env fuel = some (p, head) ∧ Chain p.nodes head ns ∧
      ns.map (fun n => n.2.info p.ips) = (devicesOf records mac index).map some := by
  obtain ⟨g, hgrow, hloop⟩ := growLoop_run hm Buffers.init (Nat.zero_le m) hfuel
  obtain ⟨⟨p, head⟩, hrun, hcall⟩ := getHwAddrs_run h.socketOk hm hfuel
  rw [hdone] at hgrow hcall
  constructor
  · cases hgrow with
    | done => exact ⟨_, _, hloop⟩
  · cases hcall with
    | hwa hfail => cases (h.firstFailure_eq records 0).symm.trans hfail
    | ip hfail => cases (h.firstFailure_eq records 0).symm.trans hfail
    | list _ _ _ hlists =>
      refine ⟨_, _, _, hrun, hlists.list.chain, ?_⟩
      rw [hlists.infos, h.hwaInfos_eq]
      rfl

/-- **Every device of a table is found** when no call fails. -/
theorem getHwAddrs_complete (h : FixedTable env table mac index) :
    Complete env table mac index := by
  obtain ⟨hm, hdone⟩ := h.endsAt
  exact ⟨endPass table, fun fuel hfuel => h.run hm hdone hfuel⟩

end Lists

/-- On `steadyHost` no call fails for a table of at most `maxRecords`. -/
theorem steadyHost_fixed {table : List Ifreq} (hlen : table.length ≤ maxRecords) :
    FixedTable (steadyHost table) table steadyMac steadyIndex := by
  have hconf : ∀ k, (steadyHost table).gifconf k = .ok table := fun _ => rfl
  refine ⟨rfl, fun k hk => decide_eq_true ?_, hconf, fun _ => rfl, fun _ => rfl, fun _ _ => rfl,
    fun _ _ => rfl⟩
  have hle := endPass_le hlen
  rcases Nat.lt_or_ge (endPass table) k with hlt | hge
  · -- the loop ended before
    have hdone := pass_endPass hconf hlen (decide_eq_true (lenAt_nonneg hle))
    rw [hk _ hlt] at hdone
    cases hdone
  · exact lenAt_nonneg (by omega)

/-- `eth0` is behind the end of the first buffer. -/
def hundredOthers : List Ifreq :=
  List.replicate 100 (recordOf [0x6C, 0x6F]) ++ [recordOf eth0]

theorem getHwAddrs_complete_hundred :
    Complete (steadyHost hundredOthers) hundredOthers steadyMac steadyIndex :=
  getHwAddrs_complete (steadyHost_fixed (by decide))

end Tour
