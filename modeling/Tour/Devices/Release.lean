import Tour.Devices.Runs

/-!
# What `get_hw_addrs` releases

A call releases what it took when it closes its socket, frees each buffer exactly once, and leaves
only the list that it returns. It does so exactly when it fails before the list, or at the allocation
of a node: the normal return leaves the socket open, and a failing allocation of an IP address goes
to `FREE_BUF`, which frees the buffer and not the list.
-/

namespace Tour

open Lib

/-- The nodes of the list at `ret` and their IP addresses are all that is allocated for it. -/
def HoldsList (p : Proc) (ret : Option Addr) : Prop :=
  ∃ ns, Chain p.nodes ret ns ∧ (∀ a, a ∈ p.nodes ↔ a ∈ addrs ns) ∧
    ∀ a, a ∈ p.ips ↔ ∃ n ∈ ns, n.2.ipAddr = some a

/-- The call has released what it took, but for the list at `ret`. -/
structure Released (p : Proc) (ret : Option Addr) : Prop where
  closed : p.sockOpen = false
  freed : ∀ b ∈ p.bufs.taken, p.bufs.freed.count b = 1
  list : HoldsList p ret

/-- The call that ends with this pass goes to the label that cleans up all it took. -/
def Pass.Releases (env : HwAddrsEnv) : Pass → Prop
  | .noBuffer | .fatal => True
  | .again => False
  | .done records => firstFailure env records 0 = some .hwa

section Calls

variable {env : HwAddrsEnv} {p : Proc} {ret : Option Addr}

theorem Clean.released (h : Clean p) : Released p none := by
  refine ⟨h.closed, fun b hb => h.settled.count hb, [], rfl, fun a => ?_, fun a => ?_⟩
  · exact ⟨fun ha => absurd ha (h.list a).1, fun ha => absurd ha List.not_mem_nil⟩
  · refine ⟨fun ha => absurd ha (h.list a).2, ?_⟩
    rintro ⟨n, hn, -⟩
    cases hn

/-- No list is returned, but there is a node. -/
theorem Released.no_node (h : Released p none) (a : Addr) : a ∉ p.nodes := by
  obtain ⟨ns, hchain, hnodes, -⟩ := h.list
  have hnil : ns = [] := hchain.unique rfl
  rw [hnodes, hnil]
  exact List.not_mem_nil

theorem CallCase.releases {q : Pass} (h : CallCase env q (p, ret)) :
    Released p ret ↔ q.Releases env := by
  cases h with
  | noBuffer h => exact iff_of_true h.released trivial
  | fatal h => exact iff_of_true h.released trivial
  | hwa hfail h => exact iff_of_true h.released hfail
  | ip hfail _ ha =>
    refine iff_of_false (fun h => h.no_node _ ha) fun h => ?_
    cases hfail.symm.trans h
  | list hfail hopen =>
    refine iff_of_false (fun h => ?_) fun h => ?_
    · cases hopen.symm.trans h.closed
    · cases hfail.symm.trans h

theorem Proc.init_clean : Clean .init :=
  ⟨rfl, Ledger.settled_empty, fun a => ⟨AList.notMem_empty a, AList.notMem_empty a⟩⟩

theorem Build.Lists.holds {b : Build} {i : Nat} {ns : List (Addr × HwaNode)} {ds : List HwaInfo}
    (h : b.Lists i ns ds) : HoldsList b.proc b.head := by
  refine ⟨ns, h.list.chain, h.nodes, fun a => ?_⟩
  rw [h.ips, mem_addrs]
  constructor
  · rintro ⟨v, hv⟩
    exact ⟨(a, v), hv, h.ipAddr _ hv⟩
  · rintro ⟨n, hn, ha⟩
    cases (h.ipAddr n hn).symm.trans ha
    exact ⟨n.2, hn⟩

/-- Every buffer is freed once, on every path. -/
theorem getHwAddrs_freed {fuel : Nat} (hrun : getHwAddrs env fuel = some (p, ret)) :
    ∀ b ∈ p.bufs.taken, p.bufs.freed.count b = 1 := by
  suffices hsettled : p.bufs.Settled [] from fun b hb => hsettled.count hb
  cases hs : env.socketOk with
  | false =>
    rw [getHwAddrs_noSocket fuel hs] at hrun
    cases hrun
    exact Ledger.settled_empty
  | true =>
    obtain ⟨m, -, hcase⟩ := getHwAddrs_ends hs hrun
    generalize pass env m = q at hcase
    cases hcase with
    | noBuffer h => exact h.settled
    | fatal h => exact h.settled
    | hwa _ h => exact h.settled
    | ip _ hbufs => exact hbufs
    | list _ _ hbufs => exact hbufs

/-- A list that is returned is all that is left, on every path. -/
theorem getHwAddrs_holds {fuel : Nat} {a : Addr}
    (hrun : getHwAddrs env fuel = some (p, some a)) : HoldsList p (some a) := by
  cases hs : env.socketOk with
  | false =>
    rw [getHwAddrs_noSocket fuel hs] at hrun
    cases hrun
  | true =>
    obtain ⟨m, -, hcase⟩ := getHwAddrs_ends hs hrun
    generalize pass env m = q at hcase
    generalize hret : some a = ret at hcase
    cases hcase with
    | noBuffer | fatal | hwa | ip => cases hret
    | list _ _ _ h => exact hret ▸ h.holds

end Calls

/-- **A call returns** exactly when there is no socket or the growing loop ends, and **it releases
what it took** exactly when there is no socket, or the buffer, `SIOCGIFCONF` or the allocation of a
node fails first. -/
theorem released_iff (env : HwAddrsEnv) :
    ((∃ fuel r, getHwAddrs env fuel = some r) ↔ env.socketOk = false ∨ ∃ m, EndsAt env m) ∧
    ((∀ fuel p ret, getHwAddrs env fuel = some (p, ret) → Released p ret) ↔
      env.socketOk = false ∨ ∀ m, EndsAt env m → (pass env m).Releases env) := by
  cases hs : env.socketOk with
  | false =>
    refine ⟨iff_of_true ⟨0, _, getHwAddrs_noSocket 0 hs⟩ (Or.inl rfl), iff_of_true ?_ (Or.inl rfl)⟩
    intro fuel p ret hrun
    rw [getHwAddrs_noSocket fuel hs] at hrun
    cases hrun
    exact Proc.init_clean.released
  | true =>
    simp only [Bool.true_eq_false, false_or]
    refine ⟨⟨?_, ?_⟩, ⟨?_, ?_⟩⟩
    · rintro ⟨fuel, r, hrun⟩
      obtain ⟨m, hm, -⟩ := getHwAddrs_ends hs hrun
      exact ⟨m, hm⟩
    · rintro ⟨m, hm⟩
      obtain ⟨r, hrun, -⟩ := getHwAddrs_run hs hm (Nat.lt_succ_self m)
      exact ⟨m + 1, r, hrun⟩
    · intro hall m hm
      obtain ⟨⟨p, ret⟩, hrun, hcase⟩ := getHwAddrs_run hs hm (Nat.lt_succ_self m)
      exact hcase.releases.1 (hall _ p ret hrun)
    · intro hall fuel p ret hrun
      obtain ⟨m, hm, hcase⟩ := getHwAddrs_ends hs hrun
      exact hcase.releases.2 (hall m hm)

/-- The normal return leaves the socket, and a failing allocation of the IP address the node. -/
theorem released_fails :
    (∃ p, getHwAddrs (steadyHost [recordOf eth0]) 2 = some (p, some 0) ∧ ¬Released p (some 0)) ∧
    ∃ p, getHwAddrs { steadyHost [recordOf eth0] with ipOk := fun _ => false } 2 = some (p, none) ∧
      ¬Released p none := by
  refine ⟨⟨_, rfl, fun h => ?_⟩, ⟨_, rfl, fun h => ?_⟩⟩
  · cases h.closed
  · exact h.no_node 0 (by decide)

end Tour
