import Mathlib.Data.List.Chain
import Tour.Route.Lengths

/-!
# Hops from a node to itself

The arguments of a tour and its hops, for every way in which the calls of the nodes may end: a tour
packet always names the hosts that are left (`startTour_sends`, `recvTour_sends`), so that the nodes
it is sent to are those of the arguments, in order (`hosts_eq`). `valid_args` compares each argument
with the one before it and none of them with the name of the node that starts the tour, which sends
the first packet: no packet goes to its sender exactly when the first argument is not that name
(`no_self_hop_iff`).
-/

namespace Tour

open Lib Machine

/-! ## What a node sends -/

section Sends

variable {node : TourNode} {env : TourEnv}

theorem storeHosts_resolved {resolve : String → Option InAddr} {hosts : List String}
    {tour stored : Tourhdr} (h : storeHosts resolve hosts tour = some (some stored)) :
    ∃ ips : List InAddr, hosts.map resolve = ips.map some := by
  induction hosts generalizing tour with
  | nil => exact ⟨[], rfl⟩
  | cons host hosts ih =>
    simp only [storeHosts] at h
    split at h
    · cases h
    · rename_i ip hip
      obtain ⟨tour', -, hrest⟩ := Option.bind_eq_some_iff.1 h
      obtain ⟨ips, hips⟩ := ih hrest
      exact ⟨ip :: ips, by rw [List.map_cons, hip, hips, List.map_cons]⟩

/-- The hosts are stored when they fit, and they all resolve. -/
theorem storeHosts_spec {resolve : String → Option InAddr} {hosts : List String}
    {tour stored : Tourhdr} (hzero : tour.ips = .zero tourIpsSize)
    (hmax : hosts.length ≤ tourMaxips) (h : storeHosts resolve hosts tour = some (some stored)) :
    ∃ (ips : List InAddr) (b : Buf tourIpsSize) (rest : List UInt8),
      hosts.map resolve = ips.map some ∧ b.bytes = ipList ips.reverse ++ rest ∧
        stored = { tour with ips := b } := by
  obtain ⟨ips, hips⟩ := storeHosts_resolved h
  have hfits : 4 * hosts.length ≤ tourIpsSize := by
    have := Nat.div_mul_le_self tourIpsSize 4
    rw [tourMaxips] at hmax
    omega
  have hbytes : tour.ips.bytes = List.replicate (4 * hosts.length) 0 ++
      List.replicate (tourIpsSize - 4 * hosts.length) 0 := by
    rw [hzero, Buf.zero_bytes, ← List.replicate_add, Nat.add_sub_cancel' hfits]
  obtain ⟨b, hb, hstore⟩ := storeHosts_ok hips tour hbytes List.length_replicate
  rw [h] at hstore
  exact ⟨ips, b, _, hips, hb, Option.some.inj (Option.some.inj hstore)⟩

/-- What is known of a node after a step: its address is as before, and it pings no one new but
`srcs`; and every packet that it sent is `packet` of its destination. -/
structure StepTo (node : TourNode) (srcs : List InAddr) (packet : InAddr → List UInt8 → Prop)
    (r : TourNode × List TourEffect) : Prop where
  hostip : r.1.hostip = node.hostip
  pings : ∀ ip ∈ r.1.pings, ip ∈ srcs ∨ ip ∈ node.pings
  sent : ∀ dst bytes, .packet dst bytes ∈ r.2 → packet dst bytes

theorem StepTo.exit {srcs : List InAddr} {packet : InAddr → List UInt8 → Prop} {node' : TourNode}
    (h : node'.hostip = node.hostip) : StepTo node srcs packet (node'.exit, []) :=
  ⟨h, fun ip hip => (by cases hip), fun dst bytes he => (by cases he)⟩

/-- The source sends nothing, or its message to the first host. -/
theorem startTour_sends {resolve : String → Option InAddr} {hosts : List String}
    {r : TourNode × List TourEffect} (hmax : hosts.length ≤ tourMaxips)
    (h : startTour resolve node hosts env = some r) :
    StepTo node [] (fun dst bytes => ∃ todo mcastport,
      hosts.map resolve = (dst :: todo).map some ∧
        bytes = tourPacket node.hostip dst mcastAddr mcastport todo) r := by
  simp only [startTour] at h
  split at h
  · cases h; exact .exit rfl
  split at h
  · cases h; exact .exit rfl
  split at h
  · cases h; exact .exit rfl
  obtain ⟨stored, hstored, h⟩ := Option.bind_eq_some_iff.1 h
  cases stored with
  | none => cases h; exact .exit rfl
  | some tour =>
    obtain ⟨⟨sent, effects⟩, hsend, h⟩ := Option.bind_eq_some_iff.1 h
    obtain ⟨ips, b, rest, hres, hb, rfl⟩ := storeHosts_spec rfl hmax hstored
    have hlength : hosts.length = ips.length := by simpa using congrArg List.length hres
    cases ips with
    | nil =>
      -- there is no last address
      rw [hlength, forwardTour] at hsend
      cases hsend
    | cons first todo =>
      rw [List.length_cons] at hlength
      rw [forwardTour_cons node.hostip _ hb (by rw [hlength]; exact Int16.ofInt_eq_ofNat)
        (by omega)] at hsend
      cases hsend
      cases h
      refine ⟨by cases env.sendtoOk <;> rfl, fun ip hip => ?_, fun dst bytes he => ?_⟩
      · revert hip
        cases env.sendtoOk with
        | false => exact fun hip => (by cases hip)
        | true => exact Or.inr
      · revert he
        cases env.sendtoOk with
        | false => exact fun he => (by cases he)
        | true =>
          intro he
          cases List.mem_singleton.1 he
          exact ⟨todo, _, hres, rfl⟩

/-- The message that a tour packet carries. -/
theorem hostTour_tourPacket (src dst mcastip : InAddr) (mcastport : Int16) {todo : List InAddr}
    (hmax : todo.length ≤ tourMaxips) : ∃ (ips : Buf tourIpsSize) (rest : List UInt8),
      ips.bytes = ipList todo.reverse ++ rest ∧
      hostTour (tourPacket src dst mcastip mcastport todo) =
        ⟨mcastip, mcastport, Int16.ofNat todo.length, ips⟩ := by
  have hle := tourPacket_le src dst mcastip mcastport hmax
  obtain ⟨ips, hips, hbuf⟩ := ofBuf_tourPacket (Buf.fill_bytes_of_le hle)
  refine ⟨ips, _, hips, ?_⟩
  simp only [hostTour, hbuf, htonsShort_htonsShort]

theorem joinTour_keeps {tour : Tourhdr} {node' : TourNode} (h : joinTour node tour env = some node') :
    node'.hostip = node.hostip ∧ node'.pings = node.pings := by
  simp only [joinTour] at h
  split at h
  · cases h; exact ⟨rfl, rfl⟩
  split at h
  · cases h
  split at h
  · cases h
  split at h
  · cases h
  · cases h; exact ⟨rfl, rfl⟩

theorem mem_createPingt {pings : List InAddr} {tgtip ip : InAddr}
    (h : ip ∈ (createPingt pings tgtip env).2) : ip = tgtip ∨ ip ∈ pings := by
  unfold createPingt at h
  split at h
  · exact Or.inr h
  split at h
  · exact List.mem_cons.1 h
  · exact Or.inr h

/-- A node that receives a tour packet pings its sender, and sends nothing, or the same message to
the next host. -/
theorem recvTour_sends {src dst mcastip sender : InAddr} {mcastport : Int16} {todo : List InAddr}
    {r : TourNode × List TourEffect} (hmax : todo.length ≤ tourMaxips)
    (h : recvTour node (tourPacket src dst mcastip mcastport todo) sender env = some r) :
    StepTo node [sender] (fun next bytes => ∃ todo', todo = next :: todo' ∧
      bytes = tourPacket node.hostip next mcastip mcastport todo') r := by
  have hle := tourPacket_le src dst mcastip mcastport hmax
  obtain ⟨ips, rest, hips, htour⟩ := hostTour_tourPacket src dst mcastip mcastport hmax
  rw [recvTour_eq node hle, outcomeOf] at h
  split at h
  · rw [htour] at h
    cases hjoin : joinTour node ⟨mcastip, mcastport, Int16.ofNat todo.length, ips⟩ env with
    | none =>
      rw [hjoin] at h
      cases h
      exact .exit rfl
    | some node' =>
      obtain ⟨hhostip, hpings⟩ := joinTour_keeps hjoin
      have hmem : ∀ ip ∈ (createPingt node'.pings sender env).2, ip ∈ [sender] ∨ ip ∈ node.pings := by
        intro ip hip
        rw [← hpings]
        exact (mem_createPingt hip).imp_left List.mem_singleton.2
      rw [hjoin] at h
      simp only at h
      split at h
      · cases h; exact .exit hhostip
      split at h
      · -- the hosts that are left
        rename_i hpos
        rw [toInt_len hmax] at hpos
        cases todo with
        | nil => cases hpos
        | cons next todo =>
          obtain ⟨⟨sent, effects⟩, hsend, h⟩ := Option.bind_eq_some_iff.1 h
          rw [forwardTour_cons _ _ hips rfl hmax] at hsend
          cases hsend
          cases h
          cases env.sendtoOk with
          | false =>
            exact .exit hhostip
          | true =>
            refine ⟨hhostip, hmem, fun dst' bytes he => ?_⟩
            cases List.mem_singleton.1 he
            exact ⟨todo, rfl, by rw [← hhostip]⟩
      · simp only [TourOutcome.run] at h
        split at h
        · split at h
          · cases h
            exact ⟨hhostip, hmem, fun dst' bytes he => by simp at he⟩
          · cases h; exact .exit hhostip
        · cases h; exact .exit hhostip
  · cases h
    exact ⟨rfl, fun ip hip => Or.inr hip, fun dst' bytes he => (by cases he)⟩

end Sends

/-! ## The names of the hosts -/

section Names

variable {cfg : TourConfig} {source : InAddr} {hosts : List String} {ips : List InAddr}

theorem noRepeat_iff : noRepeat hosts = true ↔ hosts.IsChain (· ≠ ·) := by
  induction hosts with
  | nil => simp [noRepeat]
  | cons h₁ hosts ih =>
    cases hosts with
    | nil => simp [noRepeat]
    | cons h₂ hosts => simp [noRepeat, ih, List.isChain_cons_cons]

/-- The arguments are the names of the nodes that the tour visits. -/
theorem hosts_eq (hinj : ∀ h h' ip, cfg.resolve h = some ip → cfg.resolve h' = some ip → h = h')
    (hown : ∀ h ∈ hosts, ∀ ip, cfg.resolve h = some ip → cfg.resolve (cfg.hostOf ip) = some ip)
    (hres : hosts.map cfg.resolve = ips.map some) : hosts = ips.map cfg.hostOf := by
  induction hosts generalizing ips with
  | nil =>
    cases ips with
    | nil => rfl
    | cons ip ips => cases hres
  | cons host hosts ih =>
    cases ips with
    | nil => cases hres
    | cons ip ips =>
      rw [List.map_cons, List.map_cons, List.cons.injEq] at hres
      rw [List.forall_mem_cons] at hown
      rw [List.map_cons, ← ih hown.2 hres.2, hinj host _ ip hres.1 (hown.1 ip hres.1)]

/-- Neighbours on the route differ. -/
theorem route_chain (hvalid : validArgs hosts = true) (hnames : hosts = ips.map cfg.hostOf)
    (hfirst : hosts.head? ≠ some (cfg.hostOf source)) : (source :: ips).IsChain (· ≠ ·) := by
  simp only [validArgs, Bool.and_eq_true, noRepeat_iff] at hvalid
  refine List.isChain_of_isChain_map (S := (· ≠ ·)) cfg.hostOf (fun a b h hab => h (congrArg _ hab)) ?_
  rw [List.map_cons, ← hnames, List.isChain_cons]
  refine ⟨fun y hy heq => hfirst ?_, hvalid.2⟩
  rw [heq]
  exact hy

end Names

/-! ## The run of a tour -/

/-- The event delivers a packet in flight; the calls that the node makes may fail. -/
def TourEvent.IsDeliver (e : TourEvent) : Prop := ∃ i env, e = .deliver i env

/-- No node sent the tour to itself: no packet that was sent is addressed to its sender or comes, by
its header, from where it is sent to, and no node pings itself. -/
structure NoSelfHop (net : TourNet) : Prop where
  log : ∀ a dst bytes, (a, .packet dst bytes) ∈ net.log → dst ≠ a ∧ ipSrc bytes ≠ dst
  pings : ∀ a, a ∉ (net.nodes a).pings

/-- A packet that wanders along a route on which neighbours differ. -/
def OnRoute (cfg : TourConfig) (dst : InAddr) (bytes : List UInt8) : Prop :=
  ∃ src mcastport todo, bytes = tourPacket src dst mcastAddr mcastport todo ∧
    todo.length ≤ tourMaxips ∧ (src :: dst :: todo).IsChain (· ≠ ·) ∧
    ∀ a ∈ dst :: todo, cfg.hostip a = a

/-- What a run keeps up. -/
structure HopInv (cfg : TourConfig) (net : TourNet) : Prop where
  noSelf : NoSelfHop net
  hostip : ∀ a, (net.nodes a).hostip = cfg.hostip a
  flight : ∀ dst bytes, (dst, bytes) ∈ net.flight → OnRoute cfg dst bytes

section Run

variable {cfg : TourConfig} {net : TourNet}

theorem OnRoute.src_ne {dst : InAddr} {bytes : List UInt8} (h : OnRoute cfg dst bytes) :
    ipSrc bytes ≠ dst := by
  obtain ⟨src, mcastport, todo, rfl, -, hchain, -⟩ := h
  rw [ipSrc_tourPacket]
  exact (List.isChain_cons_cons.1 hchain).1

/-- A step of the node at `a` after which it does not ping itself, and in which it sent packets on
their route to others. -/
theorem HopInv.apply {a : InAddr} {srcs : List InAddr} {packet : InAddr → List UInt8 → Prop}
    {r : TourNode × List TourEffect} (h : HopInv cfg net) (hr : StepTo (net.nodes a) srcs packet r)
    (hsrcs : a ∉ srcs)
    (hpacket : ∀ dst bytes, packet dst bytes → dst ≠ a ∧ OnRoute cfg dst bytes) :
    HopInv cfg (net.apply a r) := by
  refine ⟨⟨fun b dst bytes he => ?_, fun b hb => ?_⟩, fun b => ?_, fun dst bytes he => ?_⟩
  · rcases List.mem_append.1 he with he | he
    · exact h.noSelf.log b dst bytes he
    · obtain ⟨e, he, heq⟩ := List.mem_map.1 he
      cases heq
      obtain ⟨hne, hroute⟩ := hpacket dst bytes (hr.sent dst bytes he)
      exact ⟨hne, hroute.src_ne⟩
  · simp only [TourNet.apply] at hb
    split at hb
    · rename_i hba
      subst hba
      exact (hr.pings b hb).elim hsrcs (h.noSelf.pings b)
    · exact h.noSelf.pings b hb
  · simp only [TourNet.apply]
    split
    · rename_i hba
      rw [hr.hostip, h.hostip, hba]
    · exact h.hostip b
  · rcases List.mem_append.1 he with he | he
    · exact h.flight dst bytes he
    · obtain ⟨e, he, heq⟩ := List.mem_filterMap.1 he
      cases e with
      | multicast peer text => cases heq
      | packet dst' bytes' =>
        cases heq
        exact (hpacket dst bytes (hr.sent dst bytes he)).2

/-- The delivery of any packet in flight. -/
theorem HopInv.step {e : TourEvent} {net' : TourNet} (h : HopInv cfg net) (he : e.IsDeliver)
    (hstep : stepTour cfg net e = some net') : HopInv cfg net' := by
  obtain ⟨i, env, rfl⟩ := he
  obtain ⟨⟨dst, packet⟩, hi, hstep⟩ := Option.bind_eq_some_iff.1 hstep
  have hroute := h.flight dst packet (List.mem_of_getElem? hi)
  have hrest : HopInv cfg { net with flight := net.flight.eraseIdx i } :=
    ⟨⟨h.noSelf.log, h.noSelf.pings⟩, h.hostip,
      fun d b hb => h.flight d b (List.mem_of_mem_eraseIdx hb)⟩
  simp only at hstep
  split at hstep
  · obtain ⟨r, hrecv, hstep⟩ := Option.bind_eq_some_iff.1 hstep
    cases hstep
    have hsrc := hroute.src_ne
    obtain ⟨src, mcastport, todo, rfl, hmax, hchain, hown⟩ := hroute
    refine hrest.apply (recvTour_sends hmax hrecv) ?_ ?_
    · exact fun hmem => hsrc (List.mem_singleton.1 hmem).symm
    · rintro next bytes ⟨todo', rfl, rfl⟩
      have hchain' := (List.isChain_cons_cons.1 hchain).2
      rw [List.forall_mem_cons] at hown
      refine ⟨Ne.symm (List.isChain_cons_cons.1 hchain').1, ?_⟩
      refine ⟨_, mcastport, todo', rfl, Nat.le_of_succ_le hmax, ?_, hown.2⟩
      rw [h.hostip dst, hown.1]
      exact hchain'
  · cases hstep
    exact hrest

/-- The source starts a tour whose route goes from it to another node. -/
theorem HopInv.start {source : InAddr} {hosts : List String} {env : TourEnv} {net' : TourNet}
    (hmax : hosts.length ≤ tourMaxips) (hsource : cfg.hostip source = source)
    (hroute : ∀ ips : List InAddr, hosts.map cfg.resolve = ips.map some →
      (source :: ips).IsChain (· ≠ ·) ∧ ∀ a ∈ ips, cfg.hostip a = a)
    (hstep : stepTour cfg (.boot cfg) (.start source hosts env) = some net') : HopInv cfg net' := by
  obtain ⟨r, hstart, rfl⟩ := Option.map_eq_some_iff.1 hstep
  have hboot : HopInv cfg (.boot cfg) :=
    ⟨⟨fun _ _ _ h => (by cases h), fun _ h => (by cases h)⟩, fun _ => rfl,
      fun _ _ h => (by cases h)⟩
  refine hboot.apply (startTour_sends hmax hstart) (by simp) ?_
  rintro dst bytes ⟨todo, mcastport, hres, rfl⟩
  obtain ⟨hchain, hown⟩ := hroute _ hres
  have hlength : hosts.length = todo.length + 1 := by simpa using congrArg List.length hres
  refine ⟨Ne.symm (List.isChain_cons_cons.1 hchain).1, _, mcastport, todo, rfl, by omega, ?_, hown⟩
  rw [hboot.hostip source, hsource]
  exact hchain

/-- Every call succeeds, and the first host is the source. -/
theorem start_self_hop {source : InAddr} {hosts : List String} {todo : List InAddr}
    (hmax : hosts.length ≤ tourMaxips) (hres : hosts.map cfg.resolve = (source :: todo).map some) :
    ∃ net, (tourNet cfg).run (.boot cfg) [.start source hosts smooth] = some net ∧
      ¬NoSelfHop net := by
  have hlength : hosts.length = todo.length + 1 := by simpa using congrArg List.length hres
  obtain ⟨net, hstart, -, hlog, -⟩ :=
    start_inFlight source (by omega) hmax hres smooth_succeeds
  have hrun : (tourNet cfg).step (.boot cfg) (.start source hosts smooth) = some net := hstart
  refine ⟨net, (tourNet cfg).run_cons_some hrun [], fun h => ?_⟩
  have hself := h.log source source
  rw [hlog] at hself
  exact (hself _ (List.mem_singleton_self _)).1 rfl

theorem exists_ips {resolve : String → Option InAddr} {hosts : List String}
    (h : ∀ host ∈ hosts, resolve host ≠ none) :
    ∃ ips : List InAddr, hosts.map resolve = ips.map some := by
  induction hosts with
  | nil => exact ⟨[], rfl⟩
  | cons host hosts ih =>
    rw [List.forall_mem_cons] at h
    obtain ⟨ips, hips⟩ := ih h.2
    obtain ⟨ip, hip⟩ := Option.ne_none_iff_exists'.1 h.1
    exact ⟨ip :: ips, by rw [List.map_cons, hip, hips, List.map_cons]⟩

theorem resolves_of_ips {resolve : String → Option InAddr} {hosts : List String}
    {ips : List InAddr} (h : hosts.map resolve = ips.map some) :
    ∀ host ∈ hosts, resolve host ≠ none := by
  intro host hh hnone
  have hmem : none ∈ ips.map some := by
    rw [← h, ← hnone]
    exact List.mem_map_of_mem hh
  simp at hmem

/-- A node with a name that resolves to it has the address that the name resolves to. -/
theorem hostip_of_own {a : InAddr} (h : cfg.resolve (cfg.hostOf a) = some a) : cfg.hostip a = a := by
  rw [TourConfig.hostip, h]
  rfl

/-- The nodes on the route resolve to themselves. -/
theorem hostip_of_ips {hosts : List String} {ips : List InAddr}
    (hown : ∀ h ∈ hosts, ∀ ip, cfg.resolve h = some ip → cfg.resolve (cfg.hostOf ip) = some ip)
    (hres : hosts.map cfg.resolve = ips.map some) : ∀ a ∈ ips, cfg.hostip a = a := by
  intro a ha
  obtain ⟨h, hh, hip⟩ : ∃ h ∈ hosts, cfg.resolve h = some a := by
    rw [← List.mem_map, hres]
    exact List.mem_map_of_mem ha
  exact hostip_of_own (hown h hh a hip)

end Run

/-- **No hop goes from a node to itself**, in no run of the tour and however its calls end, exactly
when the first argument is not the name of the node that starts the tour, or when no packet is sent
since an argument does not resolve. -/
theorem no_self_hop_iff {cfg : TourConfig} {source : InAddr} {hosts : List String}
    (hinj : ∀ h h' ip, cfg.resolve h = some ip → cfg.resolve h' = some ip → h = h')
    (hsource : cfg.resolve (cfg.hostOf source) = some source)
    (hown : ∀ h ∈ hosts, ∀ ip, cfg.resolve h = some ip → cfg.resolve (cfg.hostOf ip) = some ip)
    (hvalid : validArgs hosts = true) :
    (∀ (env : TourEnv) (es : List TourEvent) (net : TourNet), (∀ e ∈ es, e.IsDeliver) →
      (tourNet cfg).run (.boot cfg) (.start source hosts env :: es) = some net → NoSelfHop net) ↔
      hosts.head? ≠ some (cfg.hostOf source) ∨ ∃ h ∈ hosts, cfg.resolve h = none := by
  have hmax : hosts.length ≤ tourMaxips := by
    simp only [validArgs, Bool.and_eq_true, decide_eq_true_eq] at hvalid
    exact hvalid.1
  constructor
  · intro h
    by_contra hcond
    rw [not_or, not_not] at hcond
    obtain ⟨hfirst, hall⟩ := hcond
    obtain ⟨ips, hres⟩ := exists_ips fun host hh hnone => hall ⟨host, hh, hnone⟩
    obtain ⟨rest, rfl⟩ := List.head?_eq_some_iff.1 hfirst
    cases ips with
    | nil => cases hres
    | cons ip todo =>
      have hip : ip = source := by
        rw [List.map_cons, List.map_cons, hsource] at hres
        exact (Option.some.inj (List.cons.inj hres).1).symm
      rw [hip] at hres
      obtain ⟨net, hrun, hself⟩ := start_self_hop hmax hres
      exact hself (h smooth [] net (List.forall_mem_nil _) hrun)
  · intro hcond env es net hes hrun
    obtain ⟨net₀, hstart, hrun⟩ := Option.bind_eq_some_iff.1 hrun
    have hinv : HopInv cfg net₀ := by
      refine HopInv.start hmax (hostip_of_own hsource) (fun ips hres => ?_) hstart
      have hfirst := hcond.resolve_right fun ⟨h, hh, hnone⟩ => resolves_of_ips hres h hh hnone
      exact ⟨route_chain hvalid (hosts_eq hinj hown hres) hfirst, hostip_of_ips hown hres⟩
    exact ((Steps.of_run hes hrun).invariant (fun _ _ _ h he hs => h.step he hs) hinv).noSelf

theorem threeHosts_hostOf {h : String} {ip : InAddr} (hip : threeHosts.resolve h = some ip) :
    threeHosts.hostOf ip = h := by
  simp only [threeHosts] at hip
  split at hip
  · cases hip; rfl
  · cases hip; rfl
  · cases hip; rfl
  · cases hip

theorem threeHosts_inj (h h' : String) (ip : InAddr) (hip : threeHosts.resolve h = some ip)
    (hip' : threeHosts.resolve h' = some ip) : h = h' :=
  (threeHosts_hostOf hip).symm.trans (threeHosts_hostOf hip')

theorem threeHosts_own (h : String) (ip : InAddr) (hip : threeHosts.resolve h = some ip) :
    threeHosts.resolve (threeHosts.hostOf ip) = some ip := by
  rw [threeHosts_hostOf hip, hip]

/-- A tour from vm1 that goes to vm2, and comes back to vm1. -/
theorem no_self_hop_three : ∃ net, (tourNet threeHosts).run (.boot threeHosts)
    (.start (vm 1) ["vm2", "vm1", "vm3"] smooth :: List.replicate 3 (.deliver 0 smooth)) =
      some net ∧ NoSelfHop net := by
  have hes : ∀ e ∈ List.replicate 3 (TourEvent.deliver 0 smooth), e.Delivers := by
    simp [TourEvent.Delivers, smooth_succeeds]
  obtain ⟨net, hrun, -⟩ := @tour_run threeHosts (vm 1) ["vm2", "vm1", "vm3"] [vm 2, vm 1, vm 3]
    smooth (List.replicate 3 (.deliver 0 smooth)) (by decide) (by decide) rfl smooth_succeeds hes
    (by decide)
  refine ⟨net, hrun, ?_⟩
  refine (no_self_hop_iff threeHosts_inj rfl (fun h _ => threeHosts_own h) (by decide)).2
    (Or.inl (by decide)) smooth (List.replicate 3 (.deliver 0 smooth)) net ?_ hrun
  simp [TourEvent.IsDeliver]

/-- A tour from vm1 whose first argument is vm1. -/
theorem self_hop_three :
    ¬∀ (cfg : TourConfig) (source : InAddr) (hosts : List String),
      (∀ h h' ip, cfg.resolve h = some ip → cfg.resolve h' = some ip → h = h') →
      cfg.resolve (cfg.hostOf source) = some source →
      (∀ h ∈ hosts, ∀ ip, cfg.resolve h = some ip → cfg.resolve (cfg.hostOf ip) = some ip) →
      validArgs hosts = true →
      ∀ (env : TourEnv) (es : List TourEvent) (net : TourNet), (∀ e ∈ es, e.IsDeliver) →
        (tourNet cfg).run (.boot cfg) (.start source hosts env :: es) = some net →
        NoSelfHop net := by
  intro h
  obtain ⟨net, hrun, hself⟩ := @start_self_hop threeHosts (vm 1) ["vm1", "vm2"] [vm 2]
    (by decide) rfl
  exact hself (h threeHosts (vm 1) ["vm1", "vm2"] threeHosts_inj rfl (fun h _ => threeHosts_own h)
    (by decide) smooth [] net (List.forall_mem_nil _) hrun)

end Tour
