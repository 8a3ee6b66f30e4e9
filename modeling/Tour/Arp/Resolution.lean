import Tour.Arp.Fates
import Tour.Arp.Network
import Tour.Arp.Progress

/-!
# Every question can be answered

The network may lose every frame, so no question need ever be answered; but none is ever spoilt.
From every state that the hosts can reach, as long as two daemons wait in `select`, there is a
continuation in which a client that an entry of the first holds, and that has not asked, is told about
an address of the second, and with it every client of which an entry waits for this address
(`resolution_possible`). A client whose entry was removed with another's is never told. The
continuation is the run of one host after another (`steps_of_host`): the first asks (`ask_possible`),
the second hears the request and replies, and the first hears the reply (`reply_possible`).
-/

namespace Tour

open Lib Machine

/-! ## One host waits, asks and hears -/

section Host

variable {cfg : Config} {w : World}

/-- When only a descriptor that is no client's is readable, the sweep visits nobody. -/
theorem reachable_quiet (h : (daemon cfg).Reachable (AcceptKernel cfg) w) {fd : Int} (hfd : 0 ≤ fd)
    (hfree : ∀ k, w.fds fd ≠ some k) : ∀ x ∈ w.cache, Quiet (only fd) x := by
  have hinv := reachable_fdInv (reachable_sound h)
  intro x hx
  by_cases hc : x.2.state = .complete
  · exact Or.inl hc
  refine quiet_of_ne fun heq => ?_
  by_cases hpos : 0 < x.2.domainSocket
  · obtain ⟨-, k, hk⟩ := hinv.live x hx hpos
    exact hfree k (heq ▸ hk)
  · rw [hinv.idle x hx hc (Int.not_lt.1 hpos)] at heq
    omega

/-- Such an iteration gets to the end of the sweep. -/
theorem guardedRun_quiet (h : (daemon cfg).Reachable (AcceptKernel cfg) w) (hpc : w.pc = .select)
    {fd : Int} (hfd : 0 ≤ fd) (hfree : ∀ k, w.fds fd ≠ some k) :
    (daemon cfg).guardedRun (AcceptKernel cfg) w
      (.select (some (only fd)) :: List.replicate w.cache.length .tick) =
      some (atHead w (only fd) []) := by
  have hstart : step cfg w (.select (some (only fd))) = some (atHead w (only fd) (w.cache ++ [])) := by
    unfold step
    rw [hpc, List.append_nil]
    rfl
  exact guardedRun_cons.2 ⟨trivial, _, hstart,
    sweep_quiet [] w.cache [] (by simp) (reachable_consistent h).cache.nodup
      (reachable_quiet h hfd hfree)⟩

/-- The rest of an iteration that visits nobody any more and is for no frame. -/
theorem guardedRun_rest {rset : Int → Bool} {l₁ l₂ : List Node} (hcache : w.cache = l₁ ++ l₂)
    (hnodup : (addrs w.cache).Nodup) (hquiet : ∀ n ∈ l₂, Quiet rset n)
    (hunix : rset cfg.unixDomain = false) (hpf : rset cfg.pfSocket = false) :
    (daemon cfg).guardedRun (AcceptKernel cfg) (atHead w rset l₂)
      (List.replicate (l₂.length + 3) .tick) = some { w with pc := .select } := by
  have hsweep : (daemon cfg).guardedRun (AcceptKernel cfg) (atHead w rset (l₂ ++ []))
      (List.replicate l₂.length .tick) = some (atHead w rset []) :=
    sweep_quiet l₁ l₂ [] (by simpa using hcache) hnodup hquiet
  rw [List.append_nil] at hsweep
  rw [List.replicate_add]
  refine guardedRun_append hsweep ?_
  simp only [List.replicate, guardedRun, daemon, step, atHead, AcceptKernel, hunix, hpf, if_true,
    Option.bind_some, List.head?_nil, Option.map_none, Bool.false_eq_true, if_false]

/-- The events of an iteration over `n` entries in which nothing but a frame arrives. -/
def hears (cfg : Config) (n : Nat) (frame : List UInt8) (env : PacketEnv) : List Event :=
  (.select (some (only cfg.pfSocket)) :: List.replicate n .tick) ++
    [.tick, .tick, .packet (some frame) env]

theorem guardedRun_hears (h : (daemon cfg).Reachable (AcceptKernel cfg) w) (hpc : w.pc = .select)
    {frame : List UInt8} {env : PacketEnv} {r : List Node × List Effect}
    (hr : handleFrame cfg w.cache frame env = some r) :
    (daemon cfg).guardedRun (AcceptKernel cfg) w (hears cfg w.cache.length frame env) =
      some { World.performAll { w with pc := .packet (only cfg.pfSocket), cache := r.1 } r.2 with
        pc := .select } := by
  have hfree : ∀ k, w.fds cfg.pfSocket ≠ some k := fun k hk => (reachable_apart h _ _ hk).2 rfl
  have hother : only cfg.pfSocket cfg.unixDomain = false := by simpa [only] using cfg.sockets_ne
  have hself : only cfg.pfSocket cfg.pfSocket = true := by simp [only]
  refine guardedRun_append (guardedRun_quiet h hpc cfg.pfSocket_open hfree) ?_
  simp only [guardedRun, daemon, step, atHead, AcceptKernel, hother, hself, if_true,
    Option.bind_some, List.head?_nil, Option.map_none, Bool.false_eq_true, if_false, stepPacket, hr,
    bind]

/-- A frame that a call sends is emitted. -/
theorem emitted_of_mem {effects : List Effect} {i : Int} {bytes : List UInt8}
    (h : .frame i bytes ∈ effects) : .emitted bytes ∈ (w.performAll effects).log := by
  induction effects generalizing w with
  | nil => cases h
  | cons e effects ih =>
    rw [World.performAll_cons]
    rcases List.mem_cons.1 h with rfl | h
    · obtain ⟨obs, hobs⟩ := performAll_log (w.perform (.frame i bytes)) effects
      rw [hobs]
      exact List.mem_append_right _ List.mem_cons_self
    · exact ih h

/-- A broadcast in which every call succeeds is for every device. -/
theorem broadcast_all (tgt : Sockaddr) (ds : List HwaInfo) (i : Nat) :
    ∃ effects, broadcast tgt (fun _ => true) ds i = some (true, effects) ∧
      ∀ d ∈ ds, .frame d.ifIndex (requestFrame d tgt.sinAddr) ∈ effects := by
  induction ds generalizing i with
  | nil => exact ⟨[], rfl, List.forall_mem_nil _⟩
  | cons d ds ih =>
    obtain ⟨effects, hrec, hall⟩ := ih (i + 1)
    refine ⟨_ :: effects, by rw [broadcast_cons, if_pos rfl, hrec]; rfl, ?_⟩
    exact List.forall_mem_cons.2
      ⟨List.mem_cons_self, fun d' hd' => List.mem_cons_of_mem _ (hall d' hd')⟩

/-- `handle_areq` would read from the client of `k`. -/
def ReadsFrom (w : World) (k : Conn) : Prop :=
  ∃ rset a c, w.pc = .sweep rset (some a) ∧ entryAt w.cache a = some c ∧
    w.fds c.domainSocket = some k

namespace Client

variable {k : Conn} {n : Node} {l₁ l₂ : List Node} {m : List UInt8}

/-- A visit that broadcasts the question puts it on every device. -/
theorem miss_emits (h : Client cfg w k l₁ n l₂) (hm : ValidAreq m)
    (hmiss : ∀ x, getCacheByIpAddr w.cache (.ofBytes m) = some x → x.2.state ≠ .complete)
    {w' : World}
    (hstep : step cfg (atHead w (only n.2.domainSocket) (n :: l₂)) (.areq (welcome m)) = some w')
    {d : HwaInfo} (hd : d ∈ cfg.devices) :
    .emitted (requestFrame d (Sockaddr.ofBytes m).sinAddr) ∈ w'.log := by
  obtain ⟨effects, hrun, hall⟩ := broadcast_all (.ofBytes m) cfg.devices 0
  have hvisit : step cfg (atHead w (only n.2.domainSocket) (n :: l₂)) (.areq (welcome m)) = _ :=
    step_areq (atHead w _ (n :: l₂)) rfl (entryAt_of_mem h.nodup h.mem) h.state h.fd (welcome m)
  have hasked : handleAreq cfg.devices w.cache n.1 n.2 (welcome m) = _ :=
    handleAreq_miss h.state rfl hm hmiss
  rw [show (welcome m).sendtoOk = fun _ => true from rfl, hrun, Option.map_some] at hasked
  have hready : ¬only n.2.domainSocket n.2.domainSocket = false := by simp [only]
  rw [if_neg hready, show (atHead w (only n.2.domainSocket) (n :: l₂)).cache = w.cache from rfl,
    hasked, Option.map_some, hstep] at hvisit
  cases hvisit
  exact emitted_of_mem (List.mem_cons_of_mem _ (hall d hd))

/-- The iteration after the visit. -/
theorem rest (h : Client cfg w k l₁ n l₂) (log : List Obs) :
    (daemon cfg).guardedRun (AcceptKernel cfg)
      (atHead (asking w n.1 m log) (only n.2.domainSocket) l₂)
      (List.replicate (l₂.length + 3) .tick) =
      some { asking w n.1 m log with pc := .select } := by
  have hcache : (asking w n.1 m log).cache =
      (l₁ ++ [(n.1, { n.2 with state := .incomplete, ipaddress := .ofBytes m })]) ++ l₂ := by
    rw [asking, h.cache, updateAt_middle (h.cache ▸ h.nodup), List.append_assoc]
    rfl
  refine guardedRun_rest hcache ?_ (fun x hx => h.quiet_others x (List.mem_append_right _ hx)) ?_ ?_
  · rw [asking, addrs_updateAt]
    exact h.nodup
  · simpa [only] using h.apart.1.symm
  · simpa [only] using h.apart.2.symm

/-- The sweep reads from the client when it has got to its entry. -/
theorem readsFrom (h : Client cfg w k l₁ n l₂) :
    ReadsFrom (atHead w (only n.2.domainSocket) (n :: l₂)) k :=
  ⟨only n.2.domainSocket, n.1, n.2, rfl, entryAt_of_mem h.nodup h.mem, h.fd⟩

end Client

variable {k : Conn} {n : Node}

/-- An entry of the cache waits to tell the client of `k` about `key`. -/
def Awaits (w : World) (k : Conn) (key : Sockaddr) : Prop :=
  ∃ n ∈ w.cache, n.2.state = .incomplete ∧ n.2.ipaddress = key ∧ w.fds n.2.domainSocket = some k

/-- A client that asked waits. -/
theorem awaits_asking (hn : n ∈ w.cache) (hk : w.fds n.2.domainSocket = some k) (m : List UInt8)
    (log : List Obs) : Awaits (asking w n.1 m log) k (.ofBytes m) := by
  have hmem : (n.1, { n.2 with state := .incomplete, ipaddress := .ofBytes m }) ∈
      updateAt w.cache n.1 fun c => { c with state := .incomplete, ipaddress := .ofBytes m } :=
    mem_updateAt_self hn
  exact ⟨_, hmem, rfl, rfl, hk⟩

/-- A client that waits goes on waiting when another asks. -/
theorem Awaits.asking {key : Sockaddr} (h : Awaits w k key) (hnodup : (addrs w.cache).Nodup)
    (hn : n ∈ w.cache) (hstate : n.2.state = .connection) (m : List UInt8) (log : List Obs) :
    Awaits (Tour.asking w n.1 m log) k key := by
  obtain ⟨x, hx, hwaits, hip, hk⟩ := h
  have hother : x.1 ≠ n.1 := by
    intro heq
    rw [node_unique hnodup hx hn heq, hstate] at hwaits
    cases hwaits
  have hmem : x ∈ updateAt w.cache n.1 fun c =>
      { c with state := .incomplete, ipaddress := .ofBytes m } :=
    mem_updateAt.2 (Or.inl ⟨hx, hother⟩)
  exact ⟨x, hmem, hwaits, hip, hk⟩

/-- Every client that waits for the address in a reply is told what is in it. -/
theorem told_of_reply (h : (daemon cfg).Reachable (AcceptKernel cfg) w) {key : Sockaddr}
    (hk : Awaits w k key) (new : Hwaddr) {v : World} (hv : v.fds = w.fds) :
    .answered k new true ∈ (v.performAll (replyLoop key new (fun _ => true) w.cache).2).log := by
  obtain ⟨n, hn, hstate, hip, hfd⟩ := hk
  have hinv := reachable_fdInv (reachable_sound h)
  refine replyLoop_answers hn hip hstate (fun x hx hne heq => ?_) (by rw [hv]; exact hfd)
  exact hne (hinv.distinct n hn x hx (hinv.positive _ _ hfd) heq).symm

/-- How a frame with the Ethernet source `mac` arrives on an interface, when every call that follows
succeeds. -/
def arrivalFrom (index : Int) (mac : Buf 6) (fresh : Addr) : PacketEnv :=
  ⟨⟨index, arphrdEther, 6, .fill 8 mac.bytes⟩, ⟨.zero 4, true, fresh⟩, fun _ => true⟩

/-- A request for an address of this host is answered, whatever the cache holds. -/
theorem handleFrame_request {cache : List Node} {fresh : Addr} (hfresh : fresh ∉ addrs cache)
    (asker : HwaInfo) {d this : HwaInfo} (hd : d ∈ cfg.devices) (hthis : this ∈ cfg.devices) :
    ∃ r e this', handleFrame cfg cache (requestFrame asker this.ipAddr.sinAddr)
        (arrivalFrom d.ifIndex asker.ifHaddr fresh) = some r ∧
      this' ∈ cfg.devices ∧ this'.ipAddr.sinAddr = this.ipAddr.sinAddr ∧
      .frame d.ifIndex (replyFrameOf asker.ifHaddr e this' this.ipAddr.sinAddr) ∈ r.2 := by
  obtain ⟨eh, heh, hframe⟩ := handleFrame_arpFrame cfg cache
    (arrivalFrom d.ifIndex asker.ifHaddr fresh) broadhwa asker.ifHaddr (Or.inl rfl) asker.ifHaddr
    asker.ipAddr.sinAddr (.zero 6) this.ipAddr.sinAddr
  obtain ⟨e, -, -, hmac⟩ := macByIfindex_listed ⟨d, hd, rfl⟩
  obtain ⟨this', hdest⟩ : ∃ this', isDestination cfg.devices this.ipAddr.sinAddr = some this' :=
    Option.isSome_iff_exists.1 (List.find?_isSome.2 ⟨this, hthis, by simp⟩)
  obtain ⟨hthis', hip⟩ := isDestination_some hdest
  rw [dispatch_request, if_neg (by exact hfresh),
    handleReq_ether _ _ _ _ _ heh hdest hmac (by exact (by decide : 6 ≤ 8))] at hframe
  exact ⟨_, e, this', hframe, hthis', hip, List.mem_singleton_self _⟩

/-- What a reply about an address does on a listed interface. -/
theorem handleFrame_reply (cache : List Node) (fresh : Addr) (asker : Buf 6) (e this : HwaInfo)
    (tpa : InAddr) {d : HwaInfo} (hd : d ∈ cfg.devices) :
    ∃ new, handleFrame cfg cache (replyFrameOf asker e this tpa)
        (arrivalFrom d.ifIndex e.ifHaddr fresh) =
        some (replyLoop (etherIp tpa) new (fun _ => true) cache) ∧
      new.sllAddr.bytes.take ethAlen = this.ifHaddr.bytes := by
  obtain ⟨eh, -, hframe⟩ := handleFrame_arpFrame cfg cache
    (arrivalFrom d.ifIndex e.ifHaddr fresh) asker e.ifHaddr (Or.inr rfl) asker this.ipAddr.sinAddr
    this.ifHaddr tpa
  obtain ⟨d', -, -, hmac⟩ := macByIfindex_listed ⟨d, hd, rfl⟩
  rw [dispatch_reply, handleReply, replyRecord_ether _ _ _ _ _ hmac] at hframe
  exact ⟨_, hframe, fill_take _⟩

end Host

/-! ## One host after another -/

/-- An event of the loop alone. -/
def Event.plain : Event → Bool
  | .select _ => true
  | .tick => true
  | _ => false

theorem plain_replicate {n : Nat} {e : Event} (he : e ∈ List.replicate n .tick) : e.plain = true := by
  rw [List.eq_of_mem_replicate he]
  rfl

theorem plain_select {rset : Int → Bool} {n : Nat} {e : Event}
    (he : e ∈ .select (some rset) :: List.replicate n .tick) : e.plain = true := by
  rcases List.mem_cons.1 he with rfl | he
  · rfl
  · exact plain_replicate he

variable {H : Type} {cfgs : H → Config}

/-- What the hosts and the network do: descriptors are fresh, and every frame that arrives was
sent. -/
def NetSound (cfgs : H → Config) (ws : H → World) (e : H × Event) : Prop :=
  AcceptKernel (cfgs e.1) (ws e.1) e.2 ∧ Delivers cfgs ws e

instance [Fintype H] (ws : H → World) (e : H × Event) : Decidable (NetSound cfgs ws e) :=
  inferInstanceAs (Decidable (_ ∧ _))

/-- Nobody is accepted, and nothing is read but the message `m` of the client of `k` on the host
`i`. -/
def Reads (i : H) (k : Conn) (m : List UInt8) (ws : H → World) : H × Event → Prop
  | (h, .areq env) => h = i ∧ ReadsFrom (ws h) k ∧ env.recv = some m
  | (_, .accept _ _) => False
  | _ => True

/-- What happens while one question is resolved. -/
def Resolving (cfgs : H → Config) (i : H) (k : Conn) (m : List UInt8) (ws : H → World)
    (e : H × Event) : Prop :=
  NetSound cfgs ws e ∧ Reads i k m ws e

section Guard

variable {vs : H → World} {g i : H} {k : Conn} {m : List UInt8} {e : Event}

theorem netSound_plain (he : e.plain = true) : NetSound cfgs vs (i, e) := by
  cases e with
  | select => exact ⟨trivial, trivial⟩
  | tick => exact ⟨trivial, trivial⟩
  | _ => cases he

theorem resolving_plain (he : e.plain = true) : Resolving cfgs g k m vs (i, e) := by
  refine ⟨netSound_plain he, ?_⟩
  cases e with
  | select => trivial
  | tick => trivial
  | _ => cases he

/-- A frame of the daemon that is in some log can be heard on any interface. -/
theorem resolving_hears {d : HwaInfo} (hd : d ∈ (cfgs i).devices) {s : H} {dst src : Buf 6}
    {op : UInt16} {data : List UInt8} (hs : .emitted (arpFrame dst src op data) ∈ (vs s).log)
    {n : Nat} {fresh : Addr}
    (he : e ∈ hears (cfgs i) n (arpFrame dst src op data) (arrivalFrom d.ifIndex src fresh)) :
    Resolving cfgs g k m vs (i, e) := by
  rcases List.mem_append.1 he with he | he
  · exact resolving_plain (plain_select he)
  simp only [List.mem_cons, List.not_mem_nil, or_false] at he
  rcases he with rfl | rfl | rfl
  · exact resolving_plain rfl
  · exact resolving_plain rfl
  · refine ⟨⟨trivial, ⟨s, hs⟩, ⟨d, hd, rfl⟩, rfl, ?_⟩, trivial⟩
    rw [arpFrame_source]
    exact fill_take src

end Guard

variable [DecidableEq H]

theorem network_step {ws : H → World} {i : H} {e : Event} {w : World}
    (h : step (cfgs i) (ws i) e = some w) :
    (network cfgs).step ws (i, e) = some (Function.update ws i w) := by
  have hstep : (network cfgs).step ws (i, e) = some fun h => if h = i then w else ws h :=
    congrArg (Option.map _) h
  rw [hstep]
  congr 1
  funext h
  exact (Function.update_apply ws i w h).symm

/-- A run of one host is a run of the network. -/
theorem steps_of_host {G : (H → World) → H × Event → Prop} (ws : H → World) {i : H} {w : World}
    {es : List Event}
    (hrun : (daemon (cfgs i)).guardedRun (AcceptKernel (cfgs i)) (ws i) es = some w)
    (hguard : ∀ e ∈ es, ∀ vs : H → World, (∀ h, (ws h).log ⊆ (vs h).log) → G vs (i, e)) :
    (network cfgs).Steps G ws (Function.update ws i w) := by
  induction es generalizing ws with
  | nil =>
    cases hrun
    rw [Function.update_eq_self]
    exact .refl _
  | cons e es ih =>
    obtain ⟨hfirst, hrest⟩ := List.forall_mem_cons.1 hguard
    obtain ⟨-, u, hu, hrun⟩ := guardedRun_cons.1 hrun
    have hgrows : ∀ h, (ws h).log ⊆ (Function.update ws i u h).log := by
      intro h
      by_cases heq : h = i
      · subst heq
        obtain ⟨obs, hlog, -⟩ := step_log (hu : step (cfgs h) (ws h) e = some u)
        rw [Function.update_self, hlog]
        exact List.subset_append_right _ _
      · rw [Function.update_of_ne heq]
        exact List.Subset.refl _
    have hstep : (network cfgs).Steps G ws (Function.update ws i u) :=
      (Steps.refl ws).tail (hfirst ws fun _ => List.Subset.refl _) (network_step hu)
    have hlater := ih (Function.update ws i u) (by rw [Function.update_self]; exact hrun)
      fun e he vs hvs => hrest e he vs fun h => List.Subset.trans (hgrows h) (hvs h)
    rw [Function.update_idem] at hlater
    exact hstep.trans hlater

theorem reachable_host {ws : H → World} (h : (network cfgs).Reachable (NetSound cfgs) ws) (i : H) :
    (daemon (cfgs i)).Reachable (AcceptKernel (cfgs i)) (ws i) := by
  have hinit : ∀ i, (daemon (cfgs i)).Reachable (AcceptKernel (cfgs i)) ((network cfgs).init i) :=
    fun _ => .refl _
  refine h.invariant (I := fun ws : H → World =>
    ∀ i, (daemon (cfgs i)).Reachable (AcceptKernel (cfgs i)) (ws i)) hinit ?_ i
  rintro ws ⟨j, e⟩ ws' hws ⟨haccept, -⟩ hs i
  obtain ⟨w, hw, rfl⟩ := Option.map_eq_some_iff.1 hs
  dsimp only
  split
  · rename_i hij
    subst hij
    exact (hws i).step haccept hw
  · exact hws i

theorem reachable_netInv {ws : H → World} (h : (network cfgs).Reachable (NetSound cfgs) ws) :
    NetInv cfgs ws := by
  refine h.invariant (I := NetInv cfgs) ⟨?_, ?_⟩ fun _ _ _ hinv hg hs => netInv_step hinv hg.2 hs
  · intro s frame hf; cases hf
  · intro j n hn; cases hn

section Run

variable {ws : H → World} {i j : H} {k : Conn} {m : List UInt8} {n : Node} {l₁ l₂ : List Node}

/-- The daemon gets to the client and visits it. -/
theorem visit_possible (hclient : Client (cfgs i) (ws i) k l₁ n l₂) (hi : (ws i).pc = .select)
    {u : World} (hvisit : step (cfgs i) (atHead (ws i) (only n.2.domainSocket) (n :: l₂))
      (.areq (welcome m)) = some u) :
    (network cfgs).Steps (Resolving cfgs i k m) ws (Function.update ws i u) := by
  have hreach : (network cfgs).Steps (Resolving cfgs i k m) ws
      (Function.update ws i (atHead (ws i) (only n.2.domainSocket) (n :: l₂))) :=
    steps_of_host ws (hclient.reach hi) fun _ he _ _ => resolving_plain (plain_select he)
  have hreads : ReadsFrom
      (Function.update ws i (atHead (ws i) (only n.2.domainSocket) (n :: l₂)) i) k := by
    rw [Function.update_self]
    exact hclient.readsFrom
  have hguard : Resolving cfgs i k m
      (Function.update ws i (atHead (ws i) (only n.2.domainSocket) (n :: l₂)))
      (i, .areq (welcome m)) := ⟨⟨trivial, trivial⟩, rfl, hreads, rfl⟩
  have hvisited := hreach.tail hguard
    (network_step (by rw [Function.update_self]; exact hvisit))
  rwa [Function.update_idem] at hvisited

/-- The client asks, its question is broadcast, and the daemon waits again. -/
theorem ask_possible (hclient : Client (cfgs i) (ws i) k l₁ n l₂) (hi : (ws i).pc = .select)
    (hm : ValidAreq m)
    (hmiss : ∀ x, getCacheByIpAddr (ws i).cache (.ofBytes m) = some x → x.2.state ≠ .complete) :
    ∃ log, (network cfgs).Steps (Resolving cfgs i k m) ws
        (Function.update ws i { asking (ws i) n.1 m log with pc := .select }) ∧
      .received k m ∈ log ∧
      ∀ d ∈ (cfgs i).devices, .emitted (requestFrame d (Sockaddr.ofBytes m).sinAddr) ∈ log := by
  obtain ⟨log, hq, hvisit⟩ := hclient.miss hm hmiss
  have hvisited := visit_possible hclient hi hvisit
  have hrest := steps_of_host (Function.update ws i _) (G := Resolving cfgs i k m)
    (by rw [Function.update_self]; exact hclient.rest (m := m) log)
    fun _ he _ _ => resolving_plain (plain_replicate he)
  rw [Function.update_idem] at hrest
  exact ⟨log, hvisited.trans hrest, hq, fun d hd => hclient.miss_emits hm hmiss hvisit hd⟩

/-- The first host has asked for an address of the second: the second replies, and the first tells
every client that waits for the address. -/
theorem reply_possible (h : (network cfgs).Reachable (NetSound cfgs) ws) (hij : i ≠ j)
    (hi : (ws i).pc = .select) (hj : (ws j).pc = .select) {asker d : HwaInfo}
    (hasker : asker ∈ (cfgs i).devices) (hd : d ∈ (cfgs j).devices)
    (hemitted : .emitted (requestFrame asker d.ipAddr.sinAddr) ∈ (ws i).log) (k : Conn)
    (m : List UInt8) :
    ∃ ws' new, (network cfgs).Steps (Resolving cfgs i k m) ws ws' ∧ (ws i).log ⊆ (ws' i).log ∧
      (∀ k', Awaits (ws i) k' (etherIp d.ipAddr.sinAddr) → .answered k' new true ∈ (ws' i).log) ∧
      ∃ d' ∈ (cfgs j).devices, d'.ipAddr.sinAddr = d.ipAddr.sinAddr ∧
        new.sllAddr.bytes.take ethAlen = d'.ifHaddr.bytes := by
  -- the second host hears the request
  obtain ⟨fresh, hfresh⟩ := exists_fresh (ws j).cache
  obtain ⟨r, e, this, hr, hthis, hip, hreply⟩ := handleFrame_request hfresh asker hd hd
  have hhears := guardedRun_hears (reachable_host h j) hj hr
  obtain ⟨u, hu⟩ : ∃ u, u = { World.performAll
      { ws j with pc := .packet (only (cfgs j).pfSocket), cache := r.1 } r.2 with
        pc := .select } := ⟨_, rfl⟩
  rw [← hu] at hhears
  have hsent : .emitted (replyFrameOf asker.ifHaddr e this d.ipAddr.sinAddr) ∈ u.log := by
    rw [hu]
    exact emitted_of_mem hreply
  have hfirst : (network cfgs).Steps (Resolving cfgs i k m) ws (Function.update ws j u) :=
    steps_of_host ws hhears fun e he vs hvs => resolving_hears hd (hvs i hemitted) he
  -- the first host hears the reply
  obtain ⟨new, hnew, hmac⟩ := handleFrame_reply (ws i).cache 0 asker.ifHaddr e this
    d.ipAddr.sinAddr hasker
  have hreach := reachable_host h i
  have htold := guardedRun_hears hreach hi hnew
  have hsecond := steps_of_host (Function.update ws j u) (i := i) (G := Resolving cfgs i k m)
    (by rw [Function.update_of_ne hij]; exact htold)
    fun e he vs hvs => resolving_hears hasker (hvs j (by rw [Function.update_self]; exact hsent)) he
  refine ⟨_, new, hfirst.trans hsecond, ?_, ?_, this, hthis, hip, hmac⟩
  · rw [Function.update_self]
    obtain ⟨obs, hobs⟩ := performAll_log
      { ws i with
        pc := .packet (only (cfgs i).pfSocket)
        cache := (replyLoop (etherIp d.ipAddr.sinAddr) new (fun _ => true) (ws i).cache).1 }
      (replyLoop (etherIp d.ipAddr.sinAddr) new (fun _ => true) (ws i).cache).2
    dsimp only at hobs ⊢
    rw [hobs]
    exact List.subset_append_right _ _
  · intro k' hk'
    rw [Function.update_self]
    exact told_of_reply hreach hk' new rfl

/-- A client that has not asked is told about the address of a device of the second host, and so is
every client that waits for it. -/
theorem question_possible (h : (network cfgs).Reachable (NetSound cfgs) ws) (hij : i ≠ j)
    (hi : (ws i).pc = .select) (hj : (ws j).pc = .select) (hk : Connected (ws i) k)
    {d : HwaInfo} (hd : d ∈ (cfgs j).devices) (hlen : m.length = sizeofAreq)
    (hm : Sockaddr.ofBytes m = etherIp d.ipAddr.sinAddr) :
    ∃ ws' hw, (network cfgs).Steps (Resolving cfgs i k m) ws ws' ∧ .received k m ∈ (ws' i).log ∧
      .answered k hw true ∈ (ws' i).log ∧
      (∀ k', Awaits (ws i) k' (etherIp d.ipAddr.sinAddr) → .answered k' hw true ∈ (ws' i).log) ∧
      ∃ s, ∃ d' ∈ (cfgs s).devices, d'.ipAddr.sinAddr = d.ipAddr.sinAddr ∧
        hw.sllAddr.bytes.take ethAlen = d'.ifHaddr.bytes := by
  have hreach := reachable_host h i
  obtain ⟨n, hn, hstate, hfd⟩ := hk
  obtain ⟨l₁, l₂, hclient⟩ := Client.of_reachable hreach hn hstate hfd
  have hvalid : ValidAreq m := ⟨hlen, by rw [hm]; rfl⟩
  by_cases hhit : ∃ x, getCacheByIpAddr (ws i).cache (.ofBytes m) = some x ∧ x.2.state = .complete
  · -- the visit answers, and nobody waits for a complete address
    obtain ⟨x, hx, hs⟩ := hhit
    obtain ⟨hxmem, hxip⟩ := getCacheByIpAddr_some hx
    obtain ⟨u, hvisit, -, hq, hanswer⟩ := hclient.hit hvalid hx hs
    obtain ⟨⟨s, d', hd', hip', hmac⟩, -, -⟩ := (reachable_netInv h).correct i x hxmem hs
    rw [hxip, hm, sinAddr_etherIp] at hip'
    refine ⟨_, x.2.hw, visit_possible hclient hi hvisit, ?_, ?_, ?_, s, d', hd', hip', hmac⟩
    · rw [Function.update_self]
      exact hq
    · rw [Function.update_self]
      exact hanswer
    · rintro k' ⟨y, hy, hwaits, hyip, -⟩
      have hagree := (reachable_consistent hreach).cache.agree y hy x hxmem
        (hyip.trans (hm.symm.trans hxip.symm)) (by rw [hyip]; rfl)
      rw [hagree.1, hs] at hwaits
      cases hwaits
  · obtain ⟨log, hfirst, hq, hemitted⟩ :=
      ask_possible hclient hi hvalid fun x hx hs => hhit ⟨x, hx, hs⟩
    obtain ⟨asker, hasker⟩ := List.exists_mem_of_ne_nil _ (cfgs i).devices_ne
    have hsent := hemitted asker hasker
    rw [hm, sinAddr_etherIp] at hsent
    obtain ⟨ws', hw, hsteps, hlog, htold, howner⟩ := reply_possible
      (h.trans (hfirst.mono fun _ _ hg => hg.1)) hij (by rw [Function.update_self])
      (by rw [Function.update_of_ne (Ne.symm hij)]; exact hj) hasker hd
      (by rw [Function.update_self]; exact hsent) k m
    rw [Function.update_self] at hlog htold
    refine ⟨ws', hw, hfirst.trans hsteps, hlog hq, htold k ?_, fun k' hk' => htold k' ?_, j, howner⟩
    · rw [← hm]
      exact awaits_asking hn hfd m log
    · exact hk'.asking hclient.nodup hn hstate m log

/-- **Every question can be answered.** While two daemons wait, a client whose connection an entry of
the first holds, and that has not asked, can ask for any address of the second, and there is a
continuation in which it is told the hardware address that belongs to it, and so is every client of
which an entry already waits for it. -/
theorem resolution_possible
    (hdistinct : ∀ s t d d', d ∈ (cfgs s).devices → d' ∈ (cfgs t).devices →
      d.ipAddr.sinAddr = d'.ipAddr.sinAddr → d = d')
    (h : (network cfgs).Reachable (NetSound cfgs) ws) (hij : i ≠ j)
    (hi : (ws i).pc = .select) (hj : (ws j).pc = .select) (hk : Connected (ws i) k)
    {d : HwaInfo} (hd : d ∈ (cfgs j).devices) (hlen : m.length = sizeofAreq)
    (hm : Sockaddr.ofBytes m = etherIp d.ipAddr.sinAddr) :
    ∃ ws' hw, (network cfgs).Steps (NetSound cfgs) ws ws' ∧
      hw.sllAddr.bytes.take ethAlen = d.ifHaddr.bytes ∧ .received k m ∈ (ws' i).log ∧
      .answered k hw true ∈ (ws' i).log ∧
      ∀ k', Awaits (ws i) k' (etherIp d.ipAddr.sinAddr) → .answered k' hw true ∈ (ws' i).log := by
  obtain ⟨ws', hw, hsteps, hq, hanswer, htold, s, d', hd', hip, hmac⟩ :=
    question_possible h hij hi hj hk hd hlen hm
  refine ⟨ws', hw, hsteps.mono fun _ _ hg => hg.1, ?_, hq, hanswer, htold⟩
  rw [hmac, hdistinct s j d' d hd' hd hip]

end Run

/-- Two clients of 10.0.0.1 are connected, one has asked for 10.0.0.2, and the request is lost. -/
def lostQuestion : List (Bool × Event) :=
  (twoClients ++ [readable [5], .tick, .areq question, .tick, .tick, .tick]).map fun e => (false, e)

/-- When the other client asks too, both can be told. -/
theorem resolution_possible_lost : ∃ ws ws' hw,
    (network twoHosts).guardedRun (NetSound twoHosts) (network twoHosts).init lostQuestion =
      some ws ∧
    (network twoHosts).Steps (NetSound twoHosts) ws ws' ∧
    hw.sllAddr.bytes.take ethAlen = (hostMac 2).bytes ∧
    .answered 1 hw true ∈ (ws' false).log ∧ .answered 0 hw true ∈ (ws' false).log := by
  obtain ⟨ws, hws⟩ : ∃ ws, (network twoHosts).guardedRun (NetSound twoHosts)
      (network twoHosts).init lostQuestion = some ws := ⟨_, rfl⟩
  have hreach : (network twoHosts).Reachable (NetSound twoHosts) ws := .of_guardedRun _ hws
  cases hws
  obtain ⟨ws', hw, hsteps, hmac, -, hanswer, htold⟩ := resolution_possible twoHosts_distinct hreach
    (i := false) (j := true) (by decide) rfl rfl (k := 1) ⟨(200, freshEntry 6), by decide, rfl, rfl⟩
    List.mem_cons_self (m := questionFrom 0) rfl rfl
  exact ⟨_, ws', hw, rfl, hsteps, hmac, hanswer,
    htold 0 ⟨_, List.mem_cons_of_mem _ List.mem_cons_self, rfl, rfl, rfl⟩⟩

end Tour
