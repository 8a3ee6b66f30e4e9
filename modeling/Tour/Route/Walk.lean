import Tour.Lib.Machine
import Tour.Route.Node

/-!
# The walk of a tour

The nodes of a tour and the packets in flight as a machine: an event starts a tour at a node, or
delivers one of the packets in flight, unchanged, to the node that it is addressed to. When every
call succeeds, a tour is one packet that wanders: `transcript` lists what is sent in all, and the
run lemma `InFlight.run` says that after `k` deliveries the first `k + 1` items of it have been
sent, of which the last is still in flight. The result is `tour_visits_in_order`.
-/

namespace Tour

open Lib Machine

/-- The resolver, and the hostname of the node with an address. -/
structure TourConfig where
  resolve : String → Option InAddr
  hostOf : InAddr → String

/-- What `main` stores into `hostip`, which is zero when its own name does not resolve. -/
def TourConfig.hostip (cfg : TourConfig) (a : InAddr) : InAddr :=
  (cfg.resolve (cfg.hostOf a)).getD (.zero 4)

/-- A node that entered `run_tour` without a host list. -/
def bootNode (cfg : TourConfig) (a : InAddr) : TourNode :=
  ⟨cfg.hostOf a, cfg.hostip a, false, none, none, none, [], true⟩

/-- The packet that was sent, with its destination. -/
def TourEffect.sent : TourEffect → Option (InAddr × List UInt8)
  | .packet dst bytes => some (dst, bytes)
  | .multicast _ _ => none

structure TourNet where
  nodes : InAddr → TourNode
  /-- The packets that were sent and not yet delivered, with their destinations. -/
  flight : List (InAddr × List UInt8)
  /-- What each node sent, the oldest first. -/
  log : List (InAddr × TourEffect)

namespace TourNet

def boot (cfg : TourConfig) : TourNet := ⟨bootNode cfg, [], []⟩

/-- The node at `a` took a step. -/
def apply (net : TourNet) (a : InAddr) (r : TourNode × List TourEffect) : TourNet where
  nodes := fun x => if x = a then r.1 else net.nodes x
  flight := net.flight ++ r.2.filterMap TourEffect.sent
  log := net.log ++ r.2.map fun e => (a, e)

end TourNet

/-- What happens in a step of the network. -/
inductive TourEvent
  /-- A node is started with a host list. -/
  | start (source : InAddr) (hosts : List String) (env : TourEnv)
  /-- The packet at a place in flight is delivered. -/
  | deliver (i : Nat) (env : TourEnv)

/-- The source address of a packet, which `recvfrom` reports. -/
def ipSrc (packet : List UInt8) : InAddr := .fill 4 (packet.drop 12)

def stepTour (cfg : TourConfig) (net : TourNet) : TourEvent → Option TourNet
  | .start source hosts env =>
    (startTour cfg.resolve (net.nodes source) hosts env).map (net.apply source)
  | .deliver i env => do
    let (dst, packet) ← net.flight[i]?
    let net := { net with flight := net.flight.eraseIdx i }
    if (net.nodes dst).running then
      let r ← recvTour (net.nodes dst) packet (ipSrc packet) env
      some (net.apply dst r)
    else some net

/-- The network. -/
def tourNet (cfg : TourConfig) : Machine TourNet TourEvent := ⟨.boot cfg, stepTour cfg⟩

/-! ## One packet -/

/-- The event delivers the first packet in flight, and every call it makes succeeds. -/
def TourEvent.Delivers (e : TourEvent) : Prop := ∃ env : TourEnv, env.Succeeds ∧ e = .deliver 0 env

/-- What is sent, and by whom, when the tour is at `src` and `todo` is still to be visited. -/
def transcript (cfg : TourConfig) (port : UInt16) : InAddr → List InAddr → List (InAddr × TourEffect)
  | last, [] => [(last, .multicast (mcastAddr, port) (tourEnded (cfg.hostOf last)))]
  | src, next :: todo =>
    (src, .packet next (tourPacket (cfg.hostip src) next mcastAddr port.toInt16 todo)) ::
      transcript cfg port next todo

theorem ipSrc_tourPacket (src dst mcastip : InAddr) (mcastport : Int16) (todo : List InAddr) :
    ipSrc (tourPacket src dst mcastip mcastport todo) = src := by
  apply Buf.ext
  have hdrop : (tourPacket src dst mcastip mcastport todo).drop 12 =
      src.bytes ++ (dst.bytes ++ (mcastip.bytes ++ le16 mcastport.toUInt16 ++
        le16 (htons (UInt16.ofNat todo.length)) ++ ipList todo.reverse)) := by
    rw [tourPacket, ipHeader, List.append_assoc, List.append_assoc]
    exact List.drop_left' rfl
  rw [ipSrc, hdrop]
  simp only [Buf.fill, List.take_left' src.length_eq, List.length_append, src.length_eq]
  simp

/-- A node as it is in a tour: it runs, and its sockets are those of the group as soon as it is
bound. -/
structure TourNode.Fit (cfg : TourConfig) (port : UInt16) (a : InAddr) (node : TourNode) : Prop where
  host : node.host = cfg.hostOf a
  hostip : node.hostip = cfg.hostip a
  running : node.running = true
  bound : node.port = if node.binded then some port else none
  peer : node.peer = if node.binded then some (mcastAddr, port) else none
  group : node.group = if node.binded then some mcastAddr else none

theorem bootNode_fit (cfg : TourConfig) (port : UInt16) (a : InAddr) :
    (bootNode cfg a).Fit cfg port a := ⟨rfl, rfl, rfl, rfl, rfl, rfl⟩

section Walk

variable {cfg : TourConfig} {port : UInt16}

theorem TourNode.Fit.visited {a : InAddr} {node : TourNode} (h : node.Fit cfg port a)
    (src : InAddr) : (node.visited src mcastAddr port).Fit cfg port a := by
  obtain ⟨hhost, hhostip, hrunning, hbound, hpeer, hgroup⟩ := h
  unfold TourNode.visited TourNode.join
  cases hb : node.binded with
  | true =>
    rw [hb] at hbound hpeer hgroup
    simp only [if_true]
    exact ⟨hhost, hhostip, hrunning, by simpa [hb] using hbound, by simpa [hb] using hpeer,
      by simpa [hb] using hgroup⟩
  | false =>
    simp only [Bool.false_eq_true, if_false]
    exact ⟨hhost, hhostip, hrunning, rfl, rfl, rfl⟩

theorem TourNode.visited_binded (node : TourNode) (src ip : InAddr) (port : UInt16) :
    (node.visited src ip port).binded = true := by
  unfold TourNode.visited TourNode.join
  cases hb : node.binded with
  | true => simpa using hb
  | false => rfl

theorem TourNode.visited_pings (node : TourNode) (src ip : InAddr) (port : UInt16) :
    (node.visited src ip port).pings = node.pings.insert src := rfl

/-- The first item of what is left to be sent was sent, and it is in flight if it is a packet. -/
structure InFlight (cfg : TourConfig) (port : UInt16) (src : InAddr) (todo : List InAddr)
    (net : TourNet) : Prop where
  fit : ∀ a, (net.nodes a).Fit cfg port a
  flight : net.flight = ((transcript cfg port src todo).take 1).filterMap fun e => e.2.sent

/-- One delivery: the next host is visited, and the next item of the transcript is sent. -/
theorem InFlight.deliver {src next : InAddr} {todo : List InAddr} {net : TourNet} {e : TourEvent}
    (h : InFlight cfg port src (next :: todo) net) (hport : port ≠ 0)
    (hmax : todo.length ≤ tourMaxips) (he : e.Delivers) :
    ∃ net', stepTour cfg net e = some net' ∧ InFlight cfg port next todo net' ∧
      net'.log = net.log ++ (transcript cfg port next todo).take 1 ∧
      ∀ a, net'.nodes a = if a = next then (net.nodes next).visited (cfg.hostip src) mcastAddr port
        else net.nodes a := by
  obtain ⟨env, henv, rfl⟩ := he
  have hflight : net.flight = [(next, tourPacket (cfg.hostip src) next mcastAddr port.toInt16 todo)] :=
    h.flight
  have hchosen : chosenPort port.toInt16.toUInt16 env = port := by
    rw [UInt16.toUInt16_toInt16]
    exact if_neg hport
  have hfit := (h.fit next).visited (cfg.hostip src)
  -- what the next host sends
  have hrecv : recvTour (net.nodes next)
      (tourPacket (cfg.hostip src) next mcastAddr port.toInt16 todo) (cfg.hostip src) env =
      some ((net.nodes next).visited (cfg.hostip src) mcastAddr port,
        ((transcript cfg port next todo).take 1).map Prod.snd) := by
    cases todo with
    | nil =>
      have hpeer := hfit.peer
      rw [TourNode.visited_binded, if_pos rfl] at hpeer
      rw [recvTour_nil henv (by rw [hchosen]; exact hpeer), hchosen, (h.fit next).host]
      rfl
    | cons next' todo =>
      rw [recvTour_cons henv hmax, hchosen, hfit.hostip]
      rfl
  have hitem : ((transcript cfg port next todo).take 1).map (fun e => (next, e.2)) =
      (transcript cfg port next todo).take 1 := by
    cases todo <;> rfl
  have hsent : (((transcript cfg port next todo).take 1).map Prod.snd).filterMap TourEffect.sent =
      ((transcript cfg port next todo).take 1).filterMap fun e => e.2.sent := by
    rw [List.filterMap_map]; rfl
  refine ⟨({ net with flight := [] } : TourNet).apply next
    ((net.nodes next).visited (cfg.hostip src) mcastAddr port,
      ((transcript cfg port next todo).take 1).map Prod.snd), ?_, ⟨?_, hsent⟩, ?_, fun a => rfl⟩
  · simp only [stepTour, hflight, List.getElem?_cons_zero, bind, Option.bind_some,
      List.eraseIdx_cons_zero, (h.fit next).running, if_true, ipSrc_tourPacket, hrecv]
  · intro a
    by_cases ha : a = next
    · subst ha
      simp only [TourNet.apply, if_true]
      exact hfit
    · simp only [TourNet.apply, if_neg ha]
      exact h.fit a
  · simp only [TourNet.apply, List.map_map]
    exact congrArg _ hitem

/-- The hops of a tour from `src` over the hosts `todo`. -/
def hops (src : InAddr) (todo : List InAddr) : List (InAddr × InAddr) := (src :: todo).zip todo

/-- The nodes that sent the tour to `a`, in order. -/
def senders (l : List (InAddr × InAddr)) (a : InAddr) : List InAddr :=
  (l.filter fun hop => hop.2 == a).map Prod.fst

theorem senders_cons_self (src a : InAddr) (l : List (InAddr × InAddr)) :
    senders ((src, a) :: l) a = src :: senders l a := by
  simp [senders]

theorem senders_cons_ne {src next a : InAddr} (h : next ≠ a) (l : List (InAddr × InAddr)) :
    senders ((src, next) :: l) a = senders l a := by
  simp [senders, h]

/-- The node after it received the tour from each of `srcs`. -/
def visits (cfg : TourConfig) (port : UInt16) (node : TourNode) (srcs : List InAddr) : TourNode :=
  srcs.foldl (fun node src => node.visited (cfg.hostip src) mcastAddr port) node

theorem visits_cons (node : TourNode) (src : InAddr) (srcs : List InAddr) :
    visits cfg port node (src :: srcs) =
      visits cfg port (node.visited (cfg.hostip src) mcastAddr port) srcs := rfl

/-- Any number of deliveries that the tour has hosts for: each is possible, and what was sent, what
is in flight, and the state of every node afterwards. -/
theorem InFlight.run {src : InAddr} {todo : List InAddr} {net : TourNet} {es : List TourEvent}
    (h : InFlight cfg port src todo net) (hport : port ≠ 0) (hmax : todo.length ≤ tourMaxips)
    (hes : ∀ e ∈ es, e.Delivers) (hlen : es.length ≤ todo.length) :
    ∃ net', (tourNet cfg).run net es = some net' ∧
      net'.log = net.log ++ ((transcript cfg port src todo).drop 1).take es.length ∧
      net'.flight = (((transcript cfg port src todo).drop es.length).take 1).filterMap
        (fun e => e.2.sent) ∧
      (∀ a, (net'.nodes a).Fit cfg port a) ∧
      ∀ a, net'.nodes a = visits cfg port (net.nodes a) (senders ((hops src todo).take es.length) a) := by
  induction es generalizing src todo net with
  | nil => exact ⟨net, rfl, (List.append_nil _).symm, h.flight, h.fit, fun a => rfl⟩
  | cons e es ih =>
    cases todo with
    | nil => cases hlen
    | cons next todo =>
      obtain ⟨he, hrest⟩ := List.forall_mem_cons.1 hes
      rw [List.length_cons] at hmax hlen
      obtain ⟨net₁, hstep, hfly, hlog, hnodes⟩ := h.deliver hport (by omega) he
      obtain ⟨net', hrun, hlog', hflight', hfit', hnodes'⟩ :=
        ih hfly (by omega) hrest (by rw [List.length_cons] at hlen; omega)
      refine ⟨net', ?_, ?_, hflight', hfit', ?_⟩
      · exact ((tourNet cfg).run_cons_some hstep es).trans hrun
      · rw [hlog', hlog, List.append_assoc]
        congr 1
        rw [List.length_cons, Nat.add_comm es.length 1]
        exact List.take_add.symm
      · intro a
        have hhops : (hops src (next :: todo)).take (es.length + 1) =
            (src, next) :: (hops next todo).take es.length := rfl
        rw [hnodes' a, hnodes a, List.length_cons, hhops]
        by_cases ha : a = next
        · subst ha
          rw [if_pos rfl, senders_cons_self, visits_cons]
        · rw [if_neg ha, senders_cons_ne (Ne.symm ha)]

/-! ## A whole tour -/

theorem start_inFlight (source : InAddr) {hosts : List String} {ips : List InAddr} {env : TourEnv}
    (hne : 1 ≤ hosts.length) (hmax : hosts.length ≤ tourMaxips)
    (hres : hosts.map cfg.resolve = ips.map some) (henv : env.Succeeds) :
    ∃ net, stepTour cfg (.boot cfg) (.start source hosts env) = some net ∧
      InFlight cfg env.bind.ephemeral source ips net ∧
      net.log = (transcript cfg env.bind.ephemeral source ips).take 1 ∧
      ∀ a, net.nodes a = if a = source then { bootNode cfg source with
        binded := true
        port := some env.bind.ephemeral
        peer := some (mcastAddr, env.bind.ephemeral)
        group := some mcastAddr } else bootNode cfg a := by
  cases ips with
  | nil =>
    rw [List.map_nil, List.map_eq_nil_iff] at hres
    rw [hres] at hne
    cases hne
  | cons first todo =>
    have hstart := startTour_ok (bootNode cfg source) henv hres hmax
    refine ⟨_, congrArg (Option.map ((TourNet.boot cfg).apply source)) hstart, ⟨?_, rfl⟩, rfl,
      fun a => rfl⟩
    intro a
    by_cases ha : a = source
    · subst ha
      simp only [TourNet.apply, if_true]
      exact ⟨rfl, rfl, rfl, rfl, rfl, rfl⟩
    · simp only [TourNet.apply, if_neg ha]
      exact bootNode_fit cfg _ a

/-- The state of the source after `start_tour`. -/
def sourceNode (cfg : TourConfig) (port : UInt16) (source : InAddr) : TourNode :=
  { bootNode cfg source with
    binded := true, port := some port, peer := some (mcastAddr, port), group := some mcastAddr }

/-- A tour up to any number of deliveries. -/
theorem tour_run (source : InAddr) {hosts : List String} {ips : List InAddr} {env : TourEnv}
    {es : List TourEvent} (hne : 1 ≤ hosts.length) (hmax : hosts.length ≤ tourMaxips)
    (hres : hosts.map cfg.resolve = ips.map some) (henv : env.Succeeds)
    (hes : ∀ e ∈ es, e.Delivers) (hlen : es.length ≤ hosts.length) :
    ∃ net, (tourNet cfg).run (.boot cfg) (.start source hosts env :: es) = some net ∧
      net.log = (transcript cfg env.bind.ephemeral source ips).take (es.length + 1) ∧
      net.flight = (((transcript cfg env.bind.ephemeral source ips).drop es.length).take 1).filterMap
        (fun e => e.2.sent) ∧
      (∀ a, (net.nodes a).Fit cfg env.bind.ephemeral a) ∧
      ∀ a, net.nodes a = visits cfg env.bind.ephemeral
        (if a = source then sourceNode cfg env.bind.ephemeral source else bootNode cfg a)
        (senders ((hops source ips).take es.length) a) := by
  have hlength : hosts.length = ips.length := by simpa using congrArg List.length hres
  obtain ⟨net₀, hstart, hfly, hlog₀, hnodes₀⟩ := start_inFlight source hne hmax hres henv
  obtain ⟨net, hrun, hlog, hflight, hfit, hnodes⟩ :=
    hfly.run henv.ephemeral (hlength ▸ hmax) hes (hlength ▸ hlen)
  refine ⟨net, ?_, ?_, hflight, hfit, fun a => ?_⟩
  · have hstart' : (tourNet cfg).step (.boot cfg) (.start source hosts env) = some net₀ := hstart
    exact ((tourNet cfg).run_cons_some hstart' es).trans hrun
  · rw [hlog, hlog₀, Nat.add_comm]
    exact List.take_add.symm
  · rw [hnodes a, hnodes₀ a]
    rfl

theorem transcript_length (port : UInt16) (src : InAddr) (todo : List InAddr) :
    (transcript cfg port src todo).length = todo.length + 1 := by
  induction todo generalizing src with
  | nil => rfl
  | cons next todo ih => rw [transcript, List.length_cons, ih, List.length_cons]

theorem transcript_getElem (cfg : TourConfig) (port : UInt16) (src : InAddr) {todo : List InAddr}
    {k : Nat} {ip : InAddr} (h : todo[k]? = some ip) :
    ∃ sender, (src :: todo)[k]? = some sender ∧ (transcript cfg port src todo)[k]? =
      some (sender, .packet ip
        (tourPacket (cfg.hostip sender) ip mcastAddr port.toInt16 (todo.drop (k + 1)))) := by
  induction todo generalizing src k with
  | nil => cases h
  | cons next todo ih =>
    cases k with
    | zero =>
      cases h
      exact ⟨src, rfl, rfl⟩
    | succ k => exact ih next h

theorem transcript_last {port : UInt16} {src last : InAddr} {todo : List InAddr}
    (h : (src :: todo).getLast? = some last) : (transcript cfg port src todo)[todo.length]? =
      some (last, .multicast (mcastAddr, port) (tourEnded (cfg.hostOf last))) := by
  induction todo generalizing src with
  | nil => cases h; rfl
  | cons next todo ih =>
    rw [List.getLast?_cons_cons] at h
    exact ih h

end Walk

/-- **The tour visits the requested hosts, in order, once per occurrence.** After any number `d` of
deliveries the packets numbered from 0 to `d` have been sent (as far as there are hosts). The packet
`k` was sent by the node before the host `k` to that host; it has `28 + 4 * (n - 1 - k)` bytes, as
its IP header says, and names the `n - 1 - k` hosts behind that host in reverse order. Only the last
of them is in flight, so nothing else can be delivered; after `n` deliveries nothing is, and the
last host has multicast the end of the tour. -/
theorem tour_visits_in_order (cfg : TourConfig) (source : InAddr) {hosts : List String}
    {ips : List InAddr} {env : TourEnv} {es : List TourEvent} (hne : 1 ≤ hosts.length)
    (hmax : hosts.length ≤ tourMaxips) (hres : hosts.map cfg.resolve = ips.map some)
    (henv : env.Succeeds) (hes : ∀ e ∈ es, e.Delivers) (hlen : es.length ≤ hosts.length) :
    ∃ net, (tourNet cfg).run (.boot cfg) (.start source hosts env :: es) = some net ∧
      net.log.length = es.length + 1 ∧
      (∀ k ≤ es.length, ∀ ip, ips[k]? = some ip → ∃ sender bytes,
        (source :: ips)[k]? = some sender ∧ net.log[k]? = some (sender, .packet ip bytes) ∧
        bytes = ipHeader (cfg.hostip sender) ip (28 + 4 * (hosts.length - 1 - k)) ++
          (mcastAddr.bytes ++ le16 env.bind.ephemeral ++
            le16 (htons (UInt16.ofNat (hosts.length - 1 - k))) ++
            ipList (ips.drop (k + 1)).reverse) ∧
        bytes.length = 28 + 4 * (hosts.length - 1 - k) ∧ bytes.length < 2 ^ 16) ∧
      net.flight.length = (if es.length < hosts.length then 1 else 0) ∧
      (es.length = hosts.length → ∃ last, ips.getLast? = some last ∧ net.log[hosts.length]? =
        some (last, .multicast (mcastAddr, env.bind.ephemeral) (tourEnded (cfg.hostOf last)))) := by
  have hlength : hosts.length = ips.length := by simpa using congrArg List.length hres
  obtain ⟨net, hrun, hlog, hflight, -, -⟩ := tour_run source hne hmax hres henv hes hlen
  refine ⟨net, hrun, ?_, ?_, ?_, ?_⟩
  · rw [hlog, List.length_take, transcript_length]
    omega
  · intro k hk ip hip
    obtain ⟨sender, hsender, hitem⟩ :=
      transcript_getElem cfg env.bind.ephemeral source hip
    have hrest : (ips.drop (k + 1)).length = hosts.length - 1 - k := by
      rw [List.length_drop]; omega
    refine ⟨sender, tourPacket (cfg.hostip sender) ip mcastAddr env.bind.ephemeral.toInt16
      (ips.drop (k + 1)), hsender, ?_, ?_, ?_, ?_⟩
    · rw [hlog, List.getElem?_take_of_lt (by omega)]
      exact hitem
    · rw [tourPacket, hrest, UInt16.toUInt16_toInt16]
      rfl
    · rw [tourPacket_length, hrest]
      rfl
    · rw [tourPacket_length, hrest]
      rw [tourMaxips_eq] at hmax
      simp only [sizeofIp, sizeofTourhdr]
      omega
  · rw [hflight, List.take_one, List.head?_drop]
    split
    · rename_i hmore
      obtain ⟨ip, hip⟩ : ∃ ip, ips[es.length]? = some ip :=
        ⟨_, List.getElem?_eq_getElem (hlength ▸ hmore)⟩
      obtain ⟨sender, -, hitem⟩ :=
        transcript_getElem cfg env.bind.ephemeral source hip
      rw [hitem]
      rfl
    · rename_i hdone
      obtain ⟨last, hlast⟩ : ∃ last, (source :: ips).getLast? = some last :=
        ⟨_, List.getLast?_eq_some_getLast (List.cons_ne_nil _ _)⟩
      have hend : es.length = ips.length := by omega
      rw [hend, transcript_last hlast]
      rfl
  · intro hend
    have hips : ips ≠ [] := by
      rintro rfl
      rw [hlength] at hne
      cases hne
    refine ⟨ips.getLast hips, List.getLast?_eq_some_getLast hips, ?_⟩
    have hlast : (source :: ips).getLast? = some (ips.getLast hips) := by
      rw [List.getLast?_eq_some_getLast (List.cons_ne_nil _ _), List.getLast_cons hips]
    rw [hlog, List.getElem?_take_of_lt (by omega), hlength]
    exact transcript_last hlast

/-- An address of the network of `threeHosts`. -/
def vm (i : UInt8) : InAddr := ⟨[130, 245, 156, i], rfl⟩

/-- Three hosts that know one another. -/
def threeHosts : TourConfig where
  resolve
    | "vm1" => some (vm 1)
    | "vm2" => some (vm 2)
    | "vm3" => some (vm 3)
    | _ => none
  hostOf a := if a = vm 1 then "vm1" else if a = vm 2 then "vm2" else "vm3"

/-- Every call succeeds; the port is negative as a `short`. -/
def smooth : TourEnv := ⟨⟨true, true, 0xE6A9⟩, true, true, true, true, true, true⟩

theorem smooth_succeeds : smooth.Succeeds := ⟨rfl, by decide, rfl, rfl, rfl, rfl, rfl, rfl, rfl⟩

/-- A tour over four stops, two of them at one host. -/
theorem tour_visits_in_order_four : ∃ net,
    (tourNet threeHosts).run (.boot threeHosts)
      (.start (vm 1) ["vm2", "vm3", "vm2", "vm1"] smooth :: List.replicate 4 (.deliver 0 smooth)) =
        some net ∧
    net.log.length = 5 ∧ net.flight.length = 0 := by
  obtain ⟨net, hrun, hlog, -, hflight, -⟩ := @tour_visits_in_order threeHosts (vm 1)
    ["vm2", "vm3", "vm2", "vm1"] [vm 2, vm 3, vm 2, vm 1] smooth
    (List.replicate 4 (.deliver 0 smooth)) (by decide) (by decide) rfl smooth_succeeds
    (fun e he => ⟨smooth, smooth_succeeds, List.eq_of_mem_replicate he⟩) (by decide)
  exact ⟨net, hrun, hlog, hflight⟩

end Tour
