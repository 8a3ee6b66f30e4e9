import Mathlib.Data.List.Forall2
import Tour.Lib.Scripts
import Tour.Route.System

/-!
# Tours as scripts

What a tour asks for is its itinerary. The network of the tour processes carries out the itineraries
of its tours side by side, as the scripts of the library are: `Simulates` relates the two, and every
step of the network is a move of the scripts, or none (`Simulates.step`).
-/

namespace Tour

open Lib Machine

/-! ## What a tour asks for -/

/-- What a node does for a tour. The last node announces the end in the group that it is in, which
need not be that of the tour. -/
inductive TourHop
  | send (src dst : InAddr) (bytes : List UInt8)
  | announce (last : InAddr)
deriving DecidableEq

/-- What a node did for a tour when it sent this. -/
def TourHop.of (cfg : TourConfig) (e : InAddr × TourEffect) : Option TourHop :=
  match e.2 with
  | .packet dst bytes => some (.send e.1 dst bytes)
  | .multicast _ text => if text = tourEnded (cfg.hostOf e.1) then some (.announce e.1) else none

/-- What is to be done when the tour is at `src` and `todo` is still to be visited. -/
def hopsFrom (cfg : TourConfig) (port : UInt16) (src : InAddr) (todo : List InAddr) :
    List TourHop := (transcript cfg port src todo).filterMap (TourHop.of cfg)

/-- The addresses of the hosts of a tour, if all of them resolve. -/
def TourStart.route (cfg : TourConfig) (tour : TourStart) : Option (List InAddr) :=
  tour.hosts.mapM cfg.resolve

/-- What a tour asks for. A tour with a host that does not resolve is not begun. -/
def TourStart.itinerary (cfg : TourConfig) (tour : TourStart) : List TourHop :=
  match tour.route cfg with
  | some ips => hopsFrom cfg tour.port tour.source ips
  | none => []

section Hops

variable (cfg : TourConfig) (port : UInt16)

theorem hopsFrom_nil (last : InAddr) : hopsFrom cfg port last [] = [.announce last] := by
  simp [hopsFrom, transcript, TourHop.of]

theorem hopsFrom_cons (src next : InAddr) (todo : List InAddr) :
    hopsFrom cfg port src (next :: todo) =
      .send src next (tourPacket (cfg.hostip src) next mcastAddr port.toInt16 todo) ::
        hopsFrom cfg port next todo := rfl

theorem hopsFrom_length (src : InAddr) (todo : List InAddr) :
    (hopsFrom cfg port src todo).length = todo.length + 1 := by
  induction todo generalizing src with
  | nil => rw [hopsFrom_nil]; rfl
  | cons next todo ih => rw [hopsFrom_cons, List.length_cons, ih, List.length_cons]

theorem hopsFrom_ne_nil (src : InAddr) (todo : List InAddr) : hopsFrom cfg port src todo ≠ [] := by
  intro h
  have hlength := hopsFrom_length cfg port src todo
  rw [h] at hlength
  cases hlength

theorem mapM_of_map {α β : Type} {f : α → Option β} {l : List α} {l' : List β}
    (h : l.map f = l'.map some) : l.mapM f = some l' := by
  induction l generalizing l' with
  | nil =>
    cases l' with
    | nil => rfl
    | cons b l' => cases h
  | cons a l ih =>
    cases l' with
    | nil => cases h
    | cons b l' =>
      rw [List.map_cons, List.map_cons, List.cons.injEq] at h
      rw [List.mapM_cons, h.1, ih h.2]
      rfl

variable {cfg}

theorem itinerary_of_route {tour : TourStart} {ips : List InAddr}
    (h : tour.hosts.map cfg.resolve = ips.map some) :
    tour.itinerary cfg = hopsFrom cfg tour.port tour.source ips := by
  have hroute : tour.route cfg = some ips := mapM_of_map h
  rw [TourStart.itinerary, hroute]

end Hops

theorem take_append_toList {l : String} {n : Nat} (hl : n ≤ l.toList.length) (h s : String) :
    (l ++ h ++ s).toList.take n = l.toList.take n := by
  rw [String.toList_append, String.toList_append, List.append_assoc,
    List.take_append_of_le_length hl]

/-- A member says so in other words than the last node. -/
theorem identified_ne_tourEnded (h h' : String) : identified h ≠ tourEnded h' := by
  intro heq
  have hmember : (identified h).toList.take 7 = "<<<<< Node ".toList.take 7 :=
    take_append_toList (by decide) h _
  have hlast : (tourEnded h').toList.take 7 = "<<<<< This is node ".toList.take 7 :=
    take_append_toList (by decide) h' _
  rw [heq, hlast] at hmember
  exact absurd hmember (by decide)

/-! ## A node in the group -/

/-- A node has the name and the address of its host, and its sockets are both in the group, or
neither of them is. -/
structure TourNode.Coherent (cfg : TourConfig) (a : InAddr) (node : TourNode) : Prop where
  host : node.host = cfg.hostOf a
  hostip : node.hostip = cfg.hostip a
  bound : node.port.isSome = node.binded
  peer : node.peer = node.port.map fun port => (mcastAddr, port)
  group : node.group = node.port.map fun _ => mcastAddr

section Coherent

variable {cfg : TourConfig} {a : InAddr} {node : TourNode}

theorem bootNode_coherent (cfg : TourConfig) (a : InAddr) : (bootNode cfg a).Coherent cfg a :=
  ⟨rfl, rfl, rfl, rfl, rfl⟩

theorem TourNode.Coherent.exit (h : node.Coherent cfg a) : node.exit.Coherent cfg a :=
  ⟨h.host, h.hostip, rfl, rfl, rfl⟩

theorem TourNode.Coherent.pings (h : node.Coherent cfg a) (pings : List InAddr) :
    ({ node with pings := pings } : TourNode).Coherent cfg a :=
  ⟨h.host, h.hostip, h.bound, h.peer, h.group⟩

theorem TourNode.Coherent.visited (h : node.Coherent cfg a) (src : InAddr) (port : UInt16) :
    (node.visited src mcastAddr port).Coherent cfg a := by
  have hjoin : (node.join mcastAddr port).Coherent cfg a := by
    unfold TourNode.join
    split
    · exact h
    · exact ⟨h.host, h.hostip, rfl, rfl, rfl⟩
  exact hjoin.pings _

theorem StartOutcome.coherent {hosts : List String} {env : TourEnv}
    {r : TourNode × List TourEffect} (hr : StartOutcome cfg.resolve node hosts env r)
    (h : node.Coherent cfg a) : r.1.Coherent cfg a := by
  cases hr with
  | failed => exact h.exit
  | started first todo resolved => exact ⟨h.host, h.hostip, rfl, rfl, rfl⟩

theorem RecvOutcome.coherent {sender : InAddr} {mcastport : Int16} {todo : List InAddr}
    {env : TourEnv} {r : TourNode × List TourEffect}
    (hr : RecvOutcome node sender mcastAddr mcastport todo env r) (h : node.Coherent cfg a) :
    r.1.Coherent cfg a := by
  cases hr with
  | failed => exact h.exit
  | forwarded next todo' left => exact h.visited sender _
  | ended peer last connected => exact h.visited sender _

end Coherent

/-! ## The tours as scripts -/

/-- A packet in flight was the last thing that was done for a tour, and takes it to its next host. -/
def Carries (cfg : TourConfig) (tours : List TourStart) (log : List (Nat × TourHop))
    (packet : InAddr × List UInt8) (w : Nat × List TourHop) : Prop :=
  ∃ tour sender todo, tours[w.1]? = some tour ∧ todo.length ≤ tourMaxips ∧
    packet.2 = tourPacket (cfg.hostip sender) packet.1 mcastAddr tour.port.toInt16 todo ∧
    (Scripts.itemsOf log w.1).getLast? = some (.send sender packet.1 packet.2) ∧
    w.2 = hopsFrom cfg tour.port packet.1 todo

/-- The network carries out the itineraries of its tours. -/
structure Simulates (cfg : TourConfig) (s : Scripts TourHop) (sys : TourSystem) : Prop where
  begun : s.begun = sys.tours.map (TourStart.itinerary cfg)
  flight : List.Forall₂ (Carries cfg sys.tours s.log) sys.flight s.waiting
  log : s.log.map Prod.snd = sys.log.filterMap (TourHop.of cfg)
  coherent : ∀ a, (sys.procs a).node.Coherent cfg a
  running : ∀ a, (sys.procs a).phase = .touring → (sys.procs a).node.running = true

theorem forall₂_imp_right {α β : Type} {R S : α → β → Prop} {l₁ : List α} {l₂ : List β}
    (H : ∀ a, ∀ b ∈ l₂, R a b → S a b) (h : List.Forall₂ R l₁ l₂) : List.Forall₂ S l₁ l₂ := by
  induction h with
  | nil => exact .nil
  | cons hab _ ih =>
    exact .cons (H _ _ List.mem_cons_self hab)
      (ih fun a b hb => H a b (List.mem_cons_of_mem _ hb))

/-- What a node sends to take a tour on by a hop. -/
inductive TakesOn (cfg : TourConfig) (port : UInt16) (a : InAddr) :
    List InAddr → List TourEffect → Prop
  | send (next : InAddr) (todo : List InAddr) : TakesOn cfg port a (next :: todo)
    [.packet next (tourPacket (cfg.hostip a) next mcastAddr port.toInt16 todo)]
  | announce (peer : InAddr × UInt16) : TakesOn cfg port a []
    [.multicast peer (tourEnded (cfg.hostOf a))]

section Simulates

variable {cfg : TourConfig} {s : Scripts TourHop} {sys : TourSystem} {a : InAddr}
  {r : TourProc × List TourEffect}

theorem simulates_boot (cfg : TourConfig) : Simulates cfg .empty (.boot cfg) :=
  ⟨rfl, .nil, rfl, bootNode_coherent cfg, fun a h => (by cases h)⟩

/-- The state of a process after a step. -/
structure TourProc.Fit (cfg : TourConfig) (a : InAddr) (p : TourProc) : Prop where
  coherent : p.node.Coherent cfg a
  running : p.phase = .touring → p.node.running = true

theorem Simulates.fit (h : Simulates cfg s sys) (a : InAddr) : (sys.procs a).Fit cfg a :=
  ⟨h.coherent a, h.running a⟩

theorem TourProc.Exits.fit {p : TourProc} {status : Nat} (h : p.Exits status r)
    (hp : p.Fit cfg a) : r.1.Fit cfg a := by
  refine ⟨?_, fun hphase => ?_⟩
  · rw [h.node]
    exact hp.coherent.exit
  · rw [h.phase] at hphase
    cases hphase

theorem apply_fit (h : Simulates cfg s sys) (hr : r.1.Fit cfg a) (b : InAddr) :
    ((sys.apply a r).procs b).Fit cfg b := by
  simp only [TourSystem.apply]
  split
  · rename_i hb
    rw [hb]
    exact hr
  · exact h.fit b

/-- A step in which nothing is done for a tour. -/
theorem Simulates.quiet (h : Simulates cfg s sys) (hr : r.1.Fit cfg a)
    (heffects : r.2 = [] ∨ ∃ peer host, r.2 = [.multicast peer (identified host)]) :
    Simulates cfg s (sys.apply a r) := by
  have hsent : r.2.filterMap TourEffect.sent = [] := by
    rcases heffects with hnil | ⟨peer, host, hone⟩
    · rw [hnil]; rfl
    · rw [hone]; rfl
  have hhop : (r.2.map fun e => (a, e)).filterMap (TourHop.of cfg) = [] := by
    rcases heffects with hnil | ⟨peer, host, hone⟩
    · rw [hnil]; rfl
    · rw [hone]
      simp [TourHop.of, identified_ne_tourEnded]
  refine ⟨h.begun, ?_, ?_, fun b => (apply_fit h hr b).coherent, fun b => (apply_fit h hr b).running⟩
  · simp only [TourSystem.apply, hsent, List.append_nil]
    exact h.flight
  · simp only [TourSystem.apply, List.filterMap_append, hhop, List.append_nil]
    exact h.log

theorem Simulates.leave (h : Simulates cfg s sys) (i : Nat) :
    Simulates cfg (s.leave i) (sys.drop i) := by
  refine ⟨h.begun, ?_, h.log, h.coherent, h.running⟩
  change List.Forall₂ _ (sys.flight.eraseIdx i) (s.waiting.eraseIdx i)
  rw [List.eraseIdx_eq_take_drop_succ, List.eraseIdx_eq_take_drop_succ]
  exact List.rel_append (List.forall₂_take i h.flight) (List.forall₂_drop (i + 1) h.flight)

/-- A tour more. -/
theorem Simulates.record (h : Simulates cfg s sys) (tour : TourStart) :
    Simulates cfg { s with begun := s.begun ++ [tour.itinerary cfg] }
      { sys with tours := sys.tours ++ [tour] } := by
  refine ⟨?_, h.flight.imp fun packet w => ?_, h.log, h.coherent, h.running⟩
  · change s.begun ++ [tour.itinerary cfg] = (sys.tours ++ [tour]).map (TourStart.itinerary cfg)
    rw [h.begun, List.map_append]
    rfl
  · rintro ⟨tour', sender, todo, htour, hrest⟩
    refine ⟨tour', sender, todo, ?_, hrest⟩
    rw [List.getElem?_append_left (List.getElem?_eq_some_iff.1 htour).1]
    exact htour

/-- A node takes a tour on, which does not wait elsewhere. -/
theorem Simulates.perform (h : Simulates cfg s sys) {t : Nat} {tour : TourStart}
    {todo : List InAddr} (htour : sys.tours[t]? = some tour) (ht : t ∉ s.waiting.map Prod.fst)
    (hmax : todo.length ≤ tourMaxips) (hr : r.1.Fit cfg a)
    (heffects : TakesOn cfg tour.port a todo r.2) :
    Simulates cfg (s.perform t (hopsFrom cfg tour.port a todo)) (sys.apply a r) := by
  -- the items of the tours that wait are as before
  have hrest : ∀ item, List.Forall₂ (Carries cfg sys.tours (s.log ++ [(t, item)])) sys.flight
      s.waiting := by
    intro item
    refine forall₂_imp_right (fun packet w hw => ?_) h.flight
    rintro ⟨tour', sender, todo', htour', hmax', hpacket, hlast, hleft⟩
    have hne : t ≠ w.1 := fun heq => ht (heq ▸ List.mem_map_of_mem hw)
    refine ⟨tour', sender, todo', htour', hmax', hpacket, ?_, hleft⟩
    rw [Scripts.itemsOf_append, Scripts.itemsOf_ne hne, List.append_nil]
    exact hlast
  obtain ⟨p, effects⟩ := r
  cases heffects with
  | announce peer =>
    rw [hopsFrom_nil]
    refine ⟨h.begun, ?_, ?_, fun b => (apply_fit h hr b).coherent,
      fun b => (apply_fit h hr b).running⟩
    · change List.Forall₂ _ (sys.flight ++ []) s.waiting
      rw [List.append_nil]
      exact hrest _
    · change (s.log ++ [(t, TourHop.announce a)]).map Prod.snd = _
      rw [List.map_append, h.log]
      simp [TourSystem.apply, TourHop.of]
  | send next todo =>
    obtain ⟨item, rest, hitems⟩ := List.exists_cons_of_ne_nil (hopsFrom_ne_nil cfg tour.port next todo)
    rw [hopsFrom_cons]
    have hperform : ∀ hop, s.perform t (hop :: hopsFrom cfg tour.port next todo) =
        { s with
          log := s.log ++ [(t, hop)]
          waiting := s.waiting ++ [(t, hopsFrom cfg tour.port next todo)] } := by
      intro hop
      simp only [Scripts.perform, hitems, Scripts.await]
    rw [hperform]
    refine ⟨h.begun, ?_, ?_, fun b => (apply_fit h hr b).coherent,
      fun b => (apply_fit h hr b).running⟩
    · refine List.rel_append (hrest _) (.cons ?_ .nil)
      refine ⟨tour, a, todo, htour, Nat.le_of_succ_le hmax, rfl, ?_, rfl⟩
      simp
    · change (s.log ++ [_]).map Prod.snd = _
      rw [List.map_append, h.log]
      simp [TourSystem.apply, TourHop.of]

end Simulates

/-! ## The steps of the network as moves of the scripts -/

/-- Every call of `main` before `start_tour` succeeds. -/
structure MainEnv.Succeeds (menv : MainEnv) : Prop where
  rt : menv.rtOk = true
  hdrincl : menv.hdrinclOk = true
  udpRecv : menv.udpRecvOk = true
  udpSend : menv.udpSendOk = true
  gethostname : menv.gethostnameOk = true

/-- Nothing fails on the way of the tours: a tour is begun when one is asked for, and a packet finds
its node in the loop of `run_tour`, where all calls that the tour needs succeed. -/
def SystemEvent.Smooth (cfg : TourConfig) (sys : TourSystem) : SystemEvent → Prop
  | .main _ hosts menv env => hosts ≠ [] → validArgs hosts = true ∧
    (∀ host ∈ hosts, cfg.resolve host ≠ none) ∧ menv.Succeeds ∧ env.Succeeds
  | .deliver i env _ _ _ => env.Succeeds ∧ ∀ packet, sys.flight[i]? = some packet →
    (sys.procs packet.1).phase = .touring
  | .hear _ _ _ => True
  | .timeout _ => True
  | .fails _ _ => True

def SystemEvent.delivers : SystemEvent → Bool
  | .deliver _ _ _ _ _ => true
  | .main _ _ _ _ => false
  | .hear _ _ _ => false
  | .timeout _ => false
  | .fails _ _ => false

/-- The hosts that the tours are to visit. -/
def TourSystem.hosts (sys : TourSystem) : List String := sys.tours.flatMap TourStart.hosts

/-- The moves of the scripts for a step of the network. -/
structure Mirrors (cfg : TourConfig) (sys : TourSystem) (e : SystemEvent) (sys' : TourSystem)
    (ms : List (Scripts.Move TourHop)) : Prop where
  goesOn : ms.countP Scripts.Move.goesOn = if e.delivers then 1 else 0
  adds : (ms.flatMap Scripts.Move.adds).length + sys.hosts.length ≤ sys'.hosts.length
  keeps : e.Smooth cfg sys → ∀ m ∈ ms, m.Keeps

section Moves

variable {cfg : TourConfig} {s : Scripts TourHop} {sys sys' : TourSystem} {a : InAddr}
  {r : TourProc × List TourEffect}

/-- The process of a source after `start_tour`, with the results of the calls that are left. -/
theorem mainTour_ok {p : TourProc} {hosts : List String} {first : InAddr} {todo : List InAddr}
    {menv : MainEnv} {env : TourEnv} (hvalid : validArgs hosts = true)
    (hres : hosts.map cfg.resolve = (first :: todo).map some) (hmenv : menv.Succeeds)
    (henv : env.Succeeds) : ∃ p', mainTour cfg.resolve p hosts menv env = some (p',
        [.packet first (tourPacket p.node.hostip first mcastAddr env.bind.ephemeral.toInt16 todo)]) ∧
      (p.node.running = true → menv.createRecvOk = true → p'.phase = .touring ∧
        p'.node.peer = some (mcastAddr, env.bind.ephemeral)) := by
  have hmax := validArgs_le hvalid
  have hempty : hosts.isEmpty = false := by
    cases hosts with
    | nil => cases hres
    | cons host hosts => rfl
  simp only [mainTour, hvalid, hmenv.rt, hmenv.hdrincl, hmenv.udpRecv, hmenv.udpSend,
    hmenv.gethostname, startHosts, hempty, startTour_ok p.node henv hres hmax, Bool.not_true,
    Bool.false_eq_true, if_false, bind, Option.bind_some]
  cases hrun : p.node.running with
  | false => exact ⟨_, rfl, fun h => (by cases h)⟩
  | true =>
    cases hcreate : menv.createRecvOk with
    | false => exact ⟨_, rfl, fun _ h => (by cases h)⟩
    | true => exact ⟨_, rfl, fun _ _ => ⟨rfl, rfl⟩⟩

/-- When its calls succeed, `main` sends the tour on its way. -/
theorem mainTour_sends {p : TourProc} {hosts : List String} {menv : MainEnv} {env : TourEnv}
    (hne : hosts ≠ []) (hvalid : validArgs hosts = true)
    (hres : ∀ host ∈ hosts, cfg.resolve host ≠ none) (hmenv : menv.Succeeds) (henv : env.Succeeds)
    (h : mainTour cfg.resolve p hosts menv env = some r) : r.2 ≠ [] := by
  obtain ⟨ips, hips⟩ := exists_ips hres
  cases ips with
  | nil => exact absurd (List.map_eq_nil_iff.1 hips) hne
  | cons first todo =>
    obtain ⟨p', hmain, -⟩ := @mainTour_ok cfg p hosts first todo menv env hvalid hips hmenv henv
    rw [hmain] at h
    cases h
    exact List.cons_ne_nil _ _

/-- When its calls succeed, a node takes a tour on. -/
theorem recvTour_sends_on {node : TourNode} {src dst : InAddr} {mcastport : Int16}
    {todo : List InAddr} {env : TourEnv} {r : TourNode × List TourEffect} (hnode : node.Coherent cfg a)
    (hmax : todo.length ≤ tourMaxips) (henv : env.Succeeds)
    (h : recvTour node (tourPacket src dst mcastAddr mcastport todo) src env = some r) :
    r.2 ≠ [] := by
  cases todo with
  | nil =>
    have hvisited := hnode.visited src (chosenPort mcastport.toUInt16 env)
    have hport := hvisited.bound
    rw [TourNode.visited_binded] at hport
    obtain ⟨port, hport⟩ := Option.isSome_iff_exists.1 hport
    have hpeer := hvisited.peer
    rw [hport] at hpeer
    rw [recvTour_nil henv hpeer] at h
    cases h
    exact List.cons_ne_nil _ _
  | cons next todo =>
    rw [recvTour_cons henv hmax] at h
    cases h
    exact List.cons_ne_nil _ _

/-- A tour more, which its source sends on its way, or does not. -/
theorem Simulates.begin (h : Simulates cfg s sys) (hinv : s.Inv) {tour : TourStart}
    (hr : r.1.Fit cfg tour.source)
    (heffects : r.2 = [] ∨ ∃ ips, tour.hosts.map cfg.resolve = ips.map some ∧
      ips.length ≤ tourMaxips ∧ TakesOn cfg tour.port tour.source ips r.2) :
    ∃ m s', s.step m = some s' ∧
      Simulates cfg s' (({ sys with tours := sys.tours ++ [tour] } : TourSystem).apply tour.source r) ∧
      m.goesOn = false ∧ m.adds.length ≤ tour.hosts.length ∧ (r.2 ≠ [] → m.Keeps) := by
  have hrecord := h.record tour
  rcases heffects with hnil | ⟨ips, hips, hmax, htakes⟩
  · exact ⟨.refuse (tour.itinerary cfg), _, rfl, hrecord.quiet hr (Or.inl hnil), rfl,
      Nat.zero_le _, fun hne => absurd hnil hne⟩
  · have hlength : tour.hosts.length = ips.length := by simpa using congrArg List.length hips
    have hitems := itinerary_of_route hips
    have hbegun : s.begun.length = sys.tours.length := by rw [h.begun, List.length_map]
    have htour : (sys.tours ++ [tour])[s.begun.length]? = some tour := by
      rw [hbegun]
      exact List.getElem?_concat_length
    rw [hitems] at hrecord
    refine ⟨.start (hopsFrom cfg tour.port tour.source ips), _, rfl,
      hrecord.perform htour (hinv.begin []).2.2 hmax hr htakes, rfl, ?_, fun _ => trivial⟩
    change (hopsFrom cfg tour.port tour.source ips).tail.length ≤ _
    rw [List.length_tail, hopsFrom_length, hlength]
    exact Nat.le_refl _

theorem StartOutcome.takesOn {node : TourNode} {hosts : List String} {env : TourEnv}
    {r : TourNode × List TourEffect} (hr : StartOutcome cfg.resolve node hosts env r)
    (hvalid : validArgs hosts = true) (hnode : node.Coherent cfg a) :
    r.2 = [] ∨ ∃ ips, hosts.map cfg.resolve = ips.map some ∧ ips.length ≤ tourMaxips ∧
      TakesOn cfg env.bind.ephemeral a ips r.2 := by
  cases hr with
  | failed => exact Or.inl rfl
  | started first todo resolved =>
    refine Or.inr ⟨first :: todo, resolved, ?_, ?_⟩
    · have hlength : hosts.length = (first :: todo).length := by
        simpa using congrArg List.length resolved
      exact hlength ▸ validArgs_le hvalid
    · rw [hnode.hostip]
      exact .send first todo

theorem RecvOutcome.takesOn {node : TourNode} {sender : InAddr} {port : UInt16}
    {todo : List InAddr} {env : TourEnv} {r : TourNode × List TourEffect}
    (hr : RecvOutcome node sender mcastAddr port.toInt16 todo env r)
    (hnode : node.Coherent cfg a) : r.2 = [] ∨ TakesOn cfg port a todo r.2 := by
  cases hr with
  | failed => exact Or.inl rfl
  | forwarded next todo' left =>
    rw [left, hnode.hostip]
    exact Or.inr (.send next todo')
  | ended peer last connected =>
    rw [last, hnode.host]
    exact Or.inr (.announce peer)

theorem machine_single {m : Scripts.Move TourHop} {s' : Scripts TourHop} (h : s.step m = some s') :
    (Scripts.machine TourHop).run s [m] = some s' :=
  ((Scripts.machine TourHop).run_cons_some h []).trans rfl

/-- A tour more in the network, as far as its source is a process with arguments. -/
theorem record_cons (sys : TourSystem) (a : InAddr) {hosts : List String} (hne : hosts ≠ [])
    (env : TourEnv) : sys.record a hosts env =
      { sys with tours := sys.tours ++ [⟨a, hosts, env.bind.ephemeral⟩] } := by
  have hempty : hosts.isEmpty = false := by simpa using hne
  simp only [TourSystem.record, hempty, Bool.false_eq_true, if_false]

/-- Nothing happens to the tours. -/
theorem mirrors_nil {e : SystemEvent} (he : e.delivers = false) (htours : sys'.tours = sys.tours) :
    Mirrors cfg sys e sys' [] := by
  refine ⟨by rw [he]; rfl, ?_, fun _ => List.forall_mem_nil _⟩
  rw [TourSystem.hosts, TourSystem.hosts, htours]
  simp

/-- The start of a process without hosts. -/
theorem Simulates.main_waits (h : Simulates cfg s sys) {menv : MainEnv} {env : TourEnv}
    (hmain : mainTour cfg.resolve (sys.procs a) [] menv env = some r) :
    Simulates cfg s (sys.apply a r) := by
  cases mainTour_cases hmain with
  | exits hexits => exact h.quiet (hexits.fit (h.fit a)) (Or.inl hexits.effects)
  | orphan named => exact absurd rfl named
  | tours named => exact absurd rfl named
  | waits unnamed node running phase effects =>
    refine h.quiet ⟨?_, fun _ => ?_⟩ (Or.inl effects)
    · rw [node]
      exact h.coherent a
    · rw [node]
      exact running

/-- What a process does that is started with hosts. -/
theorem mainTour_takesOn {p : TourProc} {hosts : List String} {menv : MainEnv} {env : TourEnv}
    (hp : p.Fit cfg a) (hne : hosts ≠ [])
    (hmain : mainTour cfg.resolve p hosts menv env = some r) :
    r.1.Fit cfg a ∧ (r.2 = [] ∨ ∃ ips, hosts.map cfg.resolve = ips.map some ∧
      ips.length ≤ tourMaxips ∧ TakesOn cfg env.bind.ephemeral a ips r.2) := by
  cases mainTour_cases hmain with
  | exits hexits => exact ⟨hexits.fit hp, Or.inl hexits.effects⟩
  | orphan named valid node hstart hnode phase =>
    refine ⟨⟨?_, fun htouring => ?_⟩, hstart.takesOn valid hp.coherent⟩
    · rw [hnode]
      exact hp.coherent.exit
    · rw [phase] at htouring
      cases htouring
  | waits unnamed => exact absurd unnamed hne
  | tours named valid hstart running phase =>
    exact ⟨⟨hstart.coherent hp.coherent, fun _ => running⟩, hstart.takesOn valid hp.coherent⟩

/-- A packet in flight arrives at a node in the loop. -/
theorem Simulates.arrive (h : Simulates cfg s sys) (hinv : s.Inv) {i : Nat} {dst : InAddr}
    {packet : List UInt8} {env : TourEnv} {elem : Addr} {tid : UInt64} {tenv : ThreadEnv}
    (hi : sys.flight[i]? = some (dst, packet))
    (hraw : rawTour (sys.procs dst) packet (ipSrc packet) env elem tid tenv = some r) :
    ∃ m s', s.step m = some s' ∧ Simulates cfg s' ((sys.drop i).apply dst r) ∧
      m.goesOn = true ∧ m.adds = [] ∧ (env.Succeeds → m.Keeps) := by
  obtain ⟨hlt, hpacket⟩ := List.getElem?_eq_some_iff.1 hi
  have hw : i < s.waiting.length := h.flight.length_eq ▸ hlt
  have hcarries := (List.forall₂_iff_get.1 h.flight).2 i hlt hw
  rw [List.get_eq_getElem, List.get_eq_getElem, hpacket] at hcarries
  obtain ⟨tour, sender, todo, htour, hmax, hbytes, -, hleft⟩ := hcarries
  dsimp only at hbytes
  have hwait : s.waiting[i]? = some s.waiting[i] := List.getElem?_eq_getElem hw
  have hsrc : ipSrc packet = cfg.hostip sender := by rw [hbytes, ipSrc_tourPacket]
  rw [hsrc] at hraw
  obtain ⟨node, hrecv, hnode⟩ := rawTour_cases hmax hbytes hraw
  have hdst := h.fit dst
  have hr : r.1.Fit cfg dst := by
    have hcoherent := hrecv.coherent hdst.coherent
    rcases hnode with ⟨hrun, heq, -⟩ | ⟨-, heq, hphase⟩
    · exact ⟨heq ▸ hcoherent, fun _ => heq ▸ hrun⟩
    · refine ⟨heq ▸ hcoherent.exit, fun htouring => ?_⟩
      rw [hphase] at htouring
      cases htouring
  rcases hrecv.takesOn hdst.coherent with hnil | htakes
  · refine ⟨.giveUp i, s.leave i, by rw [Scripts.step, hwait]; rfl,
      (h.leave i).quiet hr (Or.inl hnil), rfl, rfl, fun henv => ?_⟩
    -- the calls cannot all have succeeded
    obtain ⟨⟨node', effects⟩, hrecv', hraw⟩ := Option.bind_eq_some_iff.1 hraw
    cases hraw
    rw [hbytes] at hrecv'
    exact recvTour_sends_on hdst.coherent hmax henv hrecv' hnil
  · refine ⟨.go i, (s.leave i).perform s.waiting[i].1 s.waiting[i].2,
      by rw [Scripts.step, hwait]; rfl, ?_, rfl, rfl, fun _ => trivial⟩
    rw [hleft]
    exact (h.leave i).perform htour (hinv.not_mem_leave hwait) hmax hr htakes

/-- A node hears a multicast. -/
theorem Simulates.hear (h : Simulates cfg s sys) (hheard : HearOutcome (sys.procs a) r) :
    Simulates cfg s (sys.apply a r) := by
  cases hheard with
  | exits running hexits => exact h.quiet (hexits.fit (h.fit a)) (Or.inl hexits.effects)
  | member touring peer connected node phase effects =>
    refine h.quiet ⟨?_, fun htouring => ?_⟩ (Or.inr ⟨peer, _, effects⟩)
    · rw [node]
      exact (h.coherent a).pings []
    · rw [phase] at htouring
      cases htouring
  | stays ending heq =>
    rw [heq]
    exact h.quiet (h.fit a) (Or.inl rfl)

/-- **A step** of the network is a move of the scripts, or none. -/
theorem Simulates.step {e : SystemEvent} (h : Simulates cfg s sys) (hinv : s.Inv)
    (hstep : stepSystem cfg sys e = some sys') :
    ∃ ms s', (Scripts.machine TourHop).run s ms = some s' ∧ Simulates cfg s' sys' ∧
      Mirrors cfg sys e sys' ms := by
  cases stepSystem_cases hstep with
  | @main a hosts menv env r idle hmain =>
    by_cases hne : hosts = []
    · have hrecord : sys.record a hosts env = sys := by
        rw [hne]
        rfl
      rw [hne] at hmain
      rw [hrecord]
      exact ⟨[], s, rfl, h.main_waits hmain, mirrors_nil rfl rfl⟩
    · obtain ⟨hr, heffects⟩ := mainTour_takesOn (h.fit a) hne hmain
      rw [record_cons sys a hne env]
      obtain ⟨m, s', hm, hs', hgoes, hadds, hkeeps⟩ :=
        @Simulates.begin _ _ _ _ h hinv ⟨a, hosts, env.bind.ephemeral⟩ hr heffects
      refine ⟨[m], s', machine_single hm, hs', ?_, ?_, fun hsmooth => ?_⟩
      · simp [hgoes, SystemEvent.delivers]
      · change m.adds.length ≤ hosts.length at hadds
        simp only [TourSystem.hosts, TourSystem.apply, List.flatMap_append, List.flatMap_singleton,
          List.length_append]
        omega
      · obtain ⟨hvalid, hres, hmenv, henv⟩ := hsmooth hne
        exact List.forall_mem_singleton.2
          (hkeeps (mainTour_sends hne hvalid hres hmenv henv hmain))
  | @deliver i dst packet env elem tid tenv r flying touring hraw =>
    obtain ⟨m, s', hm, hs', hgoes, hadds, hkeeps⟩ := h.arrive hinv flying hraw
    refine ⟨[m], s', machine_single hm, hs', ?_, ?_, fun hsmooth => ?_⟩
    · simp [hgoes, SystemEvent.delivers]
    · simp [hadds, TourSystem.hosts, TourSystem.apply, TourSystem.drop]
    · exact List.forall_mem_singleton.2 (hkeeps hsmooth.1)
  | @lost i dst packet env elem tid tenv flying hphase =>
    have hlt : i < s.waiting.length :=
      h.flight.length_eq ▸ (List.getElem?_eq_some_iff.1 flying).1
    have hwait : s.waiting[i]? = some s.waiting[i] := List.getElem?_eq_getElem hlt
    refine ⟨[.giveUp i], s.leave i, machine_single (by rw [Scripts.step, hwait]; rfl), h.leave i,
      rfl, ?_, fun hsmooth => absurd (hsmooth.2 _ flying) hphase⟩
    simp [Scripts.Move.adds, TourSystem.hosts, TourSystem.drop]
  | hear sent hears hheard => exact ⟨[], s, rfl, h.hear hheard, mirrors_nil rfl rfl⟩
  | @timeout a r ending hexits =>
    exact ⟨[], s, rfl, h.quiet (hexits.fit (h.fit a)) (Or.inl hexits.effects), mirrors_nil rfl rfl⟩
  | @fails a tenv r running hexits =>
    exact ⟨[], s, rfl, h.quiet (hexits.fit (h.fit a)) (Or.inl hexits.effects), mirrors_nil rfl rfl⟩

theorem Simulates.run {es : List SystemEvent} (h : Simulates cfg s sys) (hinv : s.Inv)
    (hrun : (tourSystem cfg).run sys es = some sys') :
    ∃ ms s', (Scripts.machine TourHop).run s ms = some s' ∧ Simulates cfg s' sys' ∧
      ms.countP Scripts.Move.goesOn = es.countP SystemEvent.delivers ∧
      (ms.flatMap Scripts.Move.adds).length + sys.hosts.length ≤ sys'.hosts.length := by
  induction es generalizing s sys with
  | nil =>
    cases hrun
    exact ⟨[], s, rfl, h, rfl, by simp⟩
  | cons e es ih =>
    obtain ⟨sys₁, hstep, hrest⟩ := Option.bind_eq_some_iff.1 hrun
    obtain ⟨ms, s₁, hms, hs₁, hmirrors⟩ := h.step hinv hstep
    obtain ⟨ms', s', hms', hs', hgoes, hadds⟩ := ih hs₁ (hinv.run hms) hrest
    refine ⟨ms ++ ms', s', ?_, hs', ?_, ?_⟩
    · rw [Machine.run_append, hms]
      exact hms'
    · rw [List.countP_append, hgoes, hmirrors.goesOn, List.countP_cons, Nat.add_comm]
    · have hadds₁ := hmirrors.adds
      rw [List.flatMap_append, List.length_append]
      omega

theorem tours_simulated (h : (tourSystem cfg).Reachable (fun _ _ => True) sys) :
    ∃ s : Scripts TourHop, s.Inv ∧ Simulates cfg s sys := by
  refine h.invariant (I := fun sys => ∃ s : Scripts TourHop, s.Inv ∧ Simulates cfg s sys)
    ⟨.empty, Scripts.inv_empty, simulates_boot cfg⟩ ?_
  rintro sys e sys' ⟨s, hinv, hs⟩ - hstep
  obtain ⟨ms, s', hms, hs', -⟩ := hs.step hinv hstep
  exact ⟨s', hinv.run hms, hs'⟩

/-- When nothing fails on the way of the tours, none of them is given up. -/
theorem tours_kept (h : (tourSystem cfg).Reachable (fun sys e => e.Smooth cfg sys) sys) :
    ∃ s : Scripts TourHop, s.Inv ∧ s.Kept ∧ Simulates cfg s sys := by
  refine h.invariant (I := fun sys => ∃ s : Scripts TourHop, s.Inv ∧ s.Kept ∧ Simulates cfg s sys)
    ⟨.empty, Scripts.inv_empty, fun t script hscript => (by cases hscript), simulates_boot cfg⟩ ?_
  rintro sys e sys' ⟨s, hinv, hkept, hs⟩ hsmooth hstep
  obtain ⟨ms, s', hms, hs', hmirrors⟩ := hs.step hinv hstep
  exact ⟨s', hinv.run hms, hkept.run hinv (hmirrors.keeps hsmooth) hms, hs'⟩

end Moves

end Tour
