import Tour.Route.Process

/-!
# The tours of a network

Each node runs one process (`stepProc`), which is started once. A packet in flight is delivered to the node that it is
addressed to, and lost when no process there reads it; a multicast reaches any node that is in its
group, late, several times, or not at all. The history of a state is what each node sent, and the
tours that were started. The cases of a step are in `mainTour_cases`, `rawTour_cases` and
`finish_cases`.
-/

namespace Tour

open Lib Machine

/-- A tour that was started. -/
structure TourStart where
  source : InAddr
  hosts : List String
  /-- The port that the source chose for the group. -/
  port : UInt16

structure TourSystem where
  procs : InAddr → TourProc
  /-- The packets that were sent and not yet delivered, with their destinations. -/
  flight : List (InAddr × List UInt8)
  /-- What each node sent, the oldest first. -/
  log : List (InAddr × TourEffect)
  /-- The tours that were started, the oldest first. -/
  tours : List TourStart

/-- The node receives what is multicast to a group and a port. -/
def TourNode.hears (node : TourNode) (peer : InAddr × UInt16) : Bool :=
  decide (node.group = some peer.1) && decide (node.port = some peer.2)

namespace TourSystem

def boot (cfg : TourConfig) : TourSystem := ⟨bootProc cfg, [], [], []⟩

/-- The process at `a` took a step. -/
def apply (sys : TourSystem) (a : InAddr) (r : TourProc × List TourEffect) : TourSystem :=
  { sys with
    procs := fun x => if x = a then r.1 else sys.procs x
    flight := sys.flight ++ r.2.filterMap TourEffect.sent
    log := sys.log ++ r.2.map fun e => (a, e) }

/-- The process at `a` takes a step on an input. -/
def act (cfg : TourConfig) (sys : TourSystem) (a : InAddr) (input : TourInput) :
    Option TourSystem :=
  (stepProc cfg.resolve (sys.procs a) input).map (sys.apply a)

/-- The packet at a place in flight arrives. -/
def drop (sys : TourSystem) (i : Nat) : TourSystem := { sys with flight := sys.flight.eraseIdx i }

/-- A tour is started, if the arguments name hosts. -/
def record (sys : TourSystem) (a : InAddr) (hosts : List String) (env : TourEnv) : TourSystem :=
  { sys with
    tours := if hosts.isEmpty then sys.tours else sys.tours ++ [⟨a, hosts, env.bind.ephemeral⟩] }

end TourSystem

/-- What happens in the network. -/
inductive SystemEvent
  /-- The program is started at a node. -/
  | main (a : InAddr) (hosts : List String) (menv : MainEnv) (env : TourEnv)
  /-- The packet at a place in flight is delivered. -/
  | deliver (i : Nat) (env : TourEnv) (elem : Addr) (tid : UInt64) (tenv : ThreadEnv)
  /-- A node receives what stands at the place `k` of the log. -/
  | hear (a : InAddr) (k : Nat) (henv : HearEnv)
  | timeout (a : InAddr)
  | fails (a : InAddr) (tenv : ThreadEnv)

def stepSystem (cfg : TourConfig) (sys : TourSystem) : SystemEvent → Option TourSystem
  | .main a hosts menv env => (sys.record a hosts env).act cfg a (.main hosts menv env)
  | .deliver i env elem tid tenv => do
    let (dst, packet) ← sys.flight[i]?
    if (sys.procs dst).phase = .touring then
      (sys.drop i).act cfg dst (.raw packet (ipSrc packet) env elem tid tenv)
    else some (sys.drop i)
  | .hear a k henv =>
    match sys.log[k]? with
    | some (_, .multicast peer text) =>
      if (sys.procs a).node.hears peer then sys.act cfg a (.heard text henv) else none
    | some (_, .packet _ _) => none
    | none => none
  | .timeout a => sys.act cfg a .timeout
  | .fails a tenv => sys.act cfg a (.fails tenv)

/-- The network of the tour processes. -/
def tourSystem (cfg : TourConfig) : Machine TourSystem SystemEvent := ⟨.boot cfg, stepSystem cfg⟩

/-! ## What a process does in a step -/

section Steps

variable {resolve : String → Option InAddr} {p : TourProc} {r : TourProc × List TourEffect}

/-- The process exits with `status`, and did nothing that is seen outside. -/
structure TourProc.Exits (p : TourProc) (status : Nat) (r : TourProc × List TourEffect) : Prop where
  node : r.1.node = p.node.exit
  phase : r.1.phase = .exited status
  effects : r.2 = []

@[simp] theorem destroy_node (p : TourProc) (tenv : ThreadEnv) :
    (p.destroy tenv).node = { p.node with pings := [] } := by
  have hempty : (destroyPingt tenv.cancelErrs tenv.joinErrs p.threads).head = [] :=
    (freeLoop_calls p.threads).1
  simp only [TourProc.destroy, hempty, List.map_nil]

theorem quit_exits (p : TourProc) (status : Nat) : p.Exits status (p.quit status, []) :=
  ⟨rfl, rfl, rfl⟩

theorem abort_exits (p : TourProc) (tenv : ThreadEnv) : p.Exits exitFailure (p.abort tenv, []) := by
  refine ⟨?_, rfl, rfl⟩
  simp only [TourProc.abort, TourProc.quit, destroy_node]
  rfl

/-- `main` exits, though perhaps after it sent the tour on its way, or it enters the loop. -/
inductive MainOutcome (resolve : String → Option InAddr) (p : TourProc) (hosts : List String)
    (env : TourEnv) (r : TourProc × List TourEffect) : Prop
  | exits (h : p.Exits exitFailure r)
  | orphan (named : hosts ≠ []) (valid : validArgs hosts = true) (node : TourNode)
    (h : StartOutcome resolve p.node hosts env (node, r.2)) (hnode : r.1.node = p.node.exit)
    (phase : r.1.phase = .exited exitFailure)
  | waits (unnamed : hosts = []) (node : r.1.node = p.node) (running : p.node.running = true)
    (phase : r.1.phase = .touring) (effects : r.2 = [])
  | tours (named : hosts ≠ []) (valid : validArgs hosts = true)
    (h : StartOutcome resolve p.node hosts env (r.1.node, r.2)) (running : r.1.node.running = true)
    (phase : r.1.phase = .touring)

theorem StartOutcome.exit_eq {node : TourNode} {hosts : List String} {env : TourEnv}
    {r : TourNode × List TourEffect} (h : StartOutcome resolve node hosts env r) :
    r.1.exit = node.exit := by
  cases h <;> rfl

theorem mainTour_cases {hosts : List String} {menv : MainEnv} {env : TourEnv}
    (h : mainTour resolve p hosts menv env = some r) : MainOutcome resolve p hosts env r := by
  unfold mainTour at h
  split at h
  · cases h; exact .exits ⟨rfl, rfl, rfl⟩
  rename_i hvalid
  split at h
  · cases h; exact .exits ⟨rfl, rfl, rfl⟩
  split at h
  · cases h; exact .exits ⟨rfl, rfl, rfl⟩
  split at h
  · cases h; exact .exits ⟨rfl, rfl, rfl⟩
  split at h
  · cases h; exact .exits ⟨rfl, rfl, rfl⟩
  dsimp only at h
  split at h
  · cases h; exact .exits ⟨rfl, rfl, rfl⟩
  have hvalid : validArgs hosts = true := by simpa using hvalid
  have hmax := validArgs_le hvalid
  obtain ⟨⟨node, effects⟩, hstart, hrest⟩ := Option.bind_eq_some_iff.1 h
  cases hosts with
  | nil =>
    cases hstart
    split at hrest
    · cases hrest; exact .exits ⟨rfl, rfl, rfl⟩
    rename_i hrun
    split at hrest
    · cases hrest; exact .exits ⟨rfl, rfl, rfl⟩
    · cases hrest; exact .waits rfl rfl (by simpa using hrun) rfl rfl
  | cons host hosts =>
    have hout := startTour_outcome hmax hstart
    split at hrest
    · cases hrest
      exact .orphan (List.cons_ne_nil _ _) hvalid node hout hout.exit_eq rfl
    rename_i hrun
    split at hrest
    · cases hrest
      exact .orphan (List.cons_ne_nil _ _) hvalid node hout hout.exit_eq rfl
    · cases hrest
      exact .tours (List.cons_ne_nil _ _) hvalid hout (by simpa using hrun) rfl

/-- The loop of `run_tour` on a tour packet from `src`. -/
theorem rawTour_cases {packet : List UInt8} {src dst sender mcastip : InAddr} {mcastport : Int16}
    {todo : List InAddr} {env : TourEnv} {elem : Addr} {tid : UInt64} {tenv : ThreadEnv}
    (hmax : todo.length ≤ tourMaxips)
    (hpacket : packet = tourPacket src dst mcastip mcastport todo)
    (h : rawTour p packet sender env elem tid tenv = some r) :
    ∃ node, RecvOutcome p.node sender mcastip mcastport todo env (node, r.2) ∧
      ((node.running = true ∧ r.1.node = node ∧ r.1.phase = p.phase) ∨
        (node.running = false ∧ r.1.node = node.exit ∧ r.1.phase = .exited exitFailure)) := by
  obtain ⟨⟨node, effects⟩, hrecv, h⟩ := Option.bind_eq_some_iff.1 h
  rw [hpacket] at hrecv
  have hout := recvTour_outcome hmax hrecv
  cases hrun : node.running with
  | true =>
    simp only [hrun, if_true] at h
    cases h
    refine ⟨node, hout, Or.inl ⟨hrun, rfl, ?_⟩⟩
    dsimp only
    split <;> rfl
  | false =>
    simp only [hrun, Bool.false_eq_true, if_false] at h
    cases h
    refine ⟨node, hout, Or.inr ⟨hrun, ?_, rfl⟩⟩
    rw [(abort_exits _ tenv).node]
    have hnode : node = p.node.exit ∨ ∃ port, node = p.node.visited sender mcastip port := by
      cases hout with
      | failed => exact Or.inl rfl
      | forwarded next todo' left => exact Or.inr ⟨_, rfl⟩
      | ended peer last connected => exact Or.inr ⟨_, rfl⟩
    rcases hnode with rfl | ⟨port, rfl⟩
    · split <;> rfl
    · rw [exit_eq (visited_host ..) (visited_hostip ..)]
      split <;> rfl

/-- After the loop of `run_tour` the process exits, or it says that it is a member of its group. -/
theorem finish_cases {henv : HearEnv} (h : p.finish henv = r) :
    p.Exits exitFailure r ∨ ∃ peer, p.node.peer = some peer ∧
      r.1.node = { p.node with pings := [] } ∧ r.1.phase = .ending ∧
      r.2 = [.multicast peer (identified p.node.host)] := by
  have hquit : ∀ (q : TourProc) (tenv : ThreadEnv), q.node = p.node →
      p.Exits exitFailure ((q.destroy tenv).quit exitFailure, []) := by
    intro q tenv hq
    refine ⟨?_, rfl, rfl⟩
    simp only [TourProc.quit, destroy_node, hq]
    rfl
  subst h
  unfold TourProc.finish
  dsimp only
  split
  · exact Or.inl (hquit _ _ rfl)
  split
  · exact Or.inl (hquit _ _ rfl)
  split
  · exact Or.inl (hquit _ _ rfl)
  rw [TourProc.endTour]
  split
  · rename_i peer hpeer
    rw [destroy_node] at hpeer
    split
    · refine Or.inr ⟨peer, hpeer, destroy_node _ _, rfl, ?_⟩
      rw [destroy_node]
    · exact Or.inl (hquit _ _ rfl)
  · exact Or.inl (hquit _ _ rfl)

theorem stepProc_main {hosts : List String} {menv : MainEnv} {env : TourEnv}
    (h : stepProc resolve p (.main hosts menv env) = some r) :
    p.phase = .idle ∧ mainTour resolve p hosts menv env = some r := by
  cases hphase : p.phase with
  | idle =>
    simp only [stepProc, hphase] at h
    exact ⟨rfl, h⟩
  | touring => simp [stepProc, hphase] at h
  | ending => simp [stepProc, hphase] at h
  | exited status => simp [stepProc, hphase] at h

theorem stepProc_raw {packet : List UInt8} {src : InAddr} {env : TourEnv} {elem : Addr}
    {tid : UInt64} {tenv : ThreadEnv}
    (h : stepProc resolve p (.raw packet src env elem tid tenv) = some r) :
    p.phase = .touring ∧ rawTour p packet src env elem tid tenv = some r := by
  cases hphase : p.phase with
  | idle => simp [stepProc, hphase] at h
  | touring =>
    simp only [stepProc, hphase] at h
    exact ⟨rfl, h⟩
  | ending => simp [stepProc, hphase] at h
  | exited status => simp [stepProc, hphase] at h

/-- What a process does when it hears a multicast: it exits, it says that it is a member of its
group, or it waits on. -/
inductive HearOutcome (p : TourProc) (r : TourProc × List TourEffect) : Prop
  | exits (running : p.phase = .touring ∨ p.phase = .ending) (h : p.Exits exitFailure r)
  | member (touring : p.phase = .touring) (peer : InAddr × UInt16)
    (connected : p.node.peer = some peer) (node : r.1.node = { p.node with pings := [] })
    (phase : r.1.phase = .ending) (effects : r.2 = [.multicast peer (identified p.node.host)])
  | stays (ending : p.phase = .ending) (h : r = (p, []))

theorem stepProc_heard {text : String} {henv : HearEnv}
    (h : stepProc resolve p (.heard text henv) = some r) : HearOutcome p r := by
  cases hphase : p.phase with
  | idle => simp [stepProc, hphase] at h
  | exited status => simp [stepProc, hphase] at h
  | touring =>
    simp only [stepProc, hphase, Option.some.injEq] at h
    subst h
    split
    · rcases @finish_cases p _ henv rfl with hexits |
        ⟨peer, hpeer, hnode, hend, heffects⟩
      · exact .exits (Or.inl hphase) hexits
      · exact .member hphase peer hpeer hnode hend heffects
    · exact .exits (Or.inl hphase) (abort_exits p _)
  | ending =>
    simp only [stepProc, hphase, Option.some.injEq] at h
    subst h
    split
    · exact .stays hphase rfl
    · exact .exits (Or.inr hphase) (quit_exits p _)

theorem stepProc_timeout (h : stepProc resolve p .timeout = some r) :
    p.phase = .ending ∧ p.Exits exitSuccess r := by
  cases hphase : p.phase with
  | idle => simp [stepProc, hphase] at h
  | touring => simp [stepProc, hphase] at h
  | exited status => simp [stepProc, hphase] at h
  | ending =>
    simp only [stepProc, hphase, Option.some.injEq] at h
    subst h
    exact ⟨rfl, quit_exits p _⟩

theorem stepProc_fails {tenv : ThreadEnv} (h : stepProc resolve p (.fails tenv) = some r) :
    (p.phase = .touring ∨ p.phase = .ending) ∧ p.Exits exitFailure r := by
  cases hphase : p.phase with
  | idle => simp [stepProc, hphase] at h
  | exited status => simp [stepProc, hphase] at h
  | touring =>
    simp only [stepProc, hphase, Option.some.injEq] at h
    subst h
    exact ⟨Or.inl rfl, abort_exits p _⟩
  | ending =>
    simp only [stepProc, hphase, Option.some.injEq] at h
    subst h
    exact ⟨Or.inr rfl, quit_exits p _⟩

end Steps

/-! ## What the network does in a step -/

inductive SystemStep (cfg : TourConfig) (sys : TourSystem) : SystemEvent → TourSystem → Prop
  | main {a : InAddr} {hosts : List String} {menv : MainEnv} {env : TourEnv}
    {r : TourProc × List TourEffect} (idle : (sys.procs a).phase = .idle)
    (h : mainTour cfg.resolve (sys.procs a) hosts menv env = some r) :
    SystemStep cfg sys (.main a hosts menv env) ((sys.record a hosts env).apply a r)
  | deliver {i : Nat} {dst : InAddr} {packet : List UInt8} {env : TourEnv} {elem : Addr}
    {tid : UInt64} {tenv : ThreadEnv} {r : TourProc × List TourEffect}
    (flying : sys.flight[i]? = some (dst, packet)) (touring : (sys.procs dst).phase = .touring)
    (h : rawTour (sys.procs dst) packet (ipSrc packet) env elem tid tenv = some r) :
    SystemStep cfg sys (.deliver i env elem tid tenv) ((sys.drop i).apply dst r)
  | lost {i : Nat} {dst : InAddr} {packet : List UInt8} {env : TourEnv} {elem : Addr}
    {tid : UInt64} {tenv : ThreadEnv} (flying : sys.flight[i]? = some (dst, packet))
    (h : (sys.procs dst).phase ≠ .touring) :
    SystemStep cfg sys (.deliver i env elem tid tenv) (sys.drop i)
  | hear {a sender : InAddr} {k : Nat} {peer : InAddr × UInt16} {text : String} {henv : HearEnv}
    {r : TourProc × List TourEffect} (sent : sys.log[k]? = some (sender, .multicast peer text))
    (hears : (sys.procs a).node.hears peer = true) (h : HearOutcome (sys.procs a) r) :
    SystemStep cfg sys (.hear a k henv) (sys.apply a r)
  | timeout {a : InAddr} {r : TourProc × List TourEffect} (ending : (sys.procs a).phase = .ending)
    (h : (sys.procs a).Exits exitSuccess r) : SystemStep cfg sys (.timeout a) (sys.apply a r)
  | fails {a : InAddr} {tenv : ThreadEnv} {r : TourProc × List TourEffect}
    (running : (sys.procs a).phase = .touring ∨ (sys.procs a).phase = .ending)
    (h : (sys.procs a).Exits exitFailure r) : SystemStep cfg sys (.fails a tenv) (sys.apply a r)

theorem stepSystem_cases {cfg : TourConfig} {sys sys' : TourSystem} {e : SystemEvent}
    (h : stepSystem cfg sys e = some sys') : SystemStep cfg sys e sys' := by
  cases e with
  | main a hosts menv env =>
    obtain ⟨r, hproc, rfl⟩ := Option.map_eq_some_iff.1 h
    exact .main (stepProc_main hproc).1 (stepProc_main hproc).2
  | deliver i env elem tid tenv =>
    obtain ⟨⟨dst, packet⟩, hi, h⟩ := Option.bind_eq_some_iff.1 h
    dsimp only at h
    split at h
    · obtain ⟨r, hproc, rfl⟩ := Option.map_eq_some_iff.1 h
      exact .deliver hi (stepProc_raw hproc).1 (stepProc_raw hproc).2
    · rename_i htouring
      cases h
      exact .lost hi htouring
  | hear a k henv =>
    simp only [stepSystem] at h
    split at h
    · rename_i sender peer text hsent
      split at h
      · rename_i hhears
        obtain ⟨r, hproc, rfl⟩ := Option.map_eq_some_iff.1 h
        exact .hear hsent hhears (stepProc_heard hproc)
      · cases h
    · cases h
    · cases h
  | timeout a =>
    obtain ⟨r, hproc, rfl⟩ := Option.map_eq_some_iff.1 h
    exact .timeout (stepProc_timeout hproc).1 (stepProc_timeout hproc).2
  | fails a tenv =>
    obtain ⟨r, hproc, rfl⟩ := Option.map_eq_some_iff.1 h
    exact .fails (stepProc_fails hproc).1 (stepProc_fails hproc).2

end Tour
