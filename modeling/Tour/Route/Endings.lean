import Tour.Route.Members

/-!
# The end of a tour

What holds at the end in every run of the network, with any number of tours. A node leaves the loop
of `run_tour` because the end of a tour was announced in its group; it says once that it is a member,
and then nothing more (`members_answer`). It pings only nodes that sent it a tour, each with one
thread, and only in that loop (`pings_justified`). In a network of one tour no announcement comes
while the tour is under way (`one_tour_undisturbed`).
-/

namespace Tour

open Lib Machine

/-! ## The end of a tour -/

/-- What a node sent, the oldest first. -/
def TourSystem.sentBy (sys : TourSystem) (a : InAddr) : List TourEffect :=
  (sys.log.filter fun e => e.1 == a).map Prod.snd

/-- The node has not said that it is a member. -/
def Silent (cfg : TourConfig) (a : InAddr) (sent : List TourEffect) : Prop :=
  ∀ peer, .multicast peer (identified (cfg.hostOf a)) ∉ sent

/-- The node said that it is a member, once, and nothing after it. -/
def Identified (cfg : TourConfig) (a : InAddr) (sent : List TourEffect) : Prop :=
  ∃ before peer, sent = before ++ [.multicast peer (identified (cfg.hostOf a))] ∧
    Silent cfg a before

/-- What a node has sent in a phase. -/
def Stage (cfg : TourConfig) (a : InAddr) (sent : List TourEffect) : TourPhase → Prop
  | .idle => Silent cfg a sent
  | .touring => Silent cfg a sent
  | .ending => Identified cfg a sent
  | .exited status => Identified cfg a sent ∨ (Silent cfg a sent ∧ status ≠ exitSuccess)

/-- What is multicast: the last node of a tour announces its end, and members answer in the group
of the announcement. -/
structure Answers (cfg : TourConfig) (log : List (InAddr × TourEffect)) : Prop where
  texts : ∀ (k : Nat) a peer text, log[k]? = some (a, TourEffect.multicast peer text) →
    text = tourEnded (cfg.hostOf a) ∨ text = identified (cfg.hostOf a)
  cause : ∀ (k : Nat) a peer, log[k]? = some (a, TourEffect.multicast peer (identified (cfg.hostOf a))) →
    ∃ j < k, ∃ b, log[j]? = some (b, TourEffect.multicast peer (tourEnded (cfg.hostOf b)))

section Answers

variable {cfg : TourConfig} {log : List (InAddr × TourEffect)} {a : InAddr}

theorem Answers.append (h : Answers cfg log) {e : InAddr × TourEffect}
    (htext : ∀ peer text, e.2 = .multicast peer text →
      text = tourEnded (cfg.hostOf e.1) ∨ text = identified (cfg.hostOf e.1))
    (hcause : ∀ peer, e.2 = .multicast peer (identified (cfg.hostOf e.1)) →
      ∃ j < log.length, ∃ b, log[j]? = some (b, TourEffect.multicast peer (tourEnded (cfg.hostOf b)))) :
    Answers cfg (log ++ [e]) := by
  have hcases : ∀ (k : Nat) x, (log ++ [e])[k]? = some x → log[k]? = some x ∨ (k = log.length ∧ x = e) := by
    intro k x hk
    rcases Nat.lt_or_ge k log.length with hlt | hge
    · rw [List.getElem?_append_left hlt] at hk
      exact Or.inl hk
    · have hlt := (List.getElem?_eq_some_iff.1 hk).1
      rw [List.length_append, List.length_singleton] at hlt
      have heq : k = log.length := by omega
      rw [heq, List.getElem?_concat_length] at hk
      exact Or.inr ⟨heq, (Option.some.inj hk).symm⟩
  refine ⟨fun k a peer text hk => ?_, fun k a peer hk => ?_⟩
  · rcases hcases k _ hk with hold | ⟨-, heq⟩
    · exact h.texts k a peer text hold
    · rw [← heq] at htext
      exact htext peer text rfl
  · have hearlier : ∃ j < k, ∃ b, j < log.length ∧
        log[j]? = some (b, TourEffect.multicast peer (tourEnded (cfg.hostOf b))) := by
      rcases hcases k _ hk with hold | ⟨hlast, heq⟩
      · obtain ⟨j, hj, b, hb⟩ := h.cause k a peer hold
        exact ⟨j, hj, b, (List.getElem?_eq_some_iff.1 hb).1, hb⟩
      · rw [← heq] at hcause
        obtain ⟨j, hj, b, hb⟩ := hcause peer rfl
        exact ⟨j, hlast ▸ hj, b, hj, hb⟩
    obtain ⟨j, hj, b, hlt, hb⟩ := hearlier
    exact ⟨j, hj, b, by rw [List.getElem?_append_left hlt]; exact hb⟩

/-- A packet, or the announcement of the end of a tour. -/
theorem Answers.append_tour (h : Answers cfg log) {effects : List TourEffect}
    (heffects : effects = [] ∨ (∃ dst bytes, effects = [.packet dst bytes]) ∨
      ∃ peer, effects = [.multicast peer (tourEnded (cfg.hostOf a))]) :
    Answers cfg (log ++ effects.map fun e => (a, e)) := by
  rcases heffects with hnil | ⟨dst, bytes, hone⟩ | ⟨peer, hone⟩
  · rw [hnil, List.map_nil, List.append_nil]
    exact h
  · rw [hone]
    exact h.append (fun peer text he => (by cases he)) (fun peer he => (by cases he))
  · rw [hone]
    refine h.append (fun peer text he => ?_) (fun peer he => ?_)
    · cases he
      exact Or.inl rfl
    · exact absurd (TourEffect.multicast.inj he).2.symm (identified_ne_tourEnded _ _)

end Answers

/-- What a run keeps up about the end of tours. -/
structure EndInv (cfg : TourConfig) (sys : TourSystem) : Prop where
  stage : ∀ a, Stage cfg a (sys.sentBy a) (sys.procs a).phase
  answers : Answers cfg sys.log
  pings : ∀ a, (sys.procs a).phase ≠ .touring → (sys.procs a).node.pings = []

section Ending

variable {cfg : TourConfig} {sys sys' : TourSystem} {a : InAddr} {r : TourProc × List TourEffect}

@[simp] theorem sentBy_apply (sys : TourSystem) (a : InAddr) (r : TourProc × List TourEffect)
    (b : InAddr) : (sys.apply a r).sentBy b =
      if b = a then sys.sentBy b ++ r.2 else sys.sentBy b := by
  have hown : ((r.2.map fun e => (a, e)).filter fun e => e.1 == b).map Prod.snd =
      if b = a then r.2 else [] := by
    split
    · rename_i heq
      simp [heq, List.filter_map, Function.comp_def]
    · rename_i hne
      simp [Ne.symm hne, List.filter_map, Function.comp_def]
  simp only [TourSystem.sentBy, TourSystem.apply, List.filter_append, List.map_append, hown]
  split <;> simp

/-- A step of the node at `a`, by what becomes of its stage and of the log. -/
theorem EndInv.apply (h : EndInv cfg sys) (hstage : Stage cfg a (sys.sentBy a ++ r.2) r.1.phase)
    (hanswers : Answers cfg (sys.log ++ r.2.map fun e => (a, e)))
    (hpings : r.1.phase ≠ .touring → r.1.node.pings = []) : EndInv cfg (sys.apply a r) := by
  refine ⟨fun b => ?_, hanswers, fun b => ?_⟩
  · rw [sentBy_apply]
    simp only [TourSystem.apply]
    split
    · rename_i heq
      rw [heq]
      exact hstage
    · exact h.stage b
  · simp only [TourSystem.apply]
    split
    · exact hpings
    · exact h.pings b

/-- What the nodes send for tours. -/
def ForTour (cfg : TourConfig) (a : InAddr) (effects : List TourEffect) : Prop :=
  effects = [] ∨ (∃ dst bytes, effects = [.packet dst bytes]) ∨
    ∃ peer, effects = [.multicast peer (tourEnded (cfg.hostOf a))]

theorem Silent.append {sent effects : List TourEffect} (h : Silent cfg a sent)
    (heffects : ForTour cfg a effects) : Silent cfg a (sent ++ effects) := by
  intro peer hmem
  rcases List.mem_append.1 hmem with hmem | hmem
  · exact h peer hmem
  · rcases heffects with hnil | ⟨dst, bytes, hone⟩ | ⟨peer', hone⟩
    · rw [hnil] at hmem
      cases hmem
    · rw [hone] at hmem
      simp at hmem
    · rw [hone, List.mem_singleton] at hmem
      exact identified_ne_tourEnded _ _ (TourEffect.multicast.inj hmem).2

/-- A process that has not said it is a member exits when something fails. -/
theorem Silent.failed {sent : List TourEffect} (h : Silent cfg a sent) :
    Stage cfg a sent (.exited exitFailure) := Or.inr ⟨h, fun heq => (by cases heq)⟩

theorem StartOutcome.forTour {node : TourNode} {hosts : List String} {env : TourEnv}
    {r : TourNode × List TourEffect} (hr : StartOutcome cfg.resolve node hosts env r) :
    ForTour cfg a r.2 := by
  cases hr with
  | failed => exact Or.inl rfl
  | started first todo resolved => exact Or.inr (Or.inl ⟨_, _, rfl⟩)

theorem StartOutcome.pings {node : TourNode} {hosts : List String} {env : TourEnv}
    {r : TourNode × List TourEffect} (hr : StartOutcome cfg.resolve node hosts env r) :
    r.1.pings = [] ∨ r.1.pings = node.pings := by
  cases hr with
  | failed => exact Or.inl rfl
  | started first todo resolved => exact Or.inr rfl

theorem RecvOutcome.pings {node : TourNode} {sender mcastip : InAddr} {mcastport : Int16}
    {todo : List InAddr} {env : TourEnv} {r : TourNode × List TourEffect}
    (hr : RecvOutcome node sender mcastip mcastport todo env r) :
    r.1.pings = [] ∨ r.1.pings = node.pings.insert sender := by
  cases hr with
  | failed => exact Or.inl rfl
  | forwarded next todo' left => exact Or.inr rfl
  | ended peer last connected => exact Or.inr rfl

theorem RecvOutcome.forTour {node : TourNode} {sender mcastip : InAddr} {mcastport : Int16}
    {todo : List InAddr} {env : TourEnv} {r : TourNode × List TourEffect}
    (hr : RecvOutcome node sender mcastip mcastport todo env r) (hhost : node.host = cfg.hostOf a) :
    ForTour cfg a r.2 := by
  cases hr with
  | failed => exact Or.inl rfl
  | forwarded next todo' left => exact Or.inr (Or.inl ⟨_, _, rfl⟩)
  | ended peer last connected =>
    rw [hhost]
    exact Or.inr (Or.inr ⟨peer, rfl⟩)

/-- The process at `a` exits with failure. -/
theorem EndInv.fails (h : EndInv cfg sys)
    (hrunning : (sys.procs a).phase = .touring ∨ (sys.procs a).phase = .ending)
    (hr : (sys.procs a).Exits exitFailure r) : EndInv cfg (sys.apply a r) := by
  have hstage := h.stage a
  refine h.apply ?_ ?_ fun _ => ?_
  · rw [hr.effects, hr.phase, List.append_nil]
    rcases hrunning with hphase | hphase
    · rw [hphase] at hstage
      exact hstage.failed
    · rw [hphase] at hstage
      exact Or.inl hstage
  · rw [hr.effects, List.map_nil, List.append_nil]
    exact h.answers
  · rw [hr.node]
    rfl

/-- A packet in flight was sent, and is one of a tour. -/
theorem Simulates.flying {s : Scripts TourHop} (h : Simulates cfg s sys) {i : Nat} {dst : InAddr}
    {packet : List UInt8} (hi : sys.flight[i]? = some (dst, packet)) :
    ∃ sender mcastport todo, todo.length ≤ tourMaxips ∧
      packet = tourPacket (cfg.hostip sender) dst mcastAddr mcastport todo ∧
      (sender, .packet dst packet) ∈ sys.log := by
  obtain ⟨hlt, hpacket⟩ := List.getElem?_eq_some_iff.1 hi
  have hw : i < s.waiting.length := h.flight.length_eq ▸ hlt
  have hcarries := (List.forall₂_iff_get.1 h.flight).2 i hlt hw
  rw [List.get_eq_getElem, List.get_eq_getElem, hpacket] at hcarries
  obtain ⟨tour, sender, todo, -, hmax, hbytes, hlast, -⟩ := hcarries
  refine ⟨sender, tour.port.toInt16, todo, hmax, hbytes, ?_⟩
  -- the last item of the tour is in the log
  obtain ⟨e, he, heq⟩ := List.mem_map.1 (List.mem_of_getLast? hlast)
  have hmem : e.2 ∈ sys.log.filterMap (TourHop.of cfg) := by
    rw [← h.log]
    exact List.mem_map_of_mem (List.mem_of_mem_filter he)
  rw [heq] at hmem
  obtain ⟨⟨b, effect⟩, hb, hof⟩ := List.mem_filterMap.1 hmem
  cases effect with
  | packet dst' bytes' =>
    cases hof
    exact hb
  | multicast peer text =>
    simp only [TourHop.of] at hof
    split at hof <;> cases hof

theorem EndInv.step {e : SystemEvent} {s : Scripts TourHop} (h : EndInv cfg sys)
    (hs : Simulates cfg s sys) (hstep : stepSystem cfg sys e = some sys') : EndInv cfg sys' := by
  cases stepSystem_cases hstep with
  | @main a hosts menv env r idle hmain =>
    have hrecord : EndInv cfg (sys.record a hosts env) := ⟨h.stage, h.answers, h.pings⟩
    have hsilent : Silent cfg a (sys.sentBy a) := by
      have hstage := h.stage a
      rw [idle] at hstage
      exact hstage
    have hfailed : ForTour cfg a r.2 → r.1.phase = .exited exitFailure →
        r.1.node = (sys.procs a).node.exit → EndInv cfg ((sys.record a hosts env).apply a r) := by
      intro heffects hphase hnode
      refine hrecord.apply ?_ (h.answers.append_tour heffects) fun _ => ?_
      · rw [hphase]
        exact (hsilent.append heffects).failed
      · rw [hnode]
        rfl
    have htouring : ForTour cfg a r.2 → r.1.phase = .touring →
        EndInv cfg ((sys.record a hosts env).apply a r) := by
      intro heffects hphase
      refine hrecord.apply ?_ (h.answers.append_tour heffects) fun hne => absurd hphase hne
      rw [hphase]
      exact hsilent.append heffects
    cases mainTour_cases hmain with
    | exits hexits => exact hfailed (Or.inl hexits.effects) hexits.phase hexits.node
    | orphan named valid node hstart hnode phase => exact hfailed hstart.forTour phase hnode
    | waits unnamed node running phase effects => exact htouring (Or.inl effects) phase
    | tours named valid hstart running phase => exact htouring hstart.forTour phase
  | @deliver i dst packet env elem tid tenv r flying touring hraw =>
    have hdrop : EndInv cfg (sys.drop i) := ⟨h.stage, h.answers, h.pings⟩
    have hsilent : Silent cfg dst (sys.sentBy dst) := by
      have hstage := h.stage dst
      rw [touring] at hstage
      exact hstage
    obtain ⟨sender, mcastport, todo, hmax, hbytes, -⟩ := hs.flying flying
    obtain ⟨node, hrecv, hnode⟩ := rawTour_cases hmax hbytes hraw
    have heffects : ForTour cfg dst r.2 := hrecv.forTour (hs.coherent dst).host
    refine hdrop.apply ?_ (h.answers.append_tour heffects) fun hne => ?_
    · rcases hnode with ⟨-, -, hphase⟩ | ⟨-, -, hphase⟩
      · rw [hphase, touring]
        exact hsilent.append heffects
      · rw [hphase]
        exact (hsilent.append heffects).failed
    · rcases hnode with ⟨-, -, hphase⟩ | ⟨-, heq, -⟩
      · exact absurd (hphase.trans touring) hne
      · rw [heq]
        rfl
  | lost flying hphase => exact ⟨h.stage, h.answers, h.pings⟩
  | @hear a sender k peer text henv r sent hears hheard =>
    cases hheard with
    | exits running hexits => exact h.fails running hexits
    | member touring peer' connected node phase effects =>
      have hstage := h.stage a
      rw [touring] at hstage
      have hcoherent := hs.coherent a
      -- the node answers in the group in which it heard the multicast
      have hpeer : peer' = peer := by
        simp only [TourNode.hears, Bool.and_eq_true, decide_eq_true_eq] at hears
        have hp := hcoherent.peer
        have hg := hcoherent.group
        rw [hears.2, connected] at hp
        rw [hears.1, hears.2] at hg
        rw [Option.some.inj hp, show mcastAddr = peer.1 from (Option.some.inj hg).symm]
      rw [hcoherent.host, hpeer] at effects
      refine h.apply ?_ ?_ fun _ => ?_
      · rw [phase, effects]
        exact ⟨_, peer, rfl, hstage⟩
      · rw [effects]
        refine h.answers.append (fun peer text he => ?_) (fun peer' he => ?_)
        · cases he
          exact Or.inr rfl
        · cases he
          have hk := (List.getElem?_eq_some_iff.1 sent).1
          rcases h.answers.texts k sender peer text sent with htext | htext
          · exact ⟨k, hk, sender, by rw [sent, htext]⟩
          · rw [htext] at sent
            obtain ⟨j, hj, b, hb⟩ := h.answers.cause k sender peer sent
            exact ⟨j, hj.trans hk, b, hb⟩
      · rw [node]
    | stays ending heq =>
      rw [heq]
      refine h.apply ?_ ?_ (h.pings a)
      · rw [List.append_nil]
        exact h.stage a
      · rw [List.map_nil, List.append_nil]
        exact h.answers
  | @timeout a r ending hexits =>
    have hstage := h.stage a
    rw [ending] at hstage
    refine h.apply ?_ ?_ fun _ => ?_
    · rw [hexits.effects, hexits.phase, List.append_nil]
      exact Or.inl hstage
    · rw [hexits.effects, List.map_nil, List.append_nil]
      exact h.answers
    · rw [hexits.node]
      rfl
  | fails running hexits => exact h.fails running hexits

theorem reachable_end (h : (tourSystem cfg).Reachable (fun _ _ => True) sys) : EndInv cfg sys := by
  refine h.invariant_under (J := fun sys => ∃ s : Scripts TourHop, s.Inv ∧ Simulates cfg s sys)
    (fun _ hr => tours_simulated hr) ⟨fun a peer hmem => (by cases hmem),
      ⟨fun k a peer text hk => (by cases hk), fun k a peer hk => (by cases hk)⟩, fun a _ => rfl⟩ ?_
  rintro sys e sys' ⟨s, -, hs⟩ h - hstep
  exact h.step hs hstep

/-- A node that has left the loop without a failure has said that it is a member. -/
theorem EndInv.identified (h : EndInv cfg sys)
    (hphase : (sys.procs a).phase = .ending ∨ (sys.procs a).phase = .exited exitSuccess) :
    Identified cfg a (sys.sentBy a) := by
  have hstage := h.stage a
  rcases hphase with hphase | hphase
  · rw [hphase] at hstage
    exact hstage
  · rw [hphase] at hstage
    exact hstage.resolve_right fun hne => hne.2 rfl

end Ending

/-- **Members answer.** In every run, a node that has left the loop of `run_tour` without a failure
has said that it is a member of its group, once and as the last thing that it sent; and whenever a
node said so, the end of a tour had been announced in that group before. -/
theorem members_answer {cfg : TourConfig} {sys : TourSystem}
    (h : (tourSystem cfg).Reachable (fun _ _ => True) sys) :
    (∀ a, (sys.procs a).phase = .ending ∨ (sys.procs a).phase = .exited exitSuccess →
      Identified cfg a (sys.sentBy a)) ∧
    (∀ a, Identified cfg a (sys.sentBy a) ∨ Silent cfg a (sys.sentBy a)) ∧
    ∀ (k : Nat) a peer,
      sys.log[k]? = some (a, TourEffect.multicast peer (identified (cfg.hostOf a))) →
      ∃ j < k, ∃ b, sys.log[j]? = some (b, TourEffect.multicast peer (tourEnded (cfg.hostOf b))) := by
  have hinv := reachable_end h
  refine ⟨fun a => hinv.identified, fun a => ?_, hinv.answers.cause⟩
  have hstage := hinv.stage a
  cases hphase : (sys.procs a).phase with
  | idle =>
    rw [hphase] at hstage
    exact Or.inr hstage
  | touring =>
    rw [hphase] at hstage
    exact Or.inr hstage
  | ending =>
    rw [hphase] at hstage
    exact Or.inl hstage
  | exited status =>
    rw [hphase] at hstage
    exact hstage.imp_right And.left

/-- The first packet in flight arrives at its last host, which announces the end of the tour. -/
theorem deliver_announces {cfg : TourConfig} {sys : TourSystem} {src dst : InAddr}
    {mcastport : Int16} {rest : List (InAddr × List UInt8)}
    (hflight : sys.flight = (dst, tourPacket src dst mcastAddr mcastport []) :: rest)
    (hphase : (sys.procs dst).phase = .touring) (hfit : (sys.procs dst).Fit cfg dst) :
    ∃ sys' peer, (tourSystem cfg).step sys (.deliver 0 smooth 0 0 joinAll) = some sys' ∧
      sys'.log = sys.log ++ [(dst, .multicast peer (tourEnded (cfg.hostOf dst)))] ∧
      (sys'.procs dst).phase = .touring ∧ (sys'.procs dst).node.hears peer = true := by
  obtain ⟨sys', hstep, -⟩ := @deliver_last cfg sys src dst mcastport rest hflight hphase
  have hmax : ([] : List InAddr).length ≤ tourMaxips := Nat.zero_le _
  have hcases : stepSystem cfg sys (.deliver 0 smooth 0 0 joinAll) = some sys' := hstep
  cases stepSystem_cases hcases with
  | @lost _ dst' packet _ _ _ _ flying hlost =>
    rw [hflight] at flying
    cases flying
    exact absurd hphase hlost
  | @deliver _ dst' packet _ _ _ _ r flying touring hraw =>
    rw [hflight] at flying
    cases flying
    rw [ipSrc_tourPacket] at hraw
    obtain ⟨node, hout, hnode⟩ := rawTour_cases hmax rfl hraw
    obtain ⟨⟨node', effects⟩, hrecv, hrest⟩ := Option.bind_eq_some_iff.1 hraw
    have heffects : r.2 ≠ [] := by
      cases hrest
      exact recvTour_sends_on hfit.coherent hmax smooth_succeeds hrecv
    have hcoherent := hout.coherent hfit.coherent
    obtain ⟨p, effects'⟩ := r
    cases hout with
    | failed => exact absurd rfl heffects
    | forwarded next todo' left => cases left
    | ended peer last connected =>
      have hrun : ((sys.procs dst).node.visited src mcastAddr
          (chosenPort mcastport.toUInt16 smooth)).running = true := by
        unfold TourNode.visited TourNode.join
        split <;> exact hfit.running hphase
      rcases hnode with ⟨-, heq, hp⟩ | ⟨hnot, -, -⟩
      · refine ⟨_, peer, hstep, ?_, ?_, ?_⟩
        · simp only [TourSystem.apply, TourSystem.drop, List.map_singleton, hfit.coherent.host]
        · simp only [TourSystem.apply, if_true]
          exact hp.trans hphase
        · simp only [TourSystem.apply, if_true]
          dsimp only at heq
          have hp := hcoherent.peer
          have hg := hcoherent.group
          rw [connected] at hp
          obtain ⟨port, hport, hpeer⟩ := Option.map_eq_some_iff.1 hp.symm
          rw [hport] at hg
          rw [heq, TourNode.hears, ← hpeer, hg, hport]
          simp
      · rw [hrun] at hnot
        cases hnot

/-- When its calls succeed, a process that leaves the loop of `run_tour` enters that of `end_tour`. -/
theorem finish_ok {p : TourProc} {peer : InAddr × UInt16} (hpeer : p.node.peer = some peer) :
    (p.finish ⟨true, joinAll, true⟩).1.phase = .ending := by
  have hret : ¬(1 : Int) = 0 := by decide
  simp only [TourProc.finish, joinAll, ne_eq, not_true_eq_false, if_false, destroyPingt_ret, hret,
    TourProc.endTour, destroy_node, hpeer, if_true]

/-- A node in the loop hears a multicast, and answers. -/
theorem hear_answers {cfg : TourConfig} {sys : TourSystem} {a b : InAddr} {k : Nat}
    {peer : InAddr × UInt16} {text : String}
    (hsent : sys.log[k]? = some (b, .multicast peer text))
    (hphase : (sys.procs a).phase = .touring) (hhears : (sys.procs a).node.hears peer = true)
    (hfit : (sys.procs a).Fit cfg a) :
    ∃ sys', (tourSystem cfg).step sys (.hear a k ⟨true, joinAll, true⟩) = some sys' ∧
      (sys'.procs a).phase = .ending := by
  have hpeer : (sys.procs a).node.peer = some (mcastAddr, peer.2) := by
    simp only [TourNode.hears, Bool.and_eq_true, decide_eq_true_eq] at hhears
    rw [hfit.coherent.peer, hhears.2]
    rfl
  have hstep : stepSystem cfg sys (.hear a k ⟨true, joinAll, true⟩) =
      some (sys.apply a ((sys.procs a).finish ⟨true, joinAll, true⟩)) := by
    simp only [stepSystem, hsent, hhears, if_true, TourSystem.act, stepProc, hphase, Option.map_some]
  refine ⟨_, hstep, ?_⟩
  simp only [TourSystem.apply, if_true]
  exact finish_ok hpeer

/-- After the first packet arrived its last host hears what it announced. -/
theorem members_answer_crossing : ∃ k sys, (tourSystem threeHosts).run (.boot threeHosts)
      (crossing ++ [.deliver 0 smooth 0 0 joinAll, .hear (vm 2) k ⟨true, joinAll, true⟩]) =
        some sys ∧
    (sys.procs (vm 2)).phase = .ending ∧ Identified threeHosts (vm 2) (sys.sentBy (vm 2)) := by
  obtain ⟨sys, hrun, hreach, htours, hflight, -, hphase⟩ := crossing_run
  have hreach : (tourSystem threeHosts).Reachable (fun _ _ => True) sys :=
    hreach.mono fun _ _ _ => trivial
  obtain ⟨s, -, hs⟩ := tours_simulated hreach
  obtain ⟨sys₁, peer, hstep₁, hlog₁, hphase₁, hhears₁⟩ := deliver_announces hflight hphase (hs.fit _)
  have hreach₁ := hreach.step trivial hstep₁
  obtain ⟨s₁, -, hs₁⟩ := tours_simulated hreach₁
  have hsent : sys₁.log[sys.log.length]? =
      some (vm 2, .multicast peer (tourEnded (threeHosts.hostOf (vm 2)))) := by
    rw [hlog₁]
    exact List.getElem?_concat_length
  obtain ⟨sys₂, hstep₂, hphase₂⟩ := hear_answers hsent hphase₁ hhears₁ (hs₁.fit _)
  refine ⟨sys.log.length, sys₂, ?_, hphase₂, (members_answer (hreach₁.step trivial hstep₂)).1 _ (Or.inl hphase₂)⟩
  rw [Machine.run_append, hrun]
  change (tourSystem threeHosts).run sys _ = _
  rw [(tourSystem threeHosts).run_cons_some hstep₁, (tourSystem threeHosts).run_cons_some hstep₂]
  rfl

/-! ## The targets of the pings -/

/-- A node pings, each with one thread, nodes that sent it a tour. -/
def PingsSenders (cfg : TourConfig) (sys : TourSystem) (a : InAddr) (pings : List InAddr) : Prop :=
  pings.Nodup ∧ ∀ ip ∈ pings, ∃ sender bytes,
    (sender, TourEffect.packet a bytes) ∈ sys.log ∧ cfg.hostip sender = ip

section Pings

variable {cfg : TourConfig} {sys sys' : TourSystem} {a : InAddr} {r : TourProc × List TourEffect}

theorem pingsSenders_nil : PingsSenders cfg sys a [] :=
  ⟨List.nodup_nil, fun ip hip => (by cases hip)⟩

/-- A step of the node at `a`, by the targets that it has then. -/
theorem pingsSenders_apply (h : ∀ b, PingsSenders cfg sys b (sys.procs b).node.pings)
    (hr : PingsSenders cfg sys a r.1.node.pings) (b : InAddr) :
    PingsSenders cfg (sys.apply a r) b ((sys.apply a r).procs b).node.pings := by
  have hgrow : ∀ c pings, PingsSenders cfg sys c pings → PingsSenders cfg (sys.apply a r) c pings :=
    fun c pings hp => ⟨hp.1, fun ip hip =>
      (hp.2 ip hip).imp fun _ hs => hs.imp fun _ hb => hb.imp_left (List.mem_append_left _)⟩
  refine hgrow b _ ?_
  simp only [TourSystem.apply]
  split
  · rename_i heq
    rw [heq]
    exact hr
  · exact h b

theorem pingsSenders_step {e : SystemEvent} {s : Scripts TourHop}
    (h : ∀ b, PingsSenders cfg sys b (sys.procs b).node.pings) (hs : Simulates cfg s sys)
    (hstep : stepSystem cfg sys e = some sys') (b : InAddr) :
    PingsSenders cfg sys' b (sys'.procs b).node.pings := by
  have hexits : ∀ (sys : TourSystem) (a : InAddr) (p : TourProc) (status : Nat)
      (r : TourProc × List TourEffect), p.Exits status r →
      PingsSenders cfg sys a r.1.node.pings := by
    intro sys a p status r hr
    rw [hr.node]
    exact pingsSenders_nil
  cases stepSystem_cases hstep with
  | @main a hosts menv env r idle hmain =>
    refine pingsSenders_apply (fun b => h b) ?_ b
    have hkeep : r.1.node.pings = [] ∨ r.1.node.pings = (sys.procs a).node.pings := by
      cases mainTour_cases hmain with
      | exits hexits => exact Or.inl (by rw [hexits.node]; rfl)
      | orphan named valid node hstart hnode phase => exact Or.inl (by rw [hnode]; rfl)
      | waits unnamed node running phase effects => exact Or.inr (by rw [node])
      | tours named valid hstart running phase => exact hstart.pings
    rcases hkeep with hnil | hsame
    · rw [hnil]
      exact pingsSenders_nil
    · rw [hsame]
      exact h a
  | @deliver i dst packet env elem tid tenv r flying touring hraw =>
    obtain ⟨sender, mcastport, todo, hmax, hbytes, hsent⟩ := hs.flying flying
    have hsrc : ipSrc packet = cfg.hostip sender := by rw [hbytes, ipSrc_tourPacket]
    obtain ⟨node, hrecv, hnode⟩ := rawTour_cases hmax hbytes hraw
    refine @pingsSenders_apply cfg (sys.drop i) dst r (fun b => h b) ?_ b
    rcases hnode with ⟨-, heq, -⟩ | ⟨-, heq, -⟩
    · rw [heq]
      rcases hrecv.pings with hnil | hinsert
      · rw [show node.pings = [] from hnil]
        exact pingsSenders_nil
      · rw [show node.pings = _ from hinsert]
        refine ⟨(h dst).1.insert, fun ip hip => ?_⟩
        rcases List.mem_insert_iff.1 hip with rfl | hold
        · exact ⟨sender, packet, hsent, hsrc.symm⟩
        · exact (h dst).2 ip hold
    · rw [heq]
      exact pingsSenders_nil
  | lost flying hphase => exact h b
  | @hear a sender k peer text henv r sent hears hheard =>
    refine pingsSenders_apply h ?_ b
    cases hheard with
    | exits running hr => exact hexits sys a _ _ r hr
    | member touring peer' connected node phase effects =>
      rw [node]
      exact pingsSenders_nil
    | stays ending heq =>
      rw [heq]
      exact h a
  | @timeout a r ending hr => exact pingsSenders_apply h (hexits sys a _ _ r hr) b
  | @fails a tenv r running hr => exact pingsSenders_apply h (hexits sys a _ _ r hr) b

end Pings

/-- **Pings are justified.** In every run a node pings only nodes that sent it a tour, each with one
thread, and pings none before and after the loop of `run_tour`. -/
theorem pings_justified {cfg : TourConfig} {sys : TourSystem}
    (h : (tourSystem cfg).Reachable (fun _ _ => True) sys) (a : InAddr) :
    PingsSenders cfg sys a (sys.procs a).node.pings ∧
      ((sys.procs a).phase ≠ .touring → (sys.procs a).node.pings = []) := by
  refine ⟨?_, (reachable_end h).pings a⟩
  refine h.invariant_under (J := fun sys => ∃ s : Scripts TourHop, s.Inv ∧ Simulates cfg s sys)
    (I := fun sys => ∀ a, PingsSenders cfg sys a (sys.procs a).node.pings)
    (fun _ hr => tours_simulated hr) (fun _ => pingsSenders_nil) ?_ a
  rintro sys e sys' ⟨s, -, hs⟩ h - hstep
  exact pingsSenders_step h hs hstep

/-- Both nodes of two tours that have crossed. -/
theorem pings_justified_crossed : ∃ sys : TourSystem, sys.flight = [] ∧
    PingsSenders threeHosts sys (vm 1) (sys.procs (vm 1)).node.pings ∧
    PingsSenders threeHosts sys (vm 2) (sys.procs (vm 2)).node.pings := by
  obtain ⟨sys, -, hreach, -, hflight⟩ := crossed_run
  have hreach : (tourSystem threeHosts).Reachable (fun _ _ => True) sys :=
    hreach.mono fun _ _ _ => trivial
  exact ⟨sys, hflight, (pings_justified hreach _).1, (pings_justified hreach _).1⟩

/-! ## One tour -/

section One

variable {cfg : TourConfig}

/-- The announcement is the last hop of a tour. -/
theorem announce_last {port : UInt16} {src b : InAddr} {todo : List InAddr}
    {before after : List TourHop} (h : before ++ after = hopsFrom cfg port src todo)
    (hmem : .announce b ∈ before) : after = [] := by
  induction todo generalizing src before with
  | nil =>
    rw [hopsFrom_nil] at h
    cases before with
    | nil => cases hmem
    | cons hop before =>
      rw [List.cons_append, List.cons.injEq, List.append_eq_nil_iff] at h
      exact h.2.2
  | cons next todo ih =>
    rw [hopsFrom_cons] at h
    cases before with
    | nil => cases hmem
    | cons hop before =>
      rw [List.cons_append, List.cons.injEq] at h
      refine ih h.2 ((List.mem_cons.1 hmem).resolve_left fun heq => ?_)
      rw [← heq] at h
      cases h.1

/-- The itinerary of a tour ends with its only announcement. -/
theorem announce_last_itinerary {tour : TourStart} {b : InAddr} {before after : List TourHop}
    (h : before ++ after = tour.itinerary cfg) (hmem : .announce b ∈ before) : after = [] := by
  unfold TourStart.itinerary at h
  split at h
  · exact announce_last h hmem
  · exact (List.append_eq_nil_iff.1 h).2

end One

/-- **One tour is not disturbed.** In a network in which one tour is started, no node leaves the loop
of `run_tour` but by a failure as long as a packet of the tour is in flight. -/
theorem one_tour_undisturbed {cfg : TourConfig} {sys : TourSystem}
    (h : (tourSystem cfg).Reachable (fun _ _ => True) sys) (hone : sys.tours.length ≤ 1)
    (hflight : sys.flight ≠ []) (a : InAddr) :
    (sys.procs a).phase ≠ .ending ∧ (sys.procs a).phase ≠ .exited exitSuccess := by
  rw [← not_or]
  intro hphase
  obtain ⟨s, hinv, hs⟩ := tours_simulated h
  have hend := reachable_end h
  -- there was an announcement
  obtain ⟨before, peer, hsent, -⟩ := hend.identified hphase
  have hmem : TourEffect.multicast peer (identified (cfg.hostOf a)) ∈ sys.sentBy a := by
    rw [hsent]
    exact List.mem_append_right _ (List.mem_singleton_self _)
  obtain ⟨⟨b, effect⟩, he, heq⟩ := List.mem_map.1 hmem
  obtain ⟨he, hb⟩ := List.mem_filter.1 he
  cases heq
  rw [show b = a from eq_of_beq hb] at he
  obtain ⟨k, hk⟩ := List.getElem?_of_mem he
  obtain ⟨j, -, c, hj⟩ := hend.answers.cause k a peer hk
  have hannounce : TourHop.announce c ∈ s.log.map Prod.snd := by
    rw [hs.log]
    exact List.mem_filterMap.2 ⟨_, List.mem_of_getElem? hj, if_pos rfl⟩
  -- it is of the only tour, which still waits
  obtain ⟨e, he, heq⟩ := List.mem_map.1 hannounce
  have hbegun : s.begun.length ≤ 1 := by
    rw [hs.begun, List.length_map]
    exact hone
  have hwaiting : s.waiting ≠ [] := by
    intro hnil
    have hflying := hs.flight
    rw [hnil] at hflying
    exact hflight (List.forall₂_nil_right_iff.1 hflying)
  obtain ⟨w, hw⟩ := List.exists_mem_of_ne_nil _ hwaiting
  obtain ⟨hleft, hscript⟩ := hinv.left w hw
  have htour : e.1 = w.1 := by
    have he := hinv.known e he
    have hw := (List.getElem?_eq_some_iff.1 hscript).1
    omega
  have hdone : TourHop.announce c ∈ Scripts.itemsOf s.log w.1 := by
    rw [← heq]
    exact List.mem_map_of_mem (List.mem_filter.2 ⟨he, beq_iff_eq.2 htour⟩)
  rw [hs.begun, List.getElem?_map] at hscript
  obtain ⟨tour, -, htour⟩ := Option.map_eq_some_iff.1 hscript
  exact hleft (announce_last_itinerary htour.symm hdone)

/-- A tour that is on its way to its only host. -/
theorem one_tour_undisturbed_start : ∃ sys : TourSystem, sys.flight.length = 1 ∧
    ∀ a, (sys.procs a).phase ≠ .ending ∧ (sys.procs a).phase ≠ .exited exitSuccess := by
  obtain ⟨sys, hstep, -, htours, hflight, -⟩ :=
    @main_one threeHosts (.boot threeHosts) (vm 1) (vm 2) "vm2" rfl rfl
  have hreach : (tourSystem threeHosts).Reachable (fun _ _ => True) sys :=
    (Steps.refl _).tail trivial hstep
  refine ⟨sys, by rw [hflight]; rfl, one_tour_undisturbed hreach ?_ ?_⟩
  · rw [htours]
    exact Nat.le_refl 1
  · rw [hflight]
    exact List.cons_ne_nil _ _

end Tour
