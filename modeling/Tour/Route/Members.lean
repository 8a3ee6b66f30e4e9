import Tour.Route.Tours

/-!
# The groups of the nodes

Which group a node is in when any number of tours pass by: a node is in the group of a tour that it
started or that is to visit it, on the port of that tour, and stays there as long as it runs
(`groups_agree`). A tour that comes by later does not move it, so that its end may be announced in
the group of another.
-/

namespace Tour

open Lib Machine

/-! ## The group of a node -/

/-- The node started a tour with this port, or is on the route of one. -/
def OnTour (cfg : TourConfig) (tours : List TourStart) (a : InAddr) (port : UInt16) : Prop :=
  ∃ tour ∈ tours, tour.port = port ∧
    (a = tour.source ∨ ∃ ips, tour.route cfg = some ips ∧ a ∈ ips)

/-- The packet takes a tour along its route. -/
def OfTour (cfg : TourConfig) (tours : List TourStart) (packet : InAddr × List UInt8) : Prop :=
  ∃ tour ∈ tours, ∃ src todo ips, tour.port ≠ 0 ∧ tour.route cfg = some ips ∧
    todo.length ≤ tourMaxips ∧ packet.1 :: todo <:+ ips ∧
    packet.2 = tourPacket src packet.1 mcastAddr tour.port.toInt16 todo

/-- What a run keeps up. -/
structure Grouped (cfg : TourConfig) (sys : TourSystem) : Prop where
  flight : ∀ packet ∈ sys.flight, OfTour cfg sys.tours packet
  nodes : ∀ a port, (sys.procs a).node.port = some port → OnTour cfg sys.tours a port
  idle : ∀ a, (sys.procs a).phase = .idle → sys.procs a = bootProc cfg a

/-- The port that the kernel chooses for a source is one. -/
def SystemEvent.PortOk : SystemEvent → Prop
  | .main _ _ _ env => env.bind.ephemeral ≠ 0
  | .deliver _ _ _ _ _ => True
  | .hear _ _ _ => True
  | .timeout _ => True
  | .fails _ _ => True

section Grouped

variable {cfg : TourConfig} {sys sys' : TourSystem} {a : InAddr} {r : TourProc × List TourEffect}

theorem OnTour.mono {tours : List TourStart} {port : UInt16} (h : OnTour cfg tours a port)
    (tour : TourStart) : OnTour cfg (tours ++ [tour]) a port := by
  obtain ⟨tour', hmem, hrest⟩ := h
  exact ⟨tour', List.mem_append_left _ hmem, hrest⟩

theorem OfTour.mono {tours : List TourStart} {packet : InAddr × List UInt8}
    (h : OfTour cfg tours packet) (tour : TourStart) : OfTour cfg (tours ++ [tour]) packet := by
  obtain ⟨tour', hmem, hrest⟩ := h
  exact ⟨tour', List.mem_append_left _ hmem, hrest⟩

theorem Grouped.record (h : Grouped cfg sys) (a : InAddr) (hosts : List String) (env : TourEnv) :
    Grouped cfg (sys.record a hosts env) := by
  by_cases hne : hosts = []
  · rw [hne]
    exact h
  · rw [record_cons sys a hne env]
    exact ⟨fun packet hp => (h.flight packet hp).mono _, fun b port hb => (h.nodes b port hb).mono _,
      h.idle⟩

/-- A step of the node at `a` that leaves it in a group of its own, and sends packets of tours. -/
theorem Grouped.apply (h : Grouped cfg sys)
    (hnode : ∀ port, r.1.node.port = some port → OnTour cfg sys.tours a port)
    (hidle : r.1.phase ≠ .idle)
    (hsent : ∀ dst bytes, .packet dst bytes ∈ r.2 → OfTour cfg sys.tours (dst, bytes)) :
    Grouped cfg (sys.apply a r) := by
  refine ⟨fun packet hp => ?_, fun b port hb => ?_, fun b hb => ?_⟩
  · rcases List.mem_append.1 hp with hp | hp
    · exact h.flight packet hp
    · obtain ⟨e, he, heq⟩ := List.mem_filterMap.1 hp
      cases e with
      | multicast peer text => cases heq
      | packet dst bytes =>
        cases heq
        exact hsent dst bytes he
  · simp only [TourSystem.apply] at hb
    split at hb
    · rename_i heq
      rw [heq]
      exact hnode port hb
    · exact h.nodes b port hb
  · simp only [TourSystem.apply] at hb ⊢
    split at hb
    · exact absurd hb hidle
    · rename_i hne
      rw [if_neg hne]
      exact h.idle b hb

theorem Grouped.exits (h : Grouped cfg sys) {p : TourProc} {status : Nat}
    (hr : p.Exits status r) : Grouped cfg (sys.apply a r) := by
  refine h.apply (fun port hport => ?_) (fun hidle => ?_) (fun dst bytes he => ?_)
  · rw [hr.node] at hport
    cases hport
  · rw [hr.phase] at hidle
    cases hidle
  · rw [hr.effects] at he
    cases he

/-- A node that a tour came by is in a group that it was in before, or in that of the tour. -/
theorem visited_port {node : TourNode} {src : InAddr} {port port' : UInt16}
    (h : (node.visited src mcastAddr port).port = some port') :
    node.port = some port' ∨ port' = port := by
  unfold TourNode.visited TourNode.join at h
  split at h
  · exact Or.inl h
  · cases h
    exact Or.inr rfl

theorem RecvOutcome.node_cases {node : TourNode} {src : InAddr} {port : UInt16}
    {todo : List InAddr} {env : TourEnv} {r : TourNode × List TourEffect} (hport : port ≠ 0)
    (hr : RecvOutcome node src mcastAddr port.toInt16 todo env r) :
    r.1 = node.exit ∨ r.1 = node.visited src mcastAddr port := by
  have hchosen : chosenPort port.toInt16.toUInt16 env = port := by
    rw [UInt16.toUInt16_toInt16]
    exact if_neg hport
  cases hr with
  | failed => exact Or.inl rfl
  | forwarded next todo' left => exact Or.inr (by rw [hchosen])
  | ended peer last connected => exact Or.inr (by rw [hchosen])

/-- The packets that a node sends when it takes a tour on. -/
theorem RecvOutcome.ofTour {node : TourNode} {src dst : InAddr} {todo ips : List InAddr}
    {tour : TourStart} {tours : List TourStart} {env : TourEnv} {r : TourNode × List TourEffect}
    (hr : RecvOutcome node src mcastAddr tour.port.toInt16 todo env r) (hmem : tour ∈ tours)
    (hport : tour.port ≠ 0) (hroute : tour.route cfg = some ips) (hmax : todo.length ≤ tourMaxips)
    (hsuffix : dst :: todo <:+ ips) :
    ∀ dst' bytes, .packet dst' bytes ∈ r.2 → OfTour cfg tours (dst', bytes) := by
  intro dst' bytes he
  cases hr with
  | failed => cases he
  | forwarded next todo' left =>
    cases List.mem_singleton.1 he
    rw [left] at hsuffix hmax
    exact ⟨tour, hmem, node.hostip, todo', ips, hport, hroute, Nat.le_of_succ_le hmax,
      (List.suffix_cons _ _).trans hsuffix, rfl⟩
  | ended peer last connected => simp at he

/-- A tour that a node starts. -/
theorem StartOutcome.ofTour {node : TourNode} {hosts : List String} {env : TourEnv}
    {tours : List TourStart} {r : TourNode × List TourEffect}
    (hr : StartOutcome cfg.resolve node hosts env r) (hvalid : validArgs hosts = true)
    (hport : env.bind.ephemeral ≠ 0) (hmem : ⟨a, hosts, env.bind.ephemeral⟩ ∈ tours) :
    (∀ port, r.1.port = some port → OnTour cfg tours a port) ∧
      ∀ dst bytes, .packet dst bytes ∈ r.2 → OfTour cfg tours (dst, bytes) := by
  cases hr with
  | failed => exact ⟨fun port hport => (by cases hport), fun dst bytes he => (by cases he)⟩
  | started first todo resolved =>
    have hlength : hosts.length = todo.length + 1 := by simpa using congrArg List.length resolved
    have hmax : hosts.length ≤ tourMaxips := validArgs_le hvalid
    constructor
    · intro port hport
      cases hport
      exact ⟨_, hmem, rfl, Or.inl rfl⟩
    · intro dst bytes he
      cases List.mem_singleton.1 he
      exact ⟨_, hmem, node.hostip, todo, first :: todo, hport, mapM_of_map resolved, by omega,
        List.suffix_refl _, rfl⟩

theorem mem_tours (sys : TourSystem) (tour : TourStart) : tour ∈ sys.tours ++ [tour] :=
  List.mem_append_right _ (List.mem_singleton_self tour)

theorem Grouped.step {e : SystemEvent} (h : Grouped cfg sys) (he : e.PortOk)
    (hstep : stepSystem cfg sys e = some sys') : Grouped cfg sys' := by
  cases stepSystem_cases hstep with
  | @main a hosts menv env r idle hmain =>
    have hrecord := h.record a hosts env
    cases mainTour_cases hmain with
    | exits hexits => exact hrecord.exits hexits
    | waits unnamed node running phase effects =>
      refine hrecord.apply (fun port hport => ?_) (fun hidle => ?_) (fun dst bytes hb => ?_)
      · rw [node] at hport
        exact hrecord.nodes a port hport
      · rw [phase] at hidle
        cases hidle
      · rw [effects] at hb
        cases hb
    | orphan named valid node hstart hnode phase =>
      rw [record_cons sys a named env] at hrecord ⊢
      have hof := hstart.ofTour valid he (mem_tours sys ⟨a, hosts, env.bind.ephemeral⟩)
      refine hrecord.apply (fun port hport => ?_) (fun hidle => ?_) hof.2
      · rw [hnode] at hport
        cases hport
      · rw [phase] at hidle
        cases hidle
    | tours named valid hstart running phase =>
      rw [record_cons sys a named env] at hrecord ⊢
      have hof := hstart.ofTour valid he (mem_tours sys ⟨a, hosts, env.bind.ephemeral⟩)
      refine hrecord.apply hof.1 (fun hidle => ?_) hof.2
      rw [phase] at hidle
      cases hidle
  | @deliver i dst packet env elem tid tenv r flying touring hraw =>
    have hdrop : Grouped cfg (sys.drop i) :=
      ⟨fun packet hp => h.flight packet (List.mem_of_mem_eraseIdx hp), h.nodes, h.idle⟩
    obtain ⟨tour, hmem, src, todo, ips, hport, hroute, hmax, hsuffix, hbytes⟩ :=
      h.flight _ (List.mem_of_getElem? flying)
    dsimp only at hbytes hsuffix
    obtain ⟨node, hrecv, hnode⟩ := rawTour_cases hmax hbytes hraw
    refine hdrop.apply (fun port hp => ?_) (fun hidle => ?_)
      (hrecv.ofTour hmem hport hroute hmax hsuffix)
    · rcases hnode with ⟨-, heq, -⟩ | ⟨-, heq, -⟩
      · rw [heq] at hp
        rcases hrecv.node_cases hport with hexit | hvisited
        · rw [show node = _ from hexit] at hp
          cases hp
        · rw [show node = _ from hvisited] at hp
          rcases visited_port hp with hold | rfl
          · exact h.nodes dst port hold
          · exact ⟨tour, hmem, rfl, Or.inr ⟨ips, hroute, hsuffix.subset List.mem_cons_self⟩⟩
      · rw [heq] at hp
        cases hp
    · rcases hnode with ⟨-, -, hphase⟩ | ⟨-, -, hphase⟩
      · rw [hphase, touring] at hidle
        cases hidle
      · rw [hphase] at hidle
        cases hidle
  | lost flying hphase =>
    exact ⟨fun packet hp => h.flight packet (List.mem_of_mem_eraseIdx hp), h.nodes, h.idle⟩
  | @hear a sender k peer text henv r sent hears hheard =>
    cases hheard with
    | exits running hexits => exact h.exits hexits
    | member touring peer' connected node phase effects =>
      refine h.apply (fun port hport => ?_) (fun hidle => ?_) (fun dst bytes hb => ?_)
      · rw [node] at hport
        exact h.nodes a port hport
      · rw [phase] at hidle
        cases hidle
      · rw [effects] at hb
        simp at hb
    | stays ending heq =>
      rw [heq]
      refine h.apply (h.nodes a) (fun hidle => ?_) (fun dst bytes hb => (by cases hb))
      rw [ending] at hidle
      cases hidle
  | timeout ending hexits => exact h.exits hexits
  | fails running hexits => exact h.exits hexits

theorem grouped_boot (cfg : TourConfig) : Grouped cfg (.boot cfg) :=
  ⟨fun packet hp => (by cases hp), fun a port hport => (by cases hport), fun a _ => rfl⟩

theorem reachable_grouped (h : (tourSystem cfg).Reachable (fun _ e => e.PortOk) sys) :
    Grouped cfg sys :=
  h.invariant (grouped_boot cfg) fun _ _ _ hinv he hstep => hinv.step he hstep

/-- A process that has exited takes no step. -/
def TourProc.Gone (p : TourProc) : Prop := ∃ status, p.phase = .exited status

/-- The process at `b` in a step: it exits, or it stays in its group. -/
structure KeepsGroup (p p' : TourProc) : Prop where
  gone : p.Gone → p'.Gone
  port : ∀ port, p.node.port = some port → p'.node.port = some port ∨ p'.Gone

theorem KeepsGroup.rfl (p : TourProc) : KeepsGroup p p := ⟨id, fun _ h => Or.inl h⟩

theorem KeepsGroup.trans {p q s : TourProc} (h₁ : KeepsGroup p q) (h₂ : KeepsGroup q s) :
    KeepsGroup p s := by
  refine ⟨fun h => h₂.gone (h₁.gone h), fun port hport => ?_⟩
  rcases h₁.port port hport with hq | hq
  · exact h₂.port port hq
  · exact Or.inr (h₂.gone hq)

theorem TourProc.Exits.keepsGroup {p : TourProc} {status : Nat} (h : p.Exits status r) :
    KeepsGroup p r.1 := ⟨fun _ => ⟨status, h.phase⟩, fun _ _ => Or.inr ⟨status, h.phase⟩⟩

/-- The node that acts keeps its group. -/
theorem apply_keepsGroup (h : KeepsGroup (sys.procs a) r.1) (b : InAddr) :
    KeepsGroup (sys.procs b) ((sys.apply a r).procs b) := by
  simp only [TourSystem.apply]
  split
  · rename_i heq
    rw [heq]
    exact h
  · exact KeepsGroup.rfl _

/-- A node that is in a group stays in it when a tour comes by. -/
theorem visited_keeps {node : TourNode} (hnode : node.Coherent cfg a) {src : InAddr}
    {port port' : UInt16} (h : node.port = some port') :
    (node.visited src mcastAddr port).port = some port' := by
  have hbound := hnode.bound
  rw [h] at hbound
  unfold TourNode.visited TourNode.join
  rw [← hbound]
  exact h

theorem Grouped.keepsGroup {e : SystemEvent} (h : Grouped cfg sys)
    (hcoherent : ∀ a, (sys.procs a).node.Coherent cfg a)
    (hstep : stepSystem cfg sys e = some sys') (b : InAddr) :
    KeepsGroup (sys.procs b) (sys'.procs b) := by
  cases stepSystem_cases hstep with
  | @main a hosts menv env r idle hmain =>
    refine @apply_keepsGroup (sys.record a hosts env) a r ⟨?_, ?_⟩ b
    · rintro ⟨status, hphase⟩
      exact absurd (idle.symm.trans hphase) (fun heq => (by cases heq))
    · intro port hport
      change (sys.procs a).node.port = some port at hport
      rw [h.idle a idle] at hport
      cases hport
  | @deliver i dst packet env elem tid tenv r flying touring hraw =>
    refine @apply_keepsGroup (sys.drop i) dst r ⟨?_, ?_⟩ b
    · rintro ⟨status, hphase⟩
      exact absurd (touring.symm.trans hphase) (fun heq => (by cases heq))
    · intro port hport
      change (sys.procs dst).node.port = some port at hport
      obtain ⟨tour, -, src, todo, ips, hnonzero, -, hmax, -, hbytes⟩ :=
        h.flight _ (List.mem_of_getElem? flying)
      obtain ⟨node, hrecv, hnode⟩ := rawTour_cases hmax hbytes hraw
      rcases hnode with ⟨hrun, heq, -⟩ | ⟨-, -, hphase⟩
      · refine Or.inl ?_
        rcases hrecv.node_cases hnonzero with hexit | hvisited
        · rw [show node = _ from hexit] at hrun
          cases hrun
        · rw [heq, show node = _ from hvisited]
          exact visited_keeps (hcoherent dst) hport
      · exact Or.inr ⟨_, hphase⟩
  | lost flying hphase => exact KeepsGroup.rfl _
  | @hear a sender k peer text henv r sent hears hheard =>
    refine apply_keepsGroup ?_ b
    cases hheard with
    | exits running hexits => exact hexits.keepsGroup
    | member touring peer' connected node phase effects =>
      refine ⟨?_, fun port hport => Or.inl (by rw [node]; exact hport)⟩
      rintro ⟨status, hphase⟩
      exact absurd (touring.symm.trans hphase) (fun heq => (by cases heq))
    | stays ending heq =>
      rw [heq]
      exact KeepsGroup.rfl _
  | timeout ending hexits => exact apply_keepsGroup hexits.keepsGroup b
  | fails running hexits => exact apply_keepsGroup hexits.keepsGroup b

theorem reachable_coherent (h : (tourSystem cfg).Reachable (fun _ e => e.PortOk) sys) (a : InAddr) :
    (sys.procs a).node.Coherent cfg a := by
  obtain ⟨s, -, hs⟩ := tours_simulated (h.mono fun _ _ _ => trivial)
  exact hs.coherent a

theorem steps_keepsGroup (h : (tourSystem cfg).Reachable (fun _ e => e.PortOk) sys)
    (hsteps : (tourSystem cfg).Steps (fun _ e => e.PortOk) sys sys') (a : InAddr) :
    KeepsGroup (sys.procs a) (sys'.procs a) := by
  induction hsteps with
  | refl => exact KeepsGroup.rfl _
  | tail hr he hstep ih =>
    have hreach : (tourSystem cfg).Reachable (fun _ e => e.PortOk) _ := Steps.trans h hr
    exact ih.trans ((reachable_grouped hreach).keepsGroup (reachable_coherent hreach) hstep a)

end Grouped

/-- **Groups agree.** In every run a node that is bound is bound to the port of a tour that it
started or that is to visit it, sends to the group on that port and is a member of it; and once it
is, it is on the same port until it exits, whatever other tours come by. -/
theorem groups_agree {cfg : TourConfig} {sys sys' : TourSystem}
    (h : (tourSystem cfg).Reachable (fun _ e => e.PortOk) sys)
    (hsteps : (tourSystem cfg).Steps (fun _ e => e.PortOk) sys sys') :
    (∀ a port, (sys'.procs a).node.port = some port → OnTour cfg sys'.tours a port ∧
      (sys'.procs a).node.peer = some (mcastAddr, port) ∧
      (sys'.procs a).node.group = some mcastAddr) ∧
    ∀ a port, (sys.procs a).node.port = some port →
      (sys'.procs a).node.port = some port ∨ (sys'.procs a).Gone := by
  have hreach : (tourSystem cfg).Reachable (fun _ e => e.PortOk) sys' := Steps.trans h hsteps
  refine ⟨fun a port hport => ?_, fun a => (steps_keepsGroup h hsteps a).port⟩
  have hcoherent := reachable_coherent hreach a
  refine ⟨(reachable_grouped hreach).nodes a port hport, ?_, ?_⟩
  · rw [hcoherent.peer, hport]
    rfl
  · rw [hcoherent.group, hport]
    rfl

/-- Two nodes that send a tour to each other, before and after the two packets arrive. -/
theorem groups_agree_crossing : ∃ sys sys',
    (tourSystem threeHosts).run (.boot threeHosts) crossing = some sys ∧
    (tourSystem threeHosts).run sys (List.replicate 2 (.deliver 0 smooth 0 0 joinAll)) = some sys' ∧
    (∀ a port, (sys'.procs a).node.port = some port → OnTour threeHosts sys'.tours a port) ∧
    ∀ a port, (sys.procs a).node.port = some port →
      (sys'.procs a).node.port = some port ∨ (sys'.procs a).Gone := by
  obtain ⟨sys, hrun, -⟩ := crossing_run
  obtain ⟨sys', hrun', -⟩ := crossed_run
  rw [Machine.run_append, hrun] at hrun'
  have hports : ∀ e ∈ crossing, e.PortOk := by
    simp [crossing, SystemEvent.PortOk, smooth]
  have hdeliver : ∀ e ∈ List.replicate 2 (SystemEvent.deliver 0 smooth 0 0 joinAll), e.PortOk := by
    simp [SystemEvent.PortOk]
  have hagree := groups_agree (Steps.of_run hports hrun) (Steps.of_run hdeliver hrun')
  exact ⟨sys, sys', hrun, hrun', fun a port hport => (hagree.1 a port hport).1, hagree.2⟩

end Tour
