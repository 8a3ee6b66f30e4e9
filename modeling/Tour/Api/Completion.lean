import Tour.Arp.Resolution
import Tour.Api.Resolve

/-!
# Every call can return

Whatever the hosts, the calls of `areq` and other programs have done so far, a call of `areq` that
has not begun can still return 1 (`areq_possible`): the daemon of its host accepts the connections
that wait before it (`accept_all`), then its own, the question is resolved in the network
(`question_possible`), and the answer is on its connection.
-/

namespace Tour

open Lib Machine

section Daemon

variable {cfg : Config} {w : World}

theorem reachable_fewOpen (h : (daemon cfg).Reachable (AcceptKernel cfg) w) : FewOpen w :=
  h.invariant (I := FewOpen) ⟨0, fun _ _ => rfl⟩ fun _ _ _ hw _ hs => (step_cases cfg hs).fewOpen hw

/-- There is always a descriptor for `accept` to return. -/
theorem fresh_fd (h : (daemon cfg).Reachable (AcceptKernel cfg) w) : ∃ sfd : Int,
    0 < sfd ∧ w.fds sfd = none ∧ sfd ≠ cfg.unixDomain ∧ sfd ≠ cfg.pfSocket ∧
      getCacheBySocket w.cache sfd = none := by
  obtain ⟨b, hb⟩ := reachable_fewOpen h
  have hunix := cfg.unixDomain_open
  obtain ⟨sfd, hsfd⟩ : ∃ sfd : Int, sfd = max b (max (cfg.unixDomain + 1) (cfg.pfSocket + 1)) :=
    ⟨_, rfl⟩
  have hpos : 0 < sfd := by omega
  have hnone : w.fds sfd = none := hb sfd (by omega)
  refine ⟨sfd, hpos, hnone, by omega, by omega, ?_⟩
  rw [getCacheBySocket, List.find?_eq_none]
  intro n hn heq
  have hsame : n.2.domainSocket = sfd := by simpa using heq
  obtain ⟨-, k, hk⟩ := (reachable_fdInv (reachable_sound h)).live n hn (by omega)
  rw [hsame, hnone] at hk
  cases hk

/-- The daemon after it accepted a connection on `sfd`. -/
def accepted (w : World) (rset : Int → Bool) (sfd : Int) (fresh : Addr) : World :=
  { w with
    cache := addToCache w.cache (fresh, freshEntry sfd)
    pc := .packet rset
    fds := fun x => if x = sfd then some w.nextConn else w.fds x
    nextConn := w.nextConn + 1 }

theorem step_accepts {rset : Int → Bool} (hrset : rset cfg.unixDomain = true) {sfd : Int}
    (hpos : 0 < sfd) (hnone : getCacheBySocket w.cache sfd = none) {fresh : Addr}
    (hfresh : fresh ∉ addrs w.cache) :
    step cfg { w with pc := .accept rset } (.accept sfd fresh) =
      some (accepted w rset sfd fresh) := by
  have hle : 0 ≤ sfd := Int.le_of_lt hpos
  simp only [step, hrset, if_true, stepAccept, hnone, if_neg hfresh, if_pos hle, accepted]

/-- When only the listening socket is readable, the daemon gets to the test of it. -/
theorem guardedRun_toAccept (h : (daemon cfg).Reachable (AcceptKernel cfg) w)
    (hpc : w.pc = .select) :
    (daemon cfg).guardedRun (AcceptKernel cfg) w
      ((.select (some (only cfg.unixDomain)) :: List.replicate w.cache.length .tick) ++ [.tick]) =
      some { w with pc := .accept (only cfg.unixDomain) } := by
  have hfree : ∀ k, w.fds cfg.unixDomain ≠ some k := fun k hk => (reachable_apart h _ _ hk).1 rfl
  exact guardedRun_append (guardedRun_quiet h hpc cfg.unixDomain_open hfree) rfl

/-- The end of the iteration. -/
theorem guardedRun_pass {rset : Int → Bool} (hrset : rset cfg.pfSocket = false) (sfd : Int)
    (fresh : Addr) :
    (daemon cfg).guardedRun (AcceptKernel cfg) (accepted w rset sfd fresh) [.tick] =
      some { accepted w rset sfd fresh with pc := .select } := by
  simp only [guardedRun, daemon, step, accepted, AcceptKernel, hrset, if_true, Option.bind_some,
    Bool.false_eq_true, if_false]

theorem connected_accepted (rset : Int → Bool) (sfd : Int) (fresh : Addr) :
    Connected { accepted w rset sfd fresh with pc := .select } w.nextConn :=
  ⟨(fresh, freshEntry sfd), List.mem_cons_self, rfl, if_pos rfl⟩

end Daemon

section System

variable {H C : Type} [DecidableEq H] [DecidableEq C] (cfg : ApiConfig H C)

/-- The descriptors that `accept` returns are not the sockets of the daemon. -/
def SocketsKept (sys : ApiSystem H C) : ApiEvent H C → Prop
  | .daemon h e => AcceptKernel (cfg.hosts h) (sys.daemons h) e
  | _ => True

/-- All that the kernel and the network guarantee. -/
def ApiKernel (sys : ApiSystem H C) (e : ApiEvent H C) : Prop :=
  ApiSound cfg sys e ∧ SocketsKept cfg sys e

instance [Fintype H] (sys : ApiSystem H C) (e : ApiEvent H C) : Decidable (ApiKernel cfg sys e) :=
  match e with
  | .daemon h e => inferInstanceAs (Decidable (_ ∧ AcceptKernel (cfg.hosts h) (sys.daemons h) e))
  | .call _ _ | .stranger _ => inferInstanceAs (Decidable (_ ∧ True))

variable {cfg}

theorem reachable_network {sys : ApiSystem H C}
    (h : (apiSystem cfg).Reachable (ApiKernel cfg) sys) :
    (network cfg.hosts).Reachable (NetSound cfg.hosts) sys.daemons := by
  have hinit : (network cfg.hosts).Reachable (NetSound cfg.hosts) (apiSystem cfg).init.daemons :=
    .refl _
  refine h.invariant (I := fun sys : ApiSystem H C =>
    (network cfg.hosts).Reachable (NetSound cfg.hosts) sys.daemons) hinit ?_
  rintro sys e sys' hsys ⟨hsound, hkept⟩ hs
  cases e with
  | daemon h e =>
    have hnet : NetSound cfg.hosts sys.daemons (h, e) := ⟨hkept, hsound.2.2⟩
    exact hsys.step hnet (stepDaemon_cases hs).1
  | call c answer =>
    obtain ⟨-, -, hdaemons, -⟩ := stepCall_cases hs
    rw [hdaemons]
    exact hsys
  | stranger h =>
    cases hs
    exact hsys

/-! ## Runs of the daemons -/

/-- A run of the daemons in which nobody is accepted is a run of the system. -/
theorem steps_of_network {G : (H → World) → H × Event → Prop} {sys : ApiSystem H C}
    {ws : H → World} (hrun : (network cfg.hosts).Steps G sys.daemons ws)
    (hguard : ∀ vs h e, G vs (h, e) →
      e.accepts = false ∧ ApiKernel cfg { sys with daemons := vs } (.daemon h e)) :
    (apiSystem cfg).Steps (ApiKernel cfg) sys { sys with daemons := ws } := by
  obtain ⟨vs, hvs⟩ : ∃ vs, vs = sys.daemons := ⟨_, rfl⟩
  rw [← hvs] at hrun
  induction hrun with
  | refl =>
    rw [hvs]
    exact .refl _
  | @tail t u e _ hg hs ih =>
    obtain ⟨haccepts, hkernel⟩ := hguard _ _ _ hg
    refine ih.tail hkernel ?_
    have hstep : (network cfg.hosts).step t e = some u := hs
    simp only [apiSystem, stepApi, stepDaemon, hstep, haccepts, bind, Option.bind_some,
      Bool.false_eq_true, if_false]

omit [DecidableEq H] in
theorem apiKernel_plain {sys : ApiSystem H C} {h : H} {e : Event} (he : e.plain = true) :
    e.accepts = false ∧ ApiKernel cfg sys (.daemon h e) := by
  cases e with
  | select => exact ⟨rfl, ⟨trivial, trivial, trivial⟩, trivial⟩
  | tick => exact ⟨rfl, ⟨trivial, trivial, trivial⟩, trivial⟩
  | _ => cases he

theorem steps_of_plain {sys : ApiSystem H C} {i : H} {w : World} {es : List Event}
    (hrun : (daemon (cfg.hosts i)).guardedRun (AcceptKernel (cfg.hosts i)) (sys.daemons i) es = some w)
    (hes : ∀ e ∈ es, e.plain = true) :
    (apiSystem cfg).Steps (ApiKernel cfg) sys
      { sys with daemons := Function.update sys.daemons i w } :=
  steps_of_network (G := fun _ e => e.2.plain = true)
    (steps_of_host sys.daemons hrun fun e he _ _ => hes e he) fun _ _ _ he => apiKernel_plain he

/-! ## Connections -/

/-- What became of a system in which the daemon of `i` accepted the connections `l`, one after
another. -/
structure Accepts (i : H) (l : List (Option C)) (sys sys' : ApiSystem H C) : Prop where
  calls : sys'.calls = sys.calls
  sent : sys'.sent = sys.sent
  peers : sys'.peers i = sys.peers i ++ l
  backlog : sys.backlog i = l ++ sys'.backlog i
  waits : (sys'.daemons i).pc = .select
  others : ∀ g, g ≠ i → sys'.daemons g = sys.daemons g

omit [DecidableEq C] in
theorem stepDaemon_accept {sys : ApiSystem H C} {i : H} {w : World} {sfd : Int} {fresh : Addr}
    (hstep : step (cfg.hosts i) (sys.daemons i) (.accept sfd fresh) = some w) (hpos : 0 < sfd)
    {peer : Option C} {rest : List (Option C)} (hbacklog : sys.backlog i = peer :: rest) :
    stepDaemon cfg sys i (.accept sfd fresh) = some { sys with
      daemons := Function.update sys.daemons i w
      backlog := fun g => if g = i then rest else sys.backlog g
      peers := fun g => if g = i then sys.peers i ++ [peer] else sys.peers g } := by
  have haccepts : (Event.accept sfd fresh).accepts = true := decide_eq_true (Int.le_of_lt hpos)
  simp only [stepDaemon, network_step hstep, haccepts, hbacklog, bind, Option.bind_some, if_true]

/-- A daemon that waits can accept the connection that has waited longest. -/
theorem accept_possible {sys : ApiSystem H C} (h : (apiSystem cfg).Reachable (ApiKernel cfg) sys)
    {i : H} (hi : (sys.daemons i).pc = .select) {peer : Option C} {rest : List (Option C)}
    (hbacklog : sys.backlog i = peer :: rest) :
    ∃ sys', (apiSystem cfg).Steps (ApiKernel cfg) sys sys' ∧ Accepts i [peer] sys sys' ∧
      Connected (sys'.daemons i) (sys.daemons i).nextConn := by
  have hreach := reachable_host (reachable_network h) i
  obtain ⟨sfd, hpos, hfd, hunix, hpf, hnone⟩ := fresh_fd hreach
  obtain ⟨fresh, hfresh⟩ := exists_fresh (sys.daemons i).cache
  have hself : only (cfg.hosts i).unixDomain (cfg.hosts i).unixDomain = true := by simp [only]
  have hother : only (cfg.hosts i).unixDomain (cfg.hosts i).pfSocket = false := by
    simpa [only] using (cfg.hosts i).sockets_ne.symm
  obtain ⟨w, hw⟩ : ∃ w, w = accepted (sys.daemons i) (only (cfg.hosts i).unixDomain) sfd fresh :=
    ⟨_, rfl⟩
  -- up to the test of the listening socket
  obtain ⟨mid, hmid⟩ : ∃ mid : ApiSystem H C, mid = { sys with
      daemons := Function.update sys.daemons i
        { sys.daemons i with pc := .accept (only (cfg.hosts i).unixDomain) } } := ⟨_, rfl⟩
  have hfirst : (apiSystem cfg).Steps (ApiKernel cfg) sys mid := by
    rw [hmid]
    refine steps_of_plain (guardedRun_toAccept hreach hi) fun e he => ?_
    rcases List.mem_append.1 he with he | he
    · exact plain_select he
    · rw [List.mem_singleton.1 he]; rfl
  have hdaemon : mid.daemons i =
      { sys.daemons i with pc := .accept (only (cfg.hosts i).unixDomain) } := by
    rw [hmid]
    exact Function.update_self ..
  -- the connection
  have hstep : step (cfg.hosts i) (mid.daemons i) (.accept sfd fresh) = some w := by
    rw [hdaemon, hw]
    exact step_accepts hself hpos hnone hfresh
  have hkernel : AcceptKernel (cfg.hosts i) (mid.daemons i) (.accept sfd fresh) := by
    rw [hdaemon]
    exact Or.inr ⟨hpos, hfd, hunix, hpf⟩
  have hguard : ApiKernel cfg mid (.daemon i (.accept sfd fresh)) :=
    ⟨⟨trivial, hkernel.sound, trivial⟩, hkernel⟩
  obtain ⟨next, hnext⟩ : ∃ next : ApiSystem H C, next = { mid with
      daemons := Function.update mid.daemons i w
      backlog := fun g => if g = i then rest else mid.backlog g
      peers := fun g => if g = i then mid.peers i ++ [peer] else mid.peers g } := ⟨_, rfl⟩
  have hsecond : (apiSystem cfg).step mid (.daemon i (.accept sfd fresh)) = some next := by
    rw [hnext]
    exact stepDaemon_accept hstep hpos (by rw [hmid]; exact hbacklog)
  -- the rest of the iteration
  have hpass : (daemon (cfg.hosts i)).guardedRun (AcceptKernel (cfg.hosts i)) (next.daemons i)
      [.tick] = some { w with pc := .select } := by
    rw [hnext, hw]
    dsimp only
    rw [Function.update_self]
    exact guardedRun_pass hother sfd fresh
  have hthird := steps_of_plain hpass fun e he => by rw [List.mem_singleton.1 he]; rfl
  have hdone : next.daemons = Function.update sys.daemons i w := by
    rw [hnext, hmid]
    exact Function.update_idem ..
  rw [hdone, Function.update_idem] at hthird
  refine ⟨_, (hfirst.tail hguard hsecond).trans hthird, ⟨?_, ?_, ?_, ?_, ?_, ?_⟩, ?_⟩
  · rw [hnext, hmid]
  · rw [hnext, hmid]
  · rw [hnext, hmid]
    exact if_pos rfl
  · rw [hnext, hbacklog]
    exact congrArg (peer :: ·) (if_pos rfl).symm
  · dsimp only
    rw [Function.update_self]
  · exact fun g hg => Function.update_of_ne hg ..
  · dsimp only
    rw [Function.update_self, hw]
    exact connected_accepted _ sfd fresh

/-- It can accept all that wait. -/
theorem accept_all {sys : ApiSystem H C} (h : (apiSystem cfg).Reachable (ApiKernel cfg) sys)
    {i : H} (hi : (sys.daemons i).pc = .select) :
    ∃ sys', (apiSystem cfg).Steps (ApiKernel cfg) sys sys' ∧ Accepts i (sys.backlog i) sys sys' := by
  obtain ⟨l, hl⟩ : ∃ l, sys.backlog i = l := ⟨_, rfl⟩
  rw [hl]
  induction l generalizing sys with
  | nil => exact ⟨sys, .refl _, rfl, rfl, (List.append_nil _).symm, rfl, hi, fun _ _ => rfl⟩
  | cons peer rest ih =>
    obtain ⟨mid, hfirst, hmid, -⟩ := accept_possible h hi hl
    have hrest : mid.backlog i = rest := by
      have hback := hmid.backlog
      rw [hl] at hback
      exact (List.cons.inj hback).2.symm
    obtain ⟨sys', hlater, hdone⟩ := ih (h.trans hfirst) hmid.waits hrest
    refine ⟨sys', hfirst.trans hlater, hdone.calls.trans hmid.calls, hdone.sent.trans hmid.sent, ?_, ?_,
      hdone.waits, fun g hg => (hdone.others g hg).trans (hmid.others g hg)⟩
    · rw [hdone.peers, hmid.peers, List.append_assoc]
      rfl
    · rw [hmid.backlog, hdone.backlog]
      rfl

/-- A call that has not connected waits nowhere. -/
def Unconnected (cfg : ApiConfig H C) (sys : ApiSystem H C) : Prop :=
  ∀ c, (sys.calls c).pc = .socket ∨ (sys.calls c).pc = .connect →
    some c ∉ sys.peers (cfg.home c) ++ sys.backlog (cfg.home c)

omit [DecidableEq C] in
/-- A daemon only moves connections from the one list to the other. -/
theorem stepDaemon_conns {sys sys' : ApiSystem H C} {h : H} {e : Event}
    (hstep : stepDaemon cfg sys h e = some sys') (g : H) :
    sys'.peers g ++ sys'.backlog g = sys.peers g ++ sys.backlog g := by
  obtain ⟨daemons, -, hrest⟩ := Option.bind_eq_some_iff.1 hstep
  dsimp only at hrest
  split at hrest
  · split at hrest
    · cases hrest
    · rename_i peer rest hbacklog
      cases hrest
      by_cases hg : g = h
      · subst hg
        simp only [if_true, hbacklog, List.append_assoc, List.singleton_append]
      · simp only [hg, if_false]
  · cases hrest
    rfl

theorem stepAreq_connect {call call' : AreqCall} (h : stepAreq call (.connect true) = some call') :
    call'.pc = .send := by
  cases hpc : call.pc with
  | connect =>
    simp only [stepAreq, hpc, if_true] at h
    cases h
    rfl
  | _ =>
    simp only [stepAreq, hpc] at h
    cases h

/-- A call connects once, and then it sends. -/
theorem stepCall_conns {sys sys' : ApiSystem H C} {c : C} {answer : AreqAnswer}
    (hstep : stepCall cfg sys c answer = some sys') {d : C} {h : H}
    (hmem : some d ∈ sys'.peers h ++ sys'.backlog h) :
    some d ∈ sys.peers h ++ sys.backlog h ∨ d = c ∧ (sys'.calls c).pc = .send := by
  obtain ⟨call, hcall, hrest⟩ := Option.bind_eq_some_iff.1 hstep
  dsimp only at hrest
  split at hrest
  · cases hrest
    simp only [ApiSystem.enqueue, if_true] at hmem ⊢
    by_cases hh : h = cfg.home c
    · subst hh
      rw [if_pos rfl, ← List.append_assoc, List.mem_append, List.mem_singleton] at hmem
      rcases hmem with hmem | heq
      · exact Or.inl hmem
      · exact Or.inr ⟨Option.some.inj heq, stepAreq_connect hcall⟩
    · rw [if_neg hh] at hmem
      exact Or.inl hmem
  · cases hrest
    exact Or.inl hmem
  · cases hrest
    exact Or.inl hmem

theorem unconnected_step {sys sys' : ApiSystem H C} {e : ApiEvent H C} (hsys : Unconnected cfg sys)
    (hs : (apiSystem cfg).step sys e = some sys') : Unconnected cfg sys' := by
  intro d hpc hmem
  cases e with
  | daemon h e =>
    rw [(stepDaemon_cases hs).2.1] at hpc
    rw [stepDaemon_conns hs] at hmem
    exact hsys d hpc hmem
  | call c answer =>
    rcases stepCall_conns hs hmem with hmem | ⟨rfl, hsend⟩
    · obtain ⟨call, hcall, -, -, hcalls, -⟩ := stepCall_cases hs
      rw [hcalls] at hpc
      split at hpc
      · rename_i hd
        subst hd
        refine hsys d ?_ hmem
        -- only the first call leads to the second
        cases stepAreq_cases hcall with
        | opened hold => exact Or.inl hold
        | _ => simp [AreqCall.close] at hpc
      · exact hsys d hpc hmem
    · rw [hsend] at hpc
      simp at hpc
  | stranger h =>
    cases hs
    refine hsys d hpc ?_
    simp only [ApiSystem.enqueue] at hmem
    split at hmem
    · rename_i hh
      rw [← List.append_assoc, ← hh] at hmem
      exact (List.mem_append.1 hmem).resolve_right (by simp)
    · exact hmem

theorem reachable_unconnected {sys : ApiSystem H C}
    (h : (apiSystem cfg).Reachable (ApiKernel cfg) sys) : Unconnected cfg sys :=
  h.invariant (I := Unconnected cfg) (fun _ _ hmem => by cases hmem)
    fun _ _ _ hsys _ hs => unconnected_step hsys hs

/-! ## The call -/

/-- What became of a system in which the call `c` connected and sent its question. -/
structure Asked (cfg : ApiConfig H C) (c : C) (sys sys' : ApiSystem H C) : Prop where
  daemons : sys'.daemons = sys.daemons
  peers : sys'.peers = sys.peers
  backlog : sys'.backlog (cfg.home c) = sys.backlog (cfg.home c) ++ [some c]
  pc : (sys'.calls c).pc = .select
  sent : sys'.sent c = (sys.calls c).args.bytes

/-- What a step of the call `c` does to the system. -/
structure Called (cfg : ApiConfig H C) (c : C) (answer : AreqAnswer) (call : AreqCall)
    (sys sys' : ApiSystem H C) : Prop where
  became : sys'.calls c = call
  daemons : sys'.daemons = sys.daemons
  peers : sys'.peers = sys.peers
  connects : answer = .connect true →
    sys'.backlog (cfg.home c) = sys.backlog (cfg.home c) ++ [some c]
  keeps : answer ≠ .connect true → sys'.backlog = sys.backlog
  sends : ∀ n, answer = .send (some n) → sys'.sent c = call.args.bytes.take n

theorem called_of_step (cfg : ApiConfig H C) (sys : ApiSystem H C) (c : C) (answer : AreqAnswer)
    (call : AreqCall) (h : stepAreq (sys.calls c) answer = some call) :
    ∃ sys', (apiSystem cfg).step sys (.call c answer) = some sys' ∧
      Called cfg c answer call sys sys' := by
  simp only [apiSystem, stepApi, stepCall, h, bind, Option.bind_some]
  split
  · exact ⟨_, rfl, if_pos rfl, rfl, rfl, fun _ => if_pos rfl, fun hne => absurd rfl hne,
      fun _ heq => (by cases heq)⟩
  · refine ⟨_, rfl, if_pos rfl, rfl, rfl, fun heq => (by cases heq), fun _ => rfl, ?_⟩
    rintro _ ⟨⟩
    exact if_pos rfl
  · rename_i hconnect hsend
    exact ⟨_, rfl, if_pos rfl, rfl, rfl, fun heq => absurd heq hconnect, fun _ => rfl,
      fun n heq => absurd heq (hsend n)⟩

/-- A call can connect and send its question whole. -/
theorem asked_possible {sys : ApiSystem H C} {c : C} (hpc : (sys.calls c).pc = .socket) :
    ∃ sys', (apiSystem cfg).Steps (ApiKernel cfg) sys sys' ∧ Asked cfg c sys sys' := by
  obtain ⟨s₁, hs₁, h₁⟩ := called_of_step cfg sys c (.socket true)
    { sys.calls c with pc := .connect, sock := true } (by simp only [stepAreq, hpc, if_true])
  have hpc₁ : (s₁.calls c).pc = .connect := by rw [h₁.became]
  obtain ⟨s₂, hs₂, h₂⟩ := called_of_step cfg s₁ c (.connect true)
    { s₁.calls c with pc := .send } (by simp only [stepAreq, hpc₁, if_true])
  have hpc₂ : (s₂.calls c).pc = .send := by rw [h₂.became]
  obtain ⟨s₃, hs₃, h₃⟩ := called_of_step cfg s₂ c (.send (some sizeofAreq))
    { s₂.calls c with pc := .select }
    (by simp only [stepAreq, hpc₂, Option.isSome_some, if_true])
  have hsocket : ApiKernel cfg sys (.call c (.socket true)) := ⟨⟨trivial, trivial⟩, trivial⟩
  have hconnect : ApiKernel cfg s₁ (.call c (.connect true)) := ⟨⟨trivial, trivial⟩, trivial⟩
  have hsend : ApiKernel cfg s₂ (.call c (.send (some sizeofAreq))) :=
    ⟨⟨trivial, trivial⟩, trivial⟩
  refine ⟨s₃, (((Steps.refl sys).tail hsocket hs₁).tail hconnect hs₂).tail hsend hs₃, ?_⟩
  constructor
  · rw [h₃.daemons, h₂.daemons, h₁.daemons]
  · rw [h₃.peers, h₂.peers, h₁.peers]
  · rw [h₃.keeps (by simp), h₂.connects rfl, h₁.keeps (by simp)]
  · rw [h₃.became]
  · rw [h₃.sends _ rfl, h₂.became, h₁.became]
    exact List.take_of_length_le (Nat.le_of_eq (AreqArgs.bytes_length _))

omit [DecidableEq H] in
/-- While the question of a call is resolved, its daemon reads what the call sent. -/
theorem apiKernel_resolving {sys : ApiSystem H C} {c : C} {k : Conn} {m : List UInt8}
    (hpeer : (sys.peers (cfg.home c))[k]? = some (some c)) (hsent : sys.sent c = m)
    {vs : H → World} {h : H} {e : Event} (hg : Resolving cfg.hosts (cfg.home c) k m vs (h, e)) :
    e.accepts = false ∧ ApiKernel cfg { sys with daemons := vs } (.daemon h e) := by
  obtain ⟨⟨-, hdelivers⟩, hreads⟩ := hg
  cases e with
  | select => exact apiKernel_plain rfl
  | tick => exact apiKernel_plain rfl
  | packet => exact ⟨rfl, ⟨trivial, trivial, hdelivers⟩, trivial⟩
  | accept => exact hreads.elim
  | areq env =>
    obtain ⟨rfl, ⟨rset, a, entry, hpc, hentry, hfd⟩, hrecv⟩ := hreads
    refine ⟨rfl, ⟨fun d hd msg hmsg => ?_, trivial, trivial⟩, trivial⟩
    have hreading : ({ sys with daemons := vs } : ApiSystem H C).reading (cfg.home c) = some c := by
      simp only [ApiSystem.reading, World.reading, hpc, hentry, hfd, Option.bind_some, hpeer,
        Option.join_some]
    rw [hreading] at hd
    cases hd
    rw [hrecv] at hmsg
    cases hmsg
    rw [hsent]

/-! ## The answer -/

omit [DecidableEq H] in
/-- An answer on the connection of a call can be received. -/
theorem inbox_ne_nil {sys : ApiSystem H C} {c : C} {l : List (Option C)}
    (hpeers : sys.peers (cfg.home c) = l ++ [some c]) (hfirst : some c ∉ l) {hw : Hwaddr}
    (hanswer : .answered l.length hw true ∈ (sys.daemons (cfg.home c)).log) :
    sys.inbox cfg c ≠ [] := by
  have hindex : (sys.peers (cfg.home c)).idxOf? (some c) = some l.length := by
    rw [hpeers, List.idxOf?_eq_some_iff]
    refine ⟨by simp, by simp, fun j hj => ?_⟩
    rw [List.getElem_append_left hj]
    exact fun heq => hfirst (heq ▸ List.getElem_mem hj)
  simp only [ApiSystem.inbox, hindex, repliesTo]
  intro hnil
  have hbytes := List.flatMap_eq_nil_iff.1 hnil _ (List.mem_reverse.2 hanswer)
  simp only [and_self, if_true] at hbytes
  have hlen := hw.bytes_length
  rw [hbytes] at hlen
  cases hlen

theorem received_returns {call call' : AreqCall} {hw : Hwaddr}
    (h : call.received hw.bytes = some call') : call'.pc = .returned true := by
  have hwhole : ¬hw.bytes.length < sizeofHwaddr := Nat.not_lt.2 (Nat.le_of_eq hw.bytes_length.symm)
  simp only [AreqCall.received, if_neg hwhole, bind, Option.bind_eq_some_iff] at h
  obtain ⟨hwa, -, printed, -, h⟩ := h
  cases h
  rfl

/-- A call on whose connection something is can return 1. -/
theorem return_possible (hint : ∀ s, ∀ d ∈ (cfg.hosts s).devices, IsInt d.ifIndex)
    {sys : ApiSystem H C} (hinv : ApiInv cfg sys) {c : C} (hpc : (sys.calls c).pc = .select)
    (hinbox : sys.inbox cfg c ≠ []) :
    ∃ sys', (apiSystem cfg).Steps (ApiKernel cfg) sys sys' ∧
      (sys'.calls c).pc = .returned true := by
  obtain ⟨s₁, hs₁, h₁⟩ := called_of_step cfg sys c (.select 1) { sys.calls c with pc := .recv }
    (by simp only [stepAreq, hpc]; rfl)
  have hsame : s₁.inbox cfg c = sys.inbox cfg c := by
    simp only [ApiSystem.inbox, h₁.peers, h₁.daemons]
  obtain ⟨k, hw, -, hanswer, heq⟩ := (inbox_cases hinv c).resolve_left hinbox
  obtain ⟨hindex, hhalen⟩ := hinv.answer_fits hint hanswer
  have hpc₁ : (s₁.calls c).pc = .recv := by rw [h₁.became]
  have hwhole : ((s₁.calls c).received hw.bytes).isSome := received_whole hindex hhalen
  obtain ⟨call, hcall⟩ := Option.isSome_iff_exists.1 hwhole
  obtain ⟨s₂, hs₂, h₂⟩ := called_of_step cfg s₁ c (.recv (some hw.bytes)) call
    (by simp only [stepAreq, hpc₁, hcall])
  have hselect : ApiKernel cfg sys (.call c (.select 1)) := ⟨⟨trivial, trivial⟩, trivial⟩
  have hrecv : ApiKernel cfg s₁ (.call c (.recv (some hw.bytes))) := by
    refine ⟨⟨fun got hgot => ?_, trivial⟩, trivial⟩
    cases hgot
    rw [hsame, heq]
  refine ⟨s₂, ((Steps.refl sys).tail hselect hs₁).tail hrecv hs₂, ?_⟩
  rw [h₂.became]
  exact received_returns hcall

/-- **Every call can return.** In every state that the hosts, any number of calls and other programs
can reach, a call that has not begun can ask for any address of another host and return 1 with the
hardware address that belongs to it, as long as both daemons wait. -/
theorem areq_possible
    (hdistinct : ∀ s t d d', d ∈ (cfg.hosts s).devices → d' ∈ (cfg.hosts t).devices →
      d.ipAddr.sinAddr = d'.ipAddr.sinAddr → d = d')
    (hint : ∀ s, ∀ d ∈ (cfg.hosts s).devices, IsInt d.ifIndex)
    {sys : ApiSystem H C} (h : (apiSystem cfg).Reachable (ApiKernel cfg) sys) {c : C}
    (hpc : (sys.calls c).pc = .socket) {j : H} (hj : cfg.home c ≠ j)
    (hwaits : (sys.daemons (cfg.home c)).pc = .select ∧ (sys.daemons j).pc = .select)
    {d : HwaInfo} (hd : d ∈ (cfg.hosts j).devices) (hipa : (cfg.args c).ipa = etherIp d.ipAddr.sinAddr) :
    ∃ sys', (apiSystem cfg).Steps (ApiKernel cfg) sys sys' ∧ (sys'.calls c).pc = .returned true ∧
      (Hwaddr.ofBytes (sys'.calls c).hwa.bytes).sllAddr.bytes.take ethAlen = d.ifHaddr.bytes := by
  have hunconnected := reachable_unconnected h c (Or.inl hpc)
  -- the connections that wait are accepted, and then that of the call
  obtain ⟨s₁, hrun₁, h₁⟩ := accept_all h hwaits.1
  have hbacklog₁ : s₁.backlog (cfg.home c) = [] := List.self_eq_append_right.1 h₁.backlog
  have hpc₁ : (s₁.calls c).pc = .socket := by rw [h₁.calls, hpc]
  obtain ⟨s₂, hrun₂, h₂⟩ := asked_possible hpc₁
  have hreach₂ := (h.trans hrun₁).trans hrun₂
  have hbacklog₂ : s₂.backlog (cfg.home c) = [some c] := by rw [h₂.backlog, hbacklog₁]; rfl
  have hwaits₂ : (s₂.daemons (cfg.home c)).pc = .select := by rw [h₂.daemons]; exact h₁.waits
  obtain ⟨s₃, hrun₃, h₃, hconn⟩ := accept_possible hreach₂ hwaits₂ hbacklog₂
  have hreach₃ := hreach₂.trans hrun₃
  rw [(reachable_apiInv (hreach₂.mono fun _ _ hg => hg.1)).numbered] at hconn
  -- the question
  have hother₃ : (s₃.daemons j).pc = .select := by
    rw [h₃.others j (Ne.symm hj), h₂.daemons, h₁.others j (Ne.symm hj)]
    exact hwaits.2
  obtain ⟨ws, hw, hsteps, -, hanswer, -⟩ := question_possible (reachable_network hreach₃) hj h₃.waits
    hother₃ hconn hd (AreqArgs.bytes_length (cfg.args c))
    ((AreqArgs.ofBytes_bytes (cfg.args c)).trans hipa)
  have hpeer : (s₃.peers (cfg.home c))[(s₂.peers (cfg.home c)).length]? = some (some c) := by
    rw [h₃.peers]
    simp
  have hsent : s₃.sent c = (cfg.args c).bytes := by
    rw [h₃.sent, h₂.sent, h₁.calls, ((reachable_apiInv (h.mono fun _ _ hg => hg.1)).call c).args]
  have hrun₄ := steps_of_network hsteps fun _ _ _ hg => apiKernel_resolving hpeer hsent hg
  -- the answer
  have hreach₄ := hreach₃.trans hrun₄
  have hpc₄ : (s₃.calls c).pc = .select := by rw [h₃.calls]; exact h₂.pc
  have hfirst : some c ∉ s₂.peers (cfg.home c) := by rw [h₂.peers, h₁.peers]; exact hunconnected
  obtain ⟨s₅, hrun₅, hreturned⟩ := return_possible hint
    (reachable_apiInv (hreach₄.mono fun _ _ hg => hg.1)) hpc₄ (inbox_ne_nil h₃.peers hfirst hanswer)
  have hinv := reachable_apiInv ((hreach₄.trans hrun₅).mono fun _ _ hg => hg.1)
  refine ⟨s₅, (((hrun₁.trans hrun₂).trans hrun₃).trans hrun₄).trans hrun₅, hreturned, ?_⟩
  exact (hinv.resolves hdistinct hint hreturned).owner j d hd (by rw [hipa, sinAddr_etherIp])

end System

/-- On the host 10.0.0.1 one call has connected, between two other programs, and none is accepted. -/
def crowd : List (ApiEvent Bool Bool) :=
  [.stranger false, .call false (.socket true), .call false (.connect true), .stranger false]

/-- The other call can return 1. -/
theorem areq_possible_crowd : ∃ sys sys', (apiSystem twoCalls).guardedRun (ApiKernel twoCalls)
      (apiSystem twoCalls).init crowd = some sys ∧
    (apiSystem twoCalls).Steps (ApiKernel twoCalls) sys sys' ∧
    (sys'.calls true).pc = .returned true ∧
    (Hwaddr.ofBytes (sys'.calls true).hwa.bytes).sllAddr.bytes.take ethAlen = (hostMac 2).bytes := by
  obtain ⟨sys, hsys⟩ : ∃ sys, (apiSystem twoCalls).guardedRun (ApiKernel twoCalls)
      (apiSystem twoCalls).init crowd = some sys := ⟨_, rfl⟩
  have hreach : (apiSystem twoCalls).Reachable (ApiKernel twoCalls) sys := .of_guardedRun _ hsys
  cases hsys
  obtain ⟨sys', hsteps, hreturned, hmac⟩ := areq_possible twoHosts_distinct twoHosts_int hreach
    (c := true) rfl (j := true) (by exact Bool.false_ne_true) ⟨rfl, rfl⟩ List.mem_cons_self rfl
  exact ⟨_, sys', rfl, hsteps, hreturned, hmac⟩

end Tour
