import Tour.Api.Resolve
import Tour.Ping.Thread

/-!
# Where the pings go

All ping threads of all hosts, the daemons that their calls of `areq` ask, and the network between the
daemons, in any interleaving. The calls of the threads are calls of the system of `Api`, so that what
they return is true of the network; and each thread sends what `pinger` sends. Every frame is
therefore addressed to the interface that owns the target of its thread, leaves an interface of the
thread's host, and holds the next packet (`threads_ping`).
-/

namespace Tour

open Lib Machine

/-! ## One thread -/

section Addressed

variable {H C : Type} [DecidableEq H] [DecidableEq C] (cfg : ApiConfig H C)

/-- What `areq` can store for a thread of host `i` that pings `tgtip`. -/
def PingStores (i : H) (tgtip : InAddr) (hwa : Hwaddr) : Prop :=
  ∃ sys, (apiSystem cfg).Reachable (ApiSound cfg) sys ∧ ∃ c, cfg.home c = i ∧
    cfg.args c = pingArgs tgtip ∧ (sys.calls c).pc = .returned true ∧
    hwa = .ofBytes (sys.calls c).hwa.bytes

/-- The frame goes where the record of some call says. -/
def Addressed (i : H) (tgtip : InAddr) (x : Int × List UInt8) : Prop :=
  ∃ hwa, PingStores cfg i tgtip hwa ∧ x.1 = hwa.sllIfindex ∧
    x.2.take 12 = hwa.sllAddr.bytes.take ethAlen ++ hwa.sllIfaddr.bytes.take ethAlen

variable {cfg} {i : H} {hostip tgtip : InAddr} {tid : UInt64}

theorem addressed_step {s s' : PingSend} {e : PingEvent}
    (hinv : ∀ x ∈ s.sent, Addressed cfg i tgtip x) (hg : Stores (PingStores cfg i tgtip) s e)
    (hstep : (pinger hostip tgtip tid).step s e = some s') :
    ∀ x ∈ s'.sent, Addressed cfg i tgtip x := by
  unfold pinger at hstep
  dsimp only at hstep
  split at hstep
  · cases hstep
    exact hinv
  · rename_i packet seq hwa sendtoOk hpc
    cases hwa with
    | none =>
      cases hstep
      exact hinv
    | some dst =>
      simp only [stepEcho, pingSendFrame_ok, bind, Option.bind_some] at hstep
      split at hstep
      · cases hstep
        refine List.forall_mem_cons.2 ⟨⟨dst, hg dst rfl, rfl, ?_⟩, hinv⟩
        simp only [List.append_assoc]
        rw [← List.append_assoc]
        exact List.take_left' (by simp)
      · cases hstep
        exact hinv
  · cases hstep

theorem reachable_addressed {s : PingSend}
    (h : (pinger hostip tgtip tid).Reachable (Stores (PingStores cfg i tgtip)) s) :
    ∀ x ∈ s.sent, Addressed cfg i tgtip x :=
  h.invariant (I := fun s => ∀ x ∈ s.sent, Addressed cfg i tgtip x) (List.forall_mem_nil _)
    fun _ _ _ hinv hg hs => addressed_step hinv hg hs

/-- The frame `x` is the `k`-th ping from host `i`: it is addressed to the interface that owns the
target, leaves an interface of the host with the address of that interface, and holds the packet. -/
def PingTo (cfg : ApiConfig H C) (i : H) (hostip tgtip : InAddr) (tid : UInt64) (k : Nat)
    (x : Int × List UInt8) : Prop :=
  ∃ t, ∃ d ∈ (cfg.hosts t).devices, d.ipAddr.sinAddr = tgtip ∧
    ∃ e ∈ (cfg.hosts i).devices, x.1 = e.ifIndex ∧
      x.2 = d.ifHaddr.bytes ++ e.ifHaddr.bytes ++ le16 (htons ethPIp) ++
        (pingPacket hostip tgtip tid k).bytes

theorem pinger_pingTo
    (hdistinct : ∀ s t d d', d ∈ (cfg.hosts s).devices → d' ∈ (cfg.hosts t).devices →
      d.ipAddr.sinAddr = d'.ipAddr.sinAddr → d = d')
    (hint : ∀ s, ∀ d ∈ (cfg.hosts s).devices, IsInt d.ifIndex) {s : PingSend}
    (h : (pinger hostip tgtip tid).Reachable (Stores (PingStores cfg i tgtip)) s) {k : Nat}
    {x : Int × List UInt8} (hx : s.sent.reverse[k]? = some x) :
    PingTo cfg i hostip tgtip tid k x := by
  obtain ⟨hwa, ⟨sys, hsys, c, rfl, hargs, hpc, rfl⟩, hindex, hmacs⟩ :=
    reachable_addressed h x (List.mem_reverse.1 (List.mem_of_getElem? hx))
  obtain ⟨⟨t, d, hd, hip⟩, howner, -, e, he, heindex, hemac⟩ :=
    (reachable_apiInv hsys).resolves hdistinct hint hpc
  have htgt : (cfg.args c).ipa.sinAddr = tgtip := by rw [hargs]; exact sinAddr_etherIp tgtip
  refine ⟨t, d, hd, hip.trans htgt, e, he, hindex.trans heindex.symm, ?_⟩
  obtain ⟨dst, src, hframe⟩ := pinger_sent h hx
  -- the two addresses are the first twelve bytes
  have htake : x.2.take 12 = dst.bytes ++ src.bytes := by
    rw [hframe, List.append_assoc]
    exact List.take_left' (by simp)
  rw [htake, howner t d hd hip, hemac] at hmacs
  rw [hframe, hmacs]

end Addressed

/-! ## All threads -/

/-- The hosts, and for each ping thread its host, what `run_ping_send` works with, and what its
stack holds. -/
structure PingConfig (H T : Type) where
  hosts : H → Config
  home : T → H
  hostip : T → InAddr
  tgtip : T → InAddr
  tid : T → UInt64
  stack : T → Nat → Buf sizeofHwaddr

/-- The calls of `areq`, of each thread the one before each frame. -/
def PingConfig.api {H T : Type} (cfg : PingConfig H T) : ApiConfig H (T × Nat) :=
  ⟨cfg.hosts, fun c => cfg.home c.1, fun c => pingArgs (cfg.tgtip c.1), fun c => cfg.stack c.1 c.2⟩

structure PingNet (H T : Type) where
  sys : ApiSystem H (T × Nat)
  threads : T → PingThread

inductive PingNetEvent (H T : Type)
  | daemon (h : H) (e : Event)
  | stranger (h : H)
  | thread (t : T) (e : ThreadEvent)

section Network

variable {H T : Type} [DecidableEq H] [DecidableEq T] (cfg : PingConfig H T)

/-- What a step is for the daemons and the calls. -/
def PingNet.apiEvent (net : PingNet H T) : PingNetEvent H T → Option (ApiEvent H (T × Nat))
  | .daemon h e => some (.daemon h e)
  | .stranger h => some (.stranger h)
  | .thread t (.areq answer) => some (.call (t, (net.threads t).sent.length) answer)
  | .thread _ _ => none

def PingNet.stepSys (net : PingNet H T) (e : PingNetEvent H T) : Option (ApiSystem H (T × Nat)) :=
  match net.apiEvent e with
  | some e' => (apiSystem cfg.api).step net.sys e'
  | none => some net.sys

def PingNet.stepThreads (net : PingNet H T) : PingNetEvent H T → Option (T → PingThread)
  | .thread t e => do
    let thread ← stepThread (cfg.hostip t) (cfg.tgtip t) (cfg.tid t) (cfg.stack t) (net.threads t) e
    some fun u => if u = t then thread else net.threads u
  | _ => some net.threads

def stepPingNet (net : PingNet H T) (e : PingNetEvent H T) : Option (PingNet H T) := do
  let sys ← net.stepSys cfg e
  let threads ← net.stepThreads cfg e
  some ⟨sys, threads⟩

def pingNetwork : Machine (PingNet H T) (PingNetEvent H T) where
  init := ⟨(apiSystem cfg.api).init, fun t =>
    (pingThread (cfg.hostip t) (cfg.tgtip t) (cfg.tid t) (cfg.stack t)).init⟩
  step := stepPingNet cfg

/-- The guarantees of the kernel and of the network. -/
def PingNetSound (net : PingNet H T) (e : PingNetEvent H T) : Prop :=
  ∀ e' ∈ net.apiEvent e, ApiSound cfg.api net.sys e'

instance [Fintype H] (net : PingNet H T) (e : PingNetEvent H T) :
    Decidable (PingNetSound cfg net e) :=
  inferInstanceAs (Decidable (∀ e' ∈ net.apiEvent e, ApiSound cfg.api net.sys e'))

/-! ### The threads and their calls -/

/-- The call of `areq` that a thread is in is one of `calls`, the record with which it sends is what
that call returned, and the calls of the later iterations have not begun. -/
structure Synced (tgtip : InAddr) (stack : Nat → Buf sizeofHwaddr) (calls : Nat → AreqCall)
    (t : PingThread) : Prop where
  asking : ∀ packet seq call, t.pc = .asking packet seq call → calls t.sent.length = call
  sending : ∀ packet seq dst, t.pc = .sending packet seq dst →
    (calls t.sent.length).pc = .returned true ∧ dst = .ofBytes (calls t.sent.length).hwa.bytes
  later : ∀ n, t.sent.length < n ∨ n = t.sent.length ∧ t.pc.asked = false →
    calls n = .start (pingArgs tgtip) (stack n)

section Thread

variable {hostip tgtip : InAddr} {tid : UInt64} {stack : Nat → Buf sizeofHwaddr}
  {calls : Nat → AreqCall} {t t' : PingThread}

theorem Synced.iterate {packet : PingPacket} {seq : UInt16} (hlater : ∀ n, t.sent.length ≤ n →
      calls n = .start (pingArgs tgtip) (stack n)) :
    Synced tgtip stack calls (t.iterate tgtip stack packet seq) where
  asking _ _ _ h := by
    cases h
    exact hlater _ (Nat.le_refl _)
  sending _ _ _ h := by cases h
  later n h := hlater n (by rcases h with h | ⟨rfl, -⟩; exacts [Nat.le_of_lt h, Nat.le_refl _])

/-- A thread that has not asked in this iteration. -/
theorem Synced.unasked (h : Synced tgtip stack calls t) (hpc : t.pc.asked = false) {n : Nat}
    (hn : t.sent.length ≤ n) : calls n = .start (pingArgs tgtip) (stack n) :=
  h.later n ((Nat.lt_or_eq_of_le hn).imp id fun heq => ⟨heq.symm, hpc⟩)

/-- Where the thread is in no call, and has sent no less. -/
theorem Synced.moved (h : Synced tgtip stack calls t)
    (hasking : ∀ packet seq call, t'.pc ≠ .asking packet seq call)
    (hsending : ∀ packet seq dst, t'.pc ≠ .sending packet seq dst)
    (hlen : t.sent.length < t'.sent.length ∨ t.sent.length = t'.sent.length ∧ t'.pc.asked = true) :
    Synced tgtip stack calls t' where
  asking packet seq call hpc := absurd hpc (hasking packet seq call)
  sending packet seq dst hpc := absurd hpc (hsending packet seq dst)
  later n hn := by
    refine h.later n (Or.inl ?_)
    rcases hn with hlt | ⟨rfl, hasked⟩
    · omega
    · rcases hlen with hlen | ⟨-, htrue⟩
      · exact hlen
      · rw [hasked] at htrue
        cases htrue

theorem Synced.step {e : ThreadEvent} (h : Synced tgtip stack calls t)
    (hstep : ThreadStep hostip tgtip tid stack t e t') (he : ∀ answer, e ≠ .areq answer) :
    Synced tgtip stack calls t' := by
  cases hstep with
  | noSocket => exact h.moved (by simp) (by simp) (Or.inr ⟨rfl, rfl⟩)
  | opened hpc => exact .iterate fun n hn => h.unasked (by rw [hpc]; rfl) hn
  | asked => exact absurd rfl (he _)
  | sent => exact h.moved (by simp) (by simp) (Or.inl (Nat.lt_succ_self _))
  | failed => exact h.moved (by simp) (by simp) (Or.inr ⟨rfl, rfl⟩)
  | slept hpc => exact .iterate fun n hn => h.unasked (by rw [hpc]; rfl) hn
  | closed => exact h.moved (by simp) (by simp) (Or.inr ⟨rfl, rfl⟩)
  | cancelled hcancel =>
    obtain ⟨-, -, ⟨-, rfl⟩ | ⟨-, rfl⟩⟩ := cancel_cases hcancel
    · exact h.moved (by simp) (by simp) (Or.inr ⟨rfl, rfl⟩)
    · exact h.moved (by simp [PingThread.did]) (by simp [PingThread.did]) (Or.inr ⟨rfl, rfl⟩)

/-- A step of the call in which the thread is. -/
theorem Synced.called {answer : AreqAnswer} {call : AreqCall} {calls' : Nat → AreqCall}
    (h : Synced tgtip stack calls t) (hstep : ThreadStep hostip tgtip tid stack t (.areq answer) t')
    (hcall : stepAreq (calls t.sent.length) answer = some call)
    (hcalls : ∀ n, calls' n = if n = t.sent.length then call else calls n) :
    Synced tgtip stack calls' t' := by
  cases hstep with
  | @asked packet seq call₀ call' answer hpc hstep =>
    have hsame : call = call' := by
      rw [h.asking packet seq call₀ hpc, hstep] at hcall
      exact (Option.some.inj hcall).symm
    have hcurrent : calls' t.sent.length = call' := by rw [hcalls, if_pos rfl, hsame]
    have hasked := asked_ofCall (stepAreq_cases hstep).left_start packet seq
    refine ⟨fun p s c hp => ?_, fun p s dst hp => ?_, fun n hn => ?_⟩
    · rcases ofCall_cases packet seq call' with ⟨-, heq⟩ | ⟨-, heq⟩ | heq
      · cases heq.symm.trans hp
      · cases heq.symm.trans hp
      · cases heq.symm.trans hp
        exact hcurrent
    · rcases ofCall_cases packet seq call' with ⟨hreturned, heq⟩ | ⟨-, heq⟩ | heq
      · cases heq.symm.trans hp
        rw [hcurrent]
        exact ⟨hreturned, rfl⟩
      · cases heq.symm.trans hp
      · cases heq.symm.trans hp
    · rcases hn with hlt | ⟨-, hfalse⟩
      · have hlt : t.sent.length < n := hlt
        rw [hcalls, if_neg (by omega)]
        exact h.later n (Or.inl hlt)
      · rw [hasked] at hfalse
        cases hfalse

end Thread

/-- The calls of all threads are those of the system. -/
structure NetSynced (net : PingNet H T) : Prop where
  run : (apiSystem cfg.api).Reachable (ApiSound cfg.api) net.sys
  thread : ∀ t, Synced (cfg.tgtip t) (cfg.stack t) (fun n => net.sys.calls (t, n)) (net.threads t)

variable {cfg}

/-- The system takes the step of the event, if there is one for it. -/
theorem stepSys_cases {net : PingNet H T} {e : PingNetEvent H T} {sys : ApiSystem H (T × Nat)}
    (h : net.stepSys cfg e = some sys) :
    (net.apiEvent e = none ∧ sys = net.sys) ∨
      ∃ e', net.apiEvent e = some e' ∧ (apiSystem cfg.api).step net.sys e' = some sys := by
  unfold PingNet.stepSys at h
  split at h
  · rename_i e' he
    exact Or.inr ⟨e', he, h⟩
  · rename_i he
    cases h
    exact Or.inl ⟨he, rfl⟩

theorem netSynced_step {net net' : PingNet H T} {e : PingNetEvent H T}
    (hinv : NetSynced cfg net) (hsound : PingNetSound cfg net e)
    (h : stepPingNet cfg net e = some net') : NetSynced cfg net' := by
  obtain ⟨sys, hsys, hrest⟩ := Option.bind_eq_some_iff.1 h
  obtain ⟨threads, hthreads, hnet⟩ := Option.bind_eq_some_iff.1 hrest
  cases hnet
  have hrun : (apiSystem cfg.api).Reachable (ApiSound cfg.api) sys := by
    rcases stepSys_cases hsys with ⟨-, rfl⟩ | ⟨e', he, hstep⟩
    · exact hinv.run
    · exact hinv.run.step (hsound e' he) hstep
  refine ⟨hrun, fun u => ?_⟩
  cases e with
  | daemon i e =>
    cases hthreads
    have hstep : stepDaemon cfg.api net.sys i e = some sys := hsys
    obtain ⟨-, hcalls, -⟩ := stepDaemon_cases hstep
    rw [hcalls]
    exact hinv.thread u
  | stranger h =>
    cases hthreads
    cases hsys
    exact hinv.thread u
  | thread t e =>
    obtain ⟨thread, hthread, hsome⟩ := Option.bind_eq_some_iff.1 hthreads
    cases hsome
    have hcase := stepThread_cases hthread
    by_cases hu : u = t
    · subst hu
      dsimp only
      rw [if_pos rfl]
      cases e with
      | areq answer =>
        have hstep : stepCall cfg.api net.sys _ answer = some sys := hsys
        obtain ⟨call, hcall, -, -, hcalls, -⟩ := stepCall_cases hstep
        exact (hinv.thread u).called hcase hcall fun n => by simp [hcalls]
      | socket | sendto | slept | closed | cancel =>
        cases hsys
        exact (hinv.thread u).step hcase (by simp)
    · dsimp only
      rw [if_neg hu]
      cases e with
      | areq answer =>
        have hstep : stepCall cfg.api net.sys _ answer = some sys := hsys
        obtain ⟨call, -, -, -, hcalls, -⟩ := stepCall_cases hstep
        simpa [hcalls, hu] using hinv.thread u
      | socket | sendto | slept | closed | cancel =>
        cases hsys
        exact hinv.thread u

theorem reachable_netSynced {net : PingNet H T}
    (h : (pingNetwork cfg).Reachable (PingNetSound cfg) net) : NetSynced cfg net := by
  have hinit : NetSynced cfg (pingNetwork cfg).init :=
    ⟨.refl _, fun t => ⟨fun _ _ _ h => (by cases h), fun _ _ _ h => (by cases h), fun _ _ => rfl⟩⟩
  exact h.invariant (I := NetSynced cfg) hinit fun _ _ _ hinv hg hs => netSynced_step hinv hg hs

/-- Each thread sends what a run of `pinger` sends, with what calls of `areq` have returned. -/
theorem reachable_follows {net : PingNet H T}
    (h : (pingNetwork cfg).Reachable (PingNetSound cfg) net) (t : T) :
    ∃ s, (pinger (cfg.hostip t) (cfg.tgtip t) (cfg.tid t)).Reachable
        (Stores (PingStores cfg.api (cfg.home t) (cfg.tgtip t))) s ∧
      Follows (PingStores cfg.api (cfg.home t) (cfg.tgtip t)) (net.threads t) s := by
  have hinit : Follows (PingStores cfg.api (cfg.home t) (cfg.tgtip t))
    ((pingNetwork cfg).init.threads t)
    (pinger (cfg.hostip t) (cfg.tgtip t) (cfg.tid t)).init := ⟨rfl, rfl⟩
  refine h.simulated (R := fun net s => Follows _ (net.threads t) s) hinit ?_
  intro net e net' s hreach hfollows hg hs
  obtain ⟨hrun', hsynced'⟩ := reachable_netSynced (hreach.step hg hs)
  have hstored : ∀ packet seq dst, (net'.threads t).pc = .sending packet seq dst →
      PingStores cfg.api (cfg.home t) (cfg.tgtip t) dst := by
    intro packet seq dst hpc
    obtain ⟨hreturned, hdst⟩ := (hsynced' t).sending packet seq dst hpc
    exact ⟨net'.sys, hrun', (t, (net'.threads t).sent.length), rfl, rfl, hreturned, hdst⟩
  obtain ⟨sys, hsys, hrest⟩ := Option.bind_eq_some_iff.1 hs
  obtain ⟨threads, hthreads, hnet⟩ := Option.bind_eq_some_iff.1 hrest
  cases hnet
  cases e with
  | daemon h e =>
    cases hthreads
    exact ⟨s, .refl s, hfollows⟩
  | stranger h =>
    cases hthreads
    exact ⟨s, .refl s, hfollows⟩
  | thread u e =>
    obtain ⟨thread, hthread, hsome⟩ := Option.bind_eq_some_iff.1 hthreads
    cases hsome
    dsimp only at hstored ⊢
    by_cases ht : t = u
    · subst ht
      rw [if_pos rfl] at hstored ⊢
      exact hfollows.step (stepThread_cases hthread) hstored
    · rw [if_neg ht]
      exact ⟨s, .refl s, hfollows⟩

/-- **Every ping goes to its target.** In every run of any number of hosts with any number of ping
threads on them, cancelled wherever they may be, and of other programs that send the daemons
anything, the `k`-th frame of a thread is addressed to the interface that owns the target of the
thread, leaves an interface of the thread's host with the address of that interface, and holds the
`k`-th packet. -/
theorem threads_ping
    (hdistinct : ∀ s t d d', d ∈ (cfg.hosts s).devices → d' ∈ (cfg.hosts t).devices →
      d.ipAddr.sinAddr = d'.ipAddr.sinAddr → d = d')
    (hint : ∀ s, ∀ d ∈ (cfg.hosts s).devices, IsInt d.ifIndex) {net : PingNet H T}
    (h : (pingNetwork cfg).Reachable (PingNetSound cfg) net) (t : T) {k : Nat}
    {x : Int × List UInt8} (hx : (net.threads t).sent.reverse[k]? = some x) :
    PingTo cfg.api (cfg.home t) (cfg.hostip t) (cfg.tgtip t) (cfg.tid t) k x := by
  obtain ⟨s, hs, hfollows⟩ := reachable_follows h t
  rw [← hfollows.sent] at hx
  exact pinger_pingTo hdistinct hint hs hx

end Network

/-! ## Two threads -/

/-- Two threads on the host 10.0.0.1 that ping 10.0.0.2. -/
def twoThreads : PingConfig Bool Bool :=
  ⟨twoHosts, fun _ => false, fun _ => hostIp 1, fun _ => hostIp 2, fun _ => 7, fun _ _ => .zero _⟩

/-- A call of `areq` is one of a thread. -/
def PingNetEvent.ofCall : ApiEvent Bool Bool → PingNetEvent Bool Bool
  | .daemon h e => .daemon h e
  | .call c answer => .thread c (.areq answer)
  | .stranger h => .stranger h

/-- Both threads send a frame; one of them is cancelled in `sleep`. -/
def bothThreads : List (PingNetEvent Bool Bool) :=
  [.thread false (.socket true), .thread true (.socket true)] ++ bothCalls.map .ofCall ++
    [.thread false (.sendto true), .thread true (.sendto true), .thread true .cancel]

theorem threads_ping_both : ∃ net, (pingNetwork twoThreads).Reachable (PingNetSound twoThreads) net ∧
    ∀ t, ∃ x, (net.threads t).sent = [x] ∧
      PingTo twoThreads.api false (hostIp 1) (hostIp 2) 7 0 x := by
  have hrun : ((pingNetwork twoThreads).guardedRun (PingNetSound twoThreads)
      (pingNetwork twoThreads).init bothThreads).map (fun net =>
        [(net.threads false).sent.length, (net.threads true).sent.length]) = some [1, 1] := by
    decide +kernel
  obtain ⟨net, hnet, hlens⟩ := Option.map_eq_some_iff.1 hrun
  simp only [List.cons.injEq, and_true] at hlens
  have hreach : (pingNetwork twoThreads).Reachable (PingNetSound twoThreads) net :=
    .of_guardedRun bothThreads hnet
  refine ⟨net, hreach, fun t => ?_⟩
  have hlen : (net.threads t).sent.length = 1 := by cases t; exacts [hlens.1, hlens.2]
  obtain ⟨x, hx⟩ := List.length_eq_one_iff.1 hlen
  exact ⟨x, hx, threads_ping twoHosts_distinct twoHosts_int hreach t (by rw [hx]; rfl)⟩

end Tour
