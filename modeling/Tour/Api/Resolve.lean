import Tour.Api.System

/-!
# What `areq` returns

A call of `areq` returns 1 only with the 28 bytes of one answer that its daemon sent on its own
connection, and the daemon answered the question that the call had put there (`ApiInv`). The record
in the caller's object is therefore one of the cache, and says what the network is like
(`areq_correct`); two calls on one host get the same record for one address (`areq_agree`).
-/

namespace Tour

open Lib Machine

/-! ## What a daemon hears and says -/

theorem received_close {w : World} {fd : Int} {k : Conn} {msg : List UInt8}
    (h : .received k msg ∈ (w.perform (.close fd)).log) : .received k msg ∈ w.log := by
  simp only [World.perform] at h
  split at h
  · exact (List.mem_cons.1 h).resolve_left (by simp)
  · exact h

theorem received_send {w : World} {fd : Int} {hw : Hwaddr} {ok : Bool} {k : Conn}
    {msg : List UInt8} (h : .received k msg ∈ (w.perform (.send fd hw ok)).log) :
    .received k msg ∈ w.log := by
  simp only [World.perform] at h
  split at h
  · exact (List.mem_cons.1 h).resolve_left (by simp)
  · exact h

theorem received_emitted {obs log : List Obs} (hobs : ∀ o ∈ obs, ∃ frame, o = .emitted frame)
    {k : Conn} {msg : List UInt8} (h : .received k msg ∈ obs ++ log) : .received k msg ∈ log := by
  rcases List.mem_append.1 h with h | h
  · obtain ⟨frame, hframe⟩ := hobs _ h
    cases hframe
  · exact h

/-- A daemon knows a message only from its `recv`. -/
theorem Advance.received {cfg : Config} {w w' : World} {e : Event} (h : Advance cfg w e w')
    (hnodup : (addrs w.cache).Nodup) {k : Conn} {msg : List UInt8}
    (hmem : .received k msg ∈ w'.log) : .received k msg ∈ w.log ∨
      ∃ env, e = .areq env ∧ env.recv = some msg ∧ w.reading = some k := by
  have hreading : ∀ {rset a c j}, w.pc = .sweep rset (some a) → (a, c) ∈ w.cache →
      w.fds c.domainSocket = some j → w.reading = some j := by
    intro rset a c j hpc hc hfd
    simp only [World.reading, hpc, entryAt_of_mem hnodup hc, Option.bind_some, hfd]
  have hnew : ∀ {env : AreqEnv} {j m}, e = .areq env → env.recv = some m → w.reading = some j →
      .received k msg ∈ Obs.received j m :: w.log → .received k msg ∈ w.log ∨
        ∃ env, e = .areq env ∧ env.recv = some msg ∧ w.reading = some k := by
    intro env j m he hrecv hread hcons
    rcases List.mem_cons.1 hcons with heq | hrest
    · cases heq
      exact Or.inr ⟨env, he, hrecv, hread⟩
    · exact Or.inl hrest
  cases h with
  | moved => exact Or.inl hmem
  | dropped => exact Or.inl hmem
  | accepted => exact Or.inl hmem
  | refused hpc hc hstate hfd hrecv hmsg => exact hnew rfl hrecv (hreading hpc hc hfd) hmem
  | cached hpc hc hstate hfd hrecv hmsg hn hcomplete =>
    exact hnew rfl hrecv (hreading hpc hc hfd) ((List.mem_cons.1 hmem).resolve_left (by simp))
  | asked hpc hto hc hstate hfd hrecv hmsg hmiss hobs =>
    refine hnew rfl hrecv (hreading hpc hc hfd) (received_emitted (fun o ho => ?_) hmem)
    obtain ⟨d, -, rfl⟩ := hobs o ho
    exact ⟨_, rfl⟩
  | removed => exact Or.inl (received_close hmem)
  | packet hpc hframe =>
    left
    refine (handleFrame_cases cfg hframe).preserves
      (P := fun u => .received k msg ∈ u.log → .received k msg ∈ w.log) hnodup ?_ ?_ ?_ id hmem
    · exact fun u obs hobs hu hm => hu (received_emitted hobs hm)
    · exact fun u fresh ip hw hu _ hm => hu hm
    · exact fun u n new ok hu _ _ _ hm => hu (received_send (received_close hm))

theorem step_accept {cfg : Config} {w w' : World} {sfd : Int} {fresh : Addr}
    (h : step cfg w (.accept sfd fresh) = some w') :
    w'.nextConn = if 0 ≤ sfd then w.nextConn + 1 else w.nextConn := by
  unfold step at h
  split at h
  · cases h
  · cases h
  · rename_i rset a hpc
    obtain ⟨c, -, hvisit⟩ := Option.bind_eq_some_iff.1 h
    simp only [stepVisit] at hvisit
    split at hvisit
    · cases hvisit
    split at hvisit <;> cases hvisit
  · cases h
  · rename_i rset hpc
    split at h
    · simp only [stepAccept] at h
      split at h
      · cases h
      split at h
      · cases h
      · cases h; rfl
    · cases h
  · split at h <;> cases h
  · cases h

@[simp] theorem performAll_nextConn (w : World) (effects : List Effect) :
    (w.performAll effects).nextConn = w.nextConn := by
  induction effects generalizing w with
  | nil => rfl
  | cons e effects ih => rw [World.performAll_cons, ih, World.perform_nextConn]

/-- Each successful `accept` numbers the next connection. -/
theorem step_nextConn {cfg : Config} {w w' : World} {e : Event} (h : step cfg w e = some w') :
    w'.nextConn = if e.accepts then w.nextConn + 1 else w.nextConn := by
  cases e with
  | accept sfd fresh => simpa [Event.accepts] using step_accept h
  | _ =>
    simp only [Event.accepts, Bool.false_eq_true, if_false]
    cases step_cases cfg h <;> simp

/-- What one observation puts on the connection `k`. -/
def replyTo (k : Conn) : Obs → List UInt8
  | .answered c hw ok => if c = k ∧ ok then hw.bytes else []
  | _ => []

theorem repliesTo_cons (k : Conn) (o : Obs) (log : List Obs) :
    repliesTo k (o :: log) = repliesTo k log ++ replyTo k o := by
  rw [repliesTo, List.reverse_cons, List.flatMap_append, List.flatMap_singleton]
  cases o <;> rfl

theorem replyTo_about {k : Conn} {o : Obs} (h : o.about k = false) : replyTo k o = [] := by
  cases o with
  | answered c hw ok =>
    have hne : c ≠ k := by simpa [Obs.about] using h
    exact if_neg fun hc => hne hc.1
  | _ => rfl

theorem repliesTo_append (k : Conn) (obs log : List Obs) :
    repliesTo k log <+: repliesTo k (obs ++ log) := by
  induction obs with
  | nil => exact List.prefix_rfl
  | cons o obs ih =>
    rw [List.cons_append, repliesTo_cons]
    exact ih.trans (List.prefix_append _ _)

/-- What a daemon has sent to a client is in the history of the client. -/
theorem repliesTo_history (k : Conn) (log : List Obs) :
    repliesTo k log = repliesTo k (history log k) := by
  induction log with
  | nil => rfl
  | cons o log ih =>
    rw [repliesTo_cons, history, List.filter_cons]
    split
    · rw [repliesTo_cons, ih]
      rfl
    · rename_i habout
      rw [replyTo_about (by simpa using habout), List.append_nil, ih]
      rfl

/-- A daemon sends a client nothing, or one whole `struct hwaddr`. -/
theorem repliesTo_cases {cfg : Config} {w : World} (h : (daemon cfg).Reachable AcceptSound w)
    (k : Conn) : repliesTo k w.log = [] ∨
      ∃ hw, .answered k hw true ∈ w.log ∧ repliesTo k w.log = hw.bytes := by
  have htalk := (reachable_conns h).talk k
  rw [repliesTo_history]
  generalize hl : history w.log k = l at htalk
  cases htalk with
  | nothing => exact Or.inl rfl
  | asked msg => exact Or.inl rfl
  | @answered msg n ok hmsg hn hstate hip =>
    cases ok with
    | false => exact Or.inl (by simp [repliesTo])
    | true =>
      refine Or.inr ⟨n.2.hw, ?_, by simp [repliesTo]⟩
      have hmem : .answered k n.2.hw true ∈ history w.log k := hl ▸ List.mem_cons_self
      exact List.mem_of_mem_filter hmem

/-! ## Two calls -/

theorem both_returned : ∃ sys, (apiSystem twoCalls).Reachable (ApiSound twoCalls) sys ∧
    ∀ c, (sys.calls c).pc = .returned true := by
  have hrun : ((apiSystem twoCalls).guardedRun (ApiSound twoCalls) (apiSystem twoCalls).init
      bothCalls).map (fun sys => [(sys.calls false).pc, (sys.calls true).pc]) =
        some [.returned true, .returned true] := by decide +kernel
  obtain ⟨sys, hsys, hpcs⟩ := Option.map_eq_some_iff.1 hrun
  simp only [List.cons.injEq, and_true] at hpcs
  exact ⟨sys, .of_guardedRun bothCalls hsys, fun c => by cases c; exacts [hpcs.1, hpcs.2]⟩

theorem twoHosts_int : ∀ s, ∀ d ∈ (twoHosts s).devices, IsInt d.ifIndex := by
  intro s d hd
  cases s <;> cases List.mem_singleton.1 hd <;> exact ⟨by decide, by decide⟩

/-! ## The invariant -/

section Inv

variable {H C : Type} {cfg : ApiConfig H C}

/-- `areq` was answered with the record `hw`. -/
structure AnsweredCall (cfg : ApiConfig H C) (sys : ApiSystem H C) (c : C) (k : Conn) (hw : Hwaddr) :
    Prop where
  peer : (sys.peers (cfg.home c))[k]? = some (some c)
  answered : .answered k hw true ∈ (sys.daemons (cfg.home c)).log
  filled : (sys.calls c).hwa.bytes = hw.bytes

/-- Each daemon runs as it should in the network, its connections are numbered as they were accepted,
a message on the connection of a call is part of the question of the call, and a call that returned
1 holds an answer that was sent on its connection. -/
structure ApiInv (cfg : ApiConfig H C) (sys : ApiSystem H C) : Prop where
  run : ∀ h, (daemon (cfg.hosts h)).Reachable AcceptSound (sys.daemons h)
  net : NetInv cfg.hosts sys.daemons
  numbered : ∀ h, (sys.daemons h).nextConn = (sys.peers h).length
  call : ∀ c, CallInv (cfg.args c) (cfg.hwa c) (sys.calls c)
  sent : ∀ c, sys.sent c <+: (cfg.args c).bytes
  heard : ∀ h k msg c, .received k msg ∈ (sys.daemons h).log →
    (sys.peers h)[k]? = some (some c) → msg <+: (cfg.args c).bytes
  returned : ∀ c, (sys.calls c).pc = .returned true → ∃ k hw, AnsweredCall cfg sys c k hw

/-- The record of a call that returned 1 is that of a complete entry of its daemon. -/
theorem returned_record {sys : ApiSystem H C} (hinv : ApiInv cfg sys) {c : C}
    (hpc : (sys.calls c).pc = .returned true) :
    (cfg.args c).ipa.saFamily = afInet ∧ ∃ n ∈ (sys.daemons (cfg.home c)).cache,
      n.2.state = .complete ∧ n.2.ipaddress = (cfg.args c).ipa ∧
        (sys.calls c).hwa.bytes = n.2.hw.bytes := by
  obtain ⟨k, hw, hpeer, hanswered, hfilled⟩ := hinv.returned c hpc
  obtain ⟨msg, n, hvalid, hhist, hn, hstate, hip, rfl⟩ :=
    answered_record (hinv.run (cfg.home c)) hanswered
  have hmem : .received k msg ∈ history (sys.daemons (cfg.home c)).log k := by
    rw [hhist]
    exact List.mem_cons_of_mem _ List.mem_cons_self
  -- the daemon only answers whole questions
  have hmsg : msg = (cfg.args c).bytes :=
    (hinv.heard _ k msg c (List.mem_of_mem_filter hmem) hpeer).eq_of_length
      (hvalid.1.trans (AreqArgs.bytes_length _).symm)
  have hipa : Sockaddr.ofBytes msg = (cfg.args c).ipa := by
    rw [hmsg, AreqArgs.ofBytes_bytes]
  exact ⟨hipa ▸ hvalid.2, n, hn, hstate, hip.trans hipa, hfilled⟩

/-- What `hw` should say of the address `ip` to the host `i`: the hardware address of its owner, and
the interface of `i` through which the owner is reached. -/
structure Resolves (cfg : ApiConfig H C) (i : H) (ip : InAddr) (hw : Hwaddr) : Prop where
  owned : ∃ s, ∃ d ∈ (cfg.hosts s).devices, d.ipAddr.sinAddr = ip
  owner : ∀ s, ∀ d ∈ (cfg.hosts s).devices, d.ipAddr.sinAddr = ip →
    hw.sllAddr.bytes.take ethAlen = d.ifHaddr.bytes
  halen : hw.sllHalen = 6
  interface : ∃ d ∈ (cfg.hosts i).devices, d.ifIndex = hw.sllIfindex ∧
    hw.sllIfaddr.bytes.take ethAlen = d.ifHaddr.bytes

theorem ApiInv.resolves
    (hdistinct : ∀ s t d d', d ∈ (cfg.hosts s).devices → d' ∈ (cfg.hosts t).devices →
      d.ipAddr.sinAddr = d'.ipAddr.sinAddr → d = d')
    (hint : ∀ s, ∀ d ∈ (cfg.hosts s).devices, IsInt d.ifIndex)
    {sys : ApiSystem H C} (hinv : ApiInv cfg sys) {c : C}
    (hpc : (sys.calls c).pc = .returned true) :
    Resolves cfg (cfg.home c) (cfg.args c).ipa.sinAddr (.ofBytes (sys.calls c).hwa.bytes) := by
  obtain ⟨-, n, hn, hstate, hip, hfilled⟩ := returned_record hinv hpc
  obtain ⟨⟨s, d, hd, howner, hmac⟩, hhalen, e, he, hindex, hifaddr⟩ :=
    hinv.net.correct (cfg.home c) n hn hstate
  rw [hip] at howner
  have hread : Hwaddr.ofBytes (sys.calls c).hwa.bytes = n.2.hw := by
    rw [hfilled, Hwaddr.ofBytes_bytes (hindex ▸ hint _ e he)]
  rw [hread]
  refine ⟨⟨s, d, hd, howner⟩, fun t d' hd' howner' => ?_, hhalen, e, he, hindex, hifaddr⟩
  rw [hmac, hdistinct s t d d' hd hd' (howner.trans howner'.symm)]

/-- A record that a daemon sent is one that `areq` can read. -/
theorem ApiInv.answer_fits (hint : ∀ s, ∀ d ∈ (cfg.hosts s).devices, IsInt d.ifIndex)
    {sys : ApiSystem H C} (hinv : ApiInv cfg sys) {h : H} {k : Conn} {hw : Hwaddr}
    (hanswer : .answered k hw true ∈ (sys.daemons h).log) :
    IsInt hw.sllIfindex ∧ hw.sllHalen ≤ 8 := by
  obtain ⟨msg, n, -, -, hn, hstate, -, rfl⟩ := answered_record (hinv.run h) hanswer
  have hcorrect := hinv.net.correct h n hn hstate
  obtain ⟨e, he, hindex, -⟩ := hcorrect.interface
  exact ⟨hindex ▸ hint h e he, by rw [hcorrect.halen]; decide⟩

section Daemon

variable [DecidableEq H]

/-- A step of a daemon leaves the calls alone, and adds to `peers` the connection it accepted. -/
theorem stepDaemon_cases {sys sys' : ApiSystem H C} {h : H} {e : Event}
    (hstep : stepDaemon cfg sys h e = some sys') :
    (network cfg.hosts).step sys.daemons (h, e) = some sys'.daemons ∧ sys'.calls = sys.calls ∧
      sys'.sent = sys.sent ∧ ∃ peer, ∀ g, sys'.peers g =
        sys.peers g ++ if g = h ∧ e.accepts then [peer] else [] := by
  obtain ⟨daemons, hdaemons, hrest⟩ := Option.bind_eq_some_iff.1 hstep
  dsimp only at hrest
  split at hrest
  · rename_i haccepts
    split at hrest
    · cases hrest
    · rename_i peer rest hbacklog
      cases hrest
      refine ⟨hdaemons, rfl, rfl, peer, fun g => ?_⟩
      by_cases hg : g = h
      · subst hg
        simp only [if_true, haccepts, and_self]
      · simp only [hg, false_and, if_false, List.append_nil]
  · rename_i haccepts
    cases hrest
    refine ⟨hdaemons, rfl, rfl, none, fun g => ?_⟩
    rw [if_neg fun hg => haccepts hg.2, List.append_nil]

theorem stepDaemon_log {sys sys' : ApiSystem H C} {h : H} {e : Event}
    (hstep : stepDaemon cfg sys h e = some sys') (g : H) :
    ∃ obs, (sys'.daemons g).log = obs ++ (sys.daemons g).log := by
  obtain ⟨w, hw, hdaemons⟩ := Option.map_eq_some_iff.1 (stepDaemon_cases hstep).1
  rw [← hdaemons]
  dsimp only
  split
  · rename_i hg
    subst hg
    obtain ⟨obs, hobs, -⟩ := step_log hw
    exact ⟨obs, hobs⟩
  · exact ⟨[], rfl⟩

/-- What was sent to a call stays sent. -/
theorem stepDaemon_inbox [DecidableEq C] {sys sys' : ApiSystem H C} {h : H} {e : Event}
    (hstep : stepDaemon cfg sys h e = some sys') (c : C) : sys.inbox cfg c <+: sys'.inbox cfg c := by
  obtain ⟨-, -, -, peer, hpeers⟩ := stepDaemon_cases hstep
  obtain ⟨obs, hlog⟩ := stepDaemon_log hstep (cfg.home c)
  simp only [ApiSystem.inbox, hpeers, hlog, List.idxOf?, List.findIdx?_append]
  cases (sys.peers (cfg.home c)).findIdx? (· == some c) with
  | none => exact List.nil_prefix
  | some k => exact repliesTo_append k obs _

end Daemon

variable [DecidableEq C]

/-- What a call can read is nothing, or a whole answer on its connection. -/
theorem inbox_cases {sys : ApiSystem H C} (hinv : ApiInv cfg sys) (c : C) :
    sys.inbox cfg c = [] ∨ ∃ k hw, (sys.peers (cfg.home c))[k]? = some (some c) ∧
      .answered k hw true ∈ (sys.daemons (cfg.home c)).log ∧ sys.inbox cfg c = hw.bytes := by
  unfold ApiSystem.inbox
  split
  · rename_i k hk
    have hpeer : (sys.peers (cfg.home c))[k]? = some (some c) := by
      obtain ⟨hlt, hget, -⟩ := List.idxOf?_eq_some_iff.1 hk
      rw [List.getElem?_eq_getElem hlt, hget]
    rcases repliesTo_cases (hinv.run (cfg.home c)) k with hnil | ⟨hw, hmem, heq⟩
    · exact Or.inl hnil
    · exact Or.inr ⟨k, hw, hpeer, hmem, heq⟩
  · exact Or.inl rfl

variable [DecidableEq H]

theorem apiInv_init : ApiInv cfg (apiSystem cfg).init where
  run _ := .refl _
  net := ⟨fun _ _ hf => (by cases hf), fun _ _ hn => (by cases hn)⟩
  numbered _ := rfl
  call _ := callInv_start _ _
  sent _ := List.nil_prefix
  heard _ _ _ _ hm := by cases hm
  returned _ hpc := by cases hpc

/-! ## The daemons' steps -/

theorem received_lt {daemonCfg : Config} {w : World}
    (h : (daemon daemonCfg).Reachable AcceptSound w) {k : Conn} {msg : List UInt8}
    (hmem : .received k msg ∈ w.log) : k < w.nextConn := by
  by_contra hle
  have hnil := (reachable_conns h).unborn k (Nat.le_of_not_lt hle)
  have hhist := received_history hmem
  rw [hnil] at hhist
  cases hhist

theorem apiInv_daemon {sys sys' : ApiSystem H C} {h : H} {e : Event} (hinv : ApiInv cfg sys)
    (hsound : ApiSound cfg sys (.daemon h e)) (hstep : stepDaemon cfg sys h e = some sys') :
    ApiInv cfg sys' := by
  obtain ⟨hstream, haccept, hdeliver⟩ := hsound
  obtain ⟨hnet, hcalls, hsent, peer, hpeers⟩ := stepDaemon_cases hstep
  obtain ⟨w, hw, hdaemons⟩ := Option.map_eq_some_iff.1 hnet
  have hself : sys'.daemons h = w := by rw [← hdaemons]; exact if_pos rfl
  have hother : ∀ g, g ≠ h → sys'.daemons g = sys.daemons g := by
    intro g hg
    rw [← hdaemons]
    exact if_neg hg
  have hlog : ∀ g o, o ∈ (sys.daemons g).log → o ∈ (sys'.daemons g).log := by
    intro g o ho
    obtain ⟨obs, hobs⟩ := stepDaemon_log hstep g
    rw [hobs]
    exact List.mem_append_right _ ho
  have hpeer : ∀ g (k : Conn) p, (sys.peers g)[k]? = some p → (sys'.peers g)[k]? = some p := by
    intro g k p hk
    rw [hpeers, List.getElem?_append_left (List.getElem?_eq_some_iff.1 hk).1, hk]
  refine ⟨fun g => ?_, netInv_step hinv.net hdeliver hnet, fun g => ?_, ?_, ?_, ?_, ?_⟩
  · by_cases hg : g = h
    · subst hg
      rw [hself]
      exact (hinv.run g).step haccept hw
    · rw [hother g hg]
      exact hinv.run g
  · rw [hpeers, List.length_append, ← hinv.numbered g]
    by_cases hg : g = h
    · subst hg
      rw [hself, step_nextConn hw]
      by_cases haccepts : e.accepts
      · simp [haccepts]
      · simp [haccepts]
    · simp [hother g hg, hg]
  · rw [hcalls]
    exact hinv.call
  · rw [hsent]
    exact hinv.sent
  · intro g k msg c hmem hk
    have hold : .received k msg ∈ (sys.daemons g).log → msg <+: (cfg.args c).bytes := by
      intro hmem
      have hlt := received_lt (hinv.run g) hmem
      rw [hinv.numbered] at hlt
      rw [hpeers, List.getElem?_append_left hlt] at hk
      exact hinv.heard g k msg c hmem hk
    by_cases hg : g = h
    · subst hg
      rw [hself] at hmem
      rcases (step_cases (cfg.hosts g) hw).received (reachable_consistent (hinv.run g)).cache.nodup
        hmem with hmem | ⟨env, rfl, hrecv, hreading⟩
      · exact hold hmem
      · -- the message was read from the stream of the call
        have hnoacc : ¬(g = g ∧ (Event.areq env).accepts = true) := fun hacc => (by cases hacc.2)
        rw [hpeers, if_neg hnoacc, List.append_nil] at hk
        have hread : c ∈ sys.reading g := by
          simp only [ApiSystem.reading, hreading, Option.bind_some, hk]
          rfl
        exact (hstream c hread msg hrecv).trans (hinv.sent c)
    · rw [hother g hg] at hmem
      exact hold hmem
  · intro c hpc
    rw [hcalls] at hpc
    obtain ⟨k, hw, hcall⟩ := hinv.returned c hpc
    exact ⟨k, hw, hpeer _ _ _ hcall.peer, hlog _ _ hcall.answered, hcalls ▸ hcall.filled⟩

/-! ## The calls' steps -/

/-- A step of a call leaves the daemons and the accepted connections alone. -/
theorem stepCall_cases {sys sys' : ApiSystem H C} {c : C} {answer : AreqAnswer}
    (hstep : stepCall cfg sys c answer = some sys') :
    ∃ call, stepAreq (sys.calls c) answer = some call ∧ sys'.daemons = sys.daemons ∧
      sys'.peers = sys.peers ∧ (∀ d, sys'.calls d = if d = c then call else sys.calls d) ∧
      ∀ d, sys'.sent d = sys.sent d ∨ d = c ∧ sys'.sent d <+: call.args.bytes := by
  obtain ⟨call, hcall, hrest⟩ := Option.bind_eq_some_iff.1 hstep
  refine ⟨call, hcall, ?_⟩
  dsimp only at hrest
  split at hrest
  · cases hrest
    exact ⟨rfl, rfl, fun d => rfl, fun d => Or.inl rfl⟩
  · rename_i n
    cases hrest
    refine ⟨rfl, rfl, fun d => rfl, fun d => ?_⟩
    by_cases hd : d = c
    · refine Or.inr ⟨hd, ?_⟩
      dsimp only
      rw [if_pos hd]
      exact List.take_prefix n _
    · exact Or.inl (if_neg hd)
  · cases hrest
    exact ⟨rfl, rfl, fun d => rfl, fun d => Or.inl rfl⟩

theorem apiInv_call {sys sys' : ApiSystem H C} {c : C} {answer : AreqAnswer}
    (hinv : ApiInv cfg sys) (hsound : StreamSound cfg sys (.call c answer))
    (hstep : stepCall cfg sys c answer = some sys') : ApiInv cfg sys' := by
  obtain ⟨call, hcall, hdaemons, hpeers, hcalls, hsent⟩ := stepCall_cases hstep
  have hcase := stepAreq_cases hcall
  have hcallInv := (hinv.call c).step hcase
  refine ⟨?_, ?_, ?_, fun d => ?_, fun d => ?_, ?_, fun d hpc => ?_⟩
  · rw [hdaemons]
    exact hinv.run
  · rw [hdaemons]
    exact hinv.net
  · rw [hdaemons, hpeers]
    exact hinv.numbered
  · rw [hcalls]
    split
    · rename_i hd
      rwa [hd]
    · exact hinv.call d
  · rcases hsent d with heq | ⟨rfl, hstart⟩
    · rw [heq]
      exact hinv.sent d
    · rwa [hcallInv.args] at hstart
  · rw [hdaemons, hpeers]
    exact hinv.heard
  · rw [hcalls] at hpc
    split at hpc
    · rename_i hd
      subst hd
      obtain ⟨rfl, -⟩ := hcase.returns hpc
      have hstart : call.hwa.bytes <+: sys.inbox cfg d := hsound _ rfl
      rcases inbox_cases hinv d with hnil | ⟨k, hw, hk, hmem, heq⟩
      · -- 28 bytes are no prefix of nothing
        rw [hnil, List.prefix_nil] at hstart
        have hlen := call.hwa.length_eq
        rw [hstart] at hlen
        cases hlen
      · rw [heq] at hstart
        have hfilled := hstart.eq_of_length (by rw [call.hwa.length_eq, hw.bytes_length])
        refine ⟨k, hw, hpeers ▸ hk, hdaemons ▸ hmem, ?_⟩
        rw [hcalls, if_pos rfl, hfilled]
    · rename_i hd
      obtain ⟨k, hw, hcall⟩ := hinv.returned d hpc
      refine ⟨k, hw, hpeers ▸ hcall.peer, hdaemons ▸ hcall.answered, ?_⟩
      rw [hcalls, if_neg hd, hcall.filled]

theorem apiInv_step {sys sys' : ApiSystem H C} {e : ApiEvent H C} (hinv : ApiInv cfg sys)
    (hsound : ApiSound cfg sys e) (hstep : (apiSystem cfg).step sys e = some sys') :
    ApiInv cfg sys' := by
  cases e with
  | daemon h e => exact apiInv_daemon hinv hsound hstep
  | call c answer => exact apiInv_call hinv hsound.1 hstep
  | stranger h =>
    cases hstep
    obtain ⟨hrun, hnet, hnumbered, hcall, hsent, hheard, hreturned⟩ := hinv
    refine ⟨hrun, hnet, hnumbered, hcall, hsent, hheard, fun c hpc => ?_⟩
    obtain ⟨k, hw, hpeer, hanswered, hfilled⟩ := hreturned c hpc
    exact ⟨k, hw, hpeer, hanswered, hfilled⟩

theorem reachable_apiInv {sys : ApiSystem H C}
    (h : (apiSystem cfg).Reachable (ApiSound cfg) sys) : ApiInv cfg sys :=
  h.invariant (I := ApiInv cfg) apiInv_init fun _ _ _ hinv hg hs => apiInv_step hinv hg hs

/-! ## What a call that returned 0 has written -/

/-- If the call has returned 0, it has written less than the whole object, and only what was sent to
it. -/
def PartlyRead (cfg : ApiConfig H C) (sys : ApiSystem H C) (c : C) : Prop :=
  (sys.calls c).pc = .returned false → ∃ got : List UInt8, got <+: sys.inbox cfg c ∧
    got.length < sizeofHwaddr ∧ (sys.calls c).hwa.bytes = got ++ (cfg.hwa c).bytes.drop got.length

theorem partlyRead_call {sys sys' : ApiSystem H C} {c d : C} {answer : AreqAnswer}
    (hinv : ApiInv cfg sys) (hread : PartlyRead cfg sys d)
    (hsound : StreamSound cfg sys (.call c answer))
    (hstep : stepCall cfg sys c answer = some sys') : PartlyRead cfg sys' d := by
  obtain ⟨call, hcall, hdaemons, hpeers, hcalls, -⟩ := stepCall_cases hstep
  have hinbox : sys'.inbox cfg d = sys.inbox cfg d := by
    unfold ApiSystem.inbox
    rw [hdaemons, hpeers]
  unfold PartlyRead
  rw [hcalls, hinbox]
  split
  · rename_i hd
    subst hd
    intro hpc
    obtain ⟨hfrom, got, hgot, hlen, hbytes⟩ := (stepAreq_cases hcall).fails hpc
    rw [(hinv.call d).kept hfrom] at hbytes
    refine ⟨got, ?_, hlen, hbytes⟩
    rcases hgot with rfl | rfl
    · exact List.nil_prefix
    · exact hsound got rfl
  · exact hread

theorem reachable_partlyRead {sys : ApiSystem H C}
    (h : (apiSystem cfg).Reachable (ApiSound cfg) sys) (c : C) : PartlyRead cfg sys c := by
  refine h.invariant_under (J := ApiInv cfg) (I := fun sys => PartlyRead cfg sys c)
    (fun _ hs => reachable_apiInv hs) (fun hpc => by cases hpc) ?_
  intro sys e sys' hinv hread hsound hstep
  cases e with
  | daemon h e =>
    intro hpc
    rw [(stepDaemon_cases hstep).2.1] at hpc ⊢
    obtain ⟨got, hgot, hrest⟩ := hread hpc
    exact ⟨got, hgot.trans (stepDaemon_inbox hstep c), hrest⟩
  | call d answer => exact partlyRead_call hinv hread hsound.1 hstep
  | stranger h =>
    cases hstep
    exact hread

/-! ## What a call that returned 1 was told -/

/-- **What `areq` returns is true of the network.** In every run of the hosts, of any number of calls
of `areq` and of other programs that send the daemons anything, a call that returned 1 asked for an
IPv4 address of the network, and the caller's object names the hardware address of its owner and an
interface of the caller's host. -/
theorem areq_correct
    (hdistinct : ∀ s t d d', d ∈ (cfg.hosts s).devices → d' ∈ (cfg.hosts t).devices →
      d.ipAddr.sinAddr = d'.ipAddr.sinAddr → d = d')
    (hint : ∀ s, ∀ d ∈ (cfg.hosts s).devices, IsInt d.ifIndex)
    {sys : ApiSystem H C} (h : (apiSystem cfg).Reachable (ApiSound cfg) sys) (c : C)
    (hpc : (sys.calls c).pc = .returned true) :
    (cfg.args c).ipa.saFamily = afInet ∧
      Resolves cfg (cfg.home c) (cfg.args c).ipa.sinAddr (.ofBytes (sys.calls c).hwa.bytes) :=
  have hinv := reachable_apiInv h
  ⟨(returned_record hinv hpc).1, hinv.resolves hdistinct hint hpc⟩

theorem areq_correct_both : ∃ sys, (apiSystem twoCalls).Reachable (ApiSound twoCalls) sys ∧
    Resolves twoCalls false (hostIp 2) (.ofBytes (sys.calls true).hwa.bytes) := by
  obtain ⟨sys, hreach, hpc⟩ := both_returned
  exact ⟨sys, hreach, (areq_correct twoHosts_distinct twoHosts_int hreach true (hpc true)).2⟩

/-- **All calls of `areq` on one host agree.** Whenever two of them asked for the same address and
returned 1, at whatever times, their objects hold the same 28 bytes. -/
theorem areq_agree {sys : ApiSystem H C} (h : (apiSystem cfg).Reachable (ApiSound cfg) sys)
    {c d : C} (hhome : cfg.home c = cfg.home d) (hipa : (cfg.args c).ipa = (cfg.args d).ipa)
    (hc : (sys.calls c).pc = .returned true) (hd : (sys.calls d).pc = .returned true) :
    (sys.calls c).hwa = (sys.calls d).hwa := by
  have hinv := reachable_apiInv h
  obtain ⟨hfam, n, hn, hns, hnip, hnfilled⟩ := returned_record hinv hc
  obtain ⟨-, m, hm, hms, hmip, hmfilled⟩ := returned_record hinv hd
  rw [← hhome] at hm
  have hcache := (reachable_consistent (hinv.run (cfg.home c))).cache
  have hsame : n.2.ipaddress = m.2.ipaddress := by rw [hnip, hmip, hipa]
  have hagree := (hcache.agree n hn m hm hsame (hnip ▸ hfam)).2
  apply Buf.ext
  rw [hnfilled, hmfilled, hagree]

theorem areq_agree_both : ∃ sys, (apiSystem twoCalls).Reachable (ApiSound twoCalls) sys ∧
    (sys.calls false).hwa = (sys.calls true).hwa := by
  obtain ⟨sys, hreach, hpc⟩ := both_returned
  exact ⟨sys, hreach, areq_agree hreach rfl rfl (hpc false) (hpc true)⟩

/-- **`areq` keeps to its own.** In every run a call that returned has closed its socket; a call that
returned 0 has overwritten at most a proper prefix of the caller's object, with the first bytes that
its daemon sent to it; and whatever a call receives, it leaves no object: `recv` and `print_hwa` stay inside. -/
theorem areq_inside (hint : ∀ s, ∀ d ∈ (cfg.hosts s).devices, IsInt d.ifIndex)
    {sys : ApiSystem H C} (h : (apiSystem cfg).Reachable (ApiSound cfg) sys) (c : C) :
    (∀ rv, (sys.calls c).pc = .returned rv → (sys.calls c).sock = false) ∧
    ((sys.calls c).pc = .returned false → ∃ got : List UInt8, got <+: sys.inbox cfg c ∧
      got.length < sizeofHwaddr ∧
      (sys.calls c).hwa.bytes = got ++ (cfg.hwa c).bytes.drop got.length) ∧
    ((sys.calls c).pc = .recv → ∀ bytes, StreamSound cfg sys (.call c (.recv bytes)) →
      ((apiSystem cfg).step sys (.call c (.recv bytes))).isSome) := by
  have hinv := reachable_apiInv h
  refine ⟨fun rv hpc => ?_, reachable_partlyRead h c, fun hpc bytes hstream => ?_⟩
  · rw [(hinv.call c).sock, hpc]
    rfl
  suffices hcall : (stepAreq (sys.calls c) (.recv bytes)).isSome by
    obtain ⟨call, hcall⟩ := Option.isSome_iff_exists.1 hcall
    simp only [apiSystem, stepApi, stepCall, hcall, bind, Option.bind_some, Option.isSome_some]
  cases bytes with
  | none => simp only [stepAreq, hpc, Option.isSome_some]
  | some got =>
    have hgot : got <+: sys.inbox cfg c := hstream got rfl
    simp only [stepAreq, hpc]
    rcases inbox_cases hinv c with hnil | ⟨k, hw, hpeer, hmem, heq⟩
    · -- the daemon closed the connection without an answer
      rw [hnil, List.prefix_nil] at hgot
      subst hgot
      exact received_short (Nat.zero_lt_succ _)
    · rw [heq] at hgot
      by_cases hlen : got.length < sizeofHwaddr
      · exact received_short hlen
      · have hall : got = hw.bytes := hgot.eq_of_length_le (by rw [hw.bytes_length]; omega)
        obtain ⟨hindex, hhalen⟩ := hinv.answer_fits hint hmem
        rw [hall]
        exact received_whole hindex hhalen

theorem areq_inside_both : ∃ sys, (apiSystem twoCalls).Reachable (ApiSound twoCalls) sys ∧
    ∀ c, (sys.calls c).sock = false := by
  obtain ⟨sys, hreach, hpc⟩ := both_returned
  exact ⟨sys, hreach, fun c => (areq_inside twoHosts_int hreach c).1 true (hpc c)⟩

end Inv

end Tour
