import Tour.Arp.Answers
import Tour.Arp.Ether

/-!
# Does the answer depend on the port of the question?

A client's address is stored as sixteen raw bytes and compared bytewise with the keys that the
daemon builds itself, whose port is zero. Two questions can therefore have different fates although
they name one IPv4 address. `agree_iff` says for which questions and states they have not: when
the sixteen bytes are the same, when both ports are nonzero (neither client is ever answered), or
when both keys already have a complete entry with one `hw`. In every other case there is a
continuation that tells the two runs apart: the client's own visit when one key is cached, and
otherwise a reply with as many protocol bytes as the key has (`wideReply`).
-/

namespace Tour

open Lib Machine

/-! ## The log is only written -/

namespace World

def setLog (w : World) (log : List Obs) : World := { w with log := log }

@[simp] theorem setLog_self (w : World) : w.setLog w.log = w := rfl

theorem perform_setLog (w : World) (e : Effect) :
    ∃ obs, ∀ log, (w.setLog log).perform e = (w.perform e).setLog (obs ++ log) := by
  cases e with
  | received fd msg =>
    cases hk : w.fds fd with
    | none => exact ⟨[], fun log => by simp only [perform, setLog, hk]; rfl⟩
    | some k => exact ⟨[.received k msg], fun log => by simp only [perform, setLog, hk]; rfl⟩
  | send fd hw ok =>
    cases hk : w.fds fd with
    | none => exact ⟨[], fun log => by simp only [perform, setLog, hk]; rfl⟩
    | some k => exact ⟨[.answered k hw ok], fun log => by simp only [perform, setLog, hk]; rfl⟩
  | close fd =>
    cases hk : w.fds fd with
    | none => exact ⟨[], fun log => by simp only [perform, setLog, hk]; rfl⟩
    | some k => exact ⟨[.closed k], fun log => by simp only [perform, setLog, hk]; rfl⟩
  | frame i bytes => exact ⟨[.emitted bytes], fun log => rfl⟩

theorem performAll_setLog (w : World) (effects : List Effect) :
    ∃ obs, ∀ log, (w.setLog log).performAll effects = (w.performAll effects).setLog (obs ++ log) := by
  induction effects generalizing w with
  | nil => exact ⟨[], fun log => rfl⟩
  | cons e effects ih =>
    obtain ⟨obs₁, h₁⟩ := perform_setLog w e
    obtain ⟨obs₂, h₂⟩ := ih (w.perform e)
    refine ⟨obs₂ ++ obs₁, fun log => ?_⟩
    rw [performAll_cons, performAll_cons, h₁, h₂, List.append_assoc]

end World

variable {cfg : Config}

section Log

variable (cfg) (w : World)

theorem stepVisit_setLog (rset : Int → Bool) (a : Addr) (c : Cache) (e : Event) :
    ∃ obs, ∀ log, stepVisit cfg (w.setLog log) rset a c e =
      (stepVisit cfg w rset a c e).map fun w' => w'.setLog (obs ++ log) := by
  unfold stepVisit
  dsimp only
  split
  · cases e <;> exact ⟨[], fun _ => rfl⟩
  split
  · cases e with
    | areq env =>
      have hcall : ∀ log, callAreq cfg (w.setLog log) a c env = callAreq cfg w a c env :=
        fun _ => rfl
      simp only [hcall, bind]
      cases callAreq cfg w a c env with
      | none => exact ⟨[], fun _ => rfl⟩
      | some r =>
        obtain ⟨obs, hobs⟩ := World.performAll_setLog { w with cache := r.cache } r.effects
        refine ⟨obs, fun log => ?_⟩
        have hlog := hobs log
        simp only [World.setLog] at hlog ⊢
        simp only [Option.bind, Option.map_some, hlog]
    | _ => exact ⟨[], fun _ => rfl⟩
  · cases e <;> exact ⟨[], fun _ => rfl⟩

theorem stepRemove_setLog (rset : Int → Bool) (rm : Addr) (next : Option Addr) :
    ∃ obs, ∀ log, stepRemove (w.setLog log) rset rm next =
      (stepRemove w rset rm next).map fun w' => w'.setLog (obs ++ log) := by
  unfold stepRemove
  simp only [World.perform_cache, bind]
  cases hc : entryAt w.cache rm with
  | none => exact ⟨[], fun log => by simp only [World.setLog, hc]; rfl⟩
  | some c =>
    obtain ⟨obs, hobs⟩ := World.perform_setLog w (.close c.domainSocket)
    refine ⟨obs, fun log => ?_⟩
    have hc' : entryAt (w.setLog log).cache rm = some c := hc
    rw [hc', Option.bind_some, Option.bind_some, hobs]
    simp only [World.setLog]
    split
    · rename_i hinside
      exact if_pos hinside
    · rename_i houtside
      exact if_neg houtside

theorem stepAccept_setLog (rset : Int → Bool) (sfd : Int) (fresh : Addr) (log : List Obs) :
    stepAccept (w.setLog log) rset sfd fresh =
      (stepAccept w rset sfd fresh).map fun w' => w'.setLog log := by
  obtain ⟨cache, pc, fds, nextConn, log₀⟩ := w
  dsimp only [stepAccept, World.setLog]
  cases getCacheBySocket cache sfd with
  | some n => rfl
  | none => by_cases hfresh : fresh ∈ addrs cache <;> simp [hfresh]

theorem stepPacket_setLog (frame : List UInt8) (env : PacketEnv) :
    ∃ obs, ∀ log, stepPacket cfg (w.setLog log) frame env =
      (stepPacket cfg w frame env).map fun w' => w'.setLog (obs ++ log) := by
  unfold stepPacket
  simp only [World.setLog, bind]
  cases handleFrame cfg w.cache frame env with
  | none => exact ⟨[], fun _ => rfl⟩
  | some r =>
    obtain ⟨obs, hobs⟩ := World.performAll_setLog { w with cache := r.1 } r.2
    refine ⟨obs, fun log => ?_⟩
    have hlog := hobs log
    simp only [World.setLog] at hlog
    simp only [Option.bind, Option.map_some, hlog]

/-- A step adds to the log, and what it does besides does not depend on the log. -/
theorem step_setLog (e : Event) : ∃ obs, ∀ log, step cfg (w.setLog log) e =
    (step cfg w e).map fun w' => w'.setLog (obs ++ log) := by
  unfold step
  have hpc : ∀ log, (w.setLog log).pc = w.pc := fun _ => rfl
  simp only [hpc]
  cases w.pc with
  | select =>
    cases e with
    | select rset => cases rset <;> exact ⟨[], fun _ => rfl⟩
    | _ => exact ⟨[], fun _ => rfl⟩
  | sweep rset current =>
    cases current with
    | none => cases e <;> exact ⟨[], fun _ => rfl⟩
    | some a =>
      have hcache : ∀ log, (w.setLog log).cache = w.cache := fun _ => rfl
      simp only [hcache, bind]
      cases entryAt w.cache a with
      | none => exact ⟨[], fun _ => rfl⟩
      | some c => exact stepVisit_setLog cfg w rset a c e
  | remove rset rm next =>
    cases e with
    | tick => exact stepRemove_setLog w rset rm next
    | _ => exact ⟨[], fun _ => rfl⟩
  | accept rset =>
    dsimp only
    split
    · cases e with
      | accept sfd fresh => exact ⟨[], stepAccept_setLog w rset sfd fresh⟩
      | _ => exact ⟨[], fun _ => rfl⟩
    · cases e <;> exact ⟨[], fun _ => rfl⟩
  | packet rset =>
    dsimp only
    split
    · cases e with
      | packet frame env =>
        cases frame with
        | none => exact ⟨[], fun _ => rfl⟩
        | some frame => exact stepPacket_setLog cfg w frame env
      | _ => exact ⟨[], fun _ => rfl⟩
    · cases e <;> exact ⟨[], fun _ => rfl⟩
  | halted => exact ⟨[], fun _ => rfl⟩

end Log

theorem step_log {w w' : World} {e : Event} (h : step cfg w e = some w') :
    ∃ obs, w'.log = obs ++ w.log ∧
      ∀ log, step cfg (w.setLog log) e = some (w'.setLog (obs ++ log)) := by
  obtain ⟨obs, hobs⟩ := step_setLog cfg w e
  have hself := hobs w.log
  rw [World.setLog_self, h, Option.map_some, Option.some.injEq] at hself
  refine ⟨obs, ?_, fun log => by rw [hobs, h]; rfl⟩
  conv_lhs => rw [hself]
  rfl

/-! ## Two runs -/

/-- `accept` fails, or yields a descriptor that is not open: neither a client's nor one of the two
sockets of the daemon. -/
def AcceptKernel (cfg : Config) (w : World) : Event → Prop
  | .accept sfd _ =>
    sfd = -1 ∨ (0 < sfd ∧ w.fds sfd = none ∧ sfd ≠ cfg.unixDomain ∧ sfd ≠ cfg.pfSocket)
  | _ => True

instance (w : World) : (e : Event) → Decidable (AcceptKernel cfg w e)
  | .accept _ _ => instDecidableOr
  | .select _ | .tick | .areq _ | .packet _ _ => .isTrue trivial

theorem AcceptKernel.sound {w : World} {e : Event} (h : AcceptKernel cfg w e) : AcceptSound w e := by
  cases e with
  | accept => exact h.imp_right fun ⟨hpos, hfree, _⟩ => ⟨hpos, hfree⟩
  | _ => trivial

theorem reachable_sound {w : World} (h : (daemon cfg).Reachable (AcceptKernel cfg) w) :
    (daemon cfg).Reachable AcceptSound w := h.mono fun _ _ hg => hg.sound

theorem guardedRun_log {w w' : World} {es : List Event}
    (h : (daemon cfg).guardedRun (AcceptKernel cfg) w es = some w') :
    ∃ obs, w'.log = obs ++ w.log ∧ ∀ log,
      (daemon cfg).guardedRun (AcceptKernel cfg) (w.setLog log) es =
        some (w'.setLog (obs ++ log)) := by
  induction es generalizing w with
  | nil => cases h; exact ⟨[], rfl, fun _ => rfl⟩
  | cons e es ih =>
    obtain ⟨hg, u, hu, hrun⟩ := guardedRun_cons.1 h
    obtain ⟨obs₁, hlog₁, hset₁⟩ := step_log (hu : step cfg w e = some u)
    obtain ⟨obs₂, hlog₂, hset₂⟩ := ih hrun
    refine ⟨obs₂ ++ obs₁, by rw [hlog₂, hlog₁, List.append_assoc], fun log => ?_⟩
    have hg' : AcceptKernel cfg (w.setLog log) e := by cases e <;> exact hg
    refine guardedRun_cons.2 ⟨hg', _, hset₁ log, ?_⟩
    rw [hset₂, List.append_assoc]

/-- The answers to the client of `k`. -/
def answers (k : Conn) (log : List Obs) : List Obs := log.filter (Obs.isAnswer k)

/-- The sweep is at the entry of the client of `k`, which has not asked yet. -/
def AtClient (w : World) (k : Conn) : Prop :=
  ∃ rset a c, w.pc = .sweep rset (some a) ∧ (a, c) ∈ w.cache ∧ c.state = .connection ∧
    w.fds c.domainSocket = some k

/-- The two runs from `w` in which the client of `k` sends `m₁` or `m₂`, with the same events
otherwise, give it the same answers at the same time. -/
def Agrees (cfg : Config) (w : World) (k : Conn) (m₁ m₂ : List UInt8) : Prop :=
  ∀ es₀ u (env : AreqEnv) es₁ w₁ w₂, (daemon cfg).guardedRun (AcceptKernel cfg) w es₀ = some u →
    AtClient u k →
    (daemon cfg).guardedRun (AcceptKernel cfg) u (.areq { env with recv := some m₁ } :: es₁) =
      some w₁ →
    (daemon cfg).guardedRun (AcceptKernel cfg) u (.areq { env with recv := some m₂ } :: es₁) =
      some w₂ →
    answers k w₁.log = answers k w₂.log

/-- The two questions are one, or neither can be answered, or both are already answered alike. -/
def SameFate (cache : List Node) (m₁ m₂ : List UInt8) : Prop :=
  Sockaddr.ofBytes m₁ = .ofBytes m₂ ∨
  ((Sockaddr.ofBytes m₁).sinPort ≠ .zero 2 ∧ (Sockaddr.ofBytes m₂).sinPort ≠ .zero 2) ∨
  ∃ n₁ ∈ cache, ∃ n₂ ∈ cache, n₁.2.state = .complete ∧ n₂.2.state = .complete ∧
    n₁.2.ipaddress = .ofBytes m₁ ∧ n₂.2.ipaddress = .ofBytes m₂ ∧ n₁.2.hw = n₂.2.hw

/-! ## Answers -/

theorem mem_answers {k : Conn} {log : List Obs} {o : Obs} (h : o ∈ answers k log) :
    ∃ hw ok, o = .answered k hw ok ∧ o ∈ log := by
  obtain ⟨hmem, ho⟩ := List.mem_filter.1 h
  cases o with
  | answered c hw ok =>
    have hc : c = k := by simpa [Obs.isAnswer] using ho
    exact ⟨hw, ok, by rw [hc], hmem⟩
  | _ => cases ho

theorem answered_mem_answers {k : Conn} {hw : Hwaddr} {ok : Bool} {log : List Obs}
    (h : .answered k hw ok ∈ log) : .answered k hw ok ∈ answers k log :=
  List.mem_filter.2 ⟨h, by simp [Obs.isAnswer]⟩

theorem answers_eq {w : World} (h : (daemon cfg).Reachable AcceptSound w) {k : Conn} {hw : Hwaddr}
    {ok : Bool} (ha : .answered k hw ok ∈ w.log) : answers k w.log = [.answered k hw ok] := by
  obtain ⟨msg, -, -, hhist, -⟩ := answered_record h ha
  have hfilter : answers k w.log = (history w.log k).filter (Obs.isAnswer k) := by
    unfold answers history
    rw [List.filter_filter]
    refine List.filter_congr fun o _ => ?_
    cases o <;> simp [Obs.isAnswer, Obs.about]
  rw [hfilter, hhist]
  simp [Obs.isAnswer]

/-- Every complete entry has the port zero. -/
def Portless (w : World) : Prop :=
  ∀ n ∈ w.cache, n.2.state = .complete → n.2.ipaddress.sinPort = .zero 2

theorem Advance.portless {w w' : World} {e : Event} (h : Advance cfg w e w') (hw : Portless w) :
    Portless w' := by
  cases h with
  | moved => exact hw
  | dropped => exact hw
  | refused => exact hw
  | cached => exact hw
  | asked => exact fun n hn hstate => hw n (mem_of_asked hn hstate) hstate
  | removed =>
    intro n hn hstate
    rcases mem_updateAt.1 (mem_of_mem_removeFromCache hn) with ⟨hn, -⟩ | ⟨c, hc, rfl⟩
    · exact hw n hn hstate
    · exact (hw (_, c) hc hstate : c.ipaddress.sinPort = .zero 2)
  | accepted =>
    refine List.forall_mem_cons.2 ⟨fun hstate => ?_, hw⟩
    cases hstate
  | @packet _ _ _ cache effects _ hframe =>
    have hcase : FrameCase w.cache cache effects := handleFrame_cases cfg hframe
    intro n hn hstate
    rw [World.performAll_cache] at hn
    dsimp only at hn
    cases hcase with
    | kept => exact hw n hn hstate
    | learnt hframes hfresh hfam hport hmiss =>
      rcases List.mem_cons.1 hn with rfl | hn
      · exact hport
      · exact hw n hn hstate
    | completed hfam hport =>
      rw [replyLoop_fst, List.mem_map] at hn
      obtain ⟨m, hm, rfl⟩ := hn
      unfold completeNode at hstate ⊢
      split
      · rename_i hmatch
        exact hmatch.1 ▸ hport
      · rename_i hno
        rw [if_neg hno] at hstate
        exact hw m hm hstate

theorem reachable_portless {G : World → Event → Prop} {w : World}
    (h : (daemon cfg).Reachable G w) : Portless w :=
  h.invariant (I := Portless) (fun n hn => by cases hn)
    fun _ _ _ hw _ hs => (step_cases cfg hs).portless hw

/-! ## One visit -/

/-- The state after the visit of a readable client that returned `r`. -/
def afterAreq (w : World) (rset : Int → Bool) (a : Addr) (r : AreqResult) : World :=
  { World.performAll { w with cache := r.cache } r.effects with
    pc := if r.rv then .sweep rset (nextOf w.cache a) else .remove rset a (nextOf w.cache a) }

theorem step_areq (w : World) {rset : Int → Bool} {a : Addr} {c : Cache} {k : Conn}
    (hpc : w.pc = .sweep rset (some a)) (hc : entryAt w.cache a = some c)
    (hstate : c.state = .connection) (hk : w.fds c.domainSocket = some k) (env : AreqEnv) :
    step cfg w (.areq env) = if rset c.domainSocket = false then none
      else (handleAreq cfg.devices w.cache a c env).map (afterAreq w rset a) := by
  have hcall : callAreq cfg w a c env = handleAreq cfg.devices w.cache a c env := by
    simp only [callAreq, hk, Option.isSome_some, if_true]
  unfold step
  rw [hpc]
  simp only [hc, bind, Option.bind_some, stepVisit, hstate, reduceCtorEq, false_or, if_true, hcall]
  split
  · rfl
  · cases handleAreq cfg.devices w.cache a c env <;> rfl

theorem visit_says {u u₁ : World} {k : Conn} {env : AreqEnv} {m : List UInt8}
    (hu : Consistent u) (hat : AtClient u k) (hm : ValidAreq m)
    (hs : step cfg u (.areq { env with recv := some m }) = some u₁) :
    .received k m ∈ u₁.log ∧
      ∀ n, getCacheByIpAddr u.cache (.ofBytes m) = some n → n.2.state = .complete →
        .answered k n.2.hw env.sendOk ∈ u₁.log := by
  obtain ⟨rset, a, c, hpc, hc, hstate, hk⟩ := hat
  have hentry : ∀ {rset' a' c'}, u.pc = .sweep rset' (some a') → (a', c') ∈ u.cache → c' = c := by
    intro rset' a' c' hpc' hc'
    rw [hpc] at hpc'
    cases hpc'
    exact entry_unique hu.cache.nodup hc' hc
  cases step_cases cfg hs with
  | moved hfrom hto hquiet => exact absurd rfl (hquiet _)
  | dropped hpc' hc' hstate' hquiet =>
    obtain rfl := hentry hpc' hc'
    rcases hquiet _ rfl with hnone | hnone
    · cases hnone
    · rw [hk] at hnone; cases hnone
  | refused hpc' hc' hstate' hk' hrecv hmsg =>
    cases hrecv
    exact absurd hm hmsg
  | cached hpc' hc' hstate' hk' hrecv hmsg hn hcomplete =>
    obtain rfl := hentry hpc' hc'
    cases hk.symm.trans hk'
    cases hrecv
    refine ⟨by simp, fun n' hn' _ => ?_⟩
    cases hn.symm.trans hn'
    exact List.mem_cons_self
  | asked hpc' hto hc' hstate' hk' hrecv hmsg hmiss hobs =>
    obtain rfl := hentry hpc' hc'
    cases hk.symm.trans hk'
    cases hrecv
    exact ⟨by simp, fun n hn hs => absurd hs (hmiss n hn)⟩

/-- Two valid questions with one key differ only in what the log says was received. -/
theorem handleAreq_key (devices : List HwaInfo) (cache : List Node) (a : Addr) (env : AreqEnv)
    {conn : Cache} {m₁ m₂ : List UInt8} (hconn : conn.state = .connection) (h₁ : ValidAreq m₁)
    (h₂ : ValidAreq m₂) (hkey : Sockaddr.ofBytes m₁ = .ofBytes m₂) :
    ∃ rest : Option (Bool × List Node × List Effect), ∀ m, m = m₁ ∨ m = m₂ →
      handleAreq devices cache a conn { env with recv := some m } = rest.map fun r =>
        ⟨r.1, r.2.1, .received conn.domainSocket m :: r.2.2⟩ := by
  by_cases hhit : ∃ n, getCacheByIpAddr cache (.ofBytes m₁) = some n ∧ n.2.state = .complete
  · obtain ⟨n, hn, hstate⟩ := hhit
    refine ⟨some (false, cache, [.send conn.domainSocket n.2.hw env.sendOk]), ?_⟩
    rintro m (rfl | rfl)
    · exact handleAreq_hit hconn rfl h₁ hn hstate
    · exact handleAreq_hit hconn rfl h₂ (hkey ▸ hn) hstate
  · have hmiss : ∀ n, getCacheByIpAddr cache (.ofBytes m₁) = some n → n.2.state ≠ .complete :=
      fun n hn hs => hhit ⟨n, hn, hs⟩
    refine ⟨(broadcast (.ofBytes m₁) env.sendtoOk devices 0).map fun r => (r.1,
      updateAt cache a fun c => { c with state := .incomplete, ipaddress := .ofBytes m₁ }, r.2), ?_⟩
    rintro m (rfl | rfl)
    · rw [handleAreq_miss hconn rfl h₁ hmiss, Option.map_map]; rfl
    · rw [handleAreq_miss hconn rfl h₂ (hkey ▸ hmiss), Option.map_map, hkey]; rfl

/-- Two valid questions with one key lead to states that differ only in the log. -/
theorem visit_key {u u₁ u₂ : World} {k : Conn} {env : AreqEnv} {m₁ m₂ : List UInt8}
    (hu : Consistent u) (hat : AtClient u k) (h₁ : ValidAreq m₁) (h₂ : ValidAreq m₂)
    (hkey : Sockaddr.ofBytes m₁ = .ofBytes m₂)
    (hs₁ : step cfg u (.areq { env with recv := some m₁ }) = some u₁)
    (hs₂ : step cfg u (.areq { env with recv := some m₂ }) = some u₂) :
    ∃ log, u₂ = u₁.setLog log ∧ answers k log = answers k u₁.log := by
  obtain ⟨rset, a, c, hpc, hc, hstate, hk⟩ := hat
  have hentry := entryAt_of_mem hu.cache.nodup hc
  obtain ⟨rest, hrest⟩ := handleAreq_key cfg.devices u.cache a env hstate h₁ h₂ hkey
  rw [step_areq u hpc hentry hstate hk] at hs₁ hs₂
  split at hs₁
  · cases hs₁
  rename_i hready
  rw [if_neg hready] at hs₂
  rw [hrest _ (Or.inl rfl)] at hs₁
  rw [hrest _ (Or.inr rfl)] at hs₂
  cases rest with
  | none => cases hs₁
  | some r =>
    obtain ⟨rv, cache, effects⟩ := r
    obtain ⟨obs, hobs⟩ := World.performAll_setLog { u with cache := cache } effects
    simp only [Option.map_some, Option.some.injEq, afterAreq, World.performAll_cons,
      World.perform, hk] at hs₁ hs₂
    have hlog₁ := hobs (.received k m₁ :: u.log)
    have hlog₂ := hobs (.received k m₂ :: u.log)
    simp only [World.setLog] at hlog₁ hlog₂
    rw [hlog₁] at hs₁
    rw [hlog₂] at hs₂
    subst hs₁ hs₂
    refine ⟨obs ++ .received k m₂ :: u.log, rfl, ?_⟩
    simp only [answers, List.filter_append]
    rw [List.filter_cons_of_neg (by simp [Obs.isAnswer]),
      List.filter_cons_of_neg (by simp [Obs.isAnswer])]

end Tour
