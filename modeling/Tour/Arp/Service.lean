import Tour.Arp.Fates
import Tour.Arp.Network

/-!
# What the daemon watches, and what it costs the network

Three facts about whole runs. `select` watches the two sockets and every client that can still say
something, and nothing else (`select_watches`). Once an address is resolved, every later question
for it is answered at once with the same record, and the network is not asked (`served_from_cache`).
The frames that a daemon puts on the network are bounded by the valid questions it was asked and the
valid requests it heard: nothing else makes it send any (`traffic_bounded`).
-/

namespace Tour

open Lib Machine

variable {cfg : Config}

/-! ## `select` -/

/-- One turn of the loop of `maxfd`. -/
def maxfdStep (maxfd : Int) (current : Node) : Int :=
  if current.2.state ≠ .complete then
    if maxfd > current.2.domainSocket then maxfd else current.2.domainSocket
  else maxfd

/-- `maxfd(pf_socket, unix_domain, cache)`. -/
def maxfd (pfSocket unixDomain : Int) (cache : List Node) : Int :=
  cache.foldl maxfdStep (if pfSocket > unixDomain then pfSocket else unixDomain)

/-- The clients' descriptors that `run_arp` puts into `rset`. -/
def clientFds (cache : List Node) : List Int :=
  (cache.filter fun n => n.2.state ≠ .complete).map fun n => n.2.domainSocket

/-- All that it puts into `rset`. -/
def fdSet (cfg : Config) (cache : List Node) : List Int :=
  cfg.unixDomain :: cfg.pfSocket :: clientFds cache

theorem foldl_maxfd (cache : List Node) (m : Int) :
    cache.foldl maxfdStep m ∈ m :: clientFds cache ∧
      ∀ fd ∈ m :: clientFds cache, fd ≤ cache.foldl maxfdStep m := by
  induction cache generalizing m with
  | nil => simp [clientFds]
  | cons n cache ih =>
    obtain ⟨hmem, hle⟩ := ih (maxfdStep m n)
    obtain ⟨hfirst, hrest⟩ := List.forall_mem_cons.1 hle
    rw [List.foldl_cons]
    by_cases hstate : n.2.state = .complete
    · have hskip : clientFds (n :: cache) = clientFds cache := by simp [clientFds, hstate]
      have hstep : maxfdStep m n = m := if_neg (not_not.2 hstate)
      rw [hstep] at hmem hle ⊢
      rw [hskip]
      exact ⟨hmem, hle⟩
    · have htake : clientFds (n :: cache) = n.2.domainSocket :: clientFds cache := by
        simp [clientFds, hstate]
      have hstep : maxfdStep m n = if m > n.2.domainSocket then m else n.2.domainSocket :=
        if_pos hstate
      have hboth : m ≤ maxfdStep m n ∧ n.2.domainSocket ≤ maxfdStep m n := by
        rw [hstep]
        split <;> omega
      rw [htake]
      refine ⟨?_, List.forall_mem_cons.2 ⟨Int.le_trans hboth.1 hfirst,
        List.forall_mem_cons.2 ⟨Int.le_trans hboth.2 hfirst, hrest⟩⟩⟩
      rcases List.mem_cons.1 hmem with heq | hmem
      · rw [heq, hstep]
        split <;> simp
      · exact List.mem_cons_of_mem _ (List.mem_cons_of_mem _ hmem)

/-- `maxfd` is the greatest descriptor in `rset`. -/
theorem maxfd_greatest (cfg : Config) (cache : List Node) :
    maxfd cfg.pfSocket cfg.unixDomain cache ∈ fdSet cfg cache ∧
      ∀ fd ∈ fdSet cfg cache, fd ≤ maxfd cfg.pfSocket cfg.unixDomain cache := by
  obtain ⟨hmem, hle⟩ := foldl_maxfd cache
    (if cfg.pfSocket > cfg.unixDomain then cfg.pfSocket else cfg.unixDomain)
  obtain ⟨hfirst, hclients⟩ := List.forall_mem_cons.1 hle
  have hboth : cfg.pfSocket ≤ (if cfg.pfSocket > cfg.unixDomain then cfg.pfSocket
      else cfg.unixDomain) ∧ cfg.unixDomain ≤ (if cfg.pfSocket > cfg.unixDomain then cfg.pfSocket
      else cfg.unixDomain) := by
    split <;> omega
  constructor
  · rcases List.mem_cons.1 hmem with heq | hmem
    · rw [maxfd, heq]
      split <;> simp [fdSet]
    · exact List.mem_cons_of_mem _ (List.mem_cons_of_mem _ hmem)
  · exact List.forall_mem_cons.2 ⟨Int.le_trans hboth.2 hfirst,
      List.forall_mem_cons.2 ⟨Int.le_trans hboth.1 hfirst, hclients⟩⟩

theorem mem_clientFds {cache : List Node} {fd : Int} : fd ∈ clientFds cache ↔
    ∃ n ∈ cache, n.2.state ≠ .complete ∧ n.2.domainSocket = fd := by
  simp [clientFds, and_assoc]

theorem reachable_held {w : World}
    (h : (daemon cfg).Reachable (fun w e => AcceptFresh w e ∧ DropsItself w) w) :
    Held w.cache w.fds :=
  h.invariant_under (J := Consistent) (I := fun w => Held w.cache w.fds)
    (fun _ hs => reachable_consistent hs) .nil
    fun _ _ _ hw hheld hg hs => (step_cases cfg hs).held hg.1 hg.2 hw hheld

/-- **`select` watches whoever can speak.** In every state of a run in which accepts succeed and every
drop removes the entry it meant, the descriptors in `rset` are those of the two sockets and of the open
clients, each client once; none is negative; and `max_fd` is the greatest of them. -/
theorem select_watches {w : World}
    (h : (daemon cfg).Reachable (fun w e => AcceptFresh w e ∧ DropsItself w) w) :
    (∀ fd, fd ∈ fdSet cfg w.cache ↔
      fd = cfg.unixDomain ∨ fd = cfg.pfSocket ∨ (w.fds fd).isSome) ∧
    (clientFds w.cache).Nodup ∧
    (∀ fd ∈ fdSet cfg w.cache, 0 ≤ fd ∧ fd ≤ maxfd cfg.pfSocket cfg.unixDomain w.cache) ∧
    maxfd cfg.pfSocket cfg.unixDomain w.cache ∈ fdSet cfg w.cache := by
  have hheld := reachable_held h
  have hfd := reachable_fdInv (h.mono fun _ _ hg => hg.1.sound)
  obtain ⟨hmax, hall⟩ := maxfd_greatest cfg w.cache
  have hclient : ∀ fd, fd ∈ clientFds w.cache ↔ (w.fds fd).isSome := by
    intro fd
    rw [mem_clientFds]
    constructor
    · rintro ⟨n, hn, hstate, rfl⟩
      obtain ⟨-, k, hk⟩ := hfd.live n hn (hheld.pending n hn hstate)
      rw [hk]
      rfl
    · intro hsome
      obtain ⟨k, hk⟩ := Option.isSome_iff_exists.1 hsome
      exact hheld.held fd k hk
  have hpos : ∀ fd ∈ fdSet cfg w.cache, 0 ≤ fd := by
    refine List.forall_mem_cons.2 ⟨cfg.unixDomain_open, List.forall_mem_cons.2
      ⟨cfg.pfSocket_open, fun fd hmem => ?_⟩⟩
    obtain ⟨n, hn, hstate, rfl⟩ := mem_clientFds.1 hmem
    exact Int.le_of_lt (hheld.pending n hn hstate)
  refine ⟨fun fd => ?_, ?_, fun fd hmem => ⟨hpos fd hmem, hall fd hmem⟩, hmax⟩
  · rw [fdSet, List.mem_cons, List.mem_cons, hclient]
  · -- two entries of a client share no descriptor
    have hnodup := (reachable_consistent h).cache.nodup
    refine List.Nodup.map_on ?_ ((List.Nodup.of_map _ hnodup).filter _)
    intro n hn m hm heq
    have hn' := List.mem_filter.1 hn
    have hm' := List.mem_filter.1 hm
    exact hfd.distinct n hn'.1 m hm'.1 (hheld.pending n hn'.1 (by simpa using hn'.2)) heq

/-- Two clients that have not yet said anything. -/
theorem select_watches_two : ∃ w,
    (daemon loneHost).guardedRun (fun w e => AcceptFresh w e ∧ DropsItself w) .init twoClients =
      some w ∧
    maxfd 4 3 w.cache = 6 ∧ ∀ fd ∈ fdSet loneHost w.cache, 0 ≤ fd :=
  ⟨_, rfl, rfl, fun fd hmem => ((select_watches (.of_guardedRun twoClients rfl :
    (daemon loneHost).Reachable _ _)).2.2.1 fd hmem).1⟩

/-! ## Cached answers -/

/-- **A resolved address is never asked for again.** In every run, once some entry for an address is
complete, each later question for that address is answered at once with the record of that entry:
the cache does not change and no frame is sent. -/
theorem served_from_cache {w w₁ w₂ : World} (h : (daemon cfg).Reachable AcceptSound w) {n : Node}
    (hn : n ∈ w.cache) (hstate : n.2.state = .complete) (hrun : (daemon cfg).Steps AcceptSound w w₁)
    {rset : Int → Bool} {a : Addr} {c : Cache} {k : Conn} {env : AreqEnv} {msg : List UInt8}
    (hpc : w₁.pc = .sweep rset (some a)) (hc : entryAt w₁.cache a = some c)
    (hopen : w₁.fds c.domainSocket = some k) (hrecv : env.recv = some msg)
    (hlen : msg.length = sizeofAreq) (hip : Sockaddr.ofBytes msg = n.2.ipaddress)
    (hstep : step cfg w₁ (.areq env) = some w₂) :
    w₂.log = .answered k n.2.hw env.sendOk :: .received k msg :: w₁.log ∧
      w₂.cache = w₁.cache := by
  have hn₁ := steps_keeps hrun (reachable_consistent h) n hn hstate
  have hcache := (reachable_consistent (h.trans hrun)).cache
  have hfam : n.2.ipaddress.saFamily = afInet := (hcache.entry n hn₁).asked (by simp [hstate])
  have hvalid : ValidAreq msg := ⟨hlen, hip ▸ hfam⟩
  obtain ⟨m, hget, hcomplete, hhw⟩ := getCacheByIpAddr_complete hcache hn₁ hstate
  rw [← hip] at hget
  have hentry : ∀ {rset' a' c'}, w₁.pc = .sweep rset' (some a') → (a', c') ∈ w₁.cache → c' = c := by
    intro rset' a' c' hpc' hc'
    cases hpc.symm.trans hpc'
    exact Option.some.inj ((entryAt_of_mem hcache.nodup hc').symm.trans hc)
  cases step_cases cfg hstep with
  | moved _ _ hquiet => exact absurd rfl (hquiet env)
  | dropped hpc' hc' _ hquiet =>
    cases hentry hpc' hc'
    rcases hquiet env rfl with hnone | hnone
    · rw [hrecv] at hnone
      cases hnone
    · rw [hopen] at hnone
      cases hnone
  | refused hpc' hc' _ _ hrecv' hmsg =>
    cases hrecv.symm.trans hrecv'
    exact absurd hvalid hmsg
  | cached hpc' hc' _ hopen' hrecv' _ hget' _ =>
    cases hentry hpc' hc'
    cases hopen.symm.trans hopen'
    cases hrecv.symm.trans hrecv'
    cases hget.symm.trans hget'
    exact ⟨by rw [hhw], rfl⟩
  | asked _ _ _ _ _ hrecv' _ hmiss _ =>
    cases hrecv.symm.trans hrecv'
    exact absurd hcomplete (hmiss m hget)

/-- Two clients of `loneHost` are answered. -/
def resolved : List Event := bothAsk ++ [.packet (some replyFrame) fromTwo]

/-- Then a third client connects, and is about to ask. -/
def thirdClient : List Event :=
  [readable [3], .tick, .tick, .tick, .accept 7 400, .tick, readable [7]]

theorem served_from_cache_third : ∃ w w₁ w₂,
    (daemon loneHost).guardedRun AcceptSound .init resolved = some w ∧
    (daemon loneHost).guardedRun AcceptSound w thirdClient = some w₁ ∧
    step loneHost w₁ (.areq question) = some w₂ ∧ w₂.cache = w₁.cache := by
  have hserved : ∀ {w w₁ w₂ : World} {n : Node} {rset : Int → Bool} {c : Cache} {k : Conn},
      (daemon loneHost).guardedRun AcceptSound .init resolved = some w →
      (daemon loneHost).guardedRun AcceptSound w thirdClient = some w₁ →
      step loneHost w₁ (.areq question) = some w₂ → n ∈ w.cache → n.2.state = .complete →
      Sockaddr.ofBytes (question.recv.getD []) = n.2.ipaddress → w₁.pc = .sweep rset (some 400) →
      entryAt w₁.cache 400 = some c → w₁.fds c.domainSocket = some k → w₂.cache = w₁.cache :=
    fun h h₁ hstep hn hstate hip hpc hc hopen =>
      (served_from_cache (.of_guardedRun resolved h) hn hstate (Steps.of_guardedRun h₁) hpc hc hopen
        rfl rfl hip hstep).2
  exact ⟨_, _, _, rfl, rfl, rfl, hserved rfl rfl rfl List.mem_cons_self rfl rfl rfl rfl rfl⟩

/-! ## Traffic -/

/-- The observation is a frame that was sent. -/
def Obs.isEmitted : Obs → Bool
  | .emitted _ => true
  | _ => false

instance (msg : List UInt8) : Decidable (ValidAreq msg) :=
  inferInstanceAs (Decidable (_ ∧ _))

/-- The observation is a message that `handle_areq` accepts. -/
def Obs.isQuestion : Obs → Bool
  | .received _ msg => decide (ValidAreq msg)
  | _ => false

/-- The event brings a frame that `run_arp` hands to `handle_req`. -/
def Event.hearsRequest : Event → Bool
  | .packet (some frame) _ => (requestOf frame).isSome
  | _ => false

/-- The number of frames that a daemon has sent. -/
def World.emitted (w : World) : Nat := w.log.countP Obs.isEmitted

/-- The number of valid questions that it was asked. -/
def World.questions (w : World) : Nat := w.log.countP Obs.isQuestion

/-- The effect is a frame. -/
def Effect.isFrame : Effect → Bool
  | .frame _ _ => true
  | _ => false

namespace World

variable (w : World)

theorem perform_emitted (e : Effect) :
    (w.perform e).emitted = w.emitted + if e.isFrame then 1 else 0 := by
  cases e with
  | frame i bytes => exact List.countP_cons_of_pos rfl
  | _ =>
    simp only [perform, Effect.isFrame]
    split <;> simp [emitted, Obs.isEmitted]

theorem performAll_emitted (effects : List Effect) :
    (w.performAll effects).emitted = w.emitted + effects.countP Effect.isFrame := by
  induction effects generalizing w with
  | nil => rfl
  | cons e effects ih =>
    rw [performAll_cons, ih, perform_emitted, List.countP_cons]
    omega

theorem perform_questions_le (e : Effect) : w.questions ≤ (w.perform e).questions := by
  cases e with
  | frame i bytes => exact (List.sublist_cons_self _ _).countP_le
  | _ =>
    simp only [perform]
    split
    · exact (List.sublist_cons_self _ _).countP_le
    · exact Nat.le_refl _

theorem performAll_questions_le (effects : List Effect) :
    w.questions ≤ (w.performAll effects).questions := by
  induction effects generalizing w with
  | nil => exact Nat.le_refl _
  | cons e effects ih => exact Nat.le_trans (perform_questions_le w e) (ih _)

end World

/-- What a daemon sends between two states: at most `n` frames for each valid question, and `m`
others. -/
structure Costs (n m : Nat) (w w' : World) : Prop where
  emitted_le : w.emitted ≤ w'.emitted
  questions_le : w.questions ≤ w'.questions
  bound : w'.emitted + n * w.questions ≤ w.emitted + n * w'.questions + m

theorem Costs.refl (n : Nat) (w : World) : Costs n 0 w w :=
  ⟨Nat.le_refl _, Nat.le_refl _, Nat.le_refl _⟩

theorem Costs.trans {n m m' : Nat} {w v w' : World} (h : Costs n m w v) (h' : Costs n m' v w') :
    Costs n (m + m') w w' := by
  refine ⟨Nat.le_trans h.emitted_le h'.emitted_le, Nat.le_trans h.questions_le h'.questions_le, ?_⟩
  have hfirst := h.bound
  have hsecond := h'.bound
  omega

/-- Calls that send `m` frames cost no more, whatever they were for. -/
theorem Costs.of_performAll (n : Nat) {w : World} {effects : List Effect} {m : Nat}
    (h : effects.countP Effect.isFrame ≤ m) : Costs n m w (w.performAll effects) := by
  have hemitted := w.performAll_emitted effects
  have hquestions := w.performAll_questions_le effects
  refine ⟨by omega, hquestions, ?_⟩
  have hmul := Nat.mul_le_mul_left n hquestions
  omega

theorem broadcast_length {tgt : Sockaddr} {sendtoOk : Nat → Bool} {devices : List HwaInfo} {i : Nat}
    {r : Bool × List Effect} (h : broadcast tgt sendtoOk devices i = some r) :
    r.2.length ≤ devices.length := by
  induction devices generalizing i r with
  | nil =>
    cases h
    exact Nat.le_refl _
  | cons d devices ih =>
    simp only [broadcast, bind, Option.bind_eq_some_iff] at h
    obtain ⟨⟨packet, arpsize⟩, -, sent, -, hrest⟩ := h
    split at hrest
    · cases hrest
      exact Nat.zero_le _
    · split at hrest
      · obtain ⟨⟨rv, effects⟩, hbroadcast, hout⟩ := Option.bind_eq_some_iff.1 hrest
        cases hout
        exact Nat.succ_le_succ (ih hbroadcast)
      · cases hrest
        exact Nat.zero_le _

/-- A question costs at most one frame on each interface. -/
theorem areq_frames {devices : List HwaInfo} {cache : List Node} {a : Addr} {conn : Cache}
    {env : AreqEnv} {r : AreqResult} (h : handleAreq devices cache a conn env = some r) :
    r.effects.countP Effect.isFrame ≤ devices.length := by
  unfold handleAreq at h
  split at h
  · cases h
  split at h
  · cases h
    exact Nat.zero_le _
  dsimp only at h
  split at h
  · cases h
    exact Nat.zero_le _
  split at h
  · cases h
    exact Nat.zero_le _
  split at h
  · cases h
    exact Nat.zero_le _
  · obtain ⟨⟨rv, effects⟩, hbroadcast, hout⟩ := Option.bind_eq_some_iff.1 h
    cases hout
    rw [List.countP_cons_of_neg (by simp [Effect.isFrame])]
    exact Nat.le_trans List.countP_le_length (broadcast_length hbroadcast)

theorem req_frames {devices : List HwaInfo} {cache : List Node} {eh : Buf ethHlen} {arp : ArpHdr}
    {src : SockaddrLl} {env : ReqEnv} {r : List Node × List Effect}
    (h : handleReq devices cache eh arp src env = some r) : r.2.countP Effect.isFrame ≤ 1 := by
  obtain rfl | ⟨blah, hanswer, -⟩ := handleReq_outcome h
  · exact Nat.zero_le _
  · obtain ⟨-, -, hnone | ⟨i, bytes, hone⟩⟩ := answerReq_cases hanswer
    · rw [hnone]
      exact Nat.zero_le _
    · rw [hone]
      exact Nat.le_refl _

/-- A packet makes the daemon send at most one frame, and only a request does. -/
theorem frame_frames {cache : List Node} {frame : List UInt8} {env : PacketEnv}
    {r : List Node × List Effect} (h : handleFrame cfg cache frame env = some r) :
    r.2.countP Effect.isFrame ≤
      if Event.hearsRequest (.packet (some frame) env) then 1 else 0 := by
  simp only [handleFrame, bind, Option.bind_eq_some_iff] at h
  obtain ⟨⟨eh, arp⟩, hrecv, h⟩ := h
  split at h
  · cases h
    exact Nat.zero_le _
  rename_i hfits
  split at h
  · rename_i hvalid
    unfold dispatch at h
    split at h
    · rename_i hop
      have hheard : requestOf frame = some (eh, arp) := by
        have hlong : ethHlen + arpHdrlen ≤ frame.length ∧
            ethHlen + arpHdrlen + arp.datalen ≤ frame.length := by
          dsimp only at hfits
          omega
        refine Option.filter_eq_some_iff.2 ⟨hrecv, ?_⟩
        simp only [Bool.and_eq_true, decide_eq_true_eq]
        exact ⟨hlong, hvalid, hop⟩
      rw [Event.hearsRequest, hheard, Option.isSome_some, if_pos rfl]
      split at h
      · cases h
      · exact req_frames h
    split at h
    · -- the loop of `handle_reply` sends no frame
      simp only [handleReply, bind, Option.bind_eq_some_iff] at h
      obtain ⟨⟨new, repip⟩, -, hout⟩ := h
      cases hout
      rw [List.countP_eq_zero.2]
      · exact Nat.zero_le _
      · intro e he hframe
        cases e with
        | frame i bytes => exact replyLoop_quiet i bytes he
        | _ => cases hframe
    · cases h
      exact Nat.zero_le _
  · cases h
    exact Nat.zero_le _

/-- `handle_areq` sends frames only for a valid question. -/
theorem callAreq_costs {w : World} {a : Addr} {c : Cache} {env : AreqEnv} {r : AreqResult}
    (h : callAreq cfg w a c env = some r) :
    Costs cfg.devices.length 0 w (World.performAll { w with cache := r.cache } r.effects) := by
  have hframes : r.effects.countP Effect.isFrame ≤ cfg.devices.length := areq_frames h
  have hcase := handleAreq_cases h
  dsimp only at hcase
  cases hfd : w.fds c.domainSocket with
  | none =>
    rw [hfd] at hcase
    cases hcase
    exact .refl _ w
  | some k =>
    rw [hfd, Option.isSome_some, if_pos rfl] at hcase
    generalize env.recv = recv at hcase
    cases hcase with
    | failed => exact .refl _ w
    | refused => exact Costs.of_performAll _ (Nat.le_refl 0)
    | cached => exact Costs.of_performAll _ (Nat.le_refl 0)
    | @asked msg rv frames hmsg =>
      -- the question that was read pays for the frames
      rw [List.countP_cons_of_neg (by simp [Effect.isFrame])] at hframes
      obtain ⟨v, hv⟩ : ∃ v : World, v = { w with
        cache := updateAt w.cache a fun c => { c with state := .incomplete, ipaddress := .ofBytes msg }
        log := .received k msg :: w.log } := ⟨_, rfl⟩
      have hasked : v.questions = w.questions + 1 := by
        rw [hv]
        exact List.countP_cons_of_pos (decide_eq_true hmsg)
      have hsent : v.emitted = w.emitted := by
        rw [hv]
        exact List.countP_cons_of_neg (by simp [Obs.isEmitted])
      have hrun : World.performAll { w with cache := updateAt w.cache a fun c =>
          { c with state := .incomplete, ipaddress := .ofBytes msg } }
          (.received c.domainSocket msg :: frames) = v.performAll frames := by
        rw [World.performAll_cons, World.perform, hv]
        simp only [hfd]
      have hcosts := @Costs.of_performAll cfg.devices.length v _ _ hframes
      dsimp only
      rw [hrun]
      refine ⟨hsent ▸ hcosts.emitted_le, by have := hcosts.questions_le; omega, ?_⟩
      have hbound := hcosts.bound
      rw [hasked, hsent, Nat.mul_succ] at hbound
      omega

theorem step_areq_costs {w w' : World} {env : AreqEnv} (h : step cfg w (.areq env) = some w') :
    Costs cfg.devices.length 0 w w' := by
  unfold step at h
  split at h
  · cases h
  · cases h
  · rename_i rset a hpc
    obtain ⟨c, -, hvisit⟩ := Option.bind_eq_some_iff.1 h
    simp only [stepVisit] at hvisit
    split at hvisit
    · cases hvisit
    split at hvisit
    · obtain ⟨r, hr, hout⟩ := Option.bind_eq_some_iff.1 hvisit
      cases hout
      obtain ⟨hemitted, hquestions, hbound⟩ := callAreq_costs hr
      exact ⟨hemitted, hquestions, hbound⟩
    · cases hvisit
  · cases h
  · split at h <;> cases h
  · split at h <;> cases h
  · cases h

/-- One step sends at most one frame on each interface for a valid question, and one for a request. -/
theorem step_costs {w w' : World} {e : Event} (h : step cfg w e = some w') :
    Costs cfg.devices.length (if e.hearsRequest then 1 else 0) w w' := by
  have hnone : ∀ {u : World}, u.log = w.log →
      Costs cfg.devices.length (if e.hearsRequest then 1 else 0) w u := by
    intro u hlog
    have hemitted : u.emitted = w.emitted := congrArg (List.countP _) hlog
    have hquestions : u.questions = w.questions := congrArg (List.countP _) hlog
    exact ⟨by omega, by omega, by rw [hemitted, hquestions]; exact Nat.le_add_right _ _⟩
  cases e with
  | areq env => exact step_areq_costs h
  | packet frame env =>
    cases step_cases cfg h with
    | moved => exact hnone rfl
    | dropped => exact hnone rfl
    | @packet _ frame _ cache effects hpc hframe =>
      obtain ⟨hemitted, hquestions, hbound⟩ :=
        @Costs.of_performAll cfg.devices.length { w with cache := cache } _ _ (frame_frames hframe)
      exact ⟨hemitted, hquestions, hbound⟩
  | select rset =>
    cases step_cases cfg h with
    | moved => exact hnone rfl
    | dropped => exact hnone rfl
  | tick =>
    cases step_cases cfg h with
    | moved => exact hnone rfl
    | dropped => exact hnone rfl
    | @removed _ _ _ c =>
      obtain ⟨hemitted, hquestions, hbound⟩ :=
        @Costs.of_performAll cfg.devices.length w [.close c.domainSocket] 0 (Nat.le_refl 0)
      exact ⟨hemitted, hquestions, hbound⟩
  | accept sfd fresh =>
    cases step_cases cfg h with
    | moved => exact hnone rfl
    | dropped => exact hnone rfl
    | accepted => exact hnone rfl

/-- A run costs as many frames besides those of its questions as it hears requests. -/
theorem run_costs {w w' : World} {es : List Event} (h : (daemon cfg).run w es = some w') :
    Costs cfg.devices.length (es.countP Event.hearsRequest) w w' := by
  induction es generalizing w with
  | nil =>
    cases h
    exact .refl _ _
  | cons e es ih =>
    obtain ⟨v, hv, hrest⟩ := Option.bind_eq_some_iff.1 h
    rw [List.countP_cons, Nat.add_comm]
    exact (step_costs hv).trans (ih hrest)

/-- **A daemon does not flood the network.** In every run the frames that it has sent are at most one
on each interface for each valid question of a client, and one for each valid ARP request that it
heard. Nothing else makes it send a frame: no reply, no frame that is too short or that `valid_arp`
rejects, and no other message of a client. -/
theorem traffic_bounded {w : World} {es : List Event}
    (h : (daemon cfg).run (daemon cfg).init es = some w) :
    w.emitted ≤ cfg.devices.length * w.questions + es.countP Event.hearsRequest ∧
    ∀ e w', step cfg w e = some w' → w'.questions = w.questions → e.hearsRequest = false →
      w'.emitted = w.emitted := by
  constructor
  · have hbound := (run_costs h).bound
    have hemitted : (daemon cfg).init.emitted = 0 := rfl
    have hquestions : (daemon cfg).init.questions = 0 := rfl
    rw [hemitted, hquestions] at hbound
    omega
  · intro e w' hstep hquestions hquiet
    obtain ⟨hle, -, hbound⟩ := step_costs hstep
    rw [hquiet, hquestions, if_neg Bool.false_ne_true] at hbound
    omega

/-- Two questions cost `loneHost` at most two frames. -/
theorem traffic_bounded_two : ∃ w, (daemon loneHost).run .init bothAsk = some w ∧
    w.questions = 2 ∧ w.emitted ≤ 2 :=
  ⟨_, rfl, rfl, (traffic_bounded (rfl : (daemon loneHost).run _ bothAsk = some _)).1⟩

end Tour
