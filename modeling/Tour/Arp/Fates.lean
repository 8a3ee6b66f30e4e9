import Tour.Arp.Questions
import Tour.Arp.Sweep

/-!
# Which questions have one fate

Two questions with one fate are answered alike in every continuation (`agrees_of_sameFate`). For
two others there is a continuation that tells them apart. It is a quiet one: the sweep visits
nobody but the client (`Quiet`, `sweep_quiet`), and the reply that the client waits for arrives in
the next iteration (`guardedRun_deliver`). A reply matches a key whose port is zero when it has as
many protocol bytes as the key has behind its port (`wideReply`). The result is `agree_iff`.
-/

namespace Tour

open Lib Machine

variable {cfg : Config}

/-! ## One fate -/

theorem answers_append {k : Conn} (l₁ l₂ : List Obs) :
    answers k (l₁ ++ l₂) = answers k l₁ ++ answers k l₂ := List.filter_append ..

theorem guardedRun_mem {w w' : World} {es : List Event}
    (h : (daemon cfg).guardedRun (AcceptKernel cfg) w es = some w') {o : Obs} (ho : o ∈ w.log) :
    o ∈ w'.log := by
  obtain ⟨obs, hlog, -⟩ := guardedRun_log h
  rw [hlog]
  exact List.mem_append_right _ ho

theorem answers_of_port {w : World} (h : (daemon cfg).Reachable (AcceptKernel cfg) w) {k : Conn}
    {m : List UInt8} (hq : .received k m ∈ w.log)
    (hport : (Sockaddr.ofBytes m).sinPort ≠ .zero 2) : answers k w.log = [] := by
  rw [List.eq_nil_iff_forall_not_mem]
  intro o ho
  obtain ⟨hw, ok, rfl, hmem⟩ := mem_answers ho
  obtain ⟨n, hn, hstate, hip, -⟩ := answered_for (reachable_sound h) hq hmem
  exact hport (hip ▸ reachable_portless h n hn hstate)

/-- The key has a complete entry. -/
def Cached (cache : List Node) (key : Sockaddr) : Prop :=
  ∃ n ∈ cache, n.2.state = .complete ∧ n.2.ipaddress = key

/-- A lookup finds the entry of a complete key, or one that holds the same. -/
theorem getCacheByIpAddr_complete {cache : List Node} (h : CacheInv cache) {n : Node}
    (hn : n ∈ cache) (hstate : n.2.state = .complete) :
    ∃ m, getCacheByIpAddr cache n.2.ipaddress = some m ∧ m.2.state = .complete ∧
      m.2.hw = n.2.hw := by
  cases hget : getCacheByIpAddr cache n.2.ipaddress with
  | none => exact absurd rfl (getCacheByIpAddr_none.1 hget n hn)
  | some m =>
    obtain ⟨hm, hip⟩ := getCacheByIpAddr_some hget
    have hfam : m.2.ipaddress.saFamily = afInet := by
      rw [hip]; exact (h.entry n hn).asked (by simp [hstate])
    obtain ⟨hs, hhw⟩ := h.agree m hm n hn hip hfam
    exact ⟨m, rfl, hs.trans hstate, hhw⟩

/-- Two questions with one fate are answered alike, whatever happens before and after them. -/
theorem agrees_of_sameFate {w : World} (h : (daemon cfg).Reachable (AcceptKernel cfg) w) {k : Conn}
    {m₁ m₂ : List UInt8} (h₁ : ValidAreq m₁) (h₂ : ValidAreq m₂)
    (hfate : SameFate w.cache m₁ m₂) : Agrees cfg w k m₁ m₂ := by
  intro es₀ u env es₁ w₁ w₂ hrun hat hrun₁ hrun₂
  have hu : (daemon cfg).Reachable (AcceptKernel cfg) u := h.trans (.of_guardedRun hrun)
  have hw₁ : (daemon cfg).Reachable (AcceptKernel cfg) w₁ := hu.trans (.of_guardedRun hrun₁)
  have hw₂ : (daemon cfg).Reachable (AcceptKernel cfg) w₂ := hu.trans (.of_guardedRun hrun₂)
  obtain ⟨-, u₁, hs₁, hrest₁⟩ := guardedRun_cons.1 hrun₁
  obtain ⟨-, u₂, hs₂, hrest₂⟩ := guardedRun_cons.1 hrun₂
  have hcons := reachable_consistent hu
  obtain ⟨hq₁, hsays₁⟩ := visit_says hcons hat h₁ hs₁
  obtain ⟨hq₂, hsays₂⟩ := visit_says hcons hat h₂ hs₂
  rcases hfate with hkey | ⟨hport₁, hport₂⟩ | ⟨n₁, hn₁, n₂, hn₂, hc₁, hc₂, hip₁, hip₂, hhw⟩
  · -- one key: the runs differ in the question alone
    obtain ⟨log, rfl, hlog⟩ := visit_key hcons hat h₁ h₂ hkey hs₁ hs₂
    obtain ⟨obs, hlog₁, hset⟩ := guardedRun_log hrest₁
    cases (hset log).symm.trans hrest₂
    rw [hlog₁, World.setLog, answers_append, answers_append, hlog]
  · rw [answers_of_port hw₁ (guardedRun_mem hrest₁ hq₁) hport₁,
      answers_of_port hw₂ (guardedRun_mem hrest₂ hq₂) hport₂]
  · -- both are cached: the visit answers
    have hkeeps := steps_keeps (Steps.of_guardedRun hrun) (reachable_consistent h)
    obtain ⟨x₁, hx₁, hx₁c, hhw₁⟩ := getCacheByIpAddr_complete hcons.cache (hkeeps n₁ hn₁ hc₁) hc₁
    obtain ⟨x₂, hx₂, hx₂c, hhw₂⟩ := getCacheByIpAddr_complete hcons.cache (hkeeps n₂ hn₂ hc₂) hc₂
    have ha₁ := guardedRun_mem hrest₁ (hsays₁ x₁ (hip₁ ▸ hx₁) hx₁c)
    have ha₂ := guardedRun_mem hrest₂ (hsays₂ x₂ (hip₂ ▸ hx₂) hx₂c)
    rw [answers_eq (reachable_sound hw₁) ha₁, answers_eq (reachable_sound hw₂) ha₂, hhw₁, hhw₂, hhw]

/-! ## Quiet sweeps -/

/-- No client is on one of the sockets of the daemon. -/
def Apart (cfg : Config) (w : World) : Prop :=
  ∀ f k, w.fds f = some k → f ≠ cfg.unixDomain ∧ f ≠ cfg.pfSocket

theorem Advance.apart {w w' : World} {e : Event} (h : Advance cfg w e w')
    (hg : AcceptKernel cfg w e) (hw : Apart cfg w) : Apart cfg w' := by
  cases h with
  | moved => exact hw
  | dropped => exact hw
  | refused => exact hw
  | cached => exact hw
  | asked => exact hw
  | removed => exact fun f k hf => hw f k (perform_fds_mono hf)
  | @packet _ _ _ cache =>
    exact fun f k hf => hw f k (performAll_fds_mono (w := { w with cache := cache }) hf)
  | accepted =>
    rcases hg with rfl | ⟨hpos, -, hunix, hpf⟩
    · exact hw
    intro f k hf
    rw [if_pos (Int.le_of_lt hpos)] at hf
    dsimp only at hf
    split at hf
    · rename_i heq; exact heq ▸ ⟨hunix, hpf⟩
    · exact hw f k hf

theorem reachable_apart {w : World} (h : (daemon cfg).Reachable (AcceptKernel cfg) w) :
    Apart cfg w :=
  h.invariant (I := Apart cfg) (fun _ _ hf => by cases hf)
    fun _ _ _ hw hg hs => (step_cases cfg hs).apart hg hw

/-- Of all descriptors only `fd` is readable. -/
def only (fd : Int) : Int → Bool := fun x => x == fd

/-- A sweep past entries that it does not visit. -/
theorem sweep_quiet {w : World} {rset : Int → Bool} (l₁ l₂ l₃ : List Node)
    (hcache : w.cache = l₁ ++ (l₂ ++ l₃)) (hnodup : (addrs w.cache).Nodup)
    (hquiet : ∀ n ∈ l₂, Quiet rset n) :
    (daemon cfg).guardedRun (AcceptKernel cfg) (atHead w rset (l₂ ++ l₃))
      (List.replicate l₂.length .tick) = some (atHead w rset l₃) := by
  induction l₂ generalizing l₁ with
  | nil => rfl
  | cons n l₂ ih =>
    obtain ⟨hn, hrest⟩ := List.forall_mem_cons.1 hquiet
    rw [List.length_cons, List.replicate_succ]
    refine guardedRun_cons.2 ⟨trivial, _, step_quiet hcache hnodup hn, ?_⟩
    exact ih (l₁ ++ [n]) (by rw [hcache]; simp) hrest

/-- The events of a quiet iteration's end, from the last `n` entries of the sweep on, and of a
quiet iteration over `m` entries in which a frame arrives. -/
def deliver (cfg : Config) (n m : Nat) (frame : List UInt8) (env : PacketEnv) : List Event :=
  List.replicate n .tick ++ ([.tick, .tick, .tick, .select (some (only cfg.pfSocket))] ++
    (List.replicate m .tick ++ [.tick, .tick, .packet (some frame) env]))

theorem guardedRun_deliver {w w' : World} {rset : Int → Bool} {l₁ l₂ : List Node}
    {frame : List UInt8} {env : PacketEnv} (hcache : w.cache = l₁ ++ l₂)
    (hnodup : (addrs w.cache).Nodup) (hquiet : ∀ n ∈ l₂, Quiet rset n)
    (hunix : rset cfg.unixDomain = false) (hpf : rset cfg.pfSocket = false)
    (hquiet' : ∀ n ∈ w.cache, Quiet (only cfg.pfSocket) n)
    (hs : stepPacket cfg { w with pc := .packet (only cfg.pfSocket) } frame env = some w') :
    (daemon cfg).guardedRun (AcceptKernel cfg) (atHead w rset l₂)
      (deliver cfg l₂.length w.cache.length frame env) = some w' := by
  have hsweep : (daemon cfg).guardedRun (AcceptKernel cfg) (atHead w rset (l₂ ++ []))
      (List.replicate l₂.length .tick) = some (atHead w rset []) :=
    sweep_quiet l₁ l₂ [] (by simpa using hcache) hnodup hquiet
  have hsweep' : (daemon cfg).guardedRun (AcceptKernel cfg)
      (atHead w (only cfg.pfSocket) (w.cache ++ [])) (List.replicate w.cache.length .tick) =
      some (atHead w (only cfg.pfSocket) []) :=
    sweep_quiet [] w.cache [] (by simp) hnodup hquiet'
  rw [List.append_nil] at hsweep hsweep'
  have hother : only cfg.pfSocket cfg.unixDomain = false := by
    simpa [only] using cfg.sockets_ne
  have hself : only cfg.pfSocket cfg.pfSocket = true := by simp [only]
  refine guardedRun_append hsweep (guardedRun_append (t := atHead w (only cfg.pfSocket) w.cache) ?_
    (guardedRun_append hsweep' ?_))
  · simp only [guardedRun, daemon, step, atHead, AcceptKernel, hunix, hpf, if_true, Option.bind_some,
      List.head?_nil, Option.map_none, Bool.false_eq_true, if_false]
  · simp only [guardedRun, daemon, step, atHead, AcceptKernel, hother, hself, if_true,
      Option.bind_some, List.head?_nil, Option.map_none, Bool.false_eq_true, if_false, hs]

/-! ## Wide replies -/

/-- The data of a reply whose protocol addresses have twelve bytes: the target is all of `key` that
is behind the port. -/
def wideData (key : Sockaddr) : List UInt8 := List.replicate 24 0 ++ key.sinAddrMem

theorem wideData_length (key : Sockaddr) : (wideData key).length = 36 := by
  rw [wideData, List.length_append, List.length_replicate, Sockaddr.sinAddrMem_length]

/-- A reply with this data. -/
def wideReply (key : Sockaddr) : List UInt8 :=
  ethHeader (Buf.zero 6).bytes (Buf.zero 6).bytes ++
    (arpHeader arphrdEther afInet 6 12 arpopReply ++ wideData key)

/-- What `recv_frame` makes of it. -/
def wideArp (key : Sockaddr) : ArpHdr :=
  ⟨arpId, arphrdEther, afInet, 6, 12, arpopReply, .fill arpMaxdatalen (wideData key)⟩

theorem wideData_fits (key : Sockaddr) : (wideData key).length ≤ arpMaxdatalen := by
  rw [wideData_length]; decide

theorem wideArp_read {key : Sockaddr} (off len : Nat) (h : off + len ≤ 36) :
    (wideArp key).data.read off len = some (((wideData key).drop off).take len) :=
  Buf.read_fill (by rw [wideData_length]; exact h) (wideData_fits key)

/-- A key without a port is what `handle_reply` builds from the twelve bytes behind it. -/
theorem write_sinAddrMem {key : Sockaddr} (hport : key.sinPort = .zero 2) :
    (Buf.zero 14).write 2 key.sinAddrMem = some key.saData := by
  have htake : key.saData.bytes.take 2 = [0, 0] := congrArg Buf.bytes hport
  rw [Buf.write_eq_some, Sockaddr.sinAddrMem_length]
  refine ⟨by decide, ?_⟩
  rw [← List.take_append_drop 2 key.saData.bytes, htake]
  exact (List.append_nil _).symm

theorem replyRecord_wide {devices : List HwaInfo} {src : SockaddrLl} {key : Sockaddr} {d : HwaInfo}
    (hfam : key.saFamily = afInet) (hport : key.sinPort = .zero 2)
    (hmac : macByIfindex devices src.sllIfindex = some d.haddrMem) :
    replyRecord devices (wideArp key) src = some (replyHw d src (.zero 6), key) := by
  have htha : (wideArp key).data.read (wideArp key).tha (wideArp key).hardLen.toNat =
      some (Buf.zero 6).bytes := wideArp_read 18 6 (by decide)
  have htpa : (wideArp key).data.read (wideArp key).tpa (wideArp key).protLen.toNat =
      some key.sinAddrMem := by
    refine (wideArp_read 24 12 (by decide)).trans ?_
    rw [wideData, List.drop_left' List.length_replicate, List.take_of_length_le]
    exact Nat.le_of_eq key.sinAddrMem_length
  have haddr : (Buf.zero 8).write 0 (Buf.zero 6).bytes = some (.fill 8 (Buf.zero 6).bytes) :=
    Buf.write_zero (by simp)
  have hlen : (wideArp key).hardLen.toNat ≤ d.haddrMem.length := by
    rw [HwaInfo.haddrMem_length]; exact (by decide : 6 ≤ 8)
  have hifaddr : (Buf.zero 8).write 0 (d.haddrMem.take (wideArp key).hardLen.toNat) =
      some (.fill 8 d.ifHaddr.bytes) := by
    rw [show d.haddrMem.take (wideArp key).hardLen.toNat = d.ifHaddr.bytes from d.haddrMem_take,
      Buf.write_zero]
    simp
  have hkey : (⟨(wideArp key).protType, key.saData⟩ : Sockaddr) = key := by
    rw [show (wideArp key).protType = key.saFamily from hfam.symm]
  simp only [replyRecord, htha, haddr, hmac, if_pos hlen, hifaddr, htpa, write_sinAddrMem hport,
    bind, Option.bind, hkey]
  rfl

/-- A wide reply that arrives on an interface of the host completes the entries of its key. -/
theorem handleFrame_wideReply (cache : List Node) {key : Sockaddr} {env : PacketEnv}
    (hfam : key.saFamily = afInet) (hport : key.sinPort = .zero 2)
    (hdev : ∃ d ∈ cfg.devices, d.ifIndex = env.src.sllIfindex) :
    ∃ new, handleFrame cfg cache (wideReply key) env =
      some (replyLoop key new env.sendOk cache) := by
  obtain ⟨d, -, -, hmac⟩ := macByIfindex_listed hdev
  have hpos : 0 < (wideData key).length := by rw [wideData_length]; decide
  have hlen : 2 * (6 : UInt8).toNat + 2 * (12 : UInt8).toNat ≤ (wideData key).length :=
    Nat.le_of_eq (wideData_length key).symm
  obtain ⟨eh, -, hframe⟩ := handleFrame_of_fits (ethHeader_length (.zero 6) (.zero 6)) (by decide)
    (by decide) (.inr rfl) hpos (wideData_fits key) hlen cfg cache env
  have hdispatch : dispatch cfg cache eh (wideArp key) env =
      handleReply cfg.devices cache (wideArp key) env.src env.sendOk :=
    (if_neg (by exact arpopReply_ne)).trans (if_pos rfl)
  refine ⟨replyHw d env.src (.zero 6), ?_⟩
  rw [handleReply, replyRecord_wide hfam hport hmac] at hdispatch
  exact hframe.trans hdispatch

theorem performAll_log (w : World) (effects : List Effect) :
    ∃ obs, (w.performAll effects).log = obs ++ w.log := by
  obtain ⟨obs, hobs⟩ := w.performAll_setLog effects
  have hself := hobs w.log
  rw [World.setLog_self] at hself
  exact ⟨obs, congrArg World.log hself⟩

/-- A reply answers the client of an entry that waits for it. -/
theorem replyLoop_answers {key : Sockaddr} {new : Hwaddr} {sendOk : Addr → Bool} {n : Node}
    {k : Conn} {ns : List Node} {w : World} (hn : n ∈ ns) (hip : n.2.ipaddress = key)
    (hstate : n.2.state = .incomplete)
    (halone : ∀ m ∈ ns, m ≠ n → n.2.domainSocket ≠ m.2.domainSocket)
    (hk : w.fds n.2.domainSocket = some k) :
    .answered k new (sendOk n.1) ∈ (w.performAll (replyLoop key new sendOk ns).2).log := by
  induction ns generalizing w with
  | nil => cases hn
  | cons m ns ih =>
    obtain ⟨hm, hrest⟩ := List.forall_mem_cons.1 halone
    unfold replyLoop
    dsimp only
    by_cases heq : m = n
    · subst heq
      rw [if_pos ⟨hip, hstate⟩, World.performAll_cons]
      obtain ⟨obs, hobs⟩ := performAll_log (w.perform (.send m.2.domainSocket new (sendOk m.1)))
        (.close m.2.domainSocket :: (replyLoop key new sendOk ns).2)
      rw [hobs]
      exact List.mem_append_right _ (by simp [World.perform, hk])
    · have hmem : n ∈ ns := (List.mem_cons.1 hn).resolve_left (Ne.symm heq)
      split
      · rw [World.performAll_cons, World.performAll_cons]
        refine ih hmem hrest ?_
        rw [perform_close_fds, perform_send_fds, closeFd, if_neg (hm heq), hk]
      · exact ih hmem hrest hk

/-! ## Telling two questions apart -/

/-- The state after the client of the entry at `a` asked a question that was broadcast. -/
def asking (w : World) (a : Addr) (m : List UInt8) (log : List Obs) : World :=
  { w with
    cache := updateAt w.cache a fun c => { c with state := .incomplete, ipaddress := .ofBytes m }
    log := log }

/-- The client sends `m`, and every system call of the visit succeeds. -/
def welcome (m : List UInt8) : AreqEnv := ⟨some m, true, fun _ => true⟩

/-- The client of `k` has not asked yet: its entry `n`, between `l₁` and `l₂`, is the only one on
its descriptor, and no entry that waits for something is on the packet socket. -/
structure Client (cfg : Config) (w : World) (k : Conn) (l₁ : List Node) (n : Node)
    (l₂ : List Node) : Prop where
  cache : w.cache = l₁ ++ n :: l₂
  nodup : (addrs w.cache).Nodup
  state : n.2.state = .connection
  fd : w.fds n.2.domainSocket = some k
  apart : n.2.domainSocket ≠ cfg.unixDomain ∧ n.2.domainSocket ≠ cfg.pfSocket
  alone : ∀ x ∈ w.cache, x ≠ n → n.2.domainSocket ≠ x.2.domainSocket
  quiet : ∀ x ∈ w.cache, Quiet (only cfg.pfSocket) x

theorem quiet_of_ne {fd : Int} {x : Node} (h : x.2.domainSocket ≠ fd) : Quiet (only fd) x :=
  Or.inr (by simpa [only] using h)

theorem Client.of_reachable {w : World} (h : (daemon cfg).Reachable (AcceptKernel cfg) w) {k : Conn}
    {n : Node} (hn : n ∈ w.cache) (hstate : n.2.state = .connection)
    (hk : w.fds n.2.domainSocket = some k) : ∃ l₁ l₂, Client cfg w k l₁ n l₂ := by
  have hfd := reachable_fdInv (reachable_sound h)
  have hapart := reachable_apart h
  obtain ⟨l₁, l₂, hcache⟩ := List.append_of_mem hn
  refine ⟨l₁, l₂, hcache, (reachable_consistent h).cache.nodup, hstate, hk, hapart _ _ hk, ?_, ?_⟩
  · intro x hx hne heq
    exact hne (hfd.distinct n hn x hx (hfd.positive _ _ hk) heq).symm
  · intro x hx
    by_cases hc : x.2.state = .complete
    · exact Or.inl hc
    refine quiet_of_ne ?_
    by_cases hpos : 0 < x.2.domainSocket
    · obtain ⟨-, j, hj⟩ := hfd.live x hx hpos
      exact (hapart _ _ hj).2
    · have hopen := cfg.pfSocket_open
      rw [hfd.idle x hx hc (Int.not_lt.1 hpos)]
      omega

namespace Client

variable {w : World} {k : Conn} {n : Node} {l₁ l₂ : List Node} {m : List UInt8}

theorem mem (h : Client cfg w k l₁ n l₂) : n ∈ w.cache := by rw [h.cache]; simp

theorem quiet_others (h : Client cfg w k l₁ n l₂) :
    ∀ x ∈ l₁ ++ l₂, Quiet (only n.2.domainSocket) x := by
  intro x hx
  have hnodup := h.nodup
  rw [h.cache, addrs_append, addrs_cons, List.nodup_middle, List.nodup_cons, ← addrs_append] at hnodup
  have hne : x ≠ n := by
    rintro rfl
    exact hnodup.1 (List.mem_map_of_mem hx)
  refine quiet_of_ne (Ne.symm (h.alone x ?_ hne))
  rw [h.cache]
  exact (List.mem_append.1 hx).elim (List.mem_append_left _)
    fun hx => List.mem_append_right _ (List.mem_cons_of_mem _ hx)

/-- The iteration in which only the client is readable gets to its entry. -/
theorem reach (h : Client cfg w k l₁ n l₂) (hpc : w.pc = .select) :
    (daemon cfg).guardedRun (AcceptKernel cfg) w
      (.select (some (only n.2.domainSocket)) :: List.replicate l₁.length .tick) =
      some (atHead w (only n.2.domainSocket) (n :: l₂)) := by
  have hstart : step cfg w (.select (some (only n.2.domainSocket))) =
      some (atHead w (only n.2.domainSocket) (l₁ ++ n :: l₂)) := by
    rw [← h.cache]
    unfold step
    rw [hpc]
    rfl
  exact guardedRun_cons.2 ⟨trivial, _, hstart, sweep_quiet [] l₁ (n :: l₂) h.cache h.nodup
    fun x hx => h.quiet_others x (List.mem_append_left _ hx)⟩

/-- The visit of a client whose question has to be broadcast. -/
theorem miss (h : Client cfg w k l₁ n l₂) (hm : ValidAreq m)
    (hmiss : ∀ x, getCacheByIpAddr w.cache (.ofBytes m) = some x → x.2.state ≠ .complete) :
    ∃ log, .received k m ∈ log ∧
      step cfg (atHead w (only n.2.domainSocket) (n :: l₂)) (.areq (welcome m)) =
        some (atHead (asking w n.1 m log) (only n.2.domainSocket) l₂) := by
  have hnodup := h.nodup
  have hnext : nextOf w.cache n.1 = l₂.head?.map Prod.fst := by
    rw [h.cache] at hnodup ⊢
    exact nextOf_middle hnodup
  obtain ⟨effects, hrun⟩ : ∃ effects,
      broadcast (.ofBytes m) (fun _ => true) cfg.devices 0 = some (true, effects) :=
    broadcast_ok (.ofBytes m) (fun _ => rfl) cfg.devices 0
  have hframes : ∀ e ∈ effects, e.IsFrame := by
    obtain ⟨rv, effects', hrun', hall⟩ := broadcast_spec (.ofBytes m) (fun _ => true) cfg.devices 0
    cases hrun.symm.trans hrun'
    intro e he
    obtain ⟨d, -, rfl⟩ := hall e he
    exact ⟨_, _, rfl⟩
  have hasked : handleAreq cfg.devices w.cache n.1 n.2 (welcome m) = _ :=
    handleAreq_miss h.state rfl hm hmiss
  rw [show (welcome m).sendtoOk = fun _ => true from rfl, hrun, Option.map_some] at hasked
  have hvisit : step cfg (atHead w (only n.2.domainSocket) (n :: l₂)) (.areq (welcome m)) = _ :=
    step_areq (atHead w _ (n :: l₂)) rfl (entryAt_of_mem hnodup h.mem) h.state h.fd (welcome m)
  have hready : ¬only n.2.domainSocket n.2.domainSocket = false := by simp [only]
  rw [if_neg hready, show (atHead w (only n.2.domainSocket) (n :: l₂)).cache = w.cache from rfl,
    hasked, Option.map_some] at hvisit
  obtain ⟨obs, -, hobs⟩ := World.performAll_frames
    (asking (atHead w (only n.2.domainSocket) (n :: l₂)) n.1 m (.received k m :: w.log)) effects
    hframes
  refine ⟨obs ++ .received k m :: w.log, by simp, hvisit.trans ?_⟩
  simp only [asking, atHead] at hobs
  simp only [afterAreq, asking, atHead, World.performAll_cons, World.perform, h.fd, if_true, hnext,
    hobs]

theorem hit (h : Client cfg w k l₁ n l₂) (hm : ValidAreq m) {x : Node}
    (hx : getCacheByIpAddr w.cache (.ofBytes m) = some x) (hstate : x.2.state = .complete) :
    ∃ w', step cfg (atHead w (only n.2.domainSocket) (n :: l₂)) (.areq (welcome m)) = some w' ∧
      w'.cache = w.cache ∧ .received k m ∈ w'.log ∧ .answered k x.2.hw true ∈ w'.log := by
  have hvisit : step cfg (atHead w (only n.2.domainSocket) (n :: l₂)) (.areq (welcome m)) = _ :=
    step_areq (atHead w _ (n :: l₂)) rfl (entryAt_of_mem h.nodup h.mem) h.state h.fd (welcome m)
  have hready : ¬only n.2.domainSocket n.2.domainSocket = false := by simp [only]
  have hcached : handleAreq cfg.devices w.cache n.1 n.2 (welcome m) = _ :=
    handleAreq_hit h.state rfl hm hx hstate
  rw [if_neg hready, show (atHead w (only n.2.domainSocket) (n :: l₂)).cache = w.cache from rfl,
    hcached, Option.map_some] at hvisit
  refine ⟨_, hvisit, ?_, ?_, ?_⟩ <;> simp [afterAreq, World.perform, atHead, h.fd, welcome]

/-- After the visit of a client the complete entries are those from before it. -/
theorem visit (h : Client cfg w k l₁ n l₂) (hm : ValidAreq m) :
    ∃ w', step cfg (atHead w (only n.2.domainSocket) (n :: l₂)) (.areq (welcome m)) = some w' ∧
      .received k m ∈ w'.log ∧ ∀ x ∈ w'.cache, x.2.state = .complete → x ∈ w.cache := by
  by_cases hhit : ∃ x, getCacheByIpAddr w.cache (.ofBytes m) = some x ∧ x.2.state = .complete
  · obtain ⟨x, hx, hs⟩ := hhit
    obtain ⟨w', hstep, hcache, hq, -⟩ := h.hit hm hx hs
    exact ⟨w', hstep, hq, fun y hy _ => hcache ▸ hy⟩
  · obtain ⟨log, hq, hstep⟩ := h.miss hm fun x hx hs => hhit ⟨x, hx, hs⟩
    exact ⟨_, hstep, hq, fun y hy hs => mem_of_asked hy hs⟩

/-- A client that asked is answered by the wide reply for its key, and no other key is. -/
theorem wait (h : Client cfg w k l₁ n l₂) (hm : ValidAreq m)
    (hmiss : ¬Cached w.cache (.ofBytes m)) {key : Sockaddr}
    (hfam : key.saFamily = afInet) (hport : key.sinPort = .zero 2) {env : PacketEnv}
    (hdev : ∃ d ∈ cfg.devices, d.ifIndex = env.src.sllIfindex) :
    ∃ w', (daemon cfg).guardedRun (AcceptKernel cfg) (atHead w (only n.2.domainSocket) (n :: l₂))
        (.areq (welcome m) :: deliver cfg l₂.length w.cache.length (wideReply key) env) = some w' ∧
      .received k m ∈ w'.log ∧
      (∀ x ∈ w'.cache, x.2.state = .complete → x.2.ipaddress = key ∨ x ∈ w.cache) ∧
      (.ofBytes m = key → ∃ hw ok, .answered k hw ok ∈ w'.log) := by
  obtain ⟨log, hq, hvisit⟩ := h.miss hm fun x hx hs =>
    hmiss ⟨x, (getCacheByIpAddr_some hx).1, hs, (getCacheByIpAddr_some hx).2⟩
  -- the entry of the client waits, and every other entry is as it was
  obtain ⟨conn, hconn⟩ : ∃ conn : Cache,
      conn = { n.2 with state := .incomplete, ipaddress := .ofBytes m } := ⟨_, rfl⟩
  have hcache : (asking w n.1 m log).cache = (l₁ ++ [(n.1, conn)]) ++ l₂ := by
    have hupd := updateAt_middle
      (f := fun c => { c with state := .incomplete, ipaddress := .ofBytes m }) (h.cache ▸ h.nodup)
    rw [hconn, List.append_assoc, List.singleton_append, ← hupd, ← h.cache]
    rfl
  have hcases : ∀ x ∈ (asking w n.1 m log).cache, x = (n.1, conn) ∨ (x ∈ w.cache ∧ x ≠ n) := by
    intro x hx
    rcases (mem_updateAt (f := fun c => { c with state := .incomplete, ipaddress := .ofBytes m })).1
      hx with ⟨hx, hne⟩ | ⟨d, hd, rfl⟩
    · exact Or.inr ⟨hx, fun heq => hne (congrArg Prod.fst heq)⟩
    · cases entry_unique h.nodup h.mem hd
      exact Or.inl (by rw [hconn])
  have hnodup : (addrs (asking w n.1 m log).cache).Nodup := by
    rw [asking, addrs_updateAt]; exact h.nodup
  have hlen : (asking w n.1 m log).cache.length = w.cache.length := by
    simp [asking, updateAt]
  have hquiet : ∀ x ∈ (asking w n.1 m log).cache, Quiet (only cfg.pfSocket) x := by
    intro x hx
    rcases hcases x hx with rfl | ⟨hx, -⟩
    · exact quiet_of_ne (by rw [hconn]; exact h.apart.2)
    · exact h.quiet x hx
  -- the reply
  obtain ⟨new, hframe⟩ := handleFrame_wideReply (asking w n.1 m log).cache hfam hport hdev
  have hpacket : ∃ w', stepPacket cfg { asking w n.1 m log with pc := .packet (only cfg.pfSocket) }
      (wideReply key) env = some w' ∧
      w'.cache = (replyLoop key new env.sendOk (asking w n.1 m log).cache).1 ∧
      ∃ v : World, v.fds = w.fds ∧ v.log = log ∧
        w'.log = (v.performAll (replyLoop key new env.sendOk (asking w n.1 m log).cache).2).log := by
    simp only [stepPacket, hframe, bind, Option.bind]
    refine ⟨_, rfl, ?_, _, ?_, ?_, rfl⟩
    · rw [World.performAll_cache]
    · rfl
    · rfl
  obtain ⟨w', hs, hcache', v, hvfds, hvlog, hlog⟩ := hpacket
  have hrun := guardedRun_deliver hcache hnodup
    (fun x hx => h.quiet_others x (List.mem_append_right _ hx))
    (by simpa [only] using h.apart.1.symm) (by simpa [only] using h.apart.2.symm) hquiet hs
  rw [hlen] at hrun
  refine ⟨w', guardedRun_cons.2 ⟨trivial, _, hvisit, hrun⟩, ?_, ?_, ?_⟩
  · obtain ⟨obs, hobs⟩ := performAll_log v
      (replyLoop key new env.sendOk (asking w n.1 m log).cache).2
    rw [hlog, hobs, hvlog]
    exact List.mem_append_right _ hq
  · intro x hx hs
    rw [hcache', replyLoop_fst, List.mem_map] at hx
    obtain ⟨y, hy, rfl⟩ := hx
    unfold completeNode at hs ⊢
    split
    · rename_i hmatch
      exact Or.inl hmatch.1
    · rename_i hno
      rw [if_neg hno] at hs
      rcases hcases y hy with rfl | ⟨hy, -⟩
      · rw [hconn] at hs; cases hs
      · exact Or.inr hy
  · rintro rfl
    refine ⟨new, env.sendOk n.1, ?_⟩
    rw [hlog]
    refine replyLoop_answers (n := (n.1, conn)) (by rw [hcache]; simp) (by rw [hconn]) (by rw [hconn])
      ?_ (by rw [hvfds, hconn]; exact h.fd)
    intro x hx hne
    rw [hconn]
    rcases hcases x hx with rfl | ⟨hx, hxn⟩
    · exact absurd rfl hne
    · exact h.alone x hx hxn

end Client

/-- An entry of the cache holds the connection `k`, whose client has not asked. -/
def Connected (w : World) (k : Conn) : Prop :=
  ∃ n ∈ w.cache, n.2.state = .connection ∧ w.fds n.2.domainSocket = some k

theorem Agrees.symm {w : World} {k : Conn} {m₁ m₂ : List UInt8} (h : Agrees cfg w k m₁ m₂) :
    Agrees cfg w k m₂ m₁ :=
  fun es₀ u env es₁ w₁ w₂ hrun hat h₁ h₂ => (h es₀ u env es₁ w₂ w₁ hrun hat h₂ h₁).symm

theorem SameFate.symm {cache : List Node} {m₁ m₂ : List UInt8} (h : SameFate cache m₁ m₂) :
    SameFate cache m₂ m₁ := by
  rcases h with hkey | ⟨hport₁, hport₂⟩ | ⟨n₁, hn₁, n₂, hn₂, hc₁, hc₂, hip₁, hip₂, hhw⟩
  · exact Or.inl hkey.symm
  · exact Or.inr (Or.inl ⟨hport₂, hport₁⟩)
  · exact Or.inr (Or.inr ⟨n₂, hn₂, n₁, hn₁, hc₂, hc₁, hip₂, hip₁, hhw.symm⟩)

/-- How a frame arrives on an interface. -/
def arrival (index : Int) : PacketEnv :=
  ⟨⟨index, 0, 0, .zero 8⟩, ⟨.zero 4, true, 0⟩, fun _ => true⟩

section Agree

variable {w w₁ w₂ : World} {k : Conn} {l₁ l₂ : List Node} {n : Node} {m₁ m₂ : List UInt8}
  {es : List Event}

/-- In runs that agree, what the first client is told is on record for the second. -/
theorem Agrees.told (hagree : Agrees cfg w k m₁ m₂)
    (h : (daemon cfg).Reachable (AcceptKernel cfg) w) (hpc : w.pc = .select)
    (hclient : Client cfg w k l₁ n l₂)
    (hrun₁ : (daemon cfg).guardedRun (AcceptKernel cfg) (atHead w (only n.2.domainSocket) (n :: l₂))
      (.areq (welcome m₁) :: es) = some w₁)
    (hrun₂ : (daemon cfg).guardedRun (AcceptKernel cfg) (atHead w (only n.2.domainSocket) (n :: l₂))
      (.areq (welcome m₂) :: es) = some w₂)
    {hw : Hwaddr} {ok : Bool} (ha : .answered k hw ok ∈ w₁.log) (hq : .received k m₂ ∈ w₂.log) :
    ∃ x ∈ w₂.cache, x.2.state = .complete ∧ x.2.ipaddress = .ofBytes m₂ ∧ x.2.hw = hw := by
  have hreach := hclient.reach hpc
  have hat : AtClient (atHead w (only n.2.domainSocket) (n :: l₂)) k :=
    ⟨only n.2.domainSocket, n.1, n.2, rfl, hclient.mem, hclient.state, hclient.fd⟩
  have hsame := hagree _ _ (welcome []) es w₁ w₂ hreach hat hrun₁ hrun₂
  have ha₂ : .answered k hw ok ∈ answers k w₂.log := hsame ▸ answered_mem_answers ha
  have hw₂ := reachable_sound ((h.trans (.of_guardedRun hreach)).trans (.of_guardedRun hrun₂))
  exact answered_for hw₂ hq (List.mem_of_mem_filter ha₂)

/-- When the first question is cached, so is the second, and alike. -/
theorem Agrees.of_cached (hagree : Agrees cfg w k m₁ m₂)
    (h : (daemon cfg).Reachable (AcceptKernel cfg) w) (hpc : w.pc = .select)
    (hclient : Client cfg w k l₁ n l₂) (h₁ : ValidAreq m₁) (h₂ : ValidAreq m₂)
    (hcached : Cached w.cache (.ofBytes m₁)) : SameFate w.cache m₁ m₂ := by
  obtain ⟨x, hx, hs, hip⟩ := hcached
  obtain ⟨y, hget, hys, hhw⟩ := getCacheByIpAddr_complete (reachable_consistent h).cache hx hs
  obtain ⟨u₁, hs₁, -, -, ha₁⟩ := hclient.hit h₁ (hip ▸ hget) hys
  obtain ⟨u₂, hs₂, hq₂, hold⟩ := hclient.visit h₂
  have hrun₁ : (daemon cfg).guardedRun (AcceptKernel cfg)
      (atHead w (only n.2.domainSocket) (n :: l₂)) [.areq (welcome m₁)] = some u₁ :=
    guardedRun_cons.2 ⟨trivial, _, hs₁, rfl⟩
  have hrun₂ : (daemon cfg).guardedRun (AcceptKernel cfg)
      (atHead w (only n.2.domainSocket) (n :: l₂)) [.areq (welcome m₂)] = some u₂ :=
    guardedRun_cons.2 ⟨trivial, _, hs₂, rfl⟩
  obtain ⟨z, hz, hzs, hzip, hzhw⟩ := hagree.told h hpc hclient hrun₁ hrun₂ ha₁ hq₂
  exact Or.inr (Or.inr ⟨x, hx, z, hold z hz hzs, hs, hzs, hip, hzip, by rw [hzhw, hhw]⟩)

/-- When neither question is cached and the first has no port, the two are one. -/
theorem Agrees.of_port (hagree : Agrees cfg w k m₁ m₂)
    (h : (daemon cfg).Reachable (AcceptKernel cfg) w) (hpc : w.pc = .select)
    (hclient : Client cfg w k l₁ n l₂) (h₁ : ValidAreq m₁) (h₂ : ValidAreq m₂)
    (hmiss₁ : ¬Cached w.cache (.ofBytes m₁)) (hmiss₂ : ¬Cached w.cache (.ofBytes m₂))
    (hport : (Sockaddr.ofBytes m₁).sinPort = .zero 2) : SameFate w.cache m₁ m₂ := by
  obtain ⟨d, hd⟩ := List.exists_mem_of_ne_nil _ cfg.devices_ne
  have hdev : ∃ d' ∈ cfg.devices, d'.ifIndex = (arrival d.ifIndex).src.sllIfindex := ⟨d, hd, rfl⟩
  obtain ⟨w₁, hrun₁, -, -, hanswer⟩ := hclient.wait h₁ hmiss₁ h₁.2 hport hdev
  obtain ⟨w₂, hrun₂, hq₂, hold, -⟩ := hclient.wait h₂ hmiss₂ h₁.2 hport hdev
  obtain ⟨hw, ok, ha₁⟩ := hanswer rfl
  obtain ⟨z, hz, hzs, hzip, -⟩ := hagree.told h hpc hclient hrun₁ hrun₂ ha₁ hq₂
  rcases hold z hz hzs with hkey | hmem
  · exact Or.inl (hkey.symm.trans hzip)
  · exact absurd ⟨z, hmem, hzs, hzip⟩ hmiss₂

/-- Questions that are not told apart have one fate. -/
theorem sameFate_of_agrees (hagree : Agrees cfg w k m₁ m₂)
    (h : (daemon cfg).Reachable (AcceptKernel cfg) w) (hpc : w.pc = .select)
    (hconn : Connected w k) (h₁ : ValidAreq m₁) (h₂ : ValidAreq m₂) :
    SameFate w.cache m₁ m₂ := by
  obtain ⟨n, hn, hstate, hk⟩ := hconn
  obtain ⟨l₁, l₂, hclient⟩ := Client.of_reachable h hn hstate hk
  by_cases hmiss₁ : Cached w.cache (.ofBytes m₁)
  · exact hagree.of_cached h hpc hclient h₁ h₂ hmiss₁
  by_cases hmiss₂ : Cached w.cache (.ofBytes m₂)
  · exact (hagree.symm.of_cached h hpc hclient h₂ h₁ hmiss₂).symm
  by_cases hport₁ : (Sockaddr.ofBytes m₁).sinPort = .zero 2
  · exact hagree.of_port h hpc hclient h₁ h₂ hmiss₁ hmiss₂ hport₁
  by_cases hport₂ : (Sockaddr.ofBytes m₂).sinPort = .zero 2
  · exact (hagree.symm.of_port h hpc hclient h₂ h₁ hmiss₂ hmiss₁ hport₂).symm
  · exact Or.inr (Or.inl ⟨hport₁, hport₂⟩)

end Agree

/-- **What resolution depends on.** In every reachable state two questions with one fate are
answered alike in every continuation, and while the daemon waits in `select` for a client that is
connected, these are the only ones. -/
theorem agree_iff {w : World} (h : (daemon cfg).Reachable (AcceptKernel cfg) w) (k : Conn)
    {m₁ m₂ : List UInt8} (h₁ : ValidAreq m₁) (h₂ : ValidAreq m₂) :
    (SameFate w.cache m₁ m₂ → Agrees cfg w k m₁ m₂) ∧
    (w.pc = .select → Connected w k → (Agrees cfg w k m₁ m₂ ↔ SameFate w.cache m₁ m₂)) :=
  ⟨agrees_of_sameFate h h₁ h₂, fun hpc hconn =>
    ⟨fun hagree => sameFate_of_agrees hagree h hpc hconn h₁ h₂, agrees_of_sameFate h h₁ h₂⟩⟩

/-- A question for 10.0.0.2 with this low byte of the port. -/
def questionFrom (port : UInt8) : List UInt8 :=
  [2, 0, 0, port, 10, 0, 0, 2] ++ List.replicate 12 0

/-- The questions from the ports 80 and 81 have one fate, and those from 0 and 80 have it only if
they are answered alike. -/
theorem agree_iff_twoClients : ∃ w,
    (daemon loneHost).guardedRun (AcceptKernel loneHost) .init twoClients = some w ∧
    Agrees loneHost w 0 (questionFrom 80) (questionFrom 81) ∧
    (Agrees loneHost w 0 (questionFrom 0) (questionFrom 80) ↔
      SameFate w.cache (questionFrom 0) (questionFrom 80)) :=
  ⟨_, rfl,
    (@agree_iff loneHost _ (.of_guardedRun twoClients rfl) 0 (questionFrom 80) (questionFrom 81)
      ⟨rfl, rfl⟩ ⟨rfl, rfl⟩).1
      (Or.inr (Or.inl ⟨by decide, by decide⟩)),
    (@agree_iff loneHost _ (.of_guardedRun twoClients rfl) 0 (questionFrom 0) (questionFrom 80)
      ⟨rfl, rfl⟩ ⟨rfl, rfl⟩).2 rfl
      ⟨(100, freshEntry 5), by decide, rfl, rfl⟩⟩

/-- A client that names its port waits for ever: the reply for its address answers the same
question without a port and not its own. -/
theorem port_tells_apart :
    ¬∀ (cfg : Config) (w : World), (daemon cfg).Reachable (AcceptKernel cfg) w →
      ∀ (k : Conn) (m₁ m₂ : List UInt8), ValidAreq m₁ → ValidAreq m₂ →
        (Sockaddr.ofBytes m₁).sinAddr = (Sockaddr.ofBytes m₂).sinAddr → Agrees cfg w k m₁ m₂ := by
  intro h
  have hagree := h loneHost _ (.of_guardedRun twoClients rfl) 0 (questionFrom 0)
    (questionFrom 80) ⟨rfl, rfl⟩ ⟨rfl, rfl⟩ (by decide)
  have hsame := hagree [readable [5], .tick] _ (welcome [])
    [.tick, .tick, .tick, readable [4], .tick, .tick, .tick, .tick,
      .packet (some replyFrame) fromTwo] _ _ rfl
    ⟨_, 100, freshEntry 5, rfl, by decide, rfl, rfl⟩ rfl rfl
  exact absurd (congrArg List.length hsame) (by decide)

end Tour
