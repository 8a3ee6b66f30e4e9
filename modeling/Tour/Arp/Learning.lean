import Tour.Arp.Consistency
import Tour.Arp.Ether

/-!
# What the two handlers learn

A reply resolves the clients that wait for its address, and nothing else (`reply_resolves`): the
loop of `handle_reply` over an arbitrary cache, with its sends in the order of the list. A neighbour
is learnt in two ways, from its reply and from its own request, and the two records of it are
compared field by field (`learning_disagrees`).
-/

namespace Tour

open Lib

/-- An entry whose client waits for the address `ip`. -/
def Waiting (ip : InAddr) (n : Node) : Prop :=
  n.2.ipaddress = etherIp ip ∧ n.2.state = .incomplete

instance (ip : InAddr) (n : Node) : Decidable (Waiting ip n) := instDecidableAnd

/-! ## The loop of `handle_reply` -/

section Loop

variable (ip : InAddr) (new : Hwaddr) (sendOk : Addr → Bool) (cache : List Node)

/-- What the loop leaves. -/
theorem replyLoop_cache : (replyLoop (etherIp ip) new sendOk cache).1 =
    cache.map fun n => if Waiting ip n then (n.1, ⟨n.2.ipaddress, -1, .complete, new⟩) else n :=
  replyLoop_fst

/-- What the loop does: one send and one close for each waiting client. -/
theorem replyLoop_effects : (replyLoop (etherIp ip) new sendOk cache).2 =
    cache.flatMap fun n => if Waiting ip n then
      [.send n.2.domainSocket new (sendOk n.1), .close n.2.domainSocket] else [] := by
  induction cache with
  | nil => rfl
  | cons n cache ih =>
    rw [List.flatMap_cons, ← ih]
    by_cases hn : Waiting ip n
    · simp only [if_pos hn, replyLoop, if_pos (show n.2.ipaddress = _ ∧ _ from hn)]
      rfl
    · simp only [if_neg hn, replyLoop, if_neg (show ¬(n.2.ipaddress = _ ∧ _) from hn)]
      rfl

variable {ip new sendOk cache}

/-- A loop that finds nobody waiting changes nothing and sends nothing. -/
theorem replyLoop_idle (h : ∀ n ∈ cache, ¬Waiting ip n) :
    replyLoop (etherIp ip) new sendOk cache = (cache, []) := by
  apply Prod.ext
  · rw [replyLoop_cache]
    refine (List.map_congr_left fun n hn => if_neg (h n hn)).trans ?_
    exact List.map_id cache
  · rw [replyLoop_effects, List.flatMap_eq_nil_iff]
    exact fun n hn => if_neg (h n hn)

/-- After the loop nobody waits. -/
theorem replyLoop_settles : ∀ n ∈ (replyLoop (etherIp ip) new sendOk cache).1, ¬Waiting ip n := by
  rw [replyLoop_cache, List.forall_mem_map]
  intro n _
  split
  · rintro ⟨-, hstate⟩
    cases hstate
  · assumption

end Loop

/-! ## `handle_reply` -/

/-- A reply that answers 10.0.0.2 with its hardware address. -/
def replyAboutTwo : ArpHdr := etherArp arpopReply (hostMac 1) (hostIp 1) (hostMac 2) (hostIp 2)

/-- A frame from 10.0.0.2, on the interface of `loneHost`. -/
def linkFromTwo : SockaddrLl := ⟨2, arphrdEther, 6, .fill 8 (hostMac 2).bytes⟩

/-- A client that waits for 10.0.0.2, on descriptor 5. -/
def waitsForTwo : Node := (100, ⟨etherIp (hostIp 2), 5, .incomplete, .zero⟩)

theorem loneHost_listed : ∃ d ∈ loneHost.devices, d.ifIndex = linkFromTwo.sllIfindex :=
  ⟨_, List.mem_singleton_self _, rfl⟩

section Reply

variable {arp : ArpHdr} {devices : List HwaInfo} {src : SockaddrLl}

theorem handleReply_isEther (h : arp.IsEther) {d : HwaInfo}
    (hmac : macByIfindex devices src.sllIfindex = some d.haddrMem) (cache : List Node)
    (sendOk : Addr → Bool) :
    handleReply devices cache arp src sendOk =
      some (replyLoop (etherIp arp.targetPro) (replyHw d src arp.targetHw) sendOk cache) := by
  simp only [handleReply, h.replyRecord hmac, bind, Option.bind]

/-- **`handle_reply` resolves exactly the waiting clients.** Whatever the cache holds and whether or
not the sends succeed: every waiting entry is complete afterwards, with the record built from the
reply, and its client was sent that record once and closed; all the others are as they were, in the
same places. When nobody waits nothing happens, and so nothing happens on a second reply about the
same address, whatever it says. -/
theorem reply_resolves (h : arp.IsEther) (hlisted : ∃ d ∈ devices, d.ifIndex = src.sllIfindex)
    (cache : List Node) (sendOk : Addr → Bool) :
    ∃ d ∈ devices, d.ifIndex = src.sllIfindex ∧ ∃ cache' effects,
      handleReply devices cache arp src sendOk = some (cache', effects) ∧
      (cache' = cache.map fun n => if Waiting arp.targetPro n then
        (n.1, ⟨n.2.ipaddress, -1, .complete, replyHw d src arp.targetHw⟩) else n) ∧
      (effects = cache.flatMap fun n => if Waiting arp.targetPro n then
        [.send n.2.domainSocket (replyHw d src arp.targetHw) (sendOk n.1),
          .close n.2.domainSocket] else []) ∧
      ((∀ n ∈ cache, ¬Waiting arp.targetPro n) → cache' = cache ∧ effects = []) ∧
      ∀ (arp₂ : ArpHdr) (src₂ : SockaddrLl) (sendOk₂ : Addr → Bool), arp₂.IsEther →
        arp₂.targetPro = arp.targetPro → (∃ d ∈ devices, d.ifIndex = src₂.sllIfindex) →
        handleReply devices cache' arp₂ src₂ sendOk₂ = some (cache', []) := by
  obtain ⟨d, hd, hi, hmac⟩ := macByIfindex_listed hlisted
  refine ⟨d, hd, hi, _, _, handleReply_isEther h hmac cache sendOk, replyLoop_cache ..,
    replyLoop_effects .., fun hidle => ?_, ?_⟩
  · rw [replyLoop_idle hidle]
    exact ⟨rfl, rfl⟩
  · intro arp₂ src₂ sendOk₂ h₂ hip hlisted₂
    obtain ⟨d₂, -, -, hmac₂⟩ := macByIfindex_listed hlisted₂
    rw [handleReply_isEther h₂ hmac₂, hip, replyLoop_idle replyLoop_settles]

/-- The client of `loneHost` that waits is told, although the send fails. -/
theorem reply_resolves_lone : ∃ hw,
    handleReply loneHost.devices [waitsForTwo] replyAboutTwo linkFromTwo (fun _ => false) =
      some ([(100, ⟨etherIp (hostIp 2), -1, .complete, hw⟩)], [.send 5 hw false, .close 5]) := by
  obtain ⟨d, -, -, cache', effects, h, hcache, heffects, -⟩ :=
    reply_resolves (isEther_etherArp arpopReply (hostMac 1) (hostIp 1) (hostMac 2) (hostIp 2))
      loneHost_listed [waitsForTwo] fun _ => false
  have hwaits : Waiting (etherArp arpopReply (hostMac 1) (hostIp 1) (hostMac 2)
      (hostIp 2)).targetPro waitsForTwo := by
    rw [targetPro_etherArp]
    exact ⟨rfl, rfl⟩
  rw [List.map_singleton, if_pos hwaits] at hcache
  rw [List.flatMap_singleton, if_pos hwaits] at heffects
  exact ⟨_, h.trans (by rw [hcache, heffects]; rfl)⟩

end Reply

/-! ## The record of a neighbour -/

/-- `handle_req` stores `hw` for the address `ip`. -/
def StoresReverse (devices : List HwaInfo) (cache : List Node) (eh : Buf ethHlen) (arp : ArpHdr)
    (src : SockaddrLl) (env : ReqEnv) (ip : InAddr) (hw : Hwaddr) : Prop :=
  ∃ effects, handleReq devices cache eh arp src env =
    some (addToCache cache (env.fresh, ⟨etherIp ip, 0, .complete, hw⟩), effects)

/-- `handle_reply` stores `hw` for the address `ip` in the waiting entry `n`, and sends it to the
client. -/
def ResolvesWith (devices : List HwaInfo) (cache : List Node) (arp : ArpHdr) (src : SockaddrLl)
    (sendOk : Addr → Bool) (ip : InAddr) (n : Node) (hw : Hwaddr) : Prop :=
  ∃ cache' effects, handleReply devices cache arp src sendOk = some (cache', effects) ∧
    (n.1, ⟨etherIp ip, -1, .complete, hw⟩) ∈ cache' ∧
    .send n.2.domainSocket hw (sendOk n.1) ∈ effects

section Record

variable {devices : List HwaInfo} {ip : InAddr} {mac : Buf 6}

/-- A request from the neighbour `ip` with the address `mac`, for an address of this host. -/
structure RequestFrom (devices : List HwaInfo) (ip : InAddr) (mac : Buf 6) (eh : Buf ethHlen)
    (arp : ArpHdr) (src : SockaddrLl) : Prop where
  ether : arp.IsEther
  source : ∃ dst : Buf 6, eh.bytes = ethHeader dst.bytes mac.bytes
  sender : arp.senderPro = ip
  target : ∃ this, isDestination devices arp.targetPro = some this
  hatype : src.sllHatype = arphrdEther
  halen : src.sllHalen = 6
  addr : src.sllAddr.bytes.take 6 = mac.bytes
  listed : ∃ d ∈ devices, d.ifIndex = src.sllIfindex

/-- A reply that answers `ip` with `mac`. -/
structure ReplyAbout (devices : List HwaInfo) (ip : InAddr) (mac : Buf 6) (arp : ArpHdr)
    (src : SockaddrLl) : Prop where
  ether : arp.IsEther
  target : arp.targetPro = ip
  targetHw : arp.targetHw = mac
  listed : ∃ d ∈ devices, d.ifIndex = src.sllIfindex

theorem RequestFrom.stores {cache : List Node} {eh : Buf ethHlen} {arp : ArpHdr}
    {src : SockaddrLl} (h : RequestFrom devices ip mac eh arp src) (env : ReqEnv) {d : HwaInfo}
    (hmac : macByIfindex devices src.sllIfindex = some d.haddrMem)
    (hmiss : getCacheByIpAddr cache (etherIp ip) = none) :
    StoresReverse devices cache eh arp src env ip
      ⟨src.sllIfindex, arphrdEther, 6, .fill 8 d.ifHaddr.bytes, arphrdEther, 6,
        .fill 8 mac.bytes⟩ := by
  obtain ⟨dst, heh⟩ := h.source
  obtain ⟨this, hdest⟩ := h.target
  have hhalen : src.sllHalen.toNat ≤ 8 := by rw [h.halen]; decide
  have haddr : src.sllAddr.bytes.take src.sllHalen.toNat = mac.bytes := by
    rw [h.halen]
    exact h.addr
  have hrecord : reverseHw d src (.fill 8 (src.sllAddr.bytes.take src.sllHalen.toNat)) =
      ⟨src.sllIfindex, arphrdEther, 6, .fill 8 d.ifHaddr.bytes, arphrdEther, 6,
        .fill 8 mac.bytes⟩ := by
    rw [reverseHw, haddr, h.hatype, h.halen]
  rw [StoresReverse, h.ether.handleReq heh hdest hmac hhalen, h.sender, hmiss, hrecord]
  exact ⟨_, rfl⟩

theorem ReplyAbout.resolves {cache : List Node} {arp : ArpHdr} {src : SockaddrLl}
    (h : ReplyAbout devices ip mac arp src) (sendOk : Addr → Bool) {d : HwaInfo}
    (hmac : macByIfindex devices src.sllIfindex = some d.haddrMem) {n : Node} (hn : n ∈ cache)
    (hwaits : Waiting ip n) :
    ResolvesWith devices cache arp src sendOk ip n (replyHw d src mac) := by
  refine ⟨_, _, handleReply_isEther h.ether hmac cache sendOk, ?_, ?_⟩
  · rw [h.target, h.targetHw, replyLoop_cache, List.mem_map]
    refine ⟨n, hn, ?_⟩
    rw [if_pos hwaits, hwaits.1]
  · rw [h.target, h.targetHw, replyLoop_effects, List.mem_flatMap]
    refine ⟨n, hn, ?_⟩
    rw [if_pos hwaits]
    exact List.mem_cons_self

/-- **The two ways of learning a neighbour disagree**, for every neighbour: the record of a reply
leaves the hardware type of the interface at 0, and has that of the neighbour in network order. -/
theorem learning_disagrees {cache₁ cache₂ : List Node} {eh : Buf ethHlen} {arp₁ arp₂ : ArpHdr}
    {src₁ src₂ : SockaddrLl} {n : Node} (hreq : RequestFrom devices ip mac eh arp₁ src₁)
    (hreply : ReplyAbout devices ip mac arp₂ src₂) (hi : src₁.sllIfindex = src₂.sllIfindex)
    (hmiss : getCacheByIpAddr cache₁ (etherIp ip) = none) (hn : n ∈ cache₂)
    (hwaits : Waiting ip n) (env : ReqEnv) (sendOk : Addr → Bool) :
    ∃ hw₁ hw₂, StoresReverse devices cache₁ eh arp₁ src₁ env ip hw₁ ∧
      ResolvesWith devices cache₂ arp₂ src₂ sendOk ip n hw₂ ∧ hw₁ ≠ hw₂ ∧
      hw₂ = { hw₁ with sllIfhatype := 0, sllHatype := htons arphrdEther } := by
  obtain ⟨d, -, -, hmac⟩ := macByIfindex_listed hreq.listed
  refine ⟨_, _, hreq.stores env hmac hmiss, hreply.resolves sendOk (hi ▸ hmac) hn hwaits, ?_, ?_⟩
  · intro heq
    exact absurd (congrArg Hwaddr.sllIfhatype heq) (by decide : ¬arphrdEther = 0)
  · rw [hi]
    rfl

/-- The Ethernet header of a broadcast from 10.0.0.2. -/
def headerFromTwo : Buf ethHlen :=
  ⟨ethHeader broadhwa.bytes (hostMac 2).bytes, ethHeader_length broadhwa (hostMac 2)⟩

/-- A request from 10.0.0.2 for 10.0.0.1. -/
def requestFromTwo : ArpHdr := etherArp arpopRequest (hostMac 2) (hostIp 2) (.zero 6) (hostIp 1)

theorem requestFrom_two : RequestFrom loneHost.devices (hostIp 2) (hostMac 2) headerFromTwo
    requestFromTwo linkFromTwo where
  ether := isEther_etherArp ..
  source := ⟨broadhwa, rfl⟩
  sender := senderPro_etherArp ..
  target := ⟨_, by rw [requestFromTwo, targetPro_etherArp]; rfl⟩
  hatype := rfl
  halen := rfl
  addr := rfl
  listed := loneHost_listed

theorem replyAbout_two : ReplyAbout loneHost.devices (hostIp 2) (hostMac 2) replyAboutTwo
    linkFromTwo where
  ether := isEther_etherArp ..
  target := targetPro_etherArp ..
  targetHw := targetHw_etherArp ..
  listed := loneHost_listed

/-- `loneHost` learns 10.0.0.2 in both ways. -/
theorem learning_disagrees_two : ∃ hw₁ hw₂,
    StoresReverse loneHost.devices [] headerFromTwo requestFromTwo linkFromTwo ⟨.zero 4, true, 200⟩
      (hostIp 2) hw₁ ∧
    ResolvesWith loneHost.devices [waitsForTwo] replyAboutTwo linkFromTwo (fun _ => true)
      (hostIp 2) waitsForTwo hw₂ ∧ hw₁ ≠ hw₂ := by
  obtain ⟨hw₁, hw₂, h₁, h₂, hne, -⟩ := learning_disagrees requestFrom_two replyAbout_two rfl
    (getCacheByIpAddr_none.2 (List.forall_mem_nil _)) (List.mem_singleton_self waitsForTwo)
    ⟨rfl, rfl⟩ ⟨.zero 4, true, 200⟩ fun _ => true
  exact ⟨hw₁, hw₂, h₁, h₂, hne⟩

/-- The records of 10.0.0.2 are not equal. -/
theorem learning_not_equal :
    ¬∀ (devices : List HwaInfo) (ip : InAddr) (mac : Buf 6) (cache₁ cache₂ : List Node)
      (eh : Buf ethHlen) (arp₁ arp₂ : ArpHdr) (src₁ src₂ : SockaddrLl) (n : Node) (env : ReqEnv)
      (sendOk : Addr → Bool) (hw₁ hw₂ : Hwaddr), RequestFrom devices ip mac eh arp₁ src₁ →
      ReplyAbout devices ip mac arp₂ src₂ → src₁.sllIfindex = src₂.sllIfindex →
      getCacheByIpAddr cache₁ (etherIp ip) = none → n ∈ cache₂ → Waiting ip n →
      StoresReverse devices cache₁ eh arp₁ src₁ env ip hw₁ →
      ResolvesWith devices cache₂ arp₂ src₂ sendOk ip n hw₂ → hw₁ = hw₂ := by
  intro h
  obtain ⟨d, -, -, hmac⟩ := macByIfindex_listed loneHost_listed
  have hmem := List.mem_singleton_self waitsForTwo
  have heq := h _ _ _ [] [waitsForTwo] _ _ _ _ _ waitsForTwo ⟨.zero 4, true, 200⟩ (fun _ => true)
    _ _ requestFrom_two replyAbout_two rfl rfl hmem ⟨rfl, rfl⟩
    (requestFrom_two.stores _ hmac rfl) (replyAbout_two.resolves _ hmac hmem ⟨rfl, rfl⟩)
  exact absurd (congrArg Hwaddr.sllIfhatype heq) (by decide : ¬arphrdEther = 0)

end Record

end Tour
