import Tour.Arp.Ether

/-!
# What the packets of the daemon state

An ARP packet states a binding of its sender: the hardware address that belongs to its protocol
address. The requests of `handle_areq` state a binding of the device they go out on. `handle_req`
passes the hardware address of the asker as that of the sender, and its own as that of the target, so
that the packet it sends states a true binding and names the asker as its target only when this host
asked itself (`bindings_true_iff`).
-/

namespace Tour

open Lib

/-- `ARP_SHA` of an Ethernet/IPv4 packet. -/
def ArpHdr.senderHw (arp : ArpHdr) : Buf 6 := arp.data.slice 0 6 (by decide)

/-- The packet in a frame, in host order. -/
def sentArp (frame : List UInt8) : ArpHdr :=
  ntohArp (.ofBuf (.fill arpHdrSize (frame.drop ethHlen)))

/-- The sender addresses of a packet are those of one device of this host. -/
def TrueSender (devices : List HwaInfo) (arp : ArpHdr) : Prop :=
  ∃ d ∈ devices, d.ipAddr.sinAddr = arp.senderPro ∧ d.ifHaddr = arp.senderHw

/-- The target addresses of a reply are the sender addresses of the request. -/
def ForAsker (request reply : ArpHdr) : Prop :=
  reply.targetHw = request.senderHw ∧ reply.targetPro = request.senderPro

/-- The request comes from this host: its frame from the device that is asked for, and by its sender
addresses from the device that is found for the address. -/
structure AskedByItself (devices : List HwaInfo) (eh : Buf ethHlen) (arp : ArpHdr) : Prop where
  source : ∃ d ∈ devices, d.ipAddr.sinAddr = arp.targetPro ∧ d.ifHaddr = hSource eh
  senderHw : ∃ this, isDestination devices arp.targetPro = some this ∧ this.ifHaddr = arp.senderHw
  senderPro : arp.targetPro = arp.senderPro

/-! ## The packets -/

section Sent

variable (op : UInt16) (sha : Buf 6) (spa : InAddr) (tha : Buf 6) (tpa : InAddr)

@[simp] theorem senderHw_etherArp : (etherArp op sha spa tha tpa).senderHw = sha := by
  have hread : (etherArp op sha spa tha tpa).data.read 0 6 =
      some (etherArp op sha spa tha tpa).senderHw.bytes := Buf.read_eq_some.2 ⟨by decide, rfl⟩
  rw [etherArp_read _ _ _ _ _ (by decide), Option.some.injEq] at hread
  apply Buf.ext
  rw [← hread, arpData, List.drop_zero, List.append_assoc, List.append_assoc,
    List.take_left' sha.length_eq]

/-- A frame that the daemon built carries the addresses it was built from. -/
theorem sentArp_arpFrame (dst src : Buf 6) :
    sentArp (arpFrame dst src op (arpData sha spa tha tpa)) = etherArp op sha spa tha tpa := by
  rw [sentArp, arpFrame, List.drop_left' (ethHeader_length dst src),
    ntohArp_ofBuf_header _ _ _ _ _ (arpData_fits ..)]
  rfl

end Sent

/-- The frame of `handle_req` is what `send_frame` makes of the packet that `build_arp` made, whatever
happens to the cache. -/
theorem handleReq_sends {devices : List HwaInfo} {cache : List Node} {eh : Buf ethHlen} {arp : ArpHdr}
    {src : SockaddrLl} {env : ReqEnv} {r : List Node × List Effect} {tpa : List UInt8}
    {tgtip : InAddr} {this : HwaInfo} {i : Int} {bytes : List UInt8}
    (hrun : handleReq devices cache eh arp src env = some r)
    (htpa : arp.data.read arp.tpa arp.protLen.toNat = some tpa)
    (htgtip : env.stack.write 0 tpa = some tgtip) (hdest : isDestination devices tgtip = some this)
    (hframe : .frame i bytes ∈ r.2) : ∃ b,
      buildArp (.zero arpHdrSize) arp.hardType arp.protType arp.hardLen arp.protLen arpopReply
        (some (eh.bytes.drop ethAlen)) (some this.ipAddr.sinAddrMem) (some this.haddrMem)
        (some (arp.data.bytes.drop arp.tpa)) = some b ∧
      sendFrame b.1.bytes b.2 (some (eh.bytes.drop ethAlen)) (macByIfindex devices src.sllIfindex) =
        some (some bytes) := by
  obtain rfl | ⟨blah, hanswer, -⟩ := handleReq_outcome hrun
  · cases hframe
  simp only [answerReq, htpa, htgtip, hdest, bind, Option.bind_some, Option.bind_eq_some_iff,
    Option.some.injEq, Prod.mk.injEq] at hanswer
  obtain ⟨b, hbuild, -, -, sent, hsent, spa, -, data, -, -, heffects⟩ := hanswer
  refine ⟨b, hbuild, hsent.trans (congrArg some ?_)⟩
  rw [← heffects] at hframe
  cases sent with
  | none => cases hframe
  | some frame =>
    rw [sentOn] at hframe
    split at hframe
    · cases List.mem_singleton.1 hframe
      rfl
    · cases hframe

/-- What `handle_req` puts on an interface. -/
theorem ArpHdr.IsEther.handleReq_frame {arp : ArpHdr} (h : arp.IsEther) {devices : List HwaInfo}
    {cache : List Node} {eh : Buf ethHlen} {src : SockaddrLl} {env : ReqEnv}
    {r : List Node × List Effect} {i : Int} {bytes : List UInt8}
    (hrun : Tour.handleReq devices cache eh arp src env = some r)
    (hframe : .frame i bytes ∈ r.2) : ∃ this d, isDestination devices arp.targetPro = some this ∧
      macByIfindex devices src.sllIfindex = some d.haddrMem ∧
        bytes = replyFrameOf (hSource eh) d this arp.targetPro := by
  cases hdest : isDestination devices arp.targetPro with
  | none =>
    simp only [Tour.handleReq, answerReq, h.read_tpa, write_inAddr, bind, Option.bind_some, hdest] at hrun
    cases hrun
    cases hframe
  | some this =>
    obtain ⟨b, hbuild, hsent⟩ :=
      handleReq_sends hrun h.read_tpa (write_inAddr ..) hdest hframe
    obtain ⟨b', hb, hbytes⟩ := h.buildReply eh this
    rw [hb] at hbuild
    cases hbuild
    cases hmac : macByIfindex devices src.sllIfindex with
    | none =>
      rw [hmac] at hsent
      cases hsent
    | some mac =>
      obtain ⟨d, -, rfl⟩ := Option.map_eq_some_iff.1 hmac
      rw [hmac, sendFrame_reply hbytes d] at hsent
      cases hsent
      exact ⟨this, d, rfl, rfl, rfl⟩

/-! ## True bindings -/

/-- Every frame that `handle_areq` broadcasts states the binding of the device it goes out on. -/
theorem broadcast_true {devices : List HwaInfo} {cache : List Node} {a : Addr} {conn : Cache}
    {env : AreqEnv} {r : AreqResult} (h : handleAreq devices cache a conn env = some r) {i : Int}
    {bytes : List UInt8} (hframe : .frame i bytes ∈ r.effects) :
    TrueSender devices (sentArp bytes) := by
  have hcase := handleAreq_cases h
  generalize env.recv = recv at hcase
  cases hcase with
  | failed => cases hframe
  | refused hmsg => simp at hframe
  | cached hmsg hn hstate => simp at hframe
  | asked hmsg hmiss hframes =>
    rcases List.mem_cons.1 hframe with heq | hmem
    · cases heq
    obtain ⟨d, hd, heq⟩ := hframes _ hmem
    cases heq
    refine ⟨d, hd, ?_⟩
    rw [requestFrame, sentArp_arpFrame, senderPro_etherArp, senderHw_etherArp]
    exact ⟨rfl, rfl⟩

/-- The addresses in the reply of `handle_req`. -/
theorem reply_true_iff {devices : List HwaInfo} {eh : Buf ethHlen} {arp : ArpHdr} {this : HwaInfo}
    (d : HwaInfo) (hdest : isDestination devices arp.targetPro = some this) :
    TrueSender devices (sentArp (replyFrameOf (hSource eh) d this arp.targetPro)) ∧
      ForAsker arp (sentArp (replyFrameOf (hSource eh) d this arp.targetPro)) ↔
      AskedByItself devices eh arp := by
  obtain ⟨hthis, hip⟩ := isDestination_some hdest
  rw [replyFrameOf, sentArp_arpFrame, TrueSender, ForAsker, senderPro_etherArp, senderHw_etherArp,
    targetHw_etherArp, targetPro_etherArp, hip]
  constructor
  · rintro ⟨hsource, hhw, hpro⟩
    exact ⟨hsource, ⟨this, hdest, hhw⟩, hpro⟩
  · rintro ⟨hsource, ⟨this', hdest', hhw⟩, hpro⟩
    cases hdest.symm.trans hdest'
    exact ⟨hsource, hhw, hpro⟩

/-- **Every ARP packet states a true sender binding.** Every request of `handle_areq` does; a reply of
`handle_req` does, and is addressed to the asker, exactly when this host asked itself. -/
theorem bindings_true_iff (devices : List HwaInfo) (cache : List Node) :
    (∀ (a : Addr) (conn : Cache) (env : AreqEnv) (r : AreqResult),
      handleAreq devices cache a conn env = some r →
      ∀ i bytes, .frame i bytes ∈ r.effects → TrueSender devices (sentArp bytes)) ∧
    ∀ (eh : Buf ethHlen) (arp : ArpHdr) (src : SockaddrLl) (env : ReqEnv)
      (r : List Node × List Effect), arp.IsEther →
      handleReq devices cache eh arp src env = some r →
      ∀ i bytes, .frame i bytes ∈ r.2 →
        (TrueSender devices (sentArp bytes) ∧ ForAsker arp (sentArp bytes) ↔
          AskedByItself devices eh arp) := by
  refine ⟨fun a conn env r h i bytes hframe => broadcast_true h hframe, ?_⟩
  intro eh arp src env r hether h i bytes hframe
  obtain ⟨this, d, hdest, -, rfl⟩ := hether.handleReq_frame h hframe
  exact reply_true_iff d hdest

/-- A request of host `n` for host 1, as host 1 receives it. -/
def requestFrom (n : UInt8) : ArpHdr :=
  etherArp arpopRequest (hostMac n) (hostIp n) (.zero 6) (hostIp 1)

/-- The Ethernet header of a broadcast of host `n`. -/
def broadcastFrom (n : UInt8) : Buf ethHlen :=
  ⟨ethHeader broadhwa.bytes (hostMac n).bytes, ethHeader_length _ _⟩

/-- The answer of host 1. -/
theorem handleReq_requestFrom (n : UInt8) : ∃ this cache,
    isDestination loneHost.devices (requestFrom n).targetPro = some this ∧
    handleReq loneHost.devices [] (broadcastFrom n) (requestFrom n) ⟨2, arphrdEther, 6, .zero 8⟩
      ⟨.zero 4, true, 0⟩ = some (cache,
        [.frame 2 (replyFrameOf (hSource (broadcastFrom n)) this this (requestFrom n).targetPro)]) := by
  have hdest : isDestination loneHost.devices (requestFrom n).targetPro =
      some (loneHost.devices.head loneHost.devices_ne) := by
    rw [requestFrom, targetPro_etherArp]
    rfl
  have hbytes : (broadcastFrom n).bytes = ethHeader broadhwa.bytes (hostMac n).bytes := rfl
  have hsource := hSource_ethHeader hbytes
  have hether : (requestFrom n).IsEther := isEther_etherArp ..
  have hmac : macByIfindex loneHost.devices 2 =
      some (loneHost.devices.head loneHost.devices_ne).haddrMem := rfl
  have hrun := @ArpHdr.IsEther.handleReq _ hether loneHost.devices [] _ _ _
    ⟨2, arphrdEther, 6, .zero 8⟩ ⟨.zero 4, true, 0⟩ _ _ hbytes hdest hmac (by decide)
  rw [← hsource] at hrun
  exact ⟨_, _, hdest, hrun⟩

/-- Host 1 asks for its own address. -/
theorem bindings_true_self : ∃ r bytes,
    handleReq loneHost.devices [] (broadcastFrom 1) (requestFrom 1) ⟨2, arphrdEther, 6, .zero 8⟩
      ⟨.zero 4, true, 0⟩ = some r ∧ .frame 2 bytes ∈ r.2 ∧
    TrueSender loneHost.devices (sentArp bytes) ∧ ForAsker (requestFrom 1) (sentArp bytes) := by
  obtain ⟨this, cache, hdest, hrun⟩ := handleReq_requestFrom 1
  refine ⟨_, _, hrun, List.mem_singleton_self _, ?_⟩
  refine ((bindings_true_iff _ _).2 _ _ _ _ _ (isEther_etherArp ..) hrun _ _
    (List.mem_singleton_self _)).2 ?_
  refine ⟨⟨_, List.mem_singleton_self _, rfl, rfl⟩, ⟨_, rfl, rfl⟩, rfl⟩

/-- Host 2 asks host 1. The reply says that the address of host 1 has the MAC of host 2. -/
theorem bindings_true_fails :
    ¬∀ (devices : List HwaInfo) (cache : List Node) (eh : Buf ethHlen) (arp : ArpHdr)
      (src : SockaddrLl) (env : ReqEnv) (r : List Node × List Effect), arp.IsEther →
      arp.op = arpopRequest → handleReq devices cache eh arp src env = some r →
      ∀ i bytes, .frame i bytes ∈ r.2 →
        TrueSender devices (sentArp bytes) ∧ ForAsker arp (sentArp bytes) := by
  intro h
  obtain ⟨this, cache, hdest, hrun⟩ := handleReq_requestFrom 2
  have hself := (reply_true_iff this hdest).1
    (h _ _ _ _ _ _ _ (isEther_etherArp ..) rfl hrun _ _ (List.mem_singleton_self _))
  exact absurd hself.senderPro (by decide)

end Tour
