import Tour.Arp.Codec

/-!
# Ethernet/IPv4 packets through the handlers

What `recv_frame`, `handle_req` and `handle_reply` compute for packets with hardware addresses of six
bytes and protocol addresses of four (`IsEther.handleReq`, `IsEther.replyRecord`), whatever the rest
of their data is; the packets that the daemon itself sends (`etherArp`) are among them. On these
packets no copy leaves its object, as long as the frame arrived on a listed interface.
-/

namespace Tour

open Lib

/-- An Ethernet/IPv4 packet as `recv_frame` leaves it, in host order. -/
def etherArp (op : UInt16) (sha : Buf 6) (spa : InAddr) (tha : Buf 6) (tpa : InAddr) : ArpHdr :=
  ⟨arpId, arphrdEther, afInet, 6, 4, op, .fill arpMaxdatalen (arpData sha spa tha tpa)⟩

/-- The address that the handlers build from four protocol bytes: port and `sin_zero` are zero. -/
def etherIp (ip : InAddr) : Sockaddr := ⟨afInet, .fill 14 ([0, 0] ++ ip.bytes)⟩

theorem sinAddr_etherIp (ip : InAddr) : (etherIp ip).sinAddr = ip := by
  obtain ⟨l, hl⟩ := ip
  match l, hl with
  | [_, _, _, _], _ => rfl

namespace ArpHdr

variable (arp : ArpHdr)

/-- `ARP_SPA` of an Ethernet/IPv4 packet. -/
def senderPro : InAddr := arp.data.slice 6 4 (by decide)

/-- `ARP_THA` of an Ethernet/IPv4 packet. -/
def targetHw : Buf 6 := arp.data.slice 10 6 (by decide)

/-- `ARP_TPA` of an Ethernet/IPv4 packet. -/
def targetPro : InAddr := arp.data.slice 16 4 (by decide)

/-- An Ethernet/IPv4 packet in host order. -/
structure IsEther : Prop where
  hardType : arp.hardType = arphrdEther
  protType : arp.protType = afInet
  hardLen : arp.hardLen = 6
  protLen : arp.protLen = 4

namespace IsEther

variable {arp} (h : arp.IsEther)

include h

theorem read_spa : arp.data.read arp.spa arp.protLen.toNat = some arp.senderPro.bytes := by
  rw [spa, h.hardLen, h.protLen]
  exact Buf.read_eq_some.2 ⟨by decide, rfl⟩

theorem read_tha : arp.data.read arp.tha arp.hardLen.toNat = some arp.targetHw.bytes := by
  rw [tha, h.hardLen, h.protLen]
  exact Buf.read_eq_some.2 ⟨by decide, rfl⟩

theorem read_tpa : arp.data.read arp.tpa arp.protLen.toNat = some arp.targetPro.bytes := by
  rw [tpa, h.hardLen, h.protLen]
  exact Buf.read_eq_some.2 ⟨by decide, rfl⟩

/-- The memory behind `ARP_TPA`. -/
theorem drop_tpa : ∃ rest, arp.data.bytes.drop arp.tpa = arp.targetPro.bytes ++ rest := by
  rw [tpa, h.hardLen, h.protLen]
  exact ⟨_, (List.take_append_drop 4 _).symm⟩

end IsEther

end ArpHdr

section Read

variable (op : UInt16) (sha : Buf 6) (spa : InAddr) (tha : Buf 6) (tpa : InAddr)

theorem isEther_etherArp : (etherArp op sha spa tha tpa).IsEther := ⟨rfl, rfl, rfl, rfl⟩

/-- A read inside the addresses of a packet. -/
theorem etherArp_read {off len : Nat} (h : off + len ≤ 20) :
    (etherArp op sha spa tha tpa).data.read off len =
      some (((arpData sha spa tha tpa).drop off).take len) :=
  Buf.read_fill (by rw [arpData_length]; exact h) (arpData_fits ..)

@[simp] theorem senderPro_etherArp : (etherArp op sha spa tha tpa).senderPro = spa := by
  have hread : (etherArp op sha spa tha tpa).data.read 6 4 =
      some (etherArp op sha spa tha tpa).senderPro.bytes := (isEther_etherArp op sha spa tha tpa).read_spa
  rw [etherArp_read _ _ _ _ _ (by decide), Option.some.injEq] at hread
  apply Buf.ext
  rw [← hread, arpData, List.append_assoc, List.append_assoc,
    List.drop_left' sha.length_eq, List.take_left' spa.length_eq]

@[simp] theorem targetHw_etherArp : (etherArp op sha spa tha tpa).targetHw = tha := by
  have hread : (etherArp op sha spa tha tpa).data.read 10 6 =
      some (etherArp op sha spa tha tpa).targetHw.bytes := (isEther_etherArp op sha spa tha tpa).read_tha
  rw [etherArp_read _ _ _ _ _ (by decide), Option.some.injEq] at hread
  have hlen : (sha.bytes ++ spa.bytes).length = 10 := by simp
  apply Buf.ext
  rw [← hread, arpData, List.append_assoc, List.drop_left' hlen,
    List.take_left' tha.length_eq]

@[simp] theorem targetPro_etherArp : (etherArp op sha spa tha tpa).targetPro = tpa := by
  have hread : (etherArp op sha spa tha tpa).data.read 16 4 =
      some (etherArp op sha spa tha tpa).targetPro.bytes := (isEther_etherArp op sha spa tha tpa).read_tpa
  rw [etherArp_read _ _ _ _ _ (by decide), Option.some.injEq] at hread
  have hlen : (sha.bytes ++ spa.bytes ++ tha.bytes).length = 16 := by simp
  apply Buf.ext
  rw [← hread, arpData, List.drop_left' hlen,
    List.take_of_length_le (Nat.le_of_eq tpa.length_eq)]

end Read

/-! ## Receiving -/

theorem ethHeader_length (dst src : Buf 6) : (ethHeader dst.bytes src.bytes).length = ethHlen := by
  simp [ethHeader, ethHlen]

theorem ethHeader_source (dst src : Buf 6) :
    (ethHeader dst.bytes src.bytes).drop ethAlen = src.bytes ++ le16 (htons ethPArpSh) := by
  rw [ethHeader, List.append_assoc]
  exact List.drop_left' (i := ethAlen) dst.length_eq

/-- What the daemon sends reaches the switch of the daemon that receives it. -/
theorem handleFrame_arpFrame (cfg : Config) (cache : List Node) (env : PacketEnv)
    (dst src : Buf 6) {op : UInt16} (hop : op = arpopRequest ∨ op = arpopReply) (sha : Buf 6)
    (spa : InAddr) (tha : Buf 6) (tpa : InAddr) :
    ∃ eh : Buf ethHlen, eh.bytes = ethHeader dst.bytes src.bytes ∧
      handleFrame cfg cache (arpFrame dst src op (arpData sha spa tha tpa)) env =
        dispatch cfg cache eh (etherArp op sha spa tha tpa) env := by
  apply handleFrame_of_fits (ethHeader_length dst src) _ _ hop
  · exact arpData_length_pos sha spa tha tpa
  · exact arpData_fits sha spa tha tpa
  · rw [arpData_length]
    exact Nat.le_refl 20
  · exact (by decide : 6 ≤ 8)
  · exact (by decide : 4 ≤ 16)

/-! ## The handlers -/

section Dispatch

variable (cfg : Config) (cache : List Node) (eh : Buf ethHlen) (env : PacketEnv) (sha : Buf 6)
  (spa : InAddr) (tha : Buf 6) (tpa : InAddr)

theorem dispatch_request : dispatch cfg cache eh (etherArp arpopRequest sha spa tha tpa) env =
    if env.req.fresh ∈ addrs cache then none
    else handleReq cfg.devices cache eh (etherArp arpopRequest sha spa tha tpa) env.src env.req :=
  if_pos rfl

theorem dispatch_reply : dispatch cfg cache eh (etherArp arpopReply sha spa tha tpa) env =
    handleReply cfg.devices cache (etherArp arpopReply sha spa tha tpa) env.src env.sendOk :=
  (if_neg (by exact arpopReply_ne)).trans (if_pos rfl)

end Dispatch

theorem macByIfindex_listed {devices : List HwaInfo} {i : Int}
    (h : ∃ d ∈ devices, d.ifIndex = i) :
    ∃ d ∈ devices, d.ifIndex = i ∧ macByIfindex devices i = some d.haddrMem := by
  obtain ⟨d, hd, hi⟩ := h
  have hsome : (devices.find? fun d => d.ifIndex == i).isSome :=
    List.find?_isSome.2 ⟨d, hd, by simp [hi]⟩
  obtain ⟨d', hd'⟩ := Option.isSome_iff_exists.1 hsome
  exact ⟨d', List.mem_of_find?_eq_some hd', by simpa using List.find?_some hd',
    by rw [macByIfindex, hd']; rfl⟩

theorem isDestination_some {devices : List HwaInfo} {ip : InAddr} {d : HwaInfo}
    (h : isDestination devices ip = some d) : d ∈ devices ∧ d.ipAddr.sinAddr = ip :=
  ⟨List.mem_of_find?_eq_some h, by simpa using List.find?_some h⟩

/-- The answer to a request: what `handle_req` puts on the interface `d` when `this` is asked for. -/
def replyFrameOf (asker : Buf 6) (d this : HwaInfo) (tpa : InAddr) : List UInt8 :=
  arpFrame asker d.ifHaddr arpopReply (arpData asker this.ipAddr.sinAddr this.ifHaddr tpa)

/-- The `hw` of the reverse entry. -/
def reverseHw (d : HwaInfo) (src : SockaddrLl) (addr : Buf 8) : Hwaddr :=
  ⟨src.sllIfindex, arphrdEther, 6, .fill 8 d.ifHaddr.bytes, src.sllHatype, src.sllHalen, addr⟩

theorem write_inAddr (b : Buf 4) (ip : InAddr) : b.write 0 ip.bytes = some ip := by
  rw [Buf.write_eq_some, ip.length_eq, List.take_zero, List.nil_append,
    List.drop_eq_nil_of_le (Nat.le_of_eq b.length_eq), List.append_nil]
  exact ⟨by decide, rfl⟩

theorem write_etherIp (ip : InAddr) : (Buf.zero 14).write 2 ip.bytes = some (etherIp ip).saData := by
  have hlen : ([0, 0] ++ ip.bytes).length ≤ 14 := by simp
  rw [Buf.write_eq_some, ip.length_eq, etherIp, Buf.fill_bytes_of_le hlen]
  refine ⟨by decide, ?_⟩
  simp only [List.length_append, ip.length_eq, Buf.zero_bytes]
  rfl

/-- `eh->h_source`. -/
def hSource (eh : Buf ethHlen) : Buf 6 := eh.slice ethAlen 6 (by decide)

theorem hSource_take (eh : Buf ethHlen) : (eh.bytes.drop ethAlen).take 6 = (hSource eh).bytes := rfl

theorem hSource_ethHeader {eh : Buf ethHlen} {dst src : Buf 6}
    (h : eh.bytes = ethHeader dst.bytes src.bytes) : hSource eh = src := by
  apply Buf.ext
  rw [← hSource_take, h, ethHeader_source]
  exact List.take_left' src.length_eq

/-- The packet that `handle_req` builds, in its frame. -/
theorem sendFrame_reply {eh : Buf ethHlen} {this : HwaInfo} {tpa : InAddr} {b : Buf arpHdrSize}
    (hbytes : b.bytes = arpHeader arphrdEther afInet 6 4 arpopReply ++
      arpData (hSource eh) this.ipAddr.sinAddr this.ifHaddr tpa ++
        List.replicate (arpHdrSize - 30) 0) (d : HwaInfo) :
    sendFrame b.bytes 30 (some (eh.bytes.drop ethAlen)) (some d.haddrMem) =
      some (some (replyFrameOf (hSource eh) d this tpa)) :=
  sendFrame_ether (hSource eh) d.ifHaddr hbytes (by simp [arpHdrlen]) (hSource_take eh)
    d.haddrMem_take

section Handlers

variable {arp : ArpHdr} (h : arp.IsEther)

include h

/-- The packet that `handle_req` builds: the asker, the address of `this`, the MAC of `this`, and the
address asked for. -/
theorem ArpHdr.IsEther.buildReply (eh : Buf ethHlen) (this : HwaInfo) : ∃ b : Buf arpHdrSize,
    buildArp (.zero arpHdrSize) arp.hardType arp.protType arp.hardLen arp.protLen arpopReply
      (some (eh.bytes.drop ethAlen)) (some this.ipAddr.sinAddrMem) (some this.haddrMem)
      (some (arp.data.bytes.drop arp.tpa)) = some (b, 30) ∧
    b.bytes = arpHeader arphrdEther afInet 6 4 arpopReply ++
      arpData (hSource eh) this.ipAddr.sinAddr this.ifHaddr arp.targetPro ++
        List.replicate (arpHdrSize - 30) 0 := by
  obtain ⟨rest, hrest⟩ := h.drop_tpa
  have hmem : (arp.targetPro.bytes ++ rest).take 4 = arp.targetPro.bytes :=
    List.take_left' arp.targetPro.length_eq
  have hsha : Holds 6 (some (eh.bytes.drop ethAlen)) := by
    rintro l ⟨⟩
    rw [List.length_drop, eh.length_eq]
    decide
  have htpa : Holds 4 (some (arp.targetPro.bytes ++ rest)) := by rintro l ⟨⟩; simp
  rw [hrest, h.hardType, h.protType, h.hardLen, h.protLen]
  exact buildArp_ether arpopReply (hSource eh) this.ifHaddr this.ipAddr.sinAddr arp.targetPro
    (by decide) hsha this.ipAddr.holds_sinAddrMem this.holds_haddrMem htpa (hSource_take eh)
    this.ipAddr.sinAddrMem_take this.haddrMem_take hmem

/-- `handle_req` on a request for an interface of this host that arrived on a listed interface. -/
theorem ArpHdr.IsEther.handleReq {devices : List HwaInfo} {cache : List Node} {eh : Buf ethHlen}
    {dst asker : Buf 6} {src : SockaddrLl} {env : ReqEnv} {d this : HwaInfo}
    (heh : eh.bytes = ethHeader dst.bytes asker.bytes)
    (hdest : isDestination devices arp.targetPro = some this)
    (hmac : macByIfindex devices src.sllIfindex = some d.haddrMem)
    (hhalen : src.sllHalen.toNat ≤ 8) :
    Tour.handleReq devices cache eh arp src env =
      some (match getCacheByIpAddr cache (etherIp arp.senderPro) with
        | some _ => cache
        | none => addToCache cache (env.fresh, ⟨etherIp arp.senderPro, 0, .complete,
            reverseHw d src (.fill 8 (src.sllAddr.bytes.take src.sllHalen.toNat))⟩),
        if env.sendtoOk then [.frame src.sllIfindex (replyFrameOf asker d this arp.targetPro)]
        else []) := by
  obtain rfl := hSource_ethHeader heh
  obtain ⟨b, hbuild, hbytes⟩ := h.buildReply eh this
  have hprint : (printAddresses (.ofBuf b)).isSome := by
    rw [printAddresses_isSome]
    simp only [ArpHdr.datalen, ArpHdr.ofBuf, hbytes]
    exact (by decide : 2 * 6 + 2 * 4 ≤ arpMaxdatalen)
  obtain ⟨printed, hprinted⟩ := Option.isSome_iff_exists.1 hprint
  have hsend := sendFrame_reply hbytes d
  -- the reverse entry
  have hifaddr : (Buf.zero 8).write 0 (d.haddrMem.take ethAlen) = some (.fill 8 d.ifHaddr.bytes) := by
    rw [show d.haddrMem.take ethAlen = d.ifHaddr.bytes from d.haddrMem_take, Buf.write_zero]
    simp
  have hread : src.sllAddr.read 0 src.sllHalen.toNat =
      some (src.sllAddr.bytes.take src.sllHalen.toNat) := by
    rw [Buf.read_eq_some]; exact ⟨by omega, rfl⟩
  have haddr : (Buf.zero 8).write 0 (src.sllAddr.bytes.take src.sllHalen.toNat) =
      some (.fill 8 (src.sllAddr.bytes.take src.sllHalen.toNat)) :=
    Buf.write_zero (Nat.le_trans (List.length_take_le _ _) hhalen)
  simp only [Tour.handleReq, answerReq, h.read_tpa, write_inAddr, hdest, hbuild, hprinted, hmac, hsend,
    h.read_spa, write_etherIp, bind, Option.bind, hifaddr, hread, haddr]
  rw [show (⟨arp.protType, (etherIp arp.senderPro).saData⟩ : Sockaddr) = etherIp arp.senderPro by
    rw [h.protType]; rfl]
  cases getCacheByIpAddr cache (etherIp arp.senderPro) <;> rfl

theorem ArpHdr.IsEther.handleReq_none {devices : List HwaInfo} {cache : List Node}
    {eh : Buf ethHlen} {src : SockaddrLl} {env : ReqEnv}
    (hdest : isDestination devices arp.targetPro = none) :
    Tour.handleReq devices cache eh arp src env = some (cache, []) := by
  simp only [Tour.handleReq, answerReq, h.read_tpa, write_inAddr, hdest, bind, Option.bind]

end Handlers

/-- The `hw` of an answer. -/
def replyHw (d : HwaInfo) (src : SockaddrLl) (tha : Buf 6) : Hwaddr :=
  ⟨src.sllIfindex, 0, 6, .fill 8 d.ifHaddr.bytes, htons arphrdEther, 6, .fill 8 tha.bytes⟩

/-- What `handle_reply` makes of a reply that arrived on a listed interface: the answer is in the
target fields. -/
theorem ArpHdr.IsEther.replyRecord {arp : ArpHdr} (h : arp.IsEther) {devices : List HwaInfo}
    {src : SockaddrLl} {d : HwaInfo}
    (hmac : macByIfindex devices src.sllIfindex = some d.haddrMem) :
    Tour.replyRecord devices arp src =
      some (replyHw d src arp.targetHw, etherIp arp.targetPro) := by
  have haddr : (Buf.zero 8).write 0 arp.targetHw.bytes = some (.fill 8 arp.targetHw.bytes) :=
    Buf.write_zero (by simp)
  have hlen : arp.hardLen.toNat ≤ d.haddrMem.length := by
    rw [HwaInfo.haddrMem_length, h.hardLen]; exact (by decide : 6 ≤ 8)
  have hifaddr : (Buf.zero 8).write 0 (d.haddrMem.take arp.hardLen.toNat) =
      some (.fill 8 d.ifHaddr.bytes) := by
    rw [h.hardLen, show d.haddrMem.take (6 : UInt8).toNat = d.ifHaddr.bytes from d.haddrMem_take,
      Buf.write_zero]
    simp
  simp only [Tour.replyRecord, h.read_tha, haddr, hmac, if_pos hlen, hifaddr, h.read_tpa,
    write_etherIp, bind, Option.bind]
  rw [h.hardLen, h.protType]
  rfl

/-! ## The packets that the daemon sends -/

/-- `IsEther.handleReq` for a packet that a daemon sent. -/
theorem handleReq_ether {devices : List HwaInfo} {cache : List Node} {eh : Buf ethHlen}
    {dst asker : Buf 6} {src : SockaddrLl} {env : ReqEnv} {d this : HwaInfo}
    (op : UInt16) (sha : Buf 6) (spa : InAddr) (tha : Buf 6) (tpa : InAddr)
    (heh : eh.bytes = ethHeader dst.bytes asker.bytes)
    (hdest : isDestination devices tpa = some this)
    (hmac : macByIfindex devices src.sllIfindex = some d.haddrMem)
    (hhalen : src.sllHalen.toNat ≤ 8) :
    handleReq devices cache eh (etherArp op sha spa tha tpa) src env =
      some (match getCacheByIpAddr cache (etherIp spa) with
        | some _ => cache
        | none => addToCache cache (env.fresh, ⟨etherIp spa, 0, .complete,
            reverseHw d src (.fill 8 (src.sllAddr.bytes.take src.sllHalen.toNat))⟩),
        if env.sendtoOk then [.frame src.sllIfindex (replyFrameOf asker d this tpa)] else []) := by
  have hdest' : isDestination devices (etherArp op sha spa tha tpa).targetPro = some this := by
    rw [targetPro_etherArp]; exact hdest
  rw [(isEther_etherArp op sha spa tha tpa).handleReq heh hdest' hmac hhalen, senderPro_etherArp,
    targetPro_etherArp]

theorem handleReq_ether_none {devices : List HwaInfo} {cache : List Node} {eh : Buf ethHlen}
    {src : SockaddrLl} {env : ReqEnv} (op : UInt16) (sha : Buf 6) (spa : InAddr) (tha : Buf 6)
    (tpa : InAddr) (hdest : isDestination devices tpa = none) :
    handleReq devices cache eh (etherArp op sha spa tha tpa) src env = some (cache, []) := by
  apply (isEther_etherArp op sha spa tha tpa).handleReq_none
  rw [targetPro_etherArp]
  exact hdest

theorem replyRecord_ether {devices : List HwaInfo} {src : SockaddrLl} {d : HwaInfo}
    (op : UInt16) (sha : Buf 6) (spa : InAddr) (tha : Buf 6) (tpa : InAddr)
    (hmac : macByIfindex devices src.sllIfindex = some d.haddrMem) :
    replyRecord devices (etherArp op sha spa tha tpa) src =
      some (replyHw d src tha, etherIp tpa) := by
  have hrec := (isEther_etherArp op sha spa tha tpa).replyRecord hmac
  rwa [targetHw_etherArp, targetPro_etherArp] at hrec

end Tour
