import Tour.Arp.Packet

/-!
# The handlers of the ARP daemon

`handle_areq`, `handle_req` and `handle_reply` on the cache as a list. A handler returns the cache
and the system calls it made; it is `none` when it does not return: it left an object, followed a
null pointer, or exited. What the kernel answers is an argument. `AreqCase` and `FrameCase` say
once everything the handlers can do.
-/

namespace Tour

open Lib

/-- `struct hwa_info`, as far as the daemon reads it; the list of devices is a list of them. -/
structure HwaInfo where
  ifHaddr : Buf 6
  ifIndex : Int
  ipAddr : Sockaddr
deriving DecidableEq

/-- The memory behind `if_haddr`: its six bytes and the two padding bytes, which `calloc` zeroed,
before `if_index`. -/
def HwaInfo.haddrMem (d : HwaInfo) : List UInt8 := d.ifHaddr.bytes ++ [0, 0]

/-- The memory behind `sin_addr` of a `struct sockaddr_in`. -/
def Sockaddr.sinAddrMem (s : Sockaddr) : List UInt8 := s.saData.bytes.drop 2

/-- The `struct sockaddr` in the first bytes of a message. -/
def Sockaddr.ofBytes (l : List UInt8) : Sockaddr :=
  ⟨ofLe16 (l.getD 0 0) (l.getD 1 0), .fill 14 (l.drop 2)⟩

/-- `struct sockaddr_ll`, as `recvfrom` fills it in. -/
structure SockaddrLl where
  sllIfindex : Int
  sllHatype : UInt16
  sllHalen : UInt8
  sllAddr : Buf 8

/-- `sizeof(struct areq)`: the address and its length. -/
def sizeofAreq : Nat := 20

/-- The system calls that reach the world outside the process. -/
inductive Effect
  /-- `recv` on a client returned these bytes. -/
  | received (fd : Int) (msg : List UInt8)
  /-- `send` of a `struct hwaddr` to a client, and whether it succeeded. -/
  | send (fd : Int) (hw : Hwaddr) (ok : Bool)
  | close (fd : Int)
  /-- A frame was put on an interface. -/
  | frame (ifIndex : Int) (bytes : List UInt8)

/-! ## Devices -/

/-- `mac_by_ifindex`: the memory behind the returned pointer. -/
def macByIfindex (devices : List HwaInfo) (index : Int) : Option (List UInt8) :=
  (devices.find? fun d => d.ifIndex == index).map HwaInfo.haddrMem

/-- `isDestination`. -/
def isDestination (devices : List HwaInfo) (ip : InAddr) : Option HwaInfo :=
  devices.find? fun d => d.ipAddr.sinAddr == ip

/-! ## `handle_areq` -/

/-- What the kernel answers to one `handle_areq`: the message or the failure of `recv`, and the
success of `send` and of the `sendto` on each device. -/
structure AreqEnv where
  recv : Option (List UInt8)
  sendOk : Bool
  sendtoOk : Nat → Bool

/-- What `handle_areq` returns and did. -/
structure AreqResult where
  rv : Bool
  cache : List Node
  effects : List Effect

/-- The loop of `handle_areq` over the devices from position `i` on. -/
def broadcast (tgt : Sockaddr) (sendtoOk : Nat → Bool) :
    List HwaInfo → Nat → Option (Bool × List Effect)
  | [], _ => some (true, [])
  | d :: ds, i => do
    let (packet, arpsize) ← buildArp (.zero arpMaxlen) arphrdEther afInet (UInt8.ofNat ethAlen) 4
      arpopRequest (some d.haddrMem) (some d.ipAddr.sinAddrMem) none (some tgt.sinAddrMem)
    match ← sendFrame packet.bytes arpsize (some (List.replicate 8 0xFF)) (some d.haddrMem) with
    | none => some (false, [])
    | some frame =>
      if sendtoOk i then do
        let (rv, effects) ← broadcast tgt sendtoOk ds (i + 1)
        some (rv, .frame d.ifIndex frame :: effects)
      else some (false, [])

/-- `handle_areq(pf_socket, conn_entry, devices)` for the entry `conn` at `a`. -/
def handleAreq (devices : List HwaInfo) (cache : List Node) (a : Addr) (conn : Cache)
    (env : AreqEnv) : Option AreqResult :=
  if conn.state ≠ .connection then none
  else match env.recv with
    | none => some ⟨false, cache, []⟩
    | some msg =>
      let got := Effect.received conn.domainSocket msg
      let addr := Sockaddr.ofBytes msg
      if msg.length ≠ sizeofAreq then some ⟨false, cache, [got]⟩
      else if addr.saFamily ≠ afInet then some ⟨false, cache, [got]⟩
      else match (getCacheByIpAddr cache addr).filter fun n => n.2.state == .complete with
        | some completed =>
          some ⟨false, cache, [got, .send conn.domainSocket completed.2.hw env.sendOk]⟩
        | none => do
          let cache := updateAt cache a fun c => { c with state := .incomplete, ipaddress := addr }
          let (rv, effects) ← broadcast addr env.sendtoOk devices 0
          some ⟨rv, cache, got :: effects⟩

/-! ## `handle_req` -/

/-- What `handle_req` finds outside: the stack bytes that `tgtip` starts with, the success of
`sendto`, and the address `calloc` yields. How the process ends without memory is in
`Tour.Arp.Lifecycle`. -/
structure ReqEnv where
  stack : Buf 4
  sendtoOk : Bool
  fresh : Addr

/-- What reaches the interface of the frame that `send_frame` makes, if it makes one. -/
def sentOn (ifIndex : Int) (sendtoOk : Bool) : Option (List UInt8) → List Effect
  | some frame => if sendtoOk then [.frame ifIndex frame] else []
  | none => []

/-- `handle_req` up to `getCacheByIpAddr`: unless `isDestination` finds nothing, the address that is
looked up, and what was sent. -/
def answerReq (devices : List HwaInfo) (eh : Buf ethHlen) (arp : ArpHdr) (src : SockaddrLl)
    (env : ReqEnv) : Option (Option (Sockaddr × List Effect)) := do
  let pl := arp.protLen.toNat
  let tpa ← arp.data.read arp.tpa pl
  let tgtip ← env.stack.write 0 tpa
  match isDestination devices tgtip with
  | none => some none
  | some this => do
    let hSource := eh.bytes.drop ethAlen
    let (hdr, hdrSize) ← buildArp (.zero arpHdrSize) arp.hardType arp.protType arp.hardLen
      arp.protLen arpopReply (some hSource) (some this.ipAddr.sinAddrMem) (some this.haddrMem)
      (some (arp.data.bytes.drop arp.tpa))
    let _ ← printAddresses (.ofBuf hdr)
    let sent ← sendFrame hdr.bytes hdrSize (some hSource) (macByIfindex devices src.sllIfindex)
    let spa ← arp.data.read arp.spa pl
    let data ← (Buf.zero 14).write 2 spa
    some (some (⟨arp.protType, data⟩, sentOn src.sllIfindex env.sendtoOk sent))

/-- Whether `handle_req` comes to its `calloc`; if that fails, the process exits. -/
def callocsReq (devices : List HwaInfo) (cache : List Node) (eh : Buf ethHlen) (arp : ArpHdr)
    (src : SockaddrLl) (env : ReqEnv) : Bool :=
  match answerReq devices eh arp src env with
  | some (some (blah, _)) => (getCacheByIpAddr cache blah).isNone
  | _ => false

/-- `handle_req(pack_fd, eh, arp, src)`. -/
def handleReq (devices : List HwaInfo) (cache : List Node) (eh : Buf ethHlen) (arp : ArpHdr)
    (src : SockaddrLl) (env : ReqEnv) : Option (List Node × List Effect) := do
  match ← answerReq devices eh arp src env with
  | none => some (cache, [])
  | some (blah, effects) =>
    match getCacheByIpAddr cache blah with
    | some _ => some (cache, effects)
    | none => do
      let mac ← macByIfindex devices src.sllIfindex
      let ifaddr ← (Buf.zero 8).write 0 (mac.take ethAlen)
      let addr ← src.sllAddr.read 0 src.sllHalen.toNat
      let addr ← (Buf.zero 8).write 0 addr
      let hw : Hwaddr :=
        ⟨src.sllIfindex, arphrdEther, UInt8.ofNat ethAlen, ifaddr, src.sllHatype, src.sllHalen, addr⟩
      some (addToCache cache (env.fresh, ⟨blah, 0, .complete, hw⟩), effects)

/-! ## `handle_reply` -/

/-- The loop of `handle_reply` over the entries. -/
def replyLoop (repip : Sockaddr) (new : Hwaddr) (sendOk : Addr → Bool) :
    List Node → List Node × List Effect
  | [] => ([], [])
  | n :: ns =>
    let (ns', effects) := replyLoop repip new sendOk ns
    if n.2.ipaddress = repip ∧ n.2.state = .incomplete then
      ((n.1, ⟨n.2.ipaddress, -1, .complete, new⟩) :: ns',
        .send n.2.domainSocket new (sendOk n.1) :: .close n.2.domainSocket :: effects)
    else (n :: ns', effects)

/-- The `struct hwaddr` and the address that `handle_reply` makes of a reply. -/
def replyRecord (devices : List HwaInfo) (arp : ArpHdr) (src : SockaddrLl) :
    Option (Hwaddr × Sockaddr) := do
  let hl := arp.hardLen.toNat
  let tha ← arp.data.read arp.tha hl
  let addr ← (Buf.zero 8).write 0 tha
  let mac ← macByIfindex devices src.sllIfindex
  let ifaddr ← if hl ≤ mac.length then (Buf.zero 8).write 0 (mac.take hl) else none
  let tpa ← arp.data.read arp.tpa arp.protLen.toNat
  let data ← (Buf.zero 14).write 2 tpa
  some (⟨src.sllIfindex, 0, UInt8.ofNat ethAlen, ifaddr, htons arphrdEther, arp.hardLen, addr⟩,
    ⟨arp.protType, data⟩)

/-- `handle_reply(pack_fd, eh, arp, src)`. -/
def handleReply (devices : List HwaInfo) (cache : List Node) (arp : ArpHdr) (src : SockaddrLl)
    (sendOk : Addr → Bool) : Option (List Node × List Effect) := do
  let (new, repip) ← replyRecord devices arp src
  some (replyLoop repip new sendOk cache)

/-! ## The frames that are sent -/

/-- The data of an Ethernet/IPv4 packet. -/
def arpData (sha : Buf 6) (spa : InAddr) (tha : Buf 6) (tpa : InAddr) : List UInt8 :=
  sha.bytes ++ spa.bytes ++ tha.bytes ++ tpa.bytes

@[simp] theorem arpData_length (sha : Buf 6) (spa : InAddr) (tha : Buf 6) (tpa : InAddr) :
    (arpData sha spa tha tpa).length = 20 := by
  simp [arpData]

theorem arpData_length_pos (sha : Buf 6) (spa : InAddr) (tha : Buf 6) (tpa : InAddr) :
    0 < (arpData sha spa tha tpa).length := by
  rw [arpData_length]; decide

theorem arpData_fits (sha : Buf 6) (spa : InAddr) (tha : Buf 6) (tpa : InAddr) :
    (arpData sha spa tha tpa).length ≤ arpMaxdatalen := by
  rw [arpData_length]; decide

/-- An Ethernet/IPv4 packet in its frame. -/
def arpFrame (dst src : Buf 6) (op : UInt16) (data : List UInt8) : List UInt8 :=
  ethHeader dst.bytes src.bytes ++ (arpHeader arphrdEther afInet 6 4 op ++ data)

/-- `broadhwa`, as far as it is copied. -/
def broadhwa : Buf 6 := ⟨List.replicate 6 0xFF, rfl⟩

/-- What `handle_areq` puts on the interface of a device. -/
def requestFrame (d : HwaInfo) (tgt : InAddr) : List UInt8 :=
  arpFrame broadhwa d.ifHaddr arpopRequest (arpData d.ifHaddr d.ipAddr.sinAddr (.zero 6) tgt)

theorem HwaInfo.haddrMem_length (d : HwaInfo) : d.haddrMem.length = 8 := by
  simp [HwaInfo.haddrMem]

theorem HwaInfo.haddrMem_take (d : HwaInfo) : d.haddrMem.take 6 = d.ifHaddr.bytes :=
  List.take_left' d.ifHaddr.length_eq

theorem Sockaddr.sinAddrMem_length (s : Sockaddr) : s.sinAddrMem.length = 12 := by
  simp [Sockaddr.sinAddrMem]

theorem HwaInfo.holds_haddrMem (d : HwaInfo) : Holds 6 (some d.haddrMem) := by
  rintro l ⟨⟩
  rw [d.haddrMem_length]
  decide

theorem Sockaddr.holds_sinAddrMem (s : Sockaddr) : Holds 4 (some s.sinAddrMem) := by
  rintro l ⟨⟩
  rw [s.sinAddrMem_length]
  decide

theorem Sockaddr.sinAddrMem_take (s : Sockaddr) : s.sinAddrMem.take 4 = s.sinAddr.bytes := rfl

/-- `build_arp` for an Ethernet/IPv4 packet, followed by the copy into the frame. -/
theorem buildArp_ether {n : Nat} (op : UInt16) (sha' tha' : Buf 6) (spa' tpa' : InAddr)
    {sha spa tha tpa : Option (List UInt8)} (hn : 30 ≤ n)
    (h₁ : Holds 6 sha) (h₂ : Holds 4 spa) (h₃ : Holds 6 tha) (h₄ : Holds 4 tpa)
    (e₁ : addressBytes 6 sha = sha'.bytes) (e₂ : addressBytes 4 spa = spa'.bytes)
    (e₃ : addressBytes 6 tha = tha'.bytes) (e₄ : addressBytes 4 tpa = tpa'.bytes) :
    ∃ b : Buf n, buildArp (.zero n) arphrdEther afInet 6 4 op sha spa tha tpa = some (b, 30) ∧
      b.bytes = arpHeader arphrdEther afInet 6 4 op ++ arpData sha' spa' tha' tpa' ++
        List.replicate (n - 30) 0 := by
  obtain ⟨b, hb, hbytes⟩ := buildArp_of_fits (.zero n) arphrdEther afInet 6 4 op h₁ h₂ h₃ h₄ hn
  refine ⟨b, hb, ?_⟩
  have hdrop : (Buf.zero n).bytes.drop 30 = List.replicate (n - 30) 0 := List.drop_replicate
  rw [show b.bytes = arpHeader arphrdEther afInet 6 4 op ++ addressBytes 6 sha ++
    addressBytes 4 spa ++ addressBytes 6 tha ++ addressBytes 4 tpa ++ (Buf.zero n).bytes.drop 30
    from hbytes, e₁, e₂, e₃, e₄, hdrop]
  simp only [arpData, List.append_assoc]

theorem sendFrame_ether (dst src : Buf 6) {buffer payload rest dstMem srcMem : List UInt8}
    (hbuffer : buffer = payload ++ rest) (hpayload : payload.length = 30)
    (hdst : dstMem.take 6 = dst.bytes) (hsrc : srcMem.take 6 = src.bytes) :
    sendFrame buffer 30 (some dstMem) (some srcMem) =
      some (some (ethHeader dst.bytes src.bytes ++ payload)) := by
  have hmem : ∀ {l : List UInt8} {b : Buf 6}, l.take 6 = b.bytes → ethAlen ≤ l.length := by
    intro l b hl
    have := congrArg List.length hl
    rw [List.length_take, b.length_eq] at this
    change 6 ≤ l.length
    omega
  have hlen : 30 ≤ buffer.length := by rw [hbuffer, List.length_append, hpayload]; omega
  rw [sendFrame_of_fits (by decide) (hmem hdst) (hmem hsrc) hlen, hbuffer, List.take_left' hpayload,
    show dstMem.take ethAlen = dst.bytes from hdst, show srcMem.take ethAlen = src.bytes from hsrc]

/-- One device of the broadcast: the frame is always built. -/
theorem broadcast_cons (tgt : Sockaddr) (sendtoOk : Nat → Bool) (d : HwaInfo) (ds : List HwaInfo)
    (i : Nat) : broadcast tgt sendtoOk (d :: ds) i =
      if sendtoOk i then (broadcast tgt sendtoOk ds (i + 1)).map fun r =>
        (r.1, .frame d.ifIndex (requestFrame d tgt.sinAddr) :: r.2)
      else some (false, []) := by
  have hnull : Holds 6 none := fun l hl => by cases hl
  obtain ⟨b, hb, hbytes⟩ := buildArp_ether (n := arpMaxlen) arpopRequest d.ifHaddr (.zero 6)
    d.ipAddr.sinAddr tgt.sinAddr (by decide) d.holds_haddrMem d.ipAddr.holds_sinAddrMem
    hnull tgt.holds_sinAddrMem d.haddrMem_take d.ipAddr.sinAddrMem_take rfl tgt.sinAddrMem_take
  have hsend : sendFrame b.bytes 30 (some (List.replicate 8 0xFF)) (some d.haddrMem) =
      some (some (requestFrame d tgt.sinAddr)) :=
    sendFrame_ether broadhwa d.ifHaddr hbytes (by simp [arpHdrlen]) rfl d.haddrMem_take
  have hb' : buildArp (.zero arpMaxlen) arphrdEther afInet (UInt8.ofNat ethAlen) 4 arpopRequest
      (some d.haddrMem) (some d.ipAddr.sinAddrMem) none (some tgt.sinAddrMem) = some (b, 30) := hb
  simp only [broadcast, hb', hsend, bind, Option.bind]
  split
  · cases broadcast tgt sendtoOk ds (i + 1) <;> rfl
  · rfl

/-- The broadcast returns, and all it does is to put request frames on its devices. -/
theorem broadcast_spec (tgt : Sockaddr) (sendtoOk : Nat → Bool) (ds : List HwaInfo) (i : Nat) :
    ∃ rv effects, broadcast tgt sendtoOk ds i = some (rv, effects) ∧
      ∀ e ∈ effects, ∃ d ∈ ds, e = .frame d.ifIndex (requestFrame d tgt.sinAddr) := by
  induction ds generalizing i with
  | nil => exact ⟨true, [], rfl, fun e he => by cases he⟩
  | cons d ds ih =>
    rw [broadcast_cons]
    split
    · obtain ⟨rv, effects, hrec, hall⟩ := ih (i + 1)
      refine ⟨rv, _, by rw [hrec]; rfl, ?_⟩
      intro e he
      rcases List.mem_cons.1 he with rfl | he
      · exact ⟨d, List.mem_cons_self, rfl⟩
      · obtain ⟨d', hd', rfl⟩ := hall e he
        exact ⟨d', List.mem_cons_of_mem _ hd', rfl⟩
    · exact ⟨false, [], rfl, fun e he => by cases he⟩

theorem broadcast_ok (tgt : Sockaddr) {sendtoOk : Nat → Bool} (hok : ∀ i, sendtoOk i = true)
    (ds : List HwaInfo) (i : Nat) :
    ∃ effects, broadcast tgt sendtoOk ds i = some (true, effects) := by
  induction ds generalizing i with
  | nil => exact ⟨[], rfl⟩
  | cons d ds ih =>
    obtain ⟨effects, hrec⟩ := ih (i + 1)
    rw [broadcast_cons, hok i, if_pos rfl, hrec]
    exact ⟨_, rfl⟩

/-! ## What the handlers can do -/

/-- The effect is a frame, not something that concerns a client. -/
def Effect.IsFrame (e : Effect) : Prop := ∃ i bytes, e = .frame i bytes

/-- A message that `handle_areq` accepts. -/
def ValidAreq (msg : List UInt8) : Prop :=
  msg.length = sizeofAreq ∧ (Sockaddr.ofBytes msg).saFamily = afInet

/-- What `handle_areq` can do for the entry `conn` at `a` when `recv` returns `recv` and the success
of `send` is `sendOk`. -/
inductive AreqCase (devices : List HwaInfo) (cache : List Node) (a : Addr) (conn : Cache)
    (sendOk : Bool) : Option (List UInt8) → AreqResult → Prop
  | failed : AreqCase devices cache a conn sendOk none ⟨false, cache, []⟩
  | refused {msg : List UInt8} (hmsg : ¬ValidAreq msg) :
    AreqCase devices cache a conn sendOk (some msg)
      ⟨false, cache, [.received conn.domainSocket msg]⟩
  | cached {msg : List UInt8} {n : Node} (hmsg : ValidAreq msg)
    (hn : getCacheByIpAddr cache (.ofBytes msg) = some n) (hstate : n.2.state = .complete) :
    AreqCase devices cache a conn sendOk (some msg)
      ⟨false, cache, [.received conn.domainSocket msg, .send conn.domainSocket n.2.hw sendOk]⟩
  | asked {msg : List UInt8} {rv : Bool} {frames : List Effect} (hmsg : ValidAreq msg)
    (hmiss : ∀ n, getCacheByIpAddr cache (.ofBytes msg) = some n → n.2.state ≠ .complete)
    (hframes : ∀ e ∈ frames, ∃ d ∈ devices,
      e = .frame d.ifIndex (requestFrame d (Sockaddr.ofBytes msg).sinAddr)) :
    AreqCase devices cache a conn sendOk (some msg)
      ⟨rv, updateAt cache a fun c => { c with state := .incomplete, ipaddress := .ofBytes msg },
        .received conn.domainSocket msg :: frames⟩

theorem handleAreq_cases {devices : List HwaInfo} {cache : List Node} {a : Addr} {conn : Cache}
    {env : AreqEnv} {r : AreqResult} (h : handleAreq devices cache a conn env = some r) :
    AreqCase devices cache a conn env.sendOk env.recv r := by
  unfold handleAreq at h
  split at h
  · cases h
  split at h
  · rename_i hrecv
    cases h
    rw [hrecv]
    exact .failed
  rename_i msg hrecv
  rw [hrecv]
  dsimp only at h
  split at h
  · rename_i hlen
    cases h
    exact .refused fun hv => hlen hv.1
  rename_i hlen
  split at h
  · rename_i hfam
    cases h
    exact .refused fun hv => hfam hv.2
  rename_i hfam
  have hmsg : ValidAreq msg := ⟨not_not.1 hlen, not_not.1 hfam⟩
  split at h
  · rename_i n hn
    cases h
    rw [Option.filter_eq_some_iff] at hn
    exact .cached hmsg hn.1 (by simpa using hn.2)
  · rename_i hmiss
    obtain ⟨rv, frames, hrun, hframes⟩ := broadcast_spec (.ofBytes msg) env.sendtoOk devices 0
    simp only [hrun, bind, Option.bind, Option.some.injEq] at h
    subst h
    refine .asked hmsg (fun n hn hc => ?_) hframes
    have := Option.filter_eq_none_iff.1 hmiss n hn
    simp [hc] at this

theorem handleAreq_hit {devices : List HwaInfo} {cache : List Node} {a : Addr} {conn : Cache}
    {env : AreqEnv} {msg : List UInt8} {n : Node} (hconn : conn.state = .connection)
    (hrecv : env.recv = some msg) (hmsg : ValidAreq msg)
    (hn : getCacheByIpAddr cache (.ofBytes msg) = some n) (hstate : n.2.state = .complete) :
    handleAreq devices cache a conn env = some ⟨false, cache,
      [.received conn.domainSocket msg, .send conn.domainSocket n.2.hw env.sendOk]⟩ := by
  have hfilter : (getCacheByIpAddr cache (.ofBytes msg)).filter (fun n => n.2.state == .complete) =
      some n := by rw [hn]; simp [hstate]
  simp only [handleAreq, hconn, hrecv, hmsg.1, hmsg.2, ne_eq, not_true_eq_false, if_false, hfilter]

theorem handleAreq_miss {devices : List HwaInfo} {cache : List Node} {a : Addr} {conn : Cache}
    {env : AreqEnv} {msg : List UInt8} (hconn : conn.state = .connection)
    (hrecv : env.recv = some msg) (hmsg : ValidAreq msg)
    (hmiss : ∀ n, getCacheByIpAddr cache (.ofBytes msg) = some n → n.2.state ≠ .complete) :
    handleAreq devices cache a conn env =
      (broadcast (.ofBytes msg) env.sendtoOk devices 0).map fun r => ⟨r.1,
        updateAt cache a fun c => { c with state := .incomplete, ipaddress := .ofBytes msg },
        .received conn.domainSocket msg :: r.2⟩ := by
  have hfilter : (getCacheByIpAddr cache (.ofBytes msg)).filter (fun n => n.2.state == .complete) =
      none := by
    rw [Option.filter_eq_none_iff]
    intro n hn
    simpa using hmiss n hn
  simp only [handleAreq, hconn, hrecv, hmsg.1, hmsg.2, ne_eq, not_true_eq_false, if_false, hfilter,
    bind]
  cases broadcast (.ofBytes msg) env.sendtoOk devices 0 <;> rfl

/-- `handle_areq` returns for every client. -/
theorem handleAreq_returns (devices : List HwaInfo) (cache : List Node) (a : Addr) {conn : Cache}
    (env : AreqEnv) (hconn : conn.state = .connection) :
    ∃ r, handleAreq devices cache a conn env = some r := by
  cases hrecv : env.recv with
  | none => exact ⟨_, by simp only [handleAreq, hconn, hrecv, ne_eq, not_true_eq_false, if_false]; rfl⟩
  | some msg =>
    by_cases hmsg : ValidAreq msg
    · by_cases hhit : ∃ n, getCacheByIpAddr cache (.ofBytes msg) = some n ∧ n.2.state = .complete
      · obtain ⟨n, hn, hstate⟩ := hhit
        exact ⟨_, handleAreq_hit hconn hrecv hmsg hn hstate⟩
      · have hmiss : ∀ n, getCacheByIpAddr cache (.ofBytes msg) = some n → n.2.state ≠ .complete :=
          fun n hn hstate => hhit ⟨n, hn, hstate⟩
        obtain ⟨rv, effects, hrun, -⟩ := broadcast_spec (.ofBytes msg) env.sendtoOk devices 0
        exact ⟨_, by rw [handleAreq_miss hconn hrecv hmsg hmiss, hrun]; rfl⟩
    · simp only [handleAreq, hconn, hrecv, ne_eq, not_true_eq_false, if_false]
      by_cases hlen : msg.length = sizeofAreq
      · have hfam : (Sockaddr.ofBytes msg).saFamily ≠ afInet := fun hfam => hmsg ⟨hlen, hfam⟩
        exact ⟨_, by rw [if_neg (not_not.2 hlen), if_pos hfam]⟩
      · exact ⟨_, if_pos hlen⟩

/-- What the daemon can do with its cache on a frame. -/
inductive FrameCase (cache : List Node) : List Node → List Effect → Prop
  | kept {effects : List Effect} (hframes : ∀ e ∈ effects, e.IsFrame) :
    FrameCase cache cache effects
  /-- The reverse entry of `handle_req`. -/
  | learnt {effects : List Effect} {fresh : Addr} {ip : Sockaddr} {hw : Hwaddr}
    (hframes : ∀ e ∈ effects, e.IsFrame) (hfresh : fresh ∉ addrs cache)
    (hfam : ip.saFamily = afInet) (hport : ip.sinPort = .zero 2)
    (hmiss : getCacheByIpAddr cache ip = none) :
    FrameCase cache (addToCache cache (fresh, ⟨ip, 0, .complete, hw⟩)) effects
  | completed {ip : Sockaddr} {new : Hwaddr} {sendOk : Addr → Bool} (hfam : ip.saFamily = afInet)
    (hport : ip.sinPort = .zero 2) :
    FrameCase cache (replyLoop ip new sendOk cache).1 (replyLoop ip new sendOk cache).2

theorem sinPort_of_write {family : UInt16} {src : List UInt8} {data : Buf 14}
    (h : (Buf.zero 14).write 2 src = some data) : (⟨family, data⟩ : Sockaddr).sinPort = .zero 2 := by
  apply Buf.ext
  have hbytes := (Buf.write_eq_some.1 h).2
  simp only [Sockaddr.sinPort, Buf.slice_bytes, hbytes, Buf.zero_bytes]
  rfl

/-- What `handle_req` sends is at most one frame, and the address that it looks up has no port. -/
theorem answerReq_cases {devices : List HwaInfo} {eh : Buf ethHlen} {arp : ArpHdr} {src : SockaddrLl}
    {env : ReqEnv} {blah : Sockaddr} {effects : List Effect}
    (h : answerReq devices eh arp src env = some (some (blah, effects))) :
    blah.saFamily = arp.protType ∧ blah.sinPort = .zero 2 ∧
      (effects = [] ∨ ∃ i bytes, effects = [.frame i bytes]) := by
  simp only [answerReq, bind, Option.bind_eq_some_iff] at h
  obtain ⟨tpa, -, tgtip, -, h⟩ := h
  split at h
  · cases h
  simp only [Option.bind_eq_some_iff] at h
  obtain ⟨⟨hdr, size⟩, -, -, -, sent, -, spa, -, data, hdata, h⟩ := h
  cases h
  refine ⟨rfl, sinPort_of_write hdata, ?_⟩
  unfold sentOn
  split
  · split
    · exact Or.inr ⟨_, _, rfl⟩
    · exact Or.inl rfl
  · exact Or.inl rfl

/-- When `handle_req` returns, the target is another host, or it has sent what it sends before the
lookup and learnt at most the address that it looked up. -/
theorem handleReq_outcome {devices : List HwaInfo} {cache : List Node} {eh : Buf ethHlen}
    {arp : ArpHdr} {src : SockaddrLl} {env : ReqEnv} {r : List Node × List Effect}
    (h : handleReq devices cache eh arp src env = some r) :
    r = (cache, []) ∨ ∃ blah, answerReq devices eh arp src env = some (some (blah, r.2)) ∧
      (r.1 = cache ∨ getCacheByIpAddr cache blah = none ∧
        ∃ hw, r.1 = addToCache cache (env.fresh, ⟨blah, 0, .complete, hw⟩)) := by
  obtain ⟨asker, hanswer, h⟩ := Option.bind_eq_some_iff.1 h
  match asker with
  | none =>
    cases h
    exact Or.inl rfl
  | some (blah, effects) =>
    dsimp only at h
    split at h
    · cases h
      exact Or.inr ⟨blah, hanswer, Or.inl rfl⟩
    · rename_i hmiss
      simp only [bind, Option.bind_eq_some_iff] at h
      obtain ⟨mac, -, ifaddr, -, addr, -, addr', -, h⟩ := h
      cases h
      exact Or.inr ⟨blah, hanswer, Or.inr ⟨hmiss, _, rfl⟩⟩

theorem handleReq_known {devices : List HwaInfo} {cache : List Node} {eh : Buf ethHlen}
    {arp : ArpHdr} {src : SockaddrLl} {env : ReqEnv} {blah : Sockaddr} {effects : List Effect}
    {n : Node} (hanswer : answerReq devices eh arp src env = some (some (blah, effects)))
    (hn : getCacheByIpAddr cache blah = some n) :
    handleReq devices cache eh arp src env = some (cache, effects) := by
  simp only [handleReq, hanswer, hn, bind, Option.bind_some]

theorem handleReq_learns {devices : List HwaInfo} {cache : List Node} {eh : Buf ethHlen}
    {arp : ArpHdr} {src : SockaddrLl} {env : ReqEnv} {blah : Sockaddr} {effects : List Effect}
    {mac link : List UInt8} {ifaddr addr : Buf 8}
    (hanswer : answerReq devices eh arp src env = some (some (blah, effects)))
    (hn : getCacheByIpAddr cache blah = none)
    (hmac : macByIfindex devices src.sllIfindex = some mac)
    (hifaddr : (Buf.zero 8).write 0 (mac.take ethAlen) = some ifaddr)
    (hlink : src.sllAddr.read 0 src.sllHalen.toNat = some link)
    (haddr : (Buf.zero 8).write 0 link = some addr) :
    handleReq devices cache eh arp src env =
      some (addToCache cache (env.fresh, ⟨blah, 0, .complete, src.sllIfindex, arphrdEther,
        UInt8.ofNat ethAlen, ifaddr, src.sllHatype, src.sllHalen, addr⟩), effects) := by
  simp only [handleReq, hanswer, hn, hmac, hifaddr, hlink, haddr, bind, Option.bind_some]

theorem handleReq_cases {devices : List HwaInfo} {cache : List Node} {eh : Buf ethHlen}
    {arp : ArpHdr} {src : SockaddrLl} {env : ReqEnv} {r : List Node × List Effect}
    (hfam : arp.protType = afInet) (hfresh : env.fresh ∉ addrs cache)
    (h : handleReq devices cache eh arp src env = some r) :
    FrameCase cache r.1 r.2 := by
  obtain rfl | ⟨blah, hanswer, hcache⟩ := handleReq_outcome h
  · exact .kept fun e he => by cases he
  obtain ⟨hblah, hport, hsent⟩ := answerReq_cases hanswer
  have hframes : ∀ e ∈ r.2, e.IsFrame := by
    intro e he
    obtain hnone | ⟨i, bytes, hone⟩ := hsent
    · rw [hnone] at he
      cases he
    · rw [hone] at he
      exact ⟨i, bytes, List.mem_singleton.1 he⟩
  obtain hkept | ⟨hmiss, hw, hlearnt⟩ := hcache
  · rw [hkept]
    exact .kept hframes
  · rw [hlearnt]
    exact .learnt hframes hfresh (hblah.trans hfam) hport hmiss

theorem replyRecord_key {devices : List HwaInfo} {arp : ArpHdr} {src : SockaddrLl}
    {new : Hwaddr} {repip : Sockaddr} (h : replyRecord devices arp src = some (new, repip)) :
    repip.saFamily = arp.protType ∧ repip.sinPort = .zero 2 := by
  simp only [replyRecord, bind, Option.bind_eq_some_iff] at h
  obtain ⟨tha, -, addr, -, mac, -, h⟩ := h
  split at h
  · simp only [Option.bind_eq_some_iff] at h
    obtain ⟨ifaddr, -, tpa, -, data, hdata, h⟩ := h
    cases h
    exact ⟨rfl, sinPort_of_write hdata⟩
  · cases h

theorem handleReply_cases {devices : List HwaInfo} {cache : List Node} {arp : ArpHdr}
    {src : SockaddrLl} {sendOk : Addr → Bool} {r : List Node × List Effect}
    (hfam : arp.protType = afInet) (h : handleReply devices cache arp src sendOk = some r) :
    FrameCase cache r.1 r.2 := by
  simp only [handleReply, bind, Option.bind_eq_some_iff] at h
  obtain ⟨⟨new, repip⟩, hrec, h⟩ := h
  cases h
  exact .completed ((replyRecord_key hrec).1.trans hfam) (replyRecord_key hrec).2

end Tour
