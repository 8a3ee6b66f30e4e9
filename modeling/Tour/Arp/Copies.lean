import Tour.Arp.Ether

/-!
# The copies of the packet handlers

`handle_req` and `handle_reply` once more, with every copy checked against the member that it names:
`h_source` and `if_haddr` of six bytes, `sin_addr` and `tgtip` of four. A run that stays inside the
members is a run of the handlers as they are (`handleReqMembers_refines`,
`replyRecordMembers_refines`). `valid_arp` bounds the two lengths of a packet by 8 and 16; which of
the packets it accepts the handlers process is `handlers_process_iff`.
-/

namespace Tour

open Lib

/-- `sin_zero`. -/
def Sockaddr.sinZero (s : Sockaddr) : Buf 8 := s.saData.slice 6 8 (by decide)

/-- What `handle_req` looks up on the way: the address asked for, and the reverse key. -/
structure ReqRun where
  tgtip : InAddr
  key : Option Sockaddr
  cache : List Node
  effects : List Effect

/-- `handle_req`, with every copy checked against the members. -/
def handleReqMembers (devices : List HwaInfo) (cache : List Node) (eh : Buf ethHlen) (arp : ArpHdr)
    (src : SockaddrLl) (env : ReqEnv) : Option ReqRun := do
  let pl := arp.protLen.toNat
  let tpa ← arp.data.read arp.tpa pl
  let tgtip ← env.stack.write 0 tpa
  match isDestination devices tgtip with
  | none => some ⟨tgtip, none, cache, []⟩
  | some this => do
    let hSource := (eh.slice ethAlen ethAlen (by decide)).bytes
    let (hdr, hdrSize) ← buildArp (.zero arpHdrSize) arp.hardType arp.protType arp.hardLen
      arp.protLen arpopReply (some hSource) (some this.ipAddr.sinAddr.bytes)
      (some this.ifHaddr.bytes) (some (arp.data.bytes.drop arp.tpa))
    let _ ← printAddresses (.ofBuf hdr)
    let sent ← sendFrame hdr.bytes hdrSize (some hSource) (macByIfindex devices src.sllIfindex)
    let effects := sentOn src.sllIfindex env.sendtoOk sent
    let spa ← arp.data.read arp.spa pl
    let sinAddr ← (Buf.zero 4).write 0 spa
    let data ← (Buf.zero 14).write 2 sinAddr.bytes
    let blah : Sockaddr := ⟨arp.protType, data⟩
    match getCacheByIpAddr cache blah with
    | some _ => some ⟨tgtip, some blah, cache, effects⟩
    | none => do
      let mac ← macByIfindex devices src.sllIfindex
      let ifaddr ← (Buf.zero 8).write 0 (mac.take ethAlen)
      let addr ← src.sllAddr.read 0 src.sllHalen.toNat
      let addr ← (Buf.zero 8).write 0 addr
      let hw : Hwaddr :=
        ⟨src.sllIfindex, arphrdEther, UInt8.ofNat ethAlen, ifaddr, src.sllHatype, src.sllHalen, addr⟩
      some ⟨tgtip, some blah, addToCache cache (env.fresh, ⟨blah, 0, .complete, hw⟩), effects⟩

/-- `handle_reply` up to its loop, with every copy checked against the members. -/
def replyRecordMembers (devices : List HwaInfo) (arp : ArpHdr) (src : SockaddrLl) :
    Option (Hwaddr × Sockaddr) := do
  let hl := arp.hardLen.toNat
  let tha ← arp.data.read arp.tha hl
  let addr ← (Buf.zero 8).write 0 tha
  let mac ← macByIfindex devices src.sllIfindex
  let ifaddr ← if hl ≤ ethAlen then (Buf.zero 8).write 0 (mac.take hl) else none
  let tpa ← arp.data.read arp.tpa arp.protLen.toNat
  let sinAddr ← (Buf.zero 4).write 0 tpa
  let data ← (Buf.zero 14).write 2 sinAddr.bytes
  some (⟨src.sllIfindex, 0, UInt8.ofNat ethAlen, ifaddr, htons arphrdEther, arp.hardLen, addr⟩,
    ⟨arp.protType, data⟩)

/-! ## What the handlers are to do -/

/-- The protocol address at `off` in a packet. -/
def ArpHdr.proBytes (arp : ArpHdr) (off : Nat) : List UInt8 :=
  (arp.data.bytes.drop off).take arp.protLen.toNat

/-- The key is the protocol address `ip` and nothing else. -/
def Sockaddr.IsFor (key : Sockaddr) (ip : List UInt8) : Prop :=
  key.sinAddr.bytes = ip ∧ key.sinPort = .zero 2 ∧ key.sinZero = .zero 8

/-- Every copy of `handle_req` stays inside its objects, and the addresses that it looks up are
those in the packet, whatever the stack held. -/
def ReqProcessed (devices : List HwaInfo) (cache : List Node) (eh : Buf ethHlen) (arp : ArpHdr)
    (src : SockaddrLl) : Prop :=
  ∀ env, ∃ r, handleReqMembers devices cache eh arp src env = some r ∧
    r.tgtip.bytes = arp.proBytes arp.tpa ∧ ∀ key, r.key = some key → key.IsFor (arp.proBytes arp.spa)

/-- Every copy of `handle_reply` stays inside its objects, and the address that it looks up is the
one in the packet. -/
def ReplyProcessed (devices : List HwaInfo) (arp : ArpHdr) (src : SockaddrLl) : Prop :=
  ∃ hw key, replyRecordMembers devices arp src = some (hw, key) ∧ key.IsFor (arp.proBytes arp.tpa)

/-- The handler that `run_arp` calls for a packet processes it. -/
def Processed (devices : List HwaInfo) (cache : List Node) (eh : Buf ethHlen) (arp : ArpHdr)
    (src : SockaddrLl) : Prop :=
  (arp.op = arpopRequest → ReqProcessed devices cache eh arp src) ∧
    (arp.op = arpopReply → ReplyProcessed devices arp src)

/-- The IPv4 address at `off` in a packet. -/
def ArpHdr.ipAt (arp : ArpHdr) (off : Nat) : InAddr := .fill 4 (arp.data.bytes.drop off)

/-- The lengths fit the members: protocol addresses have four bytes; hardware addresses have at most
six, in a reply and in a request for this host; and a link address that is about to be stored has at
most eight. -/
def Fits (devices : List HwaInfo) (cache : List Node) (arp : ArpHdr) (src : SockaddrLl) : Prop :=
  arp.protLen = 4 ∧ (arp.op = arpopReply → arp.hardLen ≤ 6) ∧
    (arp.op = arpopRequest → (isDestination devices (arp.ipAt arp.tpa)).isSome →
      arp.hardLen ≤ 6 ∧ (getCacheByIpAddr cache (etherIp (arp.ipAt arp.spa)) = none →
        src.sllHalen ≤ 8))

/-! ## The handlers as they are -/

/-- A copy out of an object is a copy out of the memory that continues it. -/
theorem putAddress_mono {n off len : Nat} {b c : Buf n} {src src' : List UInt8}
    (hsub : src <+: src') (h : putAddress b off len (some src) = some c) :
    putAddress b off len (some src') = some c := by
  unfold putAddress at h ⊢
  dsimp only at h ⊢
  split at h
  · rename_i hlen
    obtain ⟨rest, rfl⟩ := hsub
    have hlen' : len ≤ (src ++ rest).length := by rw [List.length_append]; omega
    rwa [if_pos hlen', List.take_append_of_le_length hlen]
  · cases h

theorem buildArp_mono {n : Nat} {start b : Buf n} {hardType protType op : UInt16}
    {hardLen protLen : UInt8} {sha spa tha tpa sha' spa' tha' : List UInt8} {len : Nat}
    (h₁ : sha <+: sha') (h₂ : spa <+: spa') (h₃ : tha <+: tha')
    (h : buildArp start hardType protType hardLen protLen op (some sha) (some spa) (some tha)
      (some tpa) = some (b, len)) :
    buildArp start hardType protType hardLen protLen op (some sha') (some spa') (some tha')
      (some tpa) = some (b, len) := by
  unfold buildArp at h ⊢
  dsimp only at h ⊢
  split at h
  · rename_i hfit
    rw [if_pos hfit]
    exact h
  · rename_i hfit
    rw [if_neg hfit]
    simp only [bind, Option.bind_eq_some_iff] at h ⊢
    obtain ⟨b₀, e₀, b₁, e₁, b₂, e₂, b₃, e₃, hrest⟩ := h
    exact ⟨b₀, e₀, b₁, putAddress_mono h₁ e₁, b₂, putAddress_mono h₂ e₂, b₃,
      putAddress_mono h₃ e₃, hrest⟩

theorem sendFrame_mono {payload dst dst' : List UInt8} {size : Nat} {src : Option (List UInt8)}
    {r : Option (List UInt8)} (hsub : dst <+: dst')
    (h : sendFrame payload size (some dst) src = some r) :
    sendFrame payload size (some dst') src = some r := by
  unfold sendFrame at h ⊢
  split at h
  · rename_i hsize
    rw [if_pos hsize]
    exact h
  · rename_i hsize
    rw [if_neg hsize]
    simp only [bind, Option.bind_eq_some_iff] at h ⊢
    obtain ⟨d, hd, s, hs, h⟩ := h
    cases hd
    refine ⟨dst', rfl, s, hs, ?_⟩
    split at h
    · rename_i hfits
      obtain ⟨rest, rfl⟩ := hsub
      have hlen : ethAlen ≤ (dst ++ rest).length := by
        rw [List.length_append]
        exact Nat.le_add_right_of_le hfits.1
      rw [if_pos ⟨hlen, hfits.2⟩, List.take_append_of_le_length hfits.1]
      exact h
    · cases h

/-- Storing into `sin_addr` is storing into the address from `sin_addr` on. -/
theorem write_sinAddr {l : List UInt8} {sinAddr : InAddr} {data : Buf 14}
    (h : (Buf.zero 4).write 0 l = some sinAddr)
    (hdata : (Buf.zero 14).write 2 sinAddr.bytes = some data) :
    (Buf.zero 14).write 2 l = some data := by
  obtain ⟨hle, hsin⟩ := Buf.write_eq_some.1 h
  obtain ⟨-, hbytes⟩ := Buf.write_eq_some.1 hdata
  rw [Nat.zero_add] at hle
  refine Buf.write_eq_some.2 ⟨by omega, ?_⟩
  rw [hbytes, sinAddr.length_eq, hsin]
  simp only [Buf.zero_bytes, List.take_zero, List.nil_append, List.drop_replicate,
    List.append_assoc, List.append_cancel_left_eq, ← List.replicate_add]
  congr 1
  omega

section Refine

variable {devices : List HwaInfo} {cache : List Node} {eh : Buf ethHlen} {arp : ArpHdr}
  {src : SockaddrLl} {env : ReqEnv}

theorem source_starts : (eh.slice ethAlen ethAlen (by decide)).bytes <+: eh.bytes.drop ethAlen :=
  List.take_prefix _ _

theorem sinAddr_starts (s : Sockaddr) : s.sinAddr.bytes <+: s.sinAddrMem := List.take_prefix _ _

theorem ifHaddr_starts (d : HwaInfo) : d.ifHaddr.bytes <+: d.haddrMem := List.prefix_append _ _

/-- A run of `handle_req` inside the members is a run of `handle_req`. -/
theorem handleReqMembers_refines {r : ReqRun}
    (h : handleReqMembers devices cache eh arp src env = some r) :
    handleReq devices cache eh arp src env = some (r.cache, r.effects) := by
  simp only [handleReqMembers, bind, Option.bind_eq_some_iff] at h
  obtain ⟨tpa, htpa, tgtip, htgtip, h⟩ := h
  split at h
  · rename_i hdest
    cases h
    simp only [handleReq, answerReq, htpa, htgtip, hdest, bind, Option.bind]
  · rename_i this hdest
    simp only [Option.bind_eq_some_iff] at h
    obtain ⟨⟨hdr, hdrSize⟩, hbuild, printed, hprint, sent, hsent, spa, hspa, sinAddr, hsin, data,
      hdata, h⟩ := h
    have hbuild' := buildArp_mono source_starts (sinAddr_starts this.ipAddr)
      (ifHaddr_starts this) hbuild
    have hsent' := sendFrame_mono source_starts hsent
    have hanswer : answerReq devices eh arp src env =
        some (some (⟨arp.protType, data⟩, sentOn src.sllIfindex env.sendtoOk sent)) := by
      simp only [answerReq, htpa, htgtip, hdest, hbuild', hprint, hsent', hspa,
        write_sinAddr hsin hdata, bind, Option.bind_some]
    split at h
    · rename_i n hn
      cases h
      exact handleReq_known hanswer hn
    · rename_i hn
      simp only [Option.bind_eq_some_iff] at h
      obtain ⟨mac, hmac, ifaddr, hifaddr, link, hlink, addr, haddr, h⟩ := h
      cases h
      exact handleReq_learns hanswer hn hmac hifaddr hlink haddr

theorem macByIfindex_length {i : Int} {mac : List UInt8} (h : macByIfindex devices i = some mac) :
    mac.length = 8 := by
  obtain ⟨d, -, rfl⟩ := Option.map_eq_some_iff.1 h
  exact d.haddrMem_length

/-- A run of `handle_reply` inside the members is a run of `handle_reply`. -/
theorem replyRecordMembers_refines {r : Hwaddr × Sockaddr}
    (h : replyRecordMembers devices arp src = some r) : replyRecord devices arp src = some r := by
  simp only [replyRecordMembers, bind, Option.bind_eq_some_iff] at h
  obtain ⟨tha, htha, addr, haddr, mac, hmac, h⟩ := h
  split at h
  · rename_i hlen
    simp only [Option.bind_eq_some_iff] at h
    obtain ⟨ifaddr, hifaddr, tpa, htpa, sinAddr, hsin, data, hdata, h⟩ := h
    cases h
    have hlen' : arp.hardLen.toNat ≤ mac.length := by
      rw [macByIfindex_length hmac]
      exact Nat.le_trans hlen (by decide)
    simp only [replyRecord, htha, haddr, hmac, if_pos hlen', hifaddr, htpa,
      write_sinAddr hsin hdata, bind, Option.bind]
  · cases h

end Refine

/-! ## The lengths that are processed -/

/-- What `valid_arp` says about the lengths. -/
theorem validArp_bounds {arp : ArpHdr} (h : validArp arp = true) :
    arp.protType = afInet ∧ arp.hardLen.toNat ≤ 8 ∧ arp.protLen.toNat ≤ 16 ∧
      (arp.op = arpopRequest ∨ arp.op = arpopReply) := by
  simp only [validArp, Bool.and_eq_true, Bool.or_eq_true, beq_iff_eq, decide_eq_true_eq] at h
  obtain ⟨⟨⟨⟨⟨-, -⟩, hprot⟩, hhl⟩, hpl⟩, hop⟩ := h
  exact ⟨hprot, hhl, hpl, hop⟩

section Lengths

variable {arp : ArpHdr} {off : Nat}

theorem read_proBytes (h : off + arp.protLen.toNat ≤ arpMaxdatalen) :
    arp.data.read off arp.protLen.toNat = some (arp.proBytes off) :=
  Buf.read_eq_some.2 ⟨h, rfl⟩

theorem proBytes_length (h : off + arp.protLen.toNat ≤ arpMaxdatalen) :
    (arp.proBytes off).length = arp.protLen.toNat :=
  Buf.read_length (read_proBytes h)

/-- An address of four bytes. -/
theorem proBytes_eq (h4 : arp.protLen = 4) (h : off + 4 ≤ arpMaxdatalen) :
    arp.proBytes off = (arp.ipAt off).bytes := by
  have hlen : 4 ≤ (arp.data.bytes.drop off).length := by
    rw [List.length_drop, arp.data.length_eq]
    omega
  rw [ArpHdr.ipAt, Buf.fill_bytes_of_ge hlen, ArpHdr.proBytes, h4]
  rfl

theorem isFor_etherIp (ip : InAddr) : (etherIp ip).IsFor ip.bytes := by
  obtain ⟨l, hl⟩ := ip
  match l, hl with
  | [_, _, _, _], _ => exact ⟨rfl, rfl, rfl⟩

/-- A reply is built only from hardware addresses that have the bytes asked for. -/
theorem buildArp_holds {n : Nat} {start : Buf n} {hardType protType op : UInt16}
    {hardLen protLen : UInt8} {sha : List UInt8} {spa tha tpa : Option (List UInt8)}
    {r : Buf n × Nat} (hfit : arpHdrlen + 2 * hardLen.toNat + 2 * protLen.toNat ≤ n)
    (h : buildArp start hardType protType hardLen protLen op (some sha) spa tha tpa = some r) :
    hardLen.toNat ≤ sha.length := by
  simp only [buildArp, if_neg (Nat.not_lt.2 hfit), bind, Option.bind_eq_some_iff, putAddress] at h
  obtain ⟨b₀, -, b₁, h₁, -⟩ := h
  split at h₁
  · assumption
  · cases h₁

/-- The reply for two addresses of four bytes and two of at most six. -/
theorem buildArp_members (hl : arp.hardLen.toNat ≤ 6) (h4 : arp.protLen = 4) (this : HwaInfo)
    {hSource tpaMem mac : List UInt8} (hsource : hSource.length = 6) (htpa : 4 ≤ tpaMem.length)
    (hmac : mac.length = 8) : ∃ hdr size printed frame,
      buildArp (.zero arpHdrSize) arp.hardType arp.protType arp.hardLen arp.protLen arpopReply
        (some hSource) (some this.ipAddr.sinAddr.bytes) (some this.ifHaddr.bytes) (some tpaMem) =
        some (hdr, size) ∧
      printAddresses (.ofBuf hdr) = some printed ∧
      sendFrame hdr.bytes size (some hSource) (some mac) = some (some frame) := by
  have hpl : arp.protLen.toNat = 4 := by rw [h4]; rfl
  have h₁ : Holds arp.hardLen.toNat (some hSource) := by rintro l ⟨⟩; omega
  have h₂ : Holds arp.protLen.toNat (some this.ipAddr.sinAddr.bytes) := by
    rintro l ⟨⟩
    rw [this.ipAddr.sinAddr.length_eq]
    omega
  have h₃ : Holds arp.hardLen.toNat (some this.ifHaddr.bytes) := by
    rintro l ⟨⟩
    rw [this.ifHaddr.length_eq]
    exact hl
  have h₄ : Holds arp.protLen.toNat (some tpaMem) := by rintro l ⟨⟩; omega
  obtain ⟨hdr, hbuild, hbytes⟩ := buildArp_of_fits (.zero arpHdrSize) arp.hardType arp.protType
    arp.hardLen arp.protLen arpopReply h₁ h₂ h₃ h₄
    (by change 10 + _ + _ ≤ 58; omega)
  have hprint : (printAddresses (.ofBuf hdr)).isSome := by
    rw [printAddresses_isSome]
    have hdatalen : (ArpHdr.ofBuf hdr).datalen = 2 * arp.hardLen.toNat + 2 * arp.protLen.toNat := by
      simp only [ArpHdr.datalen, ArpHdr.ofBuf, hbytes]
      rfl
    rw [hdatalen]
    change _ ≤ 48
    omega
  obtain ⟨printed, hprinted⟩ := Option.isSome_iff_exists.1 hprint
  have hsize : arpHdrlen + 2 * arp.hardLen.toNat + 2 * arp.protLen.toNat ≤ arpHdrSize := by
    change 10 + _ + _ ≤ 58
    omega
  have hsend := sendFrame_of_fits (Nat.le_trans hsize (by decide)) (Nat.le_of_eq hsource.symm)
    (show ethAlen ≤ mac.length by rw [hmac]; decide)
    (Nat.le_trans hsize (Nat.le_of_eq hdr.length_eq.symm))
  exact ⟨hdr, _, printed, _, hbuild, hprinted, hsend⟩

end Lengths

section Request

variable {devices : List HwaInfo} {cache : List Node} {eh : Buf ethHlen} {arp : ArpHdr}
  {src : SockaddrLl}

/-- The addresses of a valid packet lie in its data. -/
theorem validArp_inside (h : validArp arp = true) :
    arp.tpa + arp.protLen.toNat ≤ arpMaxdatalen ∧ arp.spa + arp.protLen.toNat ≤ arpMaxdatalen ∧
      arp.tha + arp.hardLen.toNat ≤ arpMaxdatalen := by
  obtain ⟨-, hhl, hpl, -⟩ := validArp_bounds h
  simp only [ArpHdr.tpa, ArpHdr.spa, ArpHdr.tha, arpMaxdatalen, arpMaxhwlen, arpMaxprlen]
  omega

theorem protLen_of_length {ip : InAddr} (hin : off + arp.protLen.toNat ≤ arpMaxdatalen)
    (h : ip.bytes = arp.proBytes off) : arp.protLen = 4 := by
  have hlen := congrArg List.length h
  rw [ip.length_eq, proBytes_length hin] at hlen
  exact UInt8.toNat_inj.1 hlen.symm

/-- The lengths of a request that was processed. -/
theorem ReqProcessed.fits (hvalid : validArp arp = true)
    (h : ReqProcessed devices cache eh arp src) : arp.protLen = 4 ∧
      ((isDestination devices (arp.ipAt arp.tpa)).isSome → arp.hardLen.toNat ≤ 6 ∧
        (getCacheByIpAddr cache (etherIp (arp.ipAt arp.spa)) = none → src.sllHalen.toNat ≤ 8)) := by
  obtain ⟨hprot, hhl, hpl, -⟩ := validArp_bounds hvalid
  obtain ⟨htpa, hspa, -⟩ := validArp_inside hvalid
  obtain ⟨r, hr, htgtip, -⟩ := h ⟨.zero 4, true, 0⟩
  have h4 : arp.protLen = 4 := protLen_of_length htpa htgtip
  have hpl4 : arp.protLen.toNat = 4 := by rw [h4]; rfl
  refine ⟨h4, fun hdest => ?_⟩
  obtain ⟨this, hthis⟩ := Option.isSome_iff_exists.1 hdest
  have hreadt := read_proBytes htpa
  have hreads := read_proBytes hspa
  rw [proBytes_eq h4 (by omega)] at hreadt hreads
  simp only [handleReqMembers, hreadt, write_inAddr, hthis, hreads, write_etherIp, bind,
    Option.bind_some, Option.bind_eq_some_iff] at hr
  obtain ⟨⟨hdr, size⟩, hbuild, printed, -, sent, -, hr⟩ := hr
  constructor
  · have hholds := buildArp_holds (by change 10 + _ + _ ≤ 58; omega) hbuild
    rwa [(eh.slice ethAlen ethAlen _).length_eq] at hholds
  · intro hmiss
    rw [show (⟨arp.protType, (etherIp (arp.ipAt arp.spa)).saData⟩ : Sockaddr) =
      etherIp (arp.ipAt arp.spa) by rw [hprot]; rfl, hmiss] at hr
    simp only [Option.bind_eq_some_iff] at hr
    obtain ⟨mac, -, ifaddr, -, link, hlink, -⟩ := hr
    have := (Buf.read_eq_some.1 hlink).1
    omega

/-- A request whose lengths fit is processed. -/
theorem reqProcessed_of_fits (hvalid : validArp arp = true)
    (hlisted : ∃ d ∈ devices, d.ifIndex = src.sllIfindex) (h4 : arp.protLen = 4)
    (hfits : (isDestination devices (arp.ipAt arp.tpa)).isSome → arp.hardLen.toNat ≤ 6 ∧
      (getCacheByIpAddr cache (etherIp (arp.ipAt arp.spa)) = none → src.sllHalen.toNat ≤ 8)) :
    ReqProcessed devices cache eh arp src := by
  intro env
  obtain ⟨hprot, -, -, -⟩ := validArp_bounds hvalid
  obtain ⟨htpa, hspa, -⟩ := validArp_inside hvalid
  have hpl4 : arp.protLen.toNat = 4 := by rw [h4]; rfl
  have hproT := proBytes_eq h4 (hpl4 ▸ htpa)
  have hproS := proBytes_eq h4 (hpl4 ▸ hspa)
  have hreadt := read_proBytes htpa
  have hreads := read_proBytes hspa
  rw [hproT] at hreadt
  rw [hproS] at hreads
  have hkey : (⟨arp.protType, (etherIp (arp.ipAt arp.spa)).saData⟩ : Sockaddr) =
      etherIp (arp.ipAt arp.spa) := by rw [hprot]; rfl
  have hfor : ∀ key, some (etherIp (arp.ipAt arp.spa)) = some key →
      key.IsFor (arp.proBytes arp.spa) := by
    rintro key ⟨⟩
    rw [hproS]
    exact isFor_etherIp _
  cases hdest : isDestination devices (arp.ipAt arp.tpa) with
  | none =>
    refine ⟨⟨arp.ipAt arp.tpa, none, cache, []⟩, ?_, hproT.symm, fun key hkey => by cases hkey⟩
    simp only [handleReqMembers, hreadt, write_inAddr, hdest, bind, Option.bind]
  | some this =>
    obtain ⟨hl, hhalen⟩ := hfits (by rw [hdest]; rfl)
    obtain ⟨d, -, -, hmac⟩ := macByIfindex_listed hlisted
    have hmem : 4 ≤ (arp.data.bytes.drop arp.tpa).length := by
      rw [List.length_drop, arp.data.length_eq]
      omega
    obtain ⟨hdr, size, printed, frame, hbuild, hprint, hsend⟩ := buildArp_members hl h4 this
      (eh.slice ethAlen ethAlen (by decide)).length_eq hmem d.haddrMem_length
    cases hmiss : getCacheByIpAddr cache (etherIp (arp.ipAt arp.spa)) with
    | some n =>
      refine ⟨⟨arp.ipAt arp.tpa, some (etherIp (arp.ipAt arp.spa)), cache,
        sentOn src.sllIfindex env.sendtoOk (some frame)⟩, ?_, hproT.symm, hfor⟩
      simp only [handleReqMembers, hreadt, write_inAddr, hdest, hbuild, hprint, hmac, hsend, hreads,
        write_etherIp, hkey, hmiss, bind, Option.bind]
    | none =>
      have hread : src.sllAddr.read 0 src.sllHalen.toNat =
          some (src.sllAddr.bytes.take src.sllHalen.toNat) := by
        refine Buf.read_eq_some.2 ⟨?_, rfl⟩
        rw [Nat.zero_add]
        exact hhalen hmiss
      have haddr := Buf.write_zero (n := 8) (Nat.le_trans
        (List.length_take_le src.sllHalen.toNat src.sllAddr.bytes) (hhalen hmiss))
      have hifaddr := Buf.write_zero (n := 8) (Nat.le_trans
        (List.length_take_le ethAlen d.haddrMem) (by decide))
      refine ⟨⟨arp.ipAt arp.tpa, some (etherIp (arp.ipAt arp.spa)),
        addToCache cache (env.fresh, ⟨etherIp (arp.ipAt arp.spa), 0, .complete,
          ⟨src.sllIfindex, arphrdEther, UInt8.ofNat ethAlen, .fill 8 (d.haddrMem.take ethAlen),
            src.sllHatype, src.sllHalen,
            .fill 8 (src.sllAddr.bytes.take src.sllHalen.toNat)⟩⟩),
        sentOn src.sllIfindex env.sendtoOk (some frame)⟩, ?_, hproT.symm, hfor⟩
      simp only [handleReqMembers, hreadt, write_inAddr, hdest, hbuild, hprint, hmac, hsend, hreads,
        write_etherIp, hkey, hmiss, hifaddr, hread, haddr, bind, Option.bind]

/-- A reply is processed exactly when its lengths fit. -/
theorem replyProcessed_iff (hvalid : validArp arp = true)
    (hlisted : ∃ d ∈ devices, d.ifIndex = src.sllIfindex) :
    ReplyProcessed devices arp src ↔ arp.protLen = 4 ∧ arp.hardLen.toNat ≤ 6 := by
  obtain ⟨hprot, hhl, -, -⟩ := validArp_bounds hvalid
  obtain ⟨htpa, -, htha⟩ := validArp_inside hvalid
  constructor
  · rintro ⟨hw, key, hrun, hfor, -⟩
    refine ⟨protLen_of_length htpa hfor, ?_⟩
    simp only [replyRecordMembers, bind, Option.bind_eq_some_iff] at hrun
    obtain ⟨tha, -, addr, -, mac, -, hrun⟩ := hrun
    split at hrun
    · assumption
    · cases hrun
  · rintro ⟨h4, hl⟩
    have hpl4 : arp.protLen.toNat = 4 := by rw [h4]; rfl
    have hpro := proBytes_eq h4 (hpl4 ▸ htpa)
    have hread := read_proBytes htpa
    rw [hpro] at hread
    obtain ⟨d, -, -, hmac⟩ := macByIfindex_listed hlisted
    have hreadh : arp.data.read arp.tha arp.hardLen.toNat =
        some ((arp.data.bytes.drop arp.tha).take arp.hardLen.toNat) :=
      Buf.read_eq_some.2 ⟨htha, rfl⟩
    have haddr := Buf.write_zero (n := 8) (Nat.le_trans
      (List.length_take_le arp.hardLen.toNat (arp.data.bytes.drop arp.tha)) hhl)
    have hifaddr := Buf.write_zero (n := 8) (Nat.le_trans
      (List.length_take_le arp.hardLen.toNat d.haddrMem) hhl)
    have hkey : (⟨arp.protType, (etherIp (arp.ipAt arp.tpa)).saData⟩ : Sockaddr) =
        etherIp (arp.ipAt arp.tpa) := by rw [hprot]; rfl
    refine ⟨⟨src.sllIfindex, 0, UInt8.ofNat ethAlen, .fill 8 (d.haddrMem.take arp.hardLen.toNat),
      htons arphrdEther, arp.hardLen,
      .fill 8 ((arp.data.bytes.drop arp.tha).take arp.hardLen.toNat)⟩,
      etherIp (arp.ipAt arp.tpa), ?_, ?_⟩
    · simp only [replyRecordMembers, hreadh, haddr, hmac, if_pos (show arp.hardLen.toNat ≤ ethAlen
        from hl), hifaddr, hread, write_inAddr, write_etherIp, hkey, bind, Option.bind]
    · rw [hpro]
      exact isFor_etherIp _

/-- **What the handlers process.** Of the packets that `valid_arp` accepts from a listed interface,
the copies stay inside their objects, and the addresses looked up are those in the packet, exactly
for those whose lengths fit the members. -/
theorem handlers_process_iff (hvalid : validArp arp = true)
    (hlisted : ∃ d ∈ devices, d.ifIndex = src.sllIfindex) :
    Processed devices cache eh arp src ↔ Fits devices cache arp src := by
  have hsix : arp.hardLen ≤ 6 ↔ arp.hardLen.toNat ≤ 6 := UInt8.le_iff_toNat_le
  have height : src.sllHalen ≤ 8 ↔ src.sllHalen.toNat ≤ 8 := UInt8.le_iff_toNat_le
  rw [Processed, Fits, hsix, height, replyProcessed_iff hvalid hlisted]
  obtain ⟨-, -, -, hop⟩ := validArp_bounds hvalid
  constructor
  · rintro ⟨hreq, hreply⟩
    rcases hop with hop | hop
    · obtain ⟨h4, hfits⟩ := (hreq hop).fits hvalid
      refine ⟨h4, fun hop' => ?_, fun _ => hfits⟩
      exact absurd (hop'.symm.trans hop) arpopReply_ne
    · obtain ⟨h4, hl⟩ := hreply hop
      refine ⟨h4, fun _ => hl, fun hop' => ?_⟩
      exact absurd (hop.symm.trans hop') arpopReply_ne
  · rintro ⟨h4, hreply, hreq⟩
    exact ⟨fun hop => reqProcessed_of_fits hvalid hlisted h4 (hreq hop),
      fun hop => ⟨h4, hreply hop⟩⟩

end Request

/-- A reply with the lengths of Ethernet and IPv4 is processed. -/
theorem handlers_process_reply : Processed loneHost.devices [] (.zero ethHlen)
    (etherArp arpopReply (hostMac 1) (hostIp 1) (hostMac 2) (hostIp 2))
    ⟨2, arphrdEther, 6, .zero 8⟩ :=
  (handlers_process_iff rfl ⟨_, List.mem_singleton_self _, rfl⟩).2
    ⟨rfl, fun _ => by decide, fun hop => absurd hop arpopReply_ne⟩

/-- A request with protocol addresses of 16 bytes is valid, and not processed. -/
theorem handlers_overrun :
    ¬∀ (devices : List HwaInfo) (cache : List Node) (eh : Buf ethHlen) (arp : ArpHdr)
      (src : SockaddrLl), validArp arp = true → (∃ d ∈ devices, d.ifIndex = src.sllIfindex) →
      Processed devices cache eh arp src := by
  intro h
  have hvalid : validArp ⟨arpId, arphrdEther, afInet, 6, 16, arpopRequest, .zero _⟩ = true := rfl
  obtain ⟨hreq, -⟩ := h loneHost.devices [] (.zero ethHlen) _ ⟨2, arphrdEther, 6, .zero 8⟩ hvalid
    ⟨_, List.mem_singleton_self _, rfl⟩
  obtain ⟨h4, -⟩ := (hreq rfl).fits hvalid
  exact absurd h4 (by decide)

end Tour
