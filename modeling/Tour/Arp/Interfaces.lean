import Tour.Arp.Copies
import Tour.Lib.Logged

/-!
# Frames from any interface

`handle_req` and `handle_reply` once more, with a log of what they make of `mac_by_ifindex`: each
result that is passed to `send_frame` or copied from, which may be a null pointer (`handleReqLog`,
`handleReplyLog`). Without the log they are the handlers (`handleReqLog_result`,
`handleReplyLog_result`). The packet socket receives from every interface, and the handlers look at
the interface only where they need its MAC: no null pointer is used exactly for a listed interface,
and for a request that is not for this host (`mac_used_iff`).
-/

namespace Tour

open Lib

/-- The result of `mac_by_ifindex`, where it is used. -/
def useMac (devices : List HwaInfo) (index : Int) :
    Logged (Option (List UInt8)) (Option (List UInt8)) :=
  ⟨[macByIfindex devices index], some (macByIfindex devices index)⟩

/-- `handle_req`, with the MACs that it uses. -/
def handleReqLog (devices : List HwaInfo) (cache : List Node) (eh : Buf ethHlen) (arp : ArpHdr)
    (src : SockaddrLl) (env : ReqEnv) : Logged (Option (List UInt8)) (List Node × List Effect) := do
  let pl := arp.protLen.toNat
  let tpa ← .lift (arp.data.read arp.tpa pl)
  let tgtip ← .lift (env.stack.write 0 tpa)
  match isDestination devices tgtip with
  | none => pure (cache, [])
  | some this => do
    let hSource := eh.bytes.drop ethAlen
    let (hdr, hdrSize) ← .lift (buildArp (.zero arpHdrSize) arp.hardType arp.protType arp.hardLen
      arp.protLen arpopReply (some hSource) (some this.ipAddr.sinAddrMem) (some this.haddrMem)
      (some (arp.data.bytes.drop arp.tpa)))
    let _ ← .lift (printAddresses (.ofBuf hdr))
    let mac ← useMac devices src.sllIfindex
    let sent ← .lift (sendFrame hdr.bytes hdrSize (some hSource) mac)
    let effects := sentOn src.sllIfindex env.sendtoOk sent
    let spa ← .lift (arp.data.read arp.spa pl)
    let data ← .lift ((Buf.zero 14).write 2 spa)
    let blah : Sockaddr := ⟨arp.protType, data⟩
    match getCacheByIpAddr cache blah with
    | some _ => pure (cache, effects)
    | none => do
      let mac ← useMac devices src.sllIfindex
      let mac ← .lift mac
      let ifaddr ← .lift ((Buf.zero 8).write 0 (mac.take ethAlen))
      let addr ← .lift (src.sllAddr.read 0 src.sllHalen.toNat)
      let addr ← .lift ((Buf.zero 8).write 0 addr)
      let hw : Hwaddr :=
        ⟨src.sllIfindex, arphrdEther, UInt8.ofNat ethAlen, ifaddr, src.sllHatype, src.sllHalen, addr⟩
      pure (addToCache cache (env.fresh, ⟨blah, 0, .complete, hw⟩), effects)

/-- `handle_reply`, with the MAC that it uses. -/
def handleReplyLog (devices : List HwaInfo) (cache : List Node) (arp : ArpHdr) (src : SockaddrLl)
    (sendOk : Addr → Bool) : Logged (Option (List UInt8)) (List Node × List Effect) := do
  let hl := arp.hardLen.toNat
  let tha ← .lift (arp.data.read arp.tha hl)
  let addr ← .lift ((Buf.zero 8).write 0 tha)
  let mac ← useMac devices src.sllIfindex
  let mac ← .lift mac
  let ifaddr ← .lift (if hl ≤ mac.length then (Buf.zero 8).write 0 (mac.take hl) else none)
  let tpa ← .lift (arp.data.read arp.tpa arp.protLen.toNat)
  let data ← .lift ((Buf.zero 14).write 2 tpa)
  let new : Hwaddr :=
    ⟨src.sllIfindex, 0, UInt8.ofNat ethAlen, ifaddr, htons arphrdEther, arp.hardLen, addr⟩
  pure (replyLoop ⟨arp.protType, data⟩ new sendOk cache)

@[simp] theorem result_useMac (devices : List HwaInfo) (index : Int) :
    (useMac devices index).result = some (macByIfindex devices index) := rfl

section Result

variable (devices : List HwaInfo) (cache : List Node) (eh : Buf ethHlen) (arp : ArpHdr)
  (src : SockaddrLl)

theorem handleReqLog_result (env : ReqEnv) : (handleReqLog devices cache eh arp src env).result =
    handleReq devices cache eh arp src env := by
  simp only [handleReqLog, handleReq, answerReq, Logged.result_bind, bind_assoc]
  refine Option.bind_congr fun tpa _ => ?_
  refine Option.bind_congr fun tgtip _ => ?_
  cases isDestination devices tgtip with
  | none => rfl
  | some this =>
    simp only [Logged.result_bind, Logged.result_lift, result_useMac, Option.bind_some, bind_assoc]
    refine Option.bind_congr fun hdr _ => ?_
    refine Option.bind_congr fun printed _ => ?_
    refine Option.bind_congr fun sent _ => ?_
    refine Option.bind_congr fun spa _ => ?_
    refine Option.bind_congr fun data _ => ?_
    simp only [Option.bind_eq_bind, Option.bind_some]
    cases getCacheByIpAddr cache ⟨arp.protType, data⟩ with
    | some n => rfl
    | none =>
      simp only [Logged.result_bind, Logged.result_lift, result_useMac, Option.bind_some]
      rfl

theorem handleReplyLog_result (sendOk : Addr → Bool) :
    (handleReplyLog devices cache arp src sendOk).result =
      handleReply devices cache arp src sendOk := by
  simp only [handleReplyLog, handleReply, replyRecord, Logged.result_bind, Logged.result_lift,
    result_useMac, Option.bind_some, Logged.result_pure]
  simp only [bind, Option.bind_assoc]
  refine Option.bind_congr fun tha _ => ?_
  refine Option.bind_congr fun addr _ => ?_
  refine Option.bind_congr fun mac _ => ?_
  by_cases hlen : arp.hardLen.toNat ≤ mac.length
  · simp only [if_pos hlen, Option.bind_assoc]
    rfl
  · simp only [if_neg hlen]
    rfl

end Result

/-! ## The MACs that are used -/

theorem useMac_all {P : Option (List UInt8) → Prop} {devices : List HwaInfo} {index : Int} :
    (useMac devices index).All P ↔ P (macByIfindex devices index) := by
  simp [Logged.All, useMac]

theorem macByIfindex_eq_none {devices : List HwaInfo} {index : Int} :
    macByIfindex devices index = none ↔ ∀ d ∈ devices, d.ifIndex ≠ index := by
  simp [macByIfindex]

section Used

variable {devices : List HwaInfo} {cache : List Node} {eh : Buf ethHlen} {arp : ArpHdr}
  {src : SockaddrLl} {P : Option (List UInt8) → Prop}

/-- `handle_req` uses no MAC but that of the interface. -/
theorem handleReqLog_all (env : ReqEnv) (h : P (macByIfindex devices src.sllIfindex)) :
    (handleReqLog devices cache eh arp src env).All P := by
  refine Logged.all_bind.2 ⟨Logged.all_lift _, fun tpa _ => ?_⟩
  refine Logged.all_bind.2 ⟨Logged.all_lift _, fun tgtip _ => ?_⟩
  cases isDestination devices tgtip with
  | none => exact Logged.all_pure _
  | some this =>
    refine Logged.all_bind.2 ⟨Logged.all_lift _, fun hdr _ => ?_⟩
    refine Logged.all_bind.2 ⟨Logged.all_lift _, fun printed _ => ?_⟩
    refine Logged.all_bind.2 ⟨useMac_all.2 h, fun mac _ => ?_⟩
    refine Logged.all_bind.2 ⟨Logged.all_lift _, fun sent _ => ?_⟩
    refine Logged.all_bind.2 ⟨Logged.all_lift _, fun spa _ => ?_⟩
    refine Logged.all_bind.2 ⟨Logged.all_lift _, fun data _ => ?_⟩
    dsimp only
    cases getCacheByIpAddr cache ⟨arp.protType, data⟩ with
    | some n => exact Logged.all_pure _
    | none =>
      refine Logged.all_bind.2 ⟨useMac_all.2 h, fun mac _ => ?_⟩
      refine Logged.all_bind.2 ⟨Logged.all_lift _, fun mac _ => ?_⟩
      refine Logged.all_bind.2 ⟨Logged.all_lift _, fun ifaddr _ => ?_⟩
      refine Logged.all_bind.2 ⟨Logged.all_lift _, fun addr _ => ?_⟩
      refine Logged.all_bind.2 ⟨Logged.all_lift _, fun addr _ => ?_⟩
      exact Logged.all_pure _

/-- It uses it when it answers. -/
theorem handleReqLog_used {env : ReqEnv} {tpa : List UInt8} {tgtip : InAddr} {this : HwaInfo}
    {r : List Node × List Effect} (htpa : arp.data.read arp.tpa arp.protLen.toNat = some tpa)
    (htgtip : env.stack.write 0 tpa = some tgtip) (hdest : isDestination devices tgtip = some this)
    (hrun : handleReq devices cache eh arp src env = some r)
    (hall : (handleReqLog devices cache eh arp src env).All P) :
    P (macByIfindex devices src.sllIfindex) := by
  obtain ⟨asker, hanswer, -⟩ := Option.bind_eq_some_iff.1 hrun
  simp only [answerReq, htpa, htgtip, hdest, bind, Option.bind_some,
    Option.bind_eq_some_iff] at hanswer
  obtain ⟨hdr, hbuild, printed, hprint, -⟩ := hanswer
  have hall := (Logged.all_bind.1 hall).2 tpa htpa
  have hall := (Logged.all_bind.1 hall).2 tgtip htgtip
  rw [hdest] at hall
  have hall := (Logged.all_bind.1 hall).2 hdr hbuild
  have hall := (Logged.all_bind.1 hall).2 printed hprint
  exact useMac_all.1 (Logged.all_bind.1 hall).1

/-- `handle_reply` uses the MAC of the interface. -/
theorem handleReplyLog_all (hvalid : validArp arp = true) (sendOk : Addr → Bool) :
    (handleReplyLog devices cache arp src sendOk).All P ↔
      P (macByIfindex devices src.sllIfindex) := by
  obtain ⟨-, hhl, -, -⟩ := validArp_bounds hvalid
  obtain ⟨-, -, htha⟩ := validArp_inside hvalid
  have hread : arp.data.read arp.tha arp.hardLen.toNat =
      some ((arp.data.bytes.drop arp.tha).take arp.hardLen.toNat) := Buf.read_eq_some.2 ⟨htha, rfl⟩
  have haddr := Buf.write_zero (n := 8) (Nat.le_trans
    (List.length_take_le arp.hardLen.toNat (arp.data.bytes.drop arp.tha)) hhl)
  constructor
  · intro hall
    have hall := (Logged.all_bind.1 hall).2 _ hread
    have hall := (Logged.all_bind.1 hall).2 _ haddr
    exact useMac_all.1 (Logged.all_bind.1 hall).1
  · intro h
    refine Logged.all_bind.2 ⟨Logged.all_lift _, fun tha _ => ?_⟩
    refine Logged.all_bind.2 ⟨Logged.all_lift _, fun addr _ => ?_⟩
    refine Logged.all_bind.2 ⟨useMac_all.2 h, fun mac _ => ?_⟩
    refine Logged.all_bind.2 ⟨Logged.all_lift _, fun mac _ => ?_⟩
    refine Logged.all_bind.2 ⟨Logged.all_lift _, fun ifaddr _ => ?_⟩
    refine Logged.all_bind.2 ⟨Logged.all_lift _, fun tpa _ => ?_⟩
    refine Logged.all_bind.2 ⟨Logged.all_lift _, fun data _ => ?_⟩
    exact Logged.all_pure _

end Used

/-! ## The property -/

/-- A run of a handler uses no null pointer for a MAC, and for an interface that is not listed it
returns with the cache as it was and tells no client anything. -/
structure MacSafe (devices : List HwaInfo) (cache : List Node) (index : Int)
    (run : Logged (Option (List UInt8)) (List Node × List Effect)) : Prop where
  used : run.All (· ≠ none)
  unlisted : (∀ d ∈ devices, d.ifIndex ≠ index) →
    ∃ effects, run.result = some (cache, effects) ∧ ∀ e ∈ effects, e.IsFrame

/-- Every run of the handler that `run_arp` calls for a packet is safe. -/
def MacHandled (devices : List HwaInfo) (cache : List Node) (eh : Buf ethHlen) (arp : ArpHdr)
    (src : SockaddrLl) : Prop :=
  (arp.op = arpopRequest → ∀ env,
    MacSafe devices cache src.sllIfindex (handleReqLog devices cache eh arp src env)) ∧
  (arp.op = arpopReply → ∀ sendOk,
    MacSafe devices cache src.sllIfindex (handleReplyLog devices cache arp src sendOk))

/-- A request for an address that no device of this host has, nor begins with. -/
structure AsksOthers (devices : List HwaInfo) (arp : ArpHdr) : Prop where
  op : arp.op = arpopRequest
  protLen : arp.protLen.toNat ≤ 4
  target : ∀ d ∈ devices, d.ipAddr.sinAddr.bytes.take arp.protLen.toNat ≠ arp.proBytes arp.tpa

section Property

variable {devices : List HwaInfo} {cache : List Node} {eh : Buf ethHlen} {arp : ArpHdr}
  {src : SockaddrLl}

/-- The address that `handle_req` looks for, over the bytes that `tgtip` starts with. -/
theorem write_tgtip (hvalid : validArp arp = true) (h4 : arp.protLen.toNat ≤ 4) (stack : Buf 4) :
    ∃ tgtip, stack.write 0 (arp.proBytes arp.tpa) = some tgtip ∧
      tgtip.bytes = arp.proBytes arp.tpa ++ stack.bytes.drop arp.protLen.toNat := by
  have hlen := proBytes_length (validArp_inside hvalid).1
  have hstack : stack.bytes = [] ++ stack.bytes := rfl
  obtain ⟨tgtip, hw, hbytes⟩ := Buf.write_at hstack (arp.proBytes arp.tpa)
    (by rw [stack.length_eq, hlen]; exact h4)
  exact ⟨tgtip, hw, by rw [hbytes, hlen]; rfl⟩

/-- A request that is not for this host is dropped before a MAC is needed. -/
theorem AsksOthers.run (h : AsksOthers devices arp) (hvalid : validArp arp = true) (env : ReqEnv) :
    handleReqLog devices cache eh arp src env = pure (cache, []) := by
  obtain ⟨htpa, -, -⟩ := validArp_inside hvalid
  obtain ⟨tgtip, hw, hbytes⟩ := write_tgtip hvalid h.protLen env.stack
  have hdest : isDestination devices tgtip = none := by
    rw [← Option.not_isSome_iff_eq_none]
    intro hsome
    obtain ⟨d, hd⟩ := Option.isSome_iff_exists.1 hsome
    obtain ⟨hmem, hip⟩ := isDestination_some hd
    apply h.target d hmem
    rw [hip, hbytes]
    exact List.take_left' (proBytes_length htpa)
  rw [handleReqLog, read_proBytes htpa, Logged.lift_some_bind, hw, Logged.lift_some_bind, hdest]

/-- A request from an interface that is not listed, and that is dropped whatever `tgtip` starts with,
is not for this host. -/
theorem asksOthers_of_safe (hvalid : validArp arp = true) (hop : arp.op = arpopRequest)
    (hunlisted : ∀ d ∈ devices, d.ifIndex ≠ src.sllIfindex)
    (h : ∀ env, MacSafe devices cache src.sllIfindex (handleReqLog devices cache eh arp src env)) :
    AsksOthers devices arp := by
  obtain ⟨htpa, -, -⟩ := validArp_inside hvalid
  have hread := read_proBytes htpa
  have hreturns : ∀ env, ∃ r, handleReq devices cache eh arp src env = some r := by
    intro env
    obtain ⟨effects, hrun, -⟩ := (h env).unlisted hunlisted
    exact ⟨_, (handleReqLog_result ..).symm.trans hrun⟩
  have h4 : arp.protLen.toNat ≤ 4 := by
    obtain ⟨r, hr⟩ := hreturns ⟨.zero 4, true, 0⟩
    obtain ⟨asker, hanswer, -⟩ := Option.bind_eq_some_iff.1 hr
    simp only [answerReq, hread, bind, Option.bind_some, Option.bind_eq_some_iff] at hanswer
    obtain ⟨tgtip, hw, -⟩ := hanswer
    have := (Buf.write_eq_some.1 hw).1
    rwa [Nat.zero_add, proBytes_length htpa] at this
  refine ⟨hop, h4, fun d hd heq => ?_⟩
  -- the stack holds the rest of the address of `d`
  obtain ⟨tgtip, hw, hbytes⟩ := write_tgtip hvalid h4 d.ipAddr.sinAddr
  rw [← heq, List.take_append_drop] at hbytes
  have hsome : (isDestination devices tgtip).isSome :=
    List.find?_isSome.2 ⟨d, hd, by rw [Buf.ext hbytes]; exact beq_self_eq_true _⟩
  obtain ⟨this, hdest⟩ := Option.isSome_iff_exists.1 hsome
  obtain ⟨r, hr⟩ := hreturns ⟨d.ipAddr.sinAddr, true, 0⟩
  exact handleReqLog_used hread hw hdest hr (h _).used (macByIfindex_eq_none.2 hunlisted)

/-- **A frame from any interface is handled without a missing MAC** exactly when its interface is
listed, or it is a request that is not for this host. -/
theorem mac_used_iff (hvalid : validArp arp = true) : MacHandled devices cache eh arp src ↔
    (∃ d ∈ devices, d.ifIndex = src.sllIfindex) ∨ AsksOthers devices arp := by
  obtain ⟨-, -, -, hop⟩ := validArp_bounds hvalid
  constructor
  · rintro ⟨hreq, hreply⟩
    by_contra hnot
    rw [not_or] at hnot
    have hunlisted : ∀ d ∈ devices, d.ifIndex ≠ src.sllIfindex :=
      fun d hd heq => hnot.1 ⟨d, hd, heq⟩
    rcases hop with hop | hop
    · exact hnot.2 (asksOthers_of_safe hvalid hop hunlisted (hreq hop))
    · exact (handleReplyLog_all hvalid _).1 (hreply hop fun _ => true).used
        (macByIfindex_eq_none.2 hunlisted)
  · rintro (hlisted | hothers)
    · obtain ⟨d, -, -, hmac⟩ := macByIfindex_listed hlisted
      have hsome : macByIfindex devices src.sllIfindex ≠ none := by
        rw [hmac]
        exact Option.some_ne_none _
      obtain ⟨d, hd, hi⟩ := hlisted
      refine ⟨fun _ env => ⟨handleReqLog_all env hsome, fun hun => absurd hi (hun d hd)⟩, ?_⟩
      exact fun _ sendOk => ⟨(handleReplyLog_all hvalid sendOk).2 hsome, fun hun => absurd hi (hun d hd)⟩
    · refine ⟨fun _ env => ?_, fun hop' => absurd (hop'.symm.trans hothers.op) arpopReply_ne⟩
      rw [hothers.run hvalid env]
      exact ⟨Logged.all_pure _, fun _ => ⟨[], rfl, fun e he => (by cases he)⟩⟩

end Property

/-- A request for host 2 that reaches host 1 on an interface that it does not list. -/
theorem mac_used_request : MacHandled loneHost.devices [] (.zero ethHlen)
    (etherArp arpopRequest (hostMac 3) (hostIp 3) (.zero 6) (hostIp 2))
    ⟨9, arphrdEther, 6, .zero 8⟩ :=
  (mac_used_iff rfl).2 (Or.inr ⟨rfl, by decide, by decide⟩)

/-- A reply that reaches it there. -/
theorem mac_used_fails :
    ¬∀ (cfg : Config) (w : World), (daemon cfg).Reachable (fun _ _ => True) w →
      ∀ (eh : Buf ethHlen) (arp : ArpHdr) (src : SockaddrLl), validArp arp = true →
      MacHandled cfg.devices w.cache eh arp src := by
  intro h
  have hvalid : validArp (etherArp arpopReply (hostMac 2) (hostIp 2) (hostMac 1) (hostIp 1)) = true :=
    rfl
  have hreply := (h loneHost .init (Machine.Steps.refl _) (.zero ethHlen) _
    ⟨9, arphrdEther, 6, .zero 8⟩ hvalid).2 rfl fun _ => true
  exact (handleReplyLog_all hvalid _).1 hreply.used rfl

end Tour
