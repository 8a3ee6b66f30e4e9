import Tour.Arp.Daemon

/-!
# Encoding and decoding ARP frames

A frame goes from `build_arp` and `send_frame` of one host to `recv_frame` and the tests of
`run_arp` of another. Every packet whose lengths `valid_arp` accepts comes back as it was built, also
behind padding (`codec_round_trip`); a frame that was cut short reaches no handler.
-/

namespace Tour

open Lib

/-! ## Where a frame goes -/

/-- The branch of `run_arp` that a received frame takes. -/
inductive Branch
  | tooShort
  | invalid
  | request (eh : Buf ethHlen) (arp : ArpHdr)
  | reply (arp : ArpHdr)
  | unsupported (op : UInt16)

/-- The branch calls a handler. -/
def Branch.Dispatched : Branch → Prop
  | .request _ _ | .reply _ => True
  | .tooShort | .invalid | .unsupported _ => False

/-- `nread` is too small for the two headers, or for the addresses. -/
def TooShort (nread : Nat) (arp : ArpHdr) : Prop :=
  nread < ethHlen + arpHdrlen ∨ nread < ethHlen + arpHdrlen + arp.datalen

instance (nread : Nat) (arp : ArpHdr) : Decidable (TooShort nread arp) :=
  inferInstanceAs (Decidable (_ ∨ _))

/-- The tests of `run_arp` on a received frame. -/
def branchOf (frame : List UInt8) : Option Branch := do
  let (eh, arp) ← recvFrame frame
  if TooShort frame.length arp then some .tooShort
  else if validArp arp then
    if arp.op = arpopRequest then some (.request eh arp)
    else if arp.op = arpopReply then some (.reply arp)
    else some (.unsupported arp.op)
  else some .invalid

/-- The part of an iteration of `run_arp` behind the tests. -/
def Branch.handle (cfg : Config) (cache : List Node) (env : PacketEnv) :
    Branch → Option (List Node × List Effect)
  | .request eh arp =>
    if env.req.fresh ∈ addrs cache then none
    else handleReq cfg.devices cache eh arp env.src env.req
  | .reply arp => handleReply cfg.devices cache arp env.src env.sendOk
  | .tooShort | .invalid | .unsupported _ => some (cache, [])

theorem handleFrame_eq (cfg : Config) (cache : List Node) (frame : List UInt8) (env : PacketEnv) :
    handleFrame cfg cache frame env = (branchOf frame).bind (Branch.handle cfg cache env) := by
  unfold handleFrame branchOf
  cases recvFrame frame with
  | none => rfl
  | some r =>
    obtain ⟨eh, arp⟩ := r
    simp only [bind, Option.bind, dispatch]
    by_cases hlen : TooShort frame.length arp
    · have hlen' : _ ∨ _ := hlen
      rw [if_pos hlen, if_pos hlen']
      rfl
    have hlen' : ¬(_ ∨ _) := hlen
    rw [if_neg hlen, if_neg hlen']
    cases validArp arp with
    | false => rfl
    | true =>
      rw [if_pos rfl, if_pos rfl]
      by_cases hreq : arp.op = arpopRequest
      · rw [if_pos hreq, if_pos hreq]
        rfl
      rw [if_neg hreq, if_neg hreq]
      by_cases hreply : arp.op = arpopReply
      · rw [if_pos hreply, if_pos hreply]
        rfl
      · rw [if_neg hreply, if_neg hreply]
        rfl

/-- A frame that is not dispatched changes nothing. -/
theorem handleFrame_of_not_dispatched {cfg : Config} {cache : List Node} {frame : List UInt8}
    {env : PacketEnv} {b : Branch} (hb : branchOf frame = some b) (h : ¬b.Dispatched) :
    handleFrame cfg cache frame env = some (cache, []) := by
  rw [handleFrame_eq, hb, Option.bind_some]
  cases b with
  | tooShort => rfl
  | invalid => rfl
  | unsupported op => rfl
  | request eh arp => exact absurd trivial h
  | reply arp => exact absurd trivial h

/-! ## The addresses of a packet -/

/-- The packet has these lengths, this operation and these addresses. -/
structure ArpHdr.Carries (arp : ArpHdr) (hl pl : UInt8) (opn : UInt16)
    (sha spa tha tpa : List UInt8) : Prop where
  id : arp.id = arpId
  hardType : arp.hardType = arphrdEther
  protType : arp.protType = afInet
  hardLen : arp.hardLen = hl
  protLen : arp.protLen = pl
  op : arp.op = opn
  sha : arp.data.read arp.sha hl.toNat = some sha
  spa : arp.data.read arp.spa pl.toNat = some spa
  tha : arp.data.read arp.tha hl.toNat = some tha
  tpa : arp.data.read arp.tpa pl.toNat = some tpa

/-- The packet with this data. -/
def arpPacket (hardLen protLen : UInt8) (op : UInt16) (data : List UInt8) : ArpHdr :=
  ⟨arpId, arphrdEther, afInet, hardLen, protLen, op, .fill arpMaxdatalen data⟩

section Packet

variable {hardLen protLen : UInt8} {op : UInt16} {sha spa tha tpa pad : List UInt8}

/-- The four macros find the four addresses. -/
theorem arpPacket_carries (hsha : sha.length = hardLen.toNat) (hspa : spa.length = protLen.toNat)
    (htha : tha.length = hardLen.toNat) (htpa : tpa.length = protLen.toNat)
    (hfit : (sha ++ spa ++ tha ++ tpa ++ pad).length ≤ arpMaxdatalen) :
    (arpPacket hardLen protLen op (sha ++ spa ++ tha ++ tpa ++ pad)).Carries hardLen protLen op
      sha spa tha tpa := by
  simp only [List.append_assoc] at hfit ⊢
  have hread₁ := Buf.read_segment [] sha (spa ++ (tha ++ (tpa ++ pad))) hfit
  have hread₂ := Buf.read_segment sha spa (tha ++ (tpa ++ pad)) hfit
  have hread₃ := Buf.read_segment (sha ++ spa) tha (tpa ++ pad)
    (by simp only [List.append_assoc]; exact hfit)
  have hread₄ := Buf.read_segment (sha ++ (spa ++ tha)) tpa pad
    (by simp only [List.append_assoc]; exact hfit)
  have hoff : (sha ++ (spa ++ tha)).length = 2 * hardLen.toNat + protLen.toNat := by
    simp only [List.length_append]
    omega
  rw [hsha] at hread₁
  rw [hspa, hsha] at hread₂
  rw [htha, List.length_append, hsha, hspa, List.append_assoc] at hread₃
  rw [htpa, hoff, List.append_assoc, List.append_assoc] at hread₄
  exact ⟨rfl, rfl, rfl, rfl, rfl, rfl, hread₁, hread₂, hread₃, hread₄⟩

theorem validArp_arpPacket (hhl : hardLen.toNat ≤ arpMaxhwlen) (hpl : protLen.toNat ≤ arpMaxprlen)
    (hop : op = arpopRequest ∨ op = arpopReply) (data : List UInt8) :
    validArp (arpPacket hardLen protLen op data) = true := by
  rcases hop with rfl | rfl <;> simp [validArp, arpPacket, hhl, hpl]

end Packet

/-! ## Cut and padded frames -/

section Frame

variable {eth data : List UInt8} {hardLen protLen : UInt8} {op : UInt16}

/-- A frame behind which only padding follows is dispatched by its operation. -/
theorem branchOf_of_fits (heth : eth.length = ethHlen) (hhl : hardLen.toNat ≤ arpMaxhwlen)
    (hpl : protLen.toNat ≤ arpMaxprlen) (hop : op = arpopRequest ∨ op = arpopReply)
    (hpos : 0 < data.length) (hdata : data.length ≤ arpMaxdatalen)
    (hlen : 2 * hardLen.toNat + 2 * protLen.toNat ≤ data.length) :
    ∃ eh : Buf ethHlen, eh.bytes = eth ∧
      recvFrame (eth ++ (arpHeader arphrdEther afInet hardLen protLen op ++ data)) =
        some (eh, arpPacket hardLen protLen op data) ∧
      ¬TooShort (eth ++ (arpHeader arphrdEther afInet hardLen protLen op ++ data)).length
        (arpPacket hardLen protLen op data) ∧
      branchOf (eth ++ (arpHeader arphrdEther afInet hardLen protLen op ++ data)) =
        some (if op = arpopRequest then .request eh (arpPacket hardLen protLen op data)
          else .reply (arpPacket hardLen protLen op data)) := by
  obtain ⟨eh, heh, hrecv⟩ := recvFrame_of_header arphrdEther afInet op heth hpos hdata hhl hpl
  have hrecv' : recvFrame (eth ++ (arpHeader arphrdEther afInet hardLen protLen op ++ data)) =
      some (eh, arpPacket hardLen protLen op data) := hrecv
  have hlong : ¬TooShort (eth ++ (arpHeader arphrdEther afInet hardLen protLen op ++ data)).length
      (arpPacket hardLen protLen op data) := by
    simp only [TooShort, List.length_append, heth, arpHeader_length, ArpHdr.datalen, arpPacket]
    omega
  refine ⟨eh, heh, hrecv', hlong, ?_⟩
  simp only [branchOf, hrecv', bind, Option.bind, if_neg hlong, validArp_arpPacket hhl hpl hop,
    if_true]
  rcases hop with rfl | rfl <;> rfl

/-- The packet of such a frame reaches the switch of `run_arp`. -/
theorem handleFrame_of_fits (heth : eth.length = ethHlen) (hhl : hardLen.toNat ≤ arpMaxhwlen)
    (hpl : protLen.toNat ≤ arpMaxprlen) (hop : op = arpopRequest ∨ op = arpopReply)
    (hpos : 0 < data.length) (hdata : data.length ≤ arpMaxdatalen)
    (hlen : 2 * hardLen.toNat + 2 * protLen.toNat ≤ data.length) (cfg : Config)
    (cache : List Node) (env : PacketEnv) :
    ∃ eh : Buf ethHlen, eh.bytes = eth ∧
      handleFrame cfg cache (eth ++ (arpHeader arphrdEther afInet hardLen protLen op ++ data)) env =
        dispatch cfg cache eh (arpPacket hardLen protLen op data) env := by
  obtain ⟨eh, heh, hrecv, hlong, -⟩ := branchOf_of_fits heth hhl hpl hop hpos hdata hlen
  refine ⟨eh, heh, ?_⟩
  have hlong' : ¬(_ ∨ _) := hlong
  simp only [handleFrame, hrecv, bind, Option.bind, if_neg hlong', validArp_arpPacket hhl hpl hop,
    if_true]

/-- A frame that lacks a byte of its addresses is dropped, wherever it was cut. -/
theorem branchOf_of_cut (heth : eth.length = ethHlen) (hhl : hardLen.toNat ≤ arpMaxhwlen)
    (hpl : protLen.toNat ≤ arpMaxprlen)
    (hdata : data.length = 2 * hardLen.toNat + 2 * protLen.toNat) {k : Nat}
    (hk : k < (eth ++ (arpHeader arphrdEther afInet hardLen protLen op ++ data)).length) :
    ∃ b, branchOf ((eth ++ (arpHeader arphrdEther afInet hardLen protLen op ++ data)).take k) =
      some b ∧ ¬b.Dispatched := by
  have hlen : ((eth ++ (arpHeader arphrdEther afInet hardLen protLen op ++ data)).take k).length =
      k := List.length_take_of_le (Nat.le_of_lt hk)
  rcases Nat.lt_or_ge (ethHlen + arpHdrlen) k with hlo | hlo
  · -- the header is whole, and names more bytes than there are
    have hcut : (eth ++ (arpHeader arphrdEther afInet hardLen protLen op ++ data)).take k =
        eth ++ (arpHeader arphrdEther afInet hardLen protLen op ++
          data.take (k - ethHlen - arpHdrlen)) := by
      rw [List.take_append, List.take_append, List.take_of_length_le (by omega), heth,
        List.take_of_length_le (by rw [arpHeader_length]; omega), arpHeader_length]
    rw [List.length_append, List.length_append, heth, arpHeader_length] at hk
    have hleft : (data.take (k - ethHlen - arpHdrlen)).length = k - ethHlen - arpHdrlen :=
      List.length_take_of_le (by omega)
    obtain ⟨eh, -, hrecv⟩ := recvFrame_of_header arphrdEther afInet op heth
      (by omega : 0 < (data.take (k - ethHlen - arpHdrlen)).length)
      (by simp only [arpMaxdatalen]; omega) hhl hpl
    refine ⟨.tooShort, ?_, id⟩
    have hshort : TooShort k ⟨arpId, arphrdEther, afInet, hardLen, protLen, op,
        .fill arpMaxdatalen (data.take (k - ethHlen - arpHdrlen))⟩ := by
      simp only [TooShort, ArpHdr.datalen]
      omega
    rw [← hcut] at hrecv
    simp only [branchOf, hrecv, bind, Option.bind, hlen, if_pos hshort]
  · -- nothing is copied: `arp` is the zeroed structure
    have hcopy := recvCopy_of_short (Nat.le_trans (Nat.le_of_eq hlen) hlo)
    have hrecv : recvFrame ((eth ++ (arpHeader arphrdEther afInet hardLen protLen op ++
        data)).take k) = some (.zero ethHlen, .ofBuf (.zero arpHdrSize)) := by
      simp only [recvFrame, hcopy, bind, Option.bind, gt_iff_lt, hlen, if_neg (Nat.not_lt.2 hlo)]
    have hinvalid : validArp (.ofBuf (.zero arpHdrSize)) = false := by rfl
    simp only [branchOf, hrecv, bind, Option.bind, hinvalid]
    split
    · exact ⟨.tooShort, rfl, id⟩
    · exact ⟨.invalid, rfl, id⟩

end Frame

/-! ## The round trip -/

/-- The Ethernet header of a frame for two MAC addresses. -/
theorem ethHeader_take_length {dst src : List UInt8} (hdst : ethAlen ≤ dst.length)
    (hsrc : ethAlen ≤ src.length) :
    (ethHeader (dst.take ethAlen) (src.take ethAlen)).length = ethHlen := by
  simp only [ethHeader, List.length_append, List.length_take_of_le hdst,
    List.length_take_of_le hsrc, le16_length]
  rfl

/-- **What is built is what is received.** The frame of a packet, with any padding that
`struct arp_hdr` has room for, is read back field by field and address by address, passes the tests
and goes to the handler of its operation. A shorter part of it goes to none and changes nothing. -/
theorem codec_round_trip {n : Nat} (start : Buf n) {hardLen protLen : UInt8} {op : UInt16}
    {sendHwa sendPro targetHwa targetPro : Option (List UInt8)} {dst src : List UInt8}
    (hpos : 1 ≤ hardLen) (hhl : hardLen ≤ 8) (hpl : protLen ≤ 16)
    (hop : op = arpopRequest ∨ op = arpopReply)
    (h₁ : Holds hardLen.toNat sendHwa) (h₂ : Holds protLen.toNat sendPro)
    (h₃ : Holds hardLen.toNat targetHwa) (h₄ : Holds protLen.toNat targetPro)
    (hn : arpHdrlen + 2 * hardLen.toNat + 2 * protLen.toNat ≤ n)
    (hdst : ethAlen ≤ dst.length) (hsrc : ethAlen ≤ src.length) :
    ∃ (b : Buf n) (frame : List UInt8),
      buildArp start arphrdEther afInet hardLen protLen op sendHwa sendPro targetHwa targetPro =
        some (b, arpHdrlen + 2 * hardLen.toNat + 2 * protLen.toNat) ∧
      sendFrame b.bytes (arpHdrlen + 2 * hardLen.toNat + 2 * protLen.toNat) (some dst) (some src) =
        some (some frame) ∧
      (∀ pad : List UInt8, arpHdrlen + 2 * hardLen.toNat + 2 * protLen.toNat + pad.length ≤
          arpHdrSize → ∃ eh arp,
        recvFrame (frame ++ pad) = some (eh, arp) ∧
        arp.Carries hardLen protLen op (addressBytes hardLen.toNat sendHwa)
          (addressBytes protLen.toNat sendPro) (addressBytes hardLen.toNat targetHwa)
          (addressBytes protLen.toNat targetPro) ∧
        eh.bytes = ethHeader (dst.take ethAlen) (src.take ethAlen) ∧
        ¬TooShort (frame ++ pad).length arp ∧ validArp arp = true ∧
        branchOf (frame ++ pad) =
          some (if op = arpopRequest then .request eh arp else .reply arp) ∧
        ∀ cfg cache env, handleFrame cfg cache (frame ++ pad) env =
          Branch.handle cfg cache env (if op = arpopRequest then .request eh arp else .reply arp)) ∧
      ∀ k < frame.length, (∃ br, branchOf (frame.take k) = some br ∧ ¬br.Dispatched) ∧
        ∀ cfg cache env, handleFrame cfg cache (frame.take k) env = some (cache, []) := by
  have hpos' : 1 ≤ hardLen.toNat := UInt8.le_iff_toNat_le.1 hpos
  have hhl' : hardLen.toNat ≤ arpMaxhwlen := UInt8.le_iff_toNat_le.1 hhl
  have hpl' : protLen.toNat ≤ arpMaxprlen := UInt8.le_iff_toNat_le.1 hpl
  have l₁ := addressBytes_length h₁
  have l₂ := addressBytes_length h₂
  have l₃ := addressBytes_length h₃
  have l₄ := addressBytes_length h₄
  obtain ⟨b, hbuild, hbytes⟩ := buildArp_of_fits start arphrdEther afInet hardLen protLen op
    h₁ h₂ h₃ h₄ hn
  generalize addressBytes hardLen.toNat sendHwa = sha at l₁ hbytes ⊢
  generalize addressBytes protLen.toNat sendPro = spa at l₂ hbytes ⊢
  generalize addressBytes hardLen.toNat targetHwa = tha at l₃ hbytes ⊢
  generalize addressBytes protLen.toNat targetPro = tpa at l₄ hbytes ⊢
  have hdata : (sha ++ spa ++ tha ++ tpa).length = 2 * hardLen.toNat + 2 * protLen.toNat := by
    simp only [List.length_append]
    omega
  -- the frame
  have hsize : arpHdrlen + 2 * hardLen.toNat + 2 * protLen.toNat ≤ arpHdrSize := by
    simp only [arpHdrSize, arpMaxdatalen]
    omega
  have hsend := sendFrame_of_fits (Nat.le_trans hsize (by decide)) hdst hsrc
    (Nat.le_trans hn (Nat.le_of_eq b.length_eq.symm))
  have htake : b.bytes.take (arpHdrlen + 2 * hardLen.toNat + 2 * protLen.toNat) =
      arpHeader arphrdEther afInet hardLen protLen op ++ (sha ++ spa ++ tha ++ tpa) := by
    have hlen : (arpHeader arphrdEther afInet hardLen protLen op ++ sha ++ spa ++ tha ++ tpa).length =
        arpHdrlen + 2 * hardLen.toNat + 2 * protLen.toNat := by
      simp only [List.length_append, arpHeader_length]
      omega
    rw [hbytes, List.take_left' hlen]
    simp only [List.append_assoc]
  rw [htake] at hsend
  have heth := ethHeader_take_length hdst hsrc
  refine ⟨b, _, hbuild, hsend, ?_, ?_⟩
  · intro pad hpad
    have hlen : (sha ++ spa ++ tha ++ tpa ++ pad).length =
        2 * hardLen.toNat + 2 * protLen.toNat + pad.length := by
      rw [List.length_append, hdata]
    have hfit : (sha ++ spa ++ tha ++ tpa ++ pad).length ≤ arpMaxdatalen := by
      rw [hlen]
      simp only [arpHdrSize] at hpad
      omega
    obtain ⟨eh, heh, hrecv, hlong, hbranch⟩ := branchOf_of_fits heth hhl' hpl' hop
      (by rw [hlen]; omega) hfit (by rw [hlen]; omega)
    rw [List.append_assoc, List.append_assoc]
    refine ⟨eh, _, hrecv, arpPacket_carries l₁ l₂ l₃ l₄ hfit, heh, hlong,
      validArp_arpPacket hhl' hpl' hop _, hbranch, ?_⟩
    intro cfg cache env
    rw [handleFrame_eq, hbranch, Option.bind_some]
  · intro k hk
    obtain ⟨br, hbr, hdrop⟩ := branchOf_of_cut heth hhl' hpl' hdata hk
    exact ⟨⟨br, hbr, hdrop⟩, fun cfg cache env => handleFrame_of_not_dispatched hbr hdrop⟩

/-- A request with a null target hardware address, padded to the length of an Ethernet frame. -/
theorem codec_round_trip_padded : ∃ (b : Buf arpMaxlen) (frame : List UInt8) (eh : Buf ethHlen)
    (arp : ArpHdr),
    buildArp (.zero arpMaxlen) arphrdEther afInet 6 4 arpopRequest (some (hostMac 1).bytes)
      (some (hostIp 1).bytes) none (some (hostIp 2).bytes) = some (b, 30) ∧
    sendFrame b.bytes 30 (some broadhwa.bytes) (some (hostMac 1).bytes) = some (some frame) ∧
    recvFrame (frame ++ List.replicate 16 0) = some (eh, arp) ∧
    arp.Carries 6 4 arpopRequest (hostMac 1).bytes (hostIp 1).bytes (List.replicate 6 0)
      (hostIp 2).bytes := by
  have hnull : Holds 6 none := fun l hl => by cases hl
  have hholds : ∀ {k : Nat} (b : Buf k), Holds k (some b.bytes) := by
    rintro k b l ⟨⟩
    exact Nat.le_of_eq b.length_eq.symm
  obtain ⟨b, frame, hbuild, hsend, hpad, -⟩ := @codec_round_trip arpMaxlen (.zero arpMaxlen) 6 4
    arpopRequest _ _ _ _ _ _ (by decide) (by decide) (by decide) (.inl rfl) (hholds (hostMac 1))
    (hholds (hostIp 1)) hnull (hholds (hostIp 2)) (by decide)
    (Nat.le_of_eq broadhwa.length_eq.symm) (Nat.le_of_eq (hostMac 1).length_eq.symm)
  obtain ⟨eh, arp, hrecv, hcarries, -⟩ := hpad (List.replicate 16 0) (by decide)
  exact ⟨b, frame, eh, arp, hbuild, hsend, hrecv, hcarries⟩

end Tour
