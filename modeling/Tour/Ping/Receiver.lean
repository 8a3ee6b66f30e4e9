import Tour.Ping.Sender

/-!
# The thread that listens for replies

One iteration of `run_ping_recv` of `ping.c`: what is made of one datagram. The IP header says where
the ICMP message starts, so every read goes through a checked offset; `none` means that it would
leave `packet`. `recvPing_split` computes an iteration for a datagram that has an IP header of its
declared length, and what the checksum is good for follows from it: a reply to a ping that was sent
is reported (`ping_checksums`), and a damaged one is not (`cksum_detects`).
-/

namespace Tour

open Lib

/-- `ICMP_ECHOREPLY`. -/
def icmpEchoreply : UInt8 := 0

/-- The string at a pointer; `none` when it does not end inside the object. -/
def cString : List UInt8 → Option (List UInt8)
  | [] => none
  | b :: l => if b = 0 then some [] else (cString l).map (b :: ·)

/-- What `run_ping_recv` says about a datagram. -/
inductive PingReport
  | tooSmall
  | notPing
  | otherProcess
  | corrupt
  /-- A ping from `src`, whose name the resolver may know. -/
  | ping (src : InAddr) (name : Option String) (data : List UInt8)

def PingReport.isPing : PingReport → Bool
  | .ping .. => true
  | _ => false

/-- The loop body of `run_ping_recv`, when `recvfrom` returns `datagram`. -/
def recvPing (gethostbyaddr : InAddr → Option String) (datagram : List UInt8) :
    Option PingReport := do
  let packet := Buf.fill ethFrameLen datagram
  let nread := min datagram.length ethFrameLen
  let iplen := (packet.bytes.getD 0 0).toNat % 16 * 4
  if nread < iplen + icmpMinlen then some .tooSmall
  else
    let type ← packet.read iplen 1
    if type ≠ [icmpEchoreply] then some .notPing
    else
      let id ← packet.read (iplen + 4) 2
      if id ≠ le16 (htons icmpId) then some .otherProcess
      else
        let icmp ← packet.read iplen (nread - iplen)
        if inCksum icmp ≠ 0 then some .corrupt
        else
          let src := packet.slice 12 4 (by decide)
          let data ← cString (packet.bytes.drop (iplen + 8))
          some (.ping src (gethostbyaddr src) data)

/-! ## One iteration -/

/-- The bytes of an IP header that is as long as it says. -/
structure IsIpHeader (hdr : List UInt8) : Prop where
  hl : (hdr.getD 0 0).toNat % 16 * 4 = hdr.length
  min : sizeofIp ≤ hdr.length

theorem IsIpHeader.length_le {hdr : List UInt8} (h : IsIpHeader hdr) : hdr.length ≤ 60 := by
  have := h.hl
  omega

/-- The field `ip_src` of a header. -/
def ipSrcOf (hdr : List UInt8) : InAddr := .fill 4 (hdr.drop 12)

variable {gethostbyaddr : InAddr → Option String} {hdr icmp : List UInt8}

theorem recvPing_split (h : IsIpHeader hdr) (hlen : (hdr ++ icmp).length ≤ ethFrameLen) :
    recvPing gethostbyaddr (hdr ++ icmp) =
      if icmp.length < icmpMinlen then some .tooSmall
      else if icmp.take 1 ≠ [icmpEchoreply] then some .notPing
      else if (icmp.drop 4).take 2 ≠ le16 (htons icmpId) then some .otherProcess
      else if inCksum icmp ≠ 0 then some .corrupt
      else (cString (icmp.drop 8 ++ List.replicate (ethFrameLen - (hdr ++ icmp).length) 0)).map
        fun data => .ping (ipSrcOf hdr) (gethostbyaddr (ipSrcOf hdr)) data := by
  have hmin : 20 ≤ hdr.length := h.min
  have hbytes := Buf.fill_bytes_of_le hlen
  have hnread : min (hdr ++ icmp).length ethFrameLen = hdr.length + icmp.length := by
    rw [Nat.min_eq_left hlen, List.length_append]
  have hiplen : ((Buf.fill ethFrameLen (hdr ++ icmp)).bytes.getD 0 0).toNat % 16 * 4 =
      hdr.length := by
    rw [hbytes, List.append_assoc, List.getD_append _ _ _ _ (by omega), h.hl]
  -- a read behind the header reads the message
  have hread : ∀ off len, off + len ≤ icmp.length →
      (Buf.fill ethFrameLen (hdr ++ icmp)).read (hdr.length + off) len =
        some ((icmp.drop off).take len) := by
    intro off len hoff
    rw [Buf.read_fill (by rw [List.length_append]; omega) hlen, ← List.drop_drop, List.drop_left]
  have hsrc : (Buf.fill ethFrameLen (hdr ++ icmp)).slice 12 4 (by decide) = ipSrcOf hdr := by
    apply Buf.ext
    have hfour : 4 ≤ (hdr.drop 12).length := by rw [List.length_drop]; omega
    rw [ipSrcOf, Buf.fill_bytes_of_ge hfour, Buf.slice_bytes, hbytes, List.append_assoc,
      List.drop_append_of_le_length (by omega), List.take_append_of_le_length hfour]
  have hdata : (Buf.fill ethFrameLen (hdr ++ icmp)).bytes.drop (hdr.length + 8) =
      (icmp ++ List.replicate (ethFrameLen - (hdr ++ icmp).length) 0).drop 8 := by
    rw [hbytes, List.append_assoc, ← List.drop_drop, List.drop_left]
  by_cases hsmall : icmp.length < icmpMinlen
  · have hlt : hdr.length + icmp.length < hdr.length + icmpMinlen := by omega
    simp only [recvPing, hnread, hiplen, if_pos hlt, if_pos hsmall]
  · have hge : ¬hdr.length + icmp.length < hdr.length + icmpMinlen := by omega
    have hlen8 : 8 ≤ icmp.length := Nat.le_of_not_lt hsmall
    have htype := hread 0 1 (by omega)
    have hid := hread 4 2 (by omega)
    have hmsg := hread 0 icmp.length (by omega)
    rw [List.drop_zero, Nat.add_zero] at htype
    rw [List.drop_zero, Nat.add_zero, List.take_length] at hmsg
    rw [List.drop_append_of_le_length hlen8] at hdata
    simp only [recvPing, hnread, hiplen, if_neg hge, if_neg hsmall, htype, hid, hsrc, hdata,
      Nat.add_sub_cancel_left, hmsg, bind, Option.bind]
    split
    · rfl
    split
    · rfl
    split
    · rfl
    · cases cString (icmp.drop 8 ++ List.replicate (ethFrameLen - (hdr ++ icmp).length) 0) <;> rfl

/-! ## Replies to the pings that were sent -/

/-- The string of a text that contains no zero and is followed by one. -/
theorem cString_append {l : List UInt8} (h : ∀ b ∈ l, b ≠ 0) (rest : List UInt8) :
    cString (l ++ 0 :: rest) = some l := by
  induction l with
  | nil => rfl
  | cons b l ih =>
    rw [List.forall_mem_cons] at h
    rw [List.cons_append, cString, if_neg h.1, ih h.2]
    rfl

/-- The echo reply to a message: its type is echo reply, identifier, sequence number and data are
those of the message, and the checksum is filled in. -/
def Icmp.echoReply (icmph : Icmp) (code : UInt8) : Icmp :=
  { icmph with icmpType := icmpEchoreply, icmpCode := code }.fillCksum

/-- A message of type echo reply that verifies is reported. -/
theorem recvPing_reply (h : IsIpHeader hdr) {icmph : Icmp} (htype : icmph.icmpType = icmpEchoreply)
    (hid : icmph.icmpId = htons icmpId) (hdata : icmph.icmpData = icmpEchoData)
    (hcksum : inCksum icmph.bytes = 0) :
    recvPing gethostbyaddr (hdr ++ icmph.bytes) =
      some (.ping (ipSrcOf hdr) (gethostbyaddr (ipSrcOf hdr)) icmpEchoData.bytes) := by
  have hlen : (hdr ++ icmph.bytes).length ≤ 76 := by
    have := h.length_le
    rw [List.length_append, icmph.bytes_length]
    simp only [icmpMinlen, icmpDataLen]
    omega
  have hzero : List.replicate (ethFrameLen - (hdr ++ icmph.bytes).length) (0 : UInt8) =
      0 :: List.replicate (ethFrameLen - (hdr ++ icmph.bytes).length - 1) 0 := by
    rw [← List.replicate_succ, ethFrameLen]
    congr 1
    omega
  have hstring : cString (icmph.bytes.drop 8 ++
      List.replicate (ethFrameLen - (hdr ++ icmph.bytes).length) 0) = some icmpEchoData.bytes := by
    have hdrop : icmph.bytes.drop 8 = icmpEchoData.bytes := by rw [← hdata]; rfl
    have hne : ∀ b ∈ icmpEchoData.bytes, b ≠ 0 := by simp [icmpEchoData]
    rw [hzero, hdrop]
    exact cString_append hne _
  have hlong : ¬icmph.bytes.length < icmpMinlen := by rw [icmph.bytes_length]; decide
  have htype' : ¬icmph.bytes.take 1 ≠ [icmpEchoreply] := by rw [← htype]; exact not_not.2 rfl
  have hid' : ¬(icmph.bytes.drop 4).take 2 ≠ le16 (htons icmpId) := by
    rw [← hid]
    exact not_not.2 rfl
  rw [recvPing_split h (Nat.le_trans hlen (by decide)), if_neg hlong, if_neg htype', if_neg hid',
    if_neg (not_not.2 hcksum), hstring]
  rfl

/-- **Filling in the checksum makes it verify.** It does so in every buffer; in every packet that
the thread sends, whose sequence number counts the packets, for both headers; and in every echo
reply to such a packet, which the listening thread therefore reports. -/
theorem ping_checksums :
    (∀ (n : Nat) (buf : Buf n) (off : Nat), n ≤ cksumMaxlen → off % 2 = 0 → off + 2 ≤ n →
      ∃ zeroed filled : Buf n, buf.write off (le16 0) = some zeroed ∧
        zeroed.write off (le16 (inCksum zeroed.bytes)) = some filled ∧
        inCksum filled.bytes = 0) ∧
    ∀ (hostip tgtip : InAddr) (tid : UInt64) (G : PingSend → PingEvent → Prop) (s : PingSend),
      (pinger hostip tgtip tid).Reachable G s →
      (∀ packet seq dst, s.pc = .loop packet seq → ∃ frame,
        (pinger hostip tgtip tid).step s (.iterate (some dst) true) =
          some ⟨.loop (nextEcho packet seq) (seq + 1), (dst.sllIfindex, frame) :: s.sent⟩) ∧
      ∀ k ifindex frame, s.sent.reverse[k]? = some (ifindex, frame) →
        ∃ packet : PingPacket, frame.drop ethHlen = packet.bytes ∧
          packet.bytes.length = sizeofIp + 16 ∧
          inCksum (packet.bytes.take sizeofIp) = 0 ∧ inCksum (packet.bytes.drop sizeofIp) = 0 ∧
          (packet.bytes.drop (sizeofIp + 6)).take 2 = be16 (k % 65536) ∧
          ∀ gethostbyaddr code hdr, IsIpHeader hdr →
            recvPing gethostbyaddr (hdr ++ (packet.icmph.echoReply code).bytes) =
              some (.ping (ipSrcOf hdr) (gethostbyaddr (ipSrcOf hdr)) icmpEchoData.bytes) := by
  refine ⟨fun n buf off hn heven hoff => inCksum_fill buf hn heven hoff, ?_⟩
  intro hostip tgtip tid G s h
  refine ⟨fun packet seq dst hpc => pinger_continues h hpc dst, ?_⟩
  intro k ifindex frame hk
  obtain ⟨dst, src, hframe⟩ : PingFrame hostip tgtip tid k frame := pinger_sent h hk
  have hheader : (dst.bytes ++ src.bytes ++ le16 (htons ethPIp)).length = ethHlen := by
    simp [ethHlen]
  have hpacket : frame.drop ethHlen = (pingPacket hostip tgtip tid k).bytes := by
    rw [hframe, List.drop_left' hheader]
  obtain ⟨hip, hicmp⟩ := pingPacket_verifies hostip tgtip tid k
  refine ⟨pingPacket hostip tgtip tid k, hpacket, PingPacket.bytes_length _, hip, hicmp,
    pingPacket_seq hostip tgtip tid k, ?_⟩
  intro gethostbyaddr code hdr hhdr
  apply recvPing_reply hhdr
  · rfl
  · rfl
  · rfl
  · exact Icmp.inCksum_fillCksum _

/-- Two hosts, one ping and its reply behind a header of 20 bytes. -/
theorem ping_checksums_one :
    ∃ frame, (pinger (.zero 4) (.zero 4) 7).Reachable (fun _ _ => True)
        ⟨.loop (nextEcho (buildPing (.zero 4) (.zero 4) 7) 0) 1, [(2, frame)]⟩ ∧
      ∃ packet : PingPacket, frame.drop ethHlen = packet.bytes ∧
        recvPing (fun _ => none) ((0x45 :: List.replicate 19 0) ++ (packet.icmph.echoReply 0).bytes) =
          some (.ping (.zero 4) none icmpEchoData.bytes) := by
  have hstart : (pinger (.zero 4) (.zero 4) 7).Reachable (fun _ _ => True)
      ⟨.loop (buildPing (.zero 4) (.zero 4) 7) 0, []⟩ :=
    (Machine.Steps.refl _).tail (e := .socket true) trivial rfl
  obtain ⟨frame, hframe⟩ :=
    (ping_checksums.2 _ _ _ _ _ hstart).1 _ _ { Hwaddr.zero with sllIfindex := 2 } rfl
  have hsent := hstart.step trivial hframe
  obtain ⟨packet, hpacket, -, -, -, -, hreply⟩ :=
    (ping_checksums.2 _ _ _ _ _ hsent).2 0 2 frame rfl
  exact ⟨frame, hsent, packet, hpacket, hreply _ 0 _ ⟨by decide, by decide⟩⟩

/-! ## Damaged replies -/

/-- A datagram that is reported carries a message that verifies. -/
theorem inCksum_of_ping (h : IsIpHeader hdr) (hlen : (hdr ++ icmp).length ≤ ethFrameLen)
    {src : InAddr} {name : Option String} {data : List UInt8}
    (hping : recvPing gethostbyaddr (hdr ++ icmp) = some (.ping src name data)) :
    inCksum icmp = 0 := by
  rw [recvPing_split h hlen] at hping
  split at hping
  · cases hping
  split at hping
  · cases hping
  split at hping
  · cases hping
  split at hping
  · cases hping
  · rename_i hcksum
    exact not_not.1 hcksum

/-- A message that does not verify is rejected. -/
theorem recvPing_rejects (h : IsIpHeader hdr) (hlen : (hdr ++ icmp).length ≤ ethFrameLen)
    (hcksum : inCksum icmp ≠ 0) :
    ∃ report, recvPing gethostbyaddr (hdr ++ icmp) = some report ∧ report.isPing = false := by
  rw [recvPing_split h hlen, if_pos hcksum]
  split
  · exact ⟨_, rfl, rfl⟩
  split
  · exact ⟨_, rfl, rfl⟩
  split
  · exact ⟨_, rfl, rfl⟩
  · exact ⟨_, rfl, rfl⟩

theorem ne_xor_bit (b : UInt8) {k : Nat} (hk : k < 8) : b ≠ b ^^^ (1 <<< UInt8.ofNat k) := by
  intro h
  have hzero : (1 : UInt8) <<< UInt8.ofNat k = 0 := by
    have := congrArg (b ^^^ ·) h
    simpa [← UInt8.xor_assoc] using this.symm
  have hne : ∀ k < 8, (1 : UInt8) <<< UInt8.ofNat k ≠ 0 := by decide
  exact hne k hk hzero

/-- **The checksum test catches every corruption of one word.** In a buffer that verifies, no word
and no odd byte at the end can be replaced by another so that it still verifies, except that one
zero may be replaced by the other; and a reported datagram is rejected after any change of one byte
of its message, or of one bit. -/
theorem cksum_detects :
    (∀ (pre post : List UInt8) (x y : UInt16), pre.length % 2 = 0 →
      (pre ++ (le16 x ++ post)).length ≤ ethFrameLen → inCksum (pre ++ (le16 x ++ post)) = 0 →
      x ≠ y → ¬(x = 0 ∧ y = 0xFFFF) ∧ ¬(x = 0xFFFF ∧ y = 0) →
      inCksum (pre ++ (le16 y ++ post)) ≠ 0) ∧
    (∀ (pre : List UInt8) (b c : UInt8), pre.length % 2 = 0 → (pre ++ [b]).length ≤ ethFrameLen →
      inCksum (pre ++ [b]) = 0 → b ≠ c → inCksum (pre ++ [c]) ≠ 0) ∧
    ∀ (gethostbyaddr : InAddr → Option String) (hdr pre post : List UInt8) (b : UInt8)
      (src : InAddr) (name : Option String) (data : List UInt8),
      IsIpHeader hdr → (hdr ++ (pre ++ b :: post)).length ≤ ethFrameLen →
      recvPing gethostbyaddr (hdr ++ (pre ++ b :: post)) = some (.ping src name data) →
      (∀ c, b ≠ c → ∃ report, recvPing gethostbyaddr (hdr ++ (pre ++ c :: post)) = some report ∧
        report.isPing = false) ∧
      ∀ k < 8, ∃ report, recvPing gethostbyaddr
        (hdr ++ (pre ++ (b ^^^ (1 <<< UInt8.ofNat k)) :: post)) = some report ∧
        report.isPing = false := by
  have hmax : ethFrameLen ≤ cksumMaxlen := by decide
  refine ⟨?_, ?_, ?_⟩
  · intro pre post x y hpre hlen hok hne hzeros
    exact inCksum_word hpre (Nat.le_trans hlen hmax) hok hne hzeros
  · intro pre b c _ hlen hok hne
    exact inCksum_byte (Nat.le_trans hlen hmax) hok hne
  · intro gethostbyaddr hdr pre post b src name data hhdr hlen hping
    have hok := inCksum_of_ping hhdr hlen hping
    have hbyte : ∀ c, b ≠ c → ∃ report,
        recvPing gethostbyaddr (hdr ++ (pre ++ c :: post)) = some report ∧
          report.isPing = false := by
      intro c hne
      apply recvPing_rejects hhdr
      · simpa using hlen
      · apply inCksum_byte _ hok hne
        rw [List.length_append] at hlen
        omega
    exact ⟨hbyte, fun k hk => hbyte _ (ne_xor_bit b hk)⟩

/-- The reply to a first ping, up to its last byte. -/
def firstReply : List UInt8 := [0, 0, 228, 43, 0xDE, 0xAC, 0, 0, 80, 73, 78, 71, 80, 79, 78]

/-- A word and an odd byte that verify and are replaced, and a reply that is reported until a bit of
its last byte is flipped. -/
theorem cksum_detects_reply :
    inCksum ([] ++ (le16 1 ++ [])) ≠ 0 ∧ inCksum ([0xFE, 0xFF] ++ [2]) ≠ 0 ∧
    recvPing (fun _ => none) ((0x45 :: List.replicate 19 0) ++ (firstReply ++ 71 :: [])) =
      some (.ping (.zero 4) none icmpEchoData.bytes) ∧
    ∀ k < 8, ∃ report, recvPing (fun _ => none) (((0x45 : UInt8) :: List.replicate 19 0) ++
        (firstReply ++ ((71 : UInt8) ^^^ (1 <<< UInt8.ofNat k)) :: [])) = some report ∧
      report.isPing = false := by
  have hhdr : IsIpHeader (0x45 :: List.replicate 19 0) := ⟨by decide, by decide⟩
  have hping : recvPing (fun _ => none) ((0x45 :: List.replicate 19 0) ++ (firstReply ++ 71 :: [])) =
      some (.ping (.zero 4) none icmpEchoData.bytes) := by
    rw [recvPing_split hhdr (by decide)]
    rfl
  exact ⟨cksum_detects.1 [] [] 0xFFFF 1 rfl (by decide) (by decide) (by decide) (by decide),
    cksum_detects.2.1 [0xFE, 0xFF] 1 2 rfl (by decide) (by decide) (by decide), hping,
    (cksum_detects.2.2 _ _ _ _ _ _ _ _ hhdr (by decide) hping).2⟩

end Tour
