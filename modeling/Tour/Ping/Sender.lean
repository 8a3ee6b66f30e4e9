import Tour.Lib.Machine
import Tour.Arp.Packet
import Tour.Ping.Checksum
import Tour.Route.Message

/-!
# The thread that pings

`run_ping_send` of `ping.c` as a machine. The packet is built once, field by field, and every
iteration of the loop changes it in place: the sequence number, then the checksum. The invariant of
the loop is what the packet holds outside these two fields (`PingInv`); from it, every packet that
was sent is known byte by byte (`pinger_sent`). The two structures overlaid on the packet are
records here, and `bytes` lays them out.
-/

namespace Tour

open Lib

/-- `ICMP_MINLEN`. -/
def icmpMinlen : Nat := 8

/-- `ICMP_DATA_LEN`. -/
def icmpDataLen : Nat := 8

/-- `ICMP_ID`. -/
def icmpId : UInt16 := 0xDEAC

/-- `ICMP_ECHO_DATA`, the text `PINGPONG`. -/
def icmpEchoData : Buf icmpDataLen := ⟨[0x50, 0x49, 0x4E, 0x47, 0x50, 0x4F, 0x4E, 0x47], rfl⟩

/-- `ICMP_ECHO`. -/
def icmpEcho : UInt8 := 8

/-- `IPPROTO_ICMP`. -/
def ipprotoIcmp : UInt8 := 1

/-- `ETH_P_IP`. -/
def ethPIp : UInt16 := 0x0800

/-- `IPVERSION`. -/
def ipversion : UInt8 := 4

/-- `sizeof(packet)`. -/
def pingSize : Nat := sizeofIp + icmpMinlen + icmpDataLen

/-! ## The code -/

/-- The `send_frame` of `ping.c`, which differs from that of `arp.c` in the frame type. -/
def pingSendFrame (payload : List UInt8) (size : Nat) (dstmac srcmac : Option (List UInt8)) :
    Option (Option (List UInt8)) :=
  if size > ethDataLen then some none
  else do
    let dst ← dstmac
    let src ← srcmac
    if ethAlen ≤ dst.length ∧ ethAlen ≤ src.length ∧ size ≤ payload.length then
      some (some (dst.take ethAlen ++ src.take ethAlen ++ le16 (htons ethPIp) ++ payload.take size))
    else none

/-- `struct ip`; the words are as they stand in memory. -/
structure IpHdr where
  ipHl : UInt8
  ipV : UInt8
  ipTos : UInt8
  ipLen : UInt16
  ipId : UInt16
  ipOff : UInt16
  ipTtl : UInt8
  ipP : UInt8
  ipSum : UInt16
  ipSrc : InAddr
  ipDst : InAddr

/-- The bytes of a `struct ip`: `ip_hl` and `ip_v` share the first. -/
def IpHdr.bytes (iph : IpHdr) : List UInt8 :=
  [16 * iph.ipV + iph.ipHl, iph.ipTos] ++ le16 iph.ipLen ++ le16 iph.ipId ++ le16 iph.ipOff ++
    [iph.ipTtl, iph.ipP] ++ (le16 iph.ipSum ++ (iph.ipSrc.bytes ++ iph.ipDst.bytes))

def IpHdr.zero : IpHdr := ⟨0, 0, 0, 0, 0, 0, 0, 0, 0, .zero 4, .zero 4⟩

/-- `struct icmp`, as far as the packet extends. -/
structure Icmp where
  icmpType : UInt8
  icmpCode : UInt8
  icmpCksum : UInt16
  icmpId : UInt16
  icmpSeq : UInt16
  icmpData : Buf icmpDataLen

def Icmp.bytes (icmph : Icmp) : List UInt8 :=
  [icmph.icmpType, icmph.icmpCode] ++ (le16 icmph.icmpCksum ++
    (le16 icmph.icmpId ++ le16 icmph.icmpSeq ++ icmph.icmpData.bytes))

def Icmp.zero : Icmp := ⟨0, 0, 0, 0, 0, .zero icmpDataLen⟩

/-- `packet` with the two structures in it. -/
structure PingPacket where
  iph : IpHdr
  icmph : Icmp

def PingPacket.bytes (packet : PingPacket) : List UInt8 := packet.iph.bytes ++ packet.icmph.bytes

/-- `run_ping_send` up to its loop, for the thread `tid`. -/
def buildPing (hostip tgtip : InAddr) (tid : UInt64) : PingPacket :=
  let iph : IpHdr := { IpHdr.zero with
    ipSrc := hostip
    ipDst := tgtip
    ipP := ipprotoIcmp
    ipOff := htons ipDf
    ipId := htons tid.toUInt16
    ipHl := UInt8.ofNat (sizeofIp / 4)
    ipLen := htons (UInt16.ofNat pingSize)
    ipV := ipversion
    ipTtl := 10 }
  let iph := { iph with ipSum := inCksum iph.bytes }
  ⟨iph, { Icmp.zero with
    icmpType := icmpEcho
    icmpCode := 0
    icmpId := htons icmpId
    icmpData := icmpEchoData }⟩

/-- The field `icmp_cksum` is cleared and filled in. -/
def Icmp.fillCksum (icmph : Icmp) : Icmp :=
  let icmph := { icmph with icmpCksum := 0 }
  { icmph with icmpCksum := inCksum icmph.bytes }

/-- The first lines of the loop, for the sequence number `seq`. -/
def nextEcho (packet : PingPacket) (seq : UInt16) : PingPacket :=
  { packet with icmph := { packet.icmph with icmpSeq := htons seq }.fillCksum }

/-- The place in `run_ping_send`. -/
inductive PingPc
  /-- Before the socket is created. -/
  | start
  /-- At the top of the loop. -/
  | loop (packet : PingPacket) (seq : UInt16)
  | exited

structure PingSend where
  pc : PingPc
  /-- The frames sent, with their interfaces, the newest first. -/
  sent : List (Int × List UInt8)

/-- What the kernel and the ARP daemon answer. -/
inductive PingEvent
  /-- Whether `socket` succeeds. -/
  | socket (ok : Bool)
  /-- One iteration: what `areq` stores, unless it fails, and whether `sendto` succeeds. -/
  | iterate (hwa : Option Hwaddr) (sendtoOk : Bool)

/-- One iteration of the loop. -/
def stepEcho (s : PingSend) (packet : PingPacket) (seq : UInt16) (hwa : Option Hwaddr)
    (sendtoOk : Bool) : Option PingSend :=
  let packet := nextEcho packet seq
  match hwa with
  | none => some { s with pc := .exited }
  | some dst => do
    match ← pingSendFrame packet.bytes pingSize (some dst.sllAddr.bytes)
        (some dst.sllIfaddr.bytes) with
    | none => some { s with pc := .exited }
    | some frame =>
      if sendtoOk then some ⟨.loop packet (seq + 1), (dst.sllIfindex, frame) :: s.sent⟩
      else some { s with pc := .exited }

/-- `run_ping_send`, for the host `hostip`, the target `tgtip` and the thread `tid`. -/
def pinger (hostip tgtip : InAddr) (tid : UInt64) : Machine PingSend PingEvent where
  init := ⟨.start, []⟩
  step s e :=
    match s.pc, e with
    | .start, .socket ok =>
      some { s with pc := if ok then .loop (buildPing hostip tgtip tid) 0 else .exited }
    | .loop packet seq, .iterate hwa sendtoOk => stepEcho s packet seq hwa sendtoOk
    | _, _ => none

/-! ## The bytes of a packet -/

theorem IpHdr.bytes_length (iph : IpHdr) : iph.bytes.length = sizeofIp := by
  simp [IpHdr.bytes, sizeofIp]

theorem Icmp.bytes_length (icmph : Icmp) : icmph.bytes.length = icmpMinlen + icmpDataLen := by
  simp [Icmp.bytes, icmpMinlen]
  omega

theorem PingPacket.bytes_length (packet : PingPacket) : packet.bytes.length = pingSize := by
  rw [PingPacket.bytes, List.length_append, IpHdr.bytes_length, Icmp.bytes_length]
  rfl

/-- A message verifies once its checksum is filled in. -/
theorem Icmp.inCksum_fillCksum (icmph : Icmp) : inCksum icmph.fillCksum.bytes = 0 := by
  apply inCksum_fill_list
  · exact (by decide : 2 % 2 = 0)
  · exact (Icmp.bytes_length { icmph with icmpCksum := 0 }).trans_le (by decide)

theorem inCksum_buildPing (hostip tgtip : InAddr) (tid : UInt64) :
    inCksum (buildPing hostip tgtip tid).iph.bytes = 0 := by
  apply inCksum_fill_list
  · exact (by decide : 10 % 2 = 0)
  · exact (IpHdr.bytes_length _).trans_le (by decide)

theorem le16_htons (x : UInt16) : le16 (htons x) = be16 x.toNat := by
  have hx := x.toNat_lt
  have hlo : (x.toNat / 256 + 256 * (x.toNat % 256)) % 256 = x.toNat / 256 := by omega
  have hhi : (x.toNat / 256 + 256 * (x.toNat % 256)) / 256 = x.toNat % 256 := by omega
  rw [le16, be16, htons_toNat, hlo, hhi]

/-! ## The loop -/

/-- The packet of the `k`-th iteration. -/
def pingPacket (hostip tgtip : InAddr) (tid : UInt64) (k : Nat) : PingPacket :=
  nextEcho (buildPing hostip tgtip tid) (UInt16.ofNat k)

/-- What an iteration makes of a packet does not depend on the earlier iterations. -/
theorem nextEcho_nextEcho (packet : PingPacket) (seq seq' : UInt16) :
    nextEcho (nextEcho packet seq) seq' = nextEcho packet seq' := rfl

/-- The frame in which the `k`-th packet is sent. -/
def PingFrame (hostip tgtip : InAddr) (tid : UInt64) (k : Nat) (frame : List UInt8) : Prop :=
  ∃ dst src : Buf 6, frame = dst.bytes ++ src.bytes ++ le16 (htons ethPIp) ++
    (pingPacket hostip tgtip tid k).bytes

theorem pingSendFrame_ok (packet : PingPacket) (dst : Hwaddr) :
    pingSendFrame packet.bytes pingSize (some dst.sllAddr.bytes) (some dst.sllIfaddr.bytes) =
      some (some ((dst.sllAddr.slice 0 6 (by decide)).bytes ++
        (dst.sllIfaddr.slice 0 6 (by decide)).bytes ++ le16 (htons ethPIp) ++ packet.bytes)) := by
  have hfits : ¬pingSize > ethDataLen := by decide
  have hmacs : ethAlen ≤ dst.sllAddr.bytes.length ∧ ethAlen ≤ dst.sllIfaddr.bytes.length ∧
      pingSize ≤ packet.bytes.length := by
    rw [dst.sllAddr.length_eq, dst.sllIfaddr.length_eq, packet.bytes_length]
    decide
  have htake : packet.bytes.take pingSize = packet.bytes :=
    List.take_of_length_le (Nat.le_of_eq packet.bytes_length)
  simp only [pingSendFrame, if_neg hfits, bind, Option.bind, if_pos hmacs, htake]
  rfl

/-- The invariant of the thread: the packet differs from the one built at the start at most in the
two fields that an iteration overwrites, and the sequence number counts the packets sent. -/
structure PingInv (hostip tgtip : InAddr) (tid : UInt64) (s : PingSend) : Prop where
  start : s.pc = .start → s.sent = []
  loop : ∀ packet seq, s.pc = .loop packet seq → seq = UInt16.ofNat s.sent.length ∧
    ∀ seq', nextEcho packet seq' = nextEcho (buildPing hostip tgtip tid) seq'
  sent : ∀ k x, s.sent.reverse[k]? = some x → PingFrame hostip tgtip tid k x.2

variable {hostip tgtip : InAddr} {tid : UInt64}

/-- What one iteration does: it always returns, and a packet that was sent is the next one. -/
theorem stepEcho_eq {s : PingSend} {packet : PingPacket} {seq : UInt16}
    (hinv : PingInv hostip tgtip tid s) (hpc : s.pc = .loop packet seq) (hwa : Option Hwaddr)
    (sendtoOk : Bool) :
    (∃ dst frame, hwa = some dst ∧ sendtoOk = true ∧
      PingFrame hostip tgtip tid s.sent.length frame ∧
      stepEcho s packet seq hwa sendtoOk =
        some ⟨.loop (nextEcho packet seq) (seq + 1), (dst.sllIfindex, frame) :: s.sent⟩) ∨
    ((hwa = none ∨ sendtoOk = false) ∧
      stepEcho s packet seq hwa sendtoOk = some { s with pc := .exited }) := by
  obtain ⟨hseq, hpacket⟩ := hinv.loop packet seq hpc
  cases hwa with
  | none => exact Or.inr ⟨Or.inl rfl, rfl⟩
  | some dst =>
    simp only [stepEcho, pingSendFrame_ok, bind, Option.bind]
    cases sendtoOk with
    | false => exact Or.inr ⟨Or.inr rfl, rfl⟩
    | true =>
      refine Or.inl ⟨dst, _, rfl, rfl, ⟨dst.sllAddr.slice 0 6 (by decide),
        dst.sllIfaddr.slice 0 6 (by decide), ?_⟩, rfl⟩
      rw [hpacket, hseq]
      rfl

theorem PingInv.exit {s : PingSend} (hinv : PingInv hostip tgtip tid s) :
    PingInv hostip tgtip tid { s with pc := .exited } where
  start h := by cases h
  loop _ _ h := by cases h
  sent := hinv.sent

theorem PingInv.push {s : PingSend} {packet : PingPacket} {seq : UInt16} {x : Int × List UInt8}
    (hinv : PingInv hostip tgtip tid s) (hpc : s.pc = .loop packet seq)
    (hx : PingFrame hostip tgtip tid s.sent.length x.2) :
    PingInv hostip tgtip tid ⟨.loop (nextEcho packet seq) (seq + 1), x :: s.sent⟩ where
  start h := by cases h
  loop packet' seq' h := by
    obtain ⟨hseq, hpacket⟩ := hinv.loop packet seq hpc
    cases h
    refine ⟨?_, fun seq' => (nextEcho_nextEcho packet seq seq').trans (hpacket seq')⟩
    rw [hseq, List.length_cons, UInt16.ofNat_add]
    rfl
  sent k y hy := by
    rw [List.reverse_cons, List.getElem?_append, List.length_reverse] at hy
    split at hy
    · exact hinv.sent k y hy
    · rename_i hk
      -- the packet that was sent last
      obtain ⟨hlt, rfl⟩ := List.getElem?_eq_some_iff.1 hy
      rw [List.length_singleton] at hlt
      have hkeq : k = s.sent.length := by omega
      simpa only [List.getElem_singleton, hkeq] using hx

theorem PingInv.step {s t : PingSend} {e : PingEvent} (hinv : PingInv hostip tgtip tid s)
    (h : (pinger hostip tgtip tid).step s e = some t) : PingInv hostip tgtip tid t := by
  unfold pinger at h
  dsimp only at h
  split at h
  · rename_i ok hpc
    have hsent := hinv.start hpc
    cases ok with
    | false =>
      cases h
      exact hinv.exit
    | true =>
      cases h
      refine ⟨fun h => (by cases h), fun packet seq h => ?_, hinv.sent⟩
      cases h
      refine ⟨?_, fun _ => rfl⟩
      rw [hsent]
      rfl
  · rename_i packet seq hwa sendtoOk hpc
    rcases stepEcho_eq hinv hpc hwa sendtoOk with ⟨dst, frame, -, -, hframe, heq⟩ | ⟨-, heq⟩
    · rw [heq] at h
      cases h
      exact hinv.push hpc hframe
    · rw [heq] at h
      cases h
      exact hinv.exit
  · cases h

theorem pinger_inv {G : PingSend → PingEvent → Prop} {s : PingSend}
    (h : (pinger hostip tgtip tid).Reachable G s) : PingInv hostip tgtip tid s := by
  have hinit : PingInv hostip tgtip tid (pinger hostip tgtip tid).init :=
    ⟨fun _ => rfl, fun _ _ h => (by cases h), fun _ _ h => (by cases h)⟩
  exact h.invariant (I := PingInv hostip tgtip tid) hinit fun _ _ _ hinv _ hs => hinv.step hs

/-- The `k`-th packet that was sent is the packet of the `k`-th iteration. -/
theorem pinger_sent {G : PingSend → PingEvent → Prop} {s : PingSend}
    (h : (pinger hostip tgtip tid).Reachable G s) {k : Nat} {x : Int × List UInt8}
    (hx : s.sent.reverse[k]? = some x) : PingFrame hostip tgtip tid k x.2 :=
  (pinger_inv h).sent k x hx

/-- As long as `areq` and `sendto` succeed, an iteration sends one packet. -/
theorem pinger_continues {G : PingSend → PingEvent → Prop} {s : PingSend}
    (h : (pinger hostip tgtip tid).Reachable G s) {packet : PingPacket} {seq : UInt16}
    (hpc : s.pc = .loop packet seq) (dst : Hwaddr) :
    ∃ frame, (pinger hostip tgtip tid).step s (.iterate (some dst) true) =
      some ⟨.loop (nextEcho packet seq) (seq + 1), (dst.sllIfindex, frame) :: s.sent⟩ := by
  have hstep : (pinger hostip tgtip tid).step s (.iterate (some dst) true) =
      stepEcho s packet seq (some dst) true := by
    simp only [pinger, hpc]
  rcases stepEcho_eq (pinger_inv h) hpc (some dst) true with
    ⟨dst', frame, hdst, -, -, heq⟩ | ⟨hfail | hfail, -⟩
  · cases hdst
    exact ⟨frame, hstep.trans heq⟩
  · cases hfail
  · cases hfail

/-! ## What a packet holds -/

theorem pingPacket_verifies (hostip tgtip : InAddr) (tid : UInt64) (k : Nat) :
    inCksum ((pingPacket hostip tgtip tid k).bytes.take sizeofIp) = 0 ∧
      inCksum ((pingPacket hostip tgtip tid k).bytes.drop sizeofIp) = 0 := by
  have hlen := IpHdr.bytes_length (pingPacket hostip tgtip tid k).iph
  constructor
  · rw [PingPacket.bytes, List.take_left' hlen]
    exact inCksum_buildPing hostip tgtip tid
  · rw [PingPacket.bytes, List.drop_left' hlen]
    exact Icmp.inCksum_fillCksum _

/-- The sequence number wraps. -/
theorem pingPacket_seq (hostip tgtip : InAddr) (tid : UInt64) (k : Nat) :
    ((pingPacket hostip tgtip tid k).bytes.drop (sizeofIp + 6)).take 2 = be16 (k % 65536) := by
  have hlen := IpHdr.bytes_length (pingPacket hostip tgtip tid k).iph
  have hseq : le16 (htons (UInt16.ofNat k)) = be16 (k % 65536) := by
    rw [le16_htons, UInt16.toNat_ofNat']
  rw [PingPacket.bytes, ← List.drop_drop, List.drop_left' hlen, ← hseq]
  rfl

end Tour
