import Tour.Lib.Logged
import Tour.Ping.Receiver

/-!
# What the listening thread reads

The loop body of `run_ping_recv` once more, with a log of every read that it makes of `packet`
(`recvPingLog`); without the log it is `recvPing` (`recvPingLog_result`). The checks on the length come
before the reads that need them, so the only read that can leave `packet` is that of the string that
is printed: it does so when the datagram fills `packet` and has no zero byte behind its ICMP header
(`reads_inside_iff`).
-/

namespace Tour

open Lib

/-- What a read of `packet` is for. -/
inductive ReadOf
  | ipHeader
  | icmpHeader
  | cksum
  /-- A string, up to its zero byte. -/
  | string
deriving DecidableEq

/-- A read of `len` bytes from `off` on. -/
structure PacketRead where
  what : ReadOf
  off : Nat
  len : Nat

/-- A read of `packet`. -/
def readPacket {n : Nat} (packet : Buf n) (what : ReadOf) (off len : Nat) :
    Logged PacketRead (List UInt8) := ⟨[⟨what, off, len⟩], packet.read off len⟩

/-- The string at `off`: its bytes are read up to the first zero, or on past the end. -/
def readString {n : Nat} (packet : Buf n) (off : Nat) : Logged PacketRead (List UInt8) :=
  ⟨[⟨.string, off, ((packet.bytes.drop off).takeWhile (· ≠ 0)).length + 1⟩],
    cString (packet.bytes.drop off)⟩

/-- The source address is in `packet`. -/
theorem ipSrc_inside : 12 + 4 ≤ ethFrameLen := by decide

/-- `recvPing`, with its reads. -/
def recvPingLog (gethostbyaddr : InAddr → Option String) (datagram : List UInt8) :
    Logged PacketRead PingReport := do
  let packet := Buf.fill ethFrameLen datagram
  let nread := min datagram.length ethFrameLen
  let hl ← readPacket packet .ipHeader 0 1
  let iplen := (hl.getD 0 0).toNat % 16 * 4
  if nread < iplen + icmpMinlen then pure .tooSmall
  else
    let type ← readPacket packet .icmpHeader iplen 1
    if type ≠ [icmpEchoreply] then pure .notPing
    else
      let id ← readPacket packet .icmpHeader (iplen + 4) 2
      if id ≠ le16 (htons icmpId) then pure .otherProcess
      else
        let icmp ← readPacket packet .cksum iplen (nread - iplen)
        if inCksum icmp ≠ 0 then pure .corrupt
        else
          let _ ← readPacket packet .ipHeader 12 4
          let src := packet.slice 12 4 ipSrc_inside
          let data ← readString packet (iplen + 8)
          pure (.ping src (gethostbyaddr src) data)

section Result

variable (gethostbyaddr : InAddr → Option String) (datagram : List UInt8)

/-- The first byte of `packet` is there, whatever was received. -/
theorem read_hl : (Buf.fill ethFrameLen datagram).read 0 1 =
    some [(Buf.fill ethFrameLen datagram).bytes.getD 0 0] := by
  have hlen := (Buf.fill ethFrameLen datagram).length_eq
  generalize Buf.fill ethFrameLen datagram = packet at hlen ⊢
  rw [Buf.read_eq_some]
  refine ⟨by decide, ?_⟩
  match hb : packet.bytes, hlen with
  | b :: l, _ => rfl

/-- Without the log it is `run_ping_recv`. -/
theorem recvPingLog_result :
    (recvPingLog gethostbyaddr datagram).result = recvPing gethostbyaddr datagram := by
  have hsrc : ((Buf.fill ethFrameLen datagram).read 12 4).isSome :=
    (Buf.read_isSome _ _ _).2 (by decide)
  obtain ⟨src, hsrc⟩ := Option.isSome_iff_exists.1 hsrc
  simp only [recvPingLog, recvPing, readPacket, readString, Logged.result_bind, read_hl,
    Option.bind_some, List.getD_cons_zero, apply_ite Logged.result, Logged.result_pure, hsrc]
  rfl

end Result

/-! ## The string -/

section String

variable {l : List UInt8}

/-- The bytes before the first zero are followed by it, if there is one. -/
theorem getElem_takeWhile : l[(l.takeWhile (· ≠ 0)).length]? = some 0 ↔ 0 ∈ l := by
  induction l with
  | nil => simp
  | cons b l ih =>
    by_cases hb : b = 0
    · simp [hb]
    · rw [List.takeWhile_cons_of_pos (by simpa using hb), List.length_cons, List.getElem?_cons_succ,
        ih, List.mem_cons]
      exact ⟨Or.inr, fun h => h.resolve_left (Ne.symm hb)⟩

end String

/-! ## Datagrams -/

/-- The length of the IP header, as its first byte says. -/
def iplenOf (datagram : List UInt8) : Nat := (datagram.getD 0 0).toNat % 16 * 4

/-- The datagram passes the checks of `run_ping_recv`. -/
structure Accepted (datagram : List UInt8) : Prop where
  size : iplenOf datagram + icmpMinlen ≤ datagram.length
  type : (datagram.drop (iplenOf datagram)).take 1 = [icmpEchoreply]
  id : (datagram.drop (iplenOf datagram + 4)).take 2 = le16 (htons icmpId)
  cksum : inCksum (datagram.drop (iplenOf datagram)) = 0

/-- A read stays inside `packet`; a field of the ICMP header and the bytes of the checksum, of which
there are at least `ICMP_MINLEN`, are among those that were received; and a string ends at a zero
byte. -/
structure PacketRead.Inside (datagram : List UInt8) (r : PacketRead) : Prop where
  packet : r.off + r.len ≤ ethFrameLen
  received : r.what = .icmpHeader ∨ r.what = .cksum → r.off + r.len ≤ datagram.length
  minlen : r.what = .cksum → icmpMinlen ≤ r.len
  ends : r.what = .string → (Buf.fill ethFrameLen datagram).bytes[r.off + r.len - 1]? = some 0

theorem string_inside {datagram : List UInt8} {off : Nat} :
    (⟨.string, off, (((Buf.fill ethFrameLen datagram).bytes.drop off).takeWhile (· ≠ 0)).length + 1⟩ :
      PacketRead).Inside datagram ↔ 0 ∈ (Buf.fill ethFrameLen datagram).bytes.drop off := by
  rw [← getElem_takeWhile, List.getElem?_drop]
  constructor
  · rintro ⟨-, -, -, hends⟩
    exact hends rfl
  · intro hzero
    refine ⟨?_, fun h => by simp at h, fun h => by simp at h, fun _ => hzero⟩
    obtain ⟨hlt, -⟩ := List.getElem?_eq_some_iff.1 hzero
    rw [Buf.length_eq] at hlt
    exact hlt

section Reads

variable {gethostbyaddr : InAddr → Option String} {datagram : List UInt8}
  {P : PacketRead → Prop}

/-- A read and what is done with it. -/
theorem all_readPacket {α : Type} {n : Nat} {packet : Buf n} {what : ReadOf} {off len : Nat}
    {f : List UInt8 → Logged PacketRead α} {l : List UInt8} (h : packet.read off len = some l) :
    (readPacket packet what off len >>= f).All P ↔ P ⟨what, off, len⟩ ∧ (f l).All P := by
  rw [Logged.all_bind]
  refine and_congr (by simp [Logged.All, readPacket]) ⟨fun hf => hf l h, fun hf a ha => ?_⟩
  cases h.symm.trans ha
  exact hf

theorem all_ite {α : Type} {c : Prop} [Decidable c] {a : α} {x : Logged PacketRead α} :
    (if c then pure a else x).All P ↔ (¬c → x.All P) := by
  by_cases hc : c
  · rw [if_pos hc]
    exact iff_of_true (Logged.all_pure a) fun h => absurd hc h
  · rw [if_neg hc]
    exact ⟨fun hx _ => hx, fun hx => hx hc⟩

/-- The reads of one iteration: each is made when the datagram has passed the checks before it. -/
theorem recvPingLog_all (hlen : datagram.length ≤ ethFrameLen) :
    (recvPingLog gethostbyaddr datagram).All P ↔
      P ⟨.ipHeader, 0, 1⟩ ∧ (iplenOf datagram + icmpMinlen ≤ datagram.length →
        P ⟨.icmpHeader, iplenOf datagram, 1⟩ ∧
        ((datagram.drop (iplenOf datagram)).take 1 = [icmpEchoreply] →
          P ⟨.icmpHeader, iplenOf datagram + 4, 2⟩ ∧
          ((datagram.drop (iplenOf datagram + 4)).take 2 = le16 (htons icmpId) →
            P ⟨.cksum, iplenOf datagram, datagram.length - iplenOf datagram⟩ ∧
            (inCksum (datagram.drop (iplenOf datagram)) = 0 →
              P ⟨.ipHeader, 12, 4⟩ ∧
              P ⟨.string, iplenOf datagram + 8, (((Buf.fill ethFrameLen datagram).bytes.drop
                (iplenOf datagram + 8)).takeWhile (· ≠ 0)).length + 1⟩)))) := by
  have hiplen : (Buf.fill ethFrameLen datagram).bytes.getD 0 0 = datagram.getD 0 0 :=
    Buf.fill_getD hlen 0
  obtain ⟨src, hsrc⟩ := Option.isSome_iff_exists.1
    ((Buf.read_isSome (Buf.fill ethFrameLen datagram) 12 4).2 (by decide))
  unfold recvPingLog
  rw [all_readPacket (read_hl datagram), all_ite, List.getD_cons_zero, hiplen,
    Nat.min_eq_left hlen, Nat.not_lt, iplenOf]
  refine and_congr_right fun _ => imp_congr_right fun hsize => ?_
  rw [icmpMinlen] at hsize
  rw [all_readPacket (Buf.read_fill (by omega) hlen), all_ite, ne_eq, not_not]
  refine and_congr_right fun _ => imp_congr_right fun _ => ?_
  rw [all_readPacket (Buf.read_fill (by omega) hlen), all_ite, ne_eq, not_not]
  refine and_congr_right fun _ => imp_congr_right fun _ => ?_
  rw [all_readPacket (Buf.read_fill (by omega) hlen), all_ite, ne_eq, not_not,
    List.take_of_length_le (by rw [List.length_drop])]
  refine and_congr_right fun _ => imp_congr_right fun _ => ?_
  rw [all_readPacket hsrc, Logged.all_bind]
  refine and_congr_right fun _ => ?_
  simp [Logged.All, readString]

/-- When the string that an accepted datagram carries ends inside `packet`. -/
theorem zero_mem_packet (hlen : datagram.length ≤ ethFrameLen) {off : Nat}
    (hoff : off ≤ datagram.length) : 0 ∈ (Buf.fill ethFrameLen datagram).bytes.drop off ↔
      datagram.length < ethFrameLen ∨ 0 ∈ datagram.drop off := by
  rw [Buf.fill_bytes_of_le hlen, List.drop_append_of_le_length hoff, List.mem_append,
    List.mem_replicate, or_comm]
  exact or_congr_left ⟨fun h => by omega, fun h => ⟨by omega, rfl⟩⟩

end Reads

/-! ## The property -/

/-- A field is read from the bytes that were received. -/
theorem field_inside {datagram : List UInt8} (hlen : datagram.length ≤ ethFrameLen) {off len : Nat}
    (h : off + len ≤ datagram.length) :
    (⟨.icmpHeader, off, len⟩ : PacketRead).Inside datagram :=
  ⟨Nat.le_trans h hlen, fun _ => h, by simp, by simp⟩

theorem ipHeader_inside {datagram : List UInt8} {off len : Nat} (h : off + len ≤ ethFrameLen) :
    (⟨.ipHeader, off, len⟩ : PacketRead).Inside datagram := ⟨h, by simp, by simp, by simp⟩

/-- **`run_ping_recv` reads only `packet`.** It does for a datagram exactly when the datagram leaves
room for a zero byte behind it, or is not accepted, or has a zero byte of its own behind its ICMP
header. -/
theorem reads_inside_iff (gethostbyaddr : InAddr → Option String) (datagram : List UInt8)
    (hlen : datagram.length ≤ ethFrameLen) :
    (recvPingLog gethostbyaddr datagram).All (PacketRead.Inside datagram) ↔
      datagram.length < ethFrameLen ∨ ¬Accepted datagram ∨
        0 ∈ datagram.drop (iplenOf datagram + 8) := by
  rw [recvPingLog_all hlen]
  constructor
  · rintro ⟨-, h⟩
    by_cases hacc : Accepted datagram
    · have hstring := ((((h hacc.size).2 hacc.type).2 hacc.id).2 hacc.cksum).2
      have hsize : iplenOf datagram + 8 ≤ datagram.length := hacc.size
      rw [string_inside, zero_mem_packet hlen hsize] at hstring
      exact hstring.imp_right Or.inr
    · exact Or.inr (Or.inl hacc)
  · intro h
    refine ⟨ipHeader_inside (by decide), fun hsize => ?_⟩
    have hmin : iplenOf datagram + 8 ≤ datagram.length := hsize
    refine ⟨field_inside hlen (by omega), fun htype => ?_⟩
    refine ⟨field_inside hlen (by omega), fun hid => ⟨?_, fun hcksum => ?_⟩⟩
    · have hend : iplenOf datagram + (datagram.length - iplenOf datagram) = datagram.length := by
        omega
      refine ⟨?_, fun _ => ?_, fun _ => Nat.le_sub_of_add_le' hsize, by simp⟩
      · exact Nat.le_trans (Nat.le_of_eq hend) hlen
      · exact Nat.le_of_eq hend
    · refine ⟨ipHeader_inside (by decide), ?_⟩
      rw [string_inside, zero_mem_packet hlen hmin]
      exact h.imp_right fun h => h.resolve_left (not_not.2 ⟨hsize, htype, hid, hcksum⟩)

/-- The reply to a ping. -/
theorem reads_inside_reply : (recvPingLog (fun _ => none)
    (0x45 :: List.replicate 19 0 ++ [0, 0, 0x21, 0x53, 0xDE, 0xAC, 0, 0])).All
    (PacketRead.Inside (0x45 :: List.replicate 19 0 ++ [0, 0, 0x21, 0x53, 0xDE, 0xAC, 0, 0])) :=
  (reads_inside_iff _ _ (by decide)).2 (Or.inl (by decide))

/-! ## A datagram that fills the packet -/

/-- Words of all ones. -/
theorem leWords_ones (k : Nat) : (leWords (List.replicate (2 * k) 0xFF)).sum = 65535 * k := by
  induction k with
  | zero => rfl
  | succ k ih =>
    rw [Nat.mul_succ, List.replicate_succ, List.replicate_succ, leWords, List.sum_cons, ih]
    simp only [UInt8.reduceToNat]
    omega

/-- An echo reply with the identifier of this program whose data are all ones, up to the end of
`packet`. -/
def onesReply : List UInt8 :=
  0x45 :: List.replicate 19 0 ++ ([0, 0, 0x21, 0x53, 0xDE, 0xAC, 0, 0] ++ List.replicate 1486 0xFF)

theorem onesReply_length : onesReply.length = ethFrameLen := by
  simp only [onesReply, List.length_append, List.length_cons, List.length_replicate]
  rfl

theorem onesReply_accepted : Accepted onesReply := by
  have hdrop : onesReply.drop 20 =
      [0, 0, 0x21, 0x53, 0xDE, 0xAC, 0, 0] ++ List.replicate (2 * 743) 0xFF := rfl
  have hdrop' : onesReply.drop (20 + 4) =
      [0xDE, 0xAC, 0, 0] ++ List.replicate (2 * 743) 0xFF := rfl
  have hiplen : iplenOf onesReply = 20 := rfl
  have hmax : ([0, 0, 0x21, 0x53, 0xDE, 0xAC, 0, 0] ++
      List.replicate (2 * 743) (0xFF : UInt8)).length ≤ cksumMaxlen := by
    rw [List.length_append, List.length_replicate]
    decide
  refine ⟨?_, ?_, ?_, ?_⟩
  · rw [hiplen, onesReply_length]
    decide
  · rw [hiplen, hdrop]
    rfl
  · rw [hiplen, hdrop']
    decide
  · rw [hiplen, hdrop, inCksum_eq_zero hmax, leWords_append (by decide),
      List.sum_append, leWords_ones]
    decide

/-- It is accepted, and the string that is printed does not end inside `packet`. -/
theorem onesReply_read_outside : onesReply.length ≤ ethFrameLen ∧
    ¬(recvPingLog (fun _ => none) onesReply).All (PacketRead.Inside onesReply) := by
  have hlen := Nat.le_of_eq onesReply_length
  have hacc := onesReply_accepted
  have hsize : iplenOf onesReply + 8 ≤ onesReply.length := hacc.size
  refine ⟨hlen, fun h => ?_⟩
  rw [recvPingLog_all hlen] at h
  have hstring := ((((h.2 hacc.size).2 hacc.type).2 hacc.id).2 hacc.cksum).2
  rw [string_inside, zero_mem_packet hlen hsize, onesReply_length] at hstring
  have hdata : onesReply.drop (iplenOf onesReply + 8) = List.replicate 1486 0xFF := rfl
  rw [hdata, List.mem_replicate] at hstring
  rcases hstring with h | ⟨-, h⟩
  · exact Nat.lt_irrefl _ h
  · cases h

end Tour
