import Mathlib.Algebra.Group.Int.Defs
import Mathlib.Algebra.Group.Nat.Defs
import Tour.Cache.Basic

/-!
# Tour messages

`struct tourhdr` and the two functions of `tour.c` that put one on the wire: `forward_tour` and
`send_ip`. The flexible array `ips` extends to the end of the object, and every index and every
copy is checked against it: `none` means that it would leave the object. On the wire the hosts not
yet visited stand in reverse order (`tourPacket`), so that a node takes its next hop from the end.
-/

namespace Tour

open Lib

/-- `IP_MAXPACKET`. -/
def ipMaxpacket : Nat := 65535

/-- `sizeof(struct ip)`. -/
def sizeofIp : Nat := 20

/-- `IPPROTO_TOUR`. -/
def ipprotoTour : UInt8 := 237

/-- `IPID_TOUR`. -/
def ipidTour : UInt16 := 0xF31F

/-- `IP_DF`. -/
def ipDf : UInt16 := 0x4000

/-- `MCAST_ADDR`. -/
def mcastAddr : InAddr := ⟨[233, 3, 3, 3], rfl⟩

def tourMaxpacket : Nat := ipMaxpacket - sizeofIp

/-- `sizeof(struct tourhdr)`. -/
def sizeofTourhdr : Nat := 8

/-- What is left of `TOUR_MAXPACKET` bytes behind the header. -/
def tourIpsSize : Nat := tourMaxpacket - sizeofTourhdr

/-- `TOUR_MAXIPS`. -/
def tourMaxips : Nat := tourIpsSize / 4

/-- `struct tourhdr` at the start of `TOUR_MAXPACKET` bytes, with the memory from `ips` on. -/
structure Tourhdr where
  mcastip : InAddr
  mcastport : Int16
  len : Int16
  ips : Buf tourIpsSize

namespace Tourhdr

/-- The structure that the bytes of the object hold. -/
def ofBuf (b : Buf tourMaxpacket) : Tourhdr where
  mcastip := b.slice 0 4 (by decide)
  mcastport := (ofLe16 (b.bytes.getD 4 0) (b.bytes.getD 5 0)).toInt16
  len := (ofLe16 (b.bytes.getD 6 0) (b.bytes.getD 7 0)).toInt16
  ips := b.slice sizeofTourhdr tourIpsSize (by decide)

variable (tour : Tourhdr)

/-- The bytes of the object. -/
def bytes : List UInt8 :=
  tour.mcastip.bytes ++ le16 tour.mcastport.toUInt16 ++ le16 tour.len.toUInt16 ++ tour.ips.bytes

/-- `tour->ips[i]`, read. -/
def getIp (i : Int) : Option InAddr :=
  if h : 0 ≤ i ∧ 4 * i.toNat + 4 ≤ tourIpsSize then some (tour.ips.slice (4 * i.toNat) 4 h.2)
  else none

/-- `tour->ips[j] = ip`. -/
def setIp (j : Nat) (ip : InAddr) : Option Tourhdr := do
  let ips ← tour.ips.write (4 * j) ip.bytes
  some { tour with ips := ips }

/-- `TOUR_SIZE(tour)`: the `short` is converted to a 64-bit `size_t`. -/
def size : Nat := ((sizeofTourhdr + tour.len.toInt * 4) % 2 ^ 64).toNat

end Tourhdr

/-- `htons` stored into a `short`; `ntohs` is the same function. -/
def htonsShort (x : Int16) : Int16 := (htons x.toUInt16).toInt16

/-- What reaches the outside of a tour process. -/
inductive TourEffect
  /-- `sendto` on the raw socket. -/
  | packet (dst : InAddr) (bytes : List UInt8)
  /-- `send` on the connected multicast socket. -/
  | multicast (peer : InAddr × UInt16) (text : String)

/-- The IP header that `send_ip` fills in, for a packet of `len` bytes. -/
def ipHeader (src dst : InAddr) (len : Nat) : List UInt8 :=
  [0x45, 0] ++ le16 (htons (UInt16.ofNat len)) ++ le16 (htons ipidTour) ++ le16 (htons ipDf) ++
    [10, ipprotoTour] ++ le16 0 ++ src.bytes ++ dst.bytes

/-- `send_ip(rt, data, len, dstip)`: the memory behind `data` and whether `sendto` succeeds are
given. -/
def sendIp (hostip : InAddr) (data : List UInt8) (len : Nat) (dstip : InAddr) (sendtoOk : Bool) :
    Option (Bool × List TourEffect) :=
  if len ≤ data.length then
    some (sendtoOk, if sendtoOk then
      [.packet dstip (ipHeader hostip dstip (sizeofIp + len) ++ data.take len)] else [])
  else none

/-- `forward_tour(rt, tour)`, on a message in host order. -/
def forwardTour (hostip : InAddr) (tour : Tourhdr) (sendtoOk : Bool) :
    Option (Bool × List TourEffect) := do
  let nextip ← tour.getIp (tour.len.toInt - 1)
  let tour := { tour with len := tour.len - 1 }
  let size := tour.size
  let tour := { tour with len := htonsShort tour.len }
  sendIp hostip tour.bytes size nextip sendtoOk

/-! ## The list of addresses -/

/-- The bytes of an array of addresses. -/
def ipList (ips : List InAddr) : List UInt8 := ips.flatMap Buf.bytes

theorem ipList_cons (ip : InAddr) (ips : List InAddr) : ipList (ip :: ips) = ip.bytes ++ ipList ips :=
  rfl

theorem ipList_append (l₁ l₂ : List InAddr) : ipList (l₁ ++ l₂) = ipList l₁ ++ ipList l₂ := by
  simp [ipList]

@[simp] theorem ipList_length (ips : List InAddr) : (ipList ips).length = 4 * ips.length := by
  induction ips with
  | nil => rfl
  | cons ip ips ih =>
    rw [ipList_cons, List.length_append, ih, ip.length_eq, List.length_cons]
    omega

/-- The address behind the first `l`. -/
theorem getIp_ipList {tour : Tourhdr} {l : List InAddr} {ip : InAddr} {rest : List UInt8}
    (h : tour.ips.bytes = ipList l ++ (ip.bytes ++ rest)) : tour.getIp l.length = some ip := by
  have hlen := congrArg List.length h
  rw [tour.ips.length_eq, List.length_append, List.length_append, ipList_length, ip.length_eq] at hlen
  have hin : 0 ≤ (l.length : Int) ∧ 4 * (l.length : Int).toNat + 4 ≤ tourIpsSize :=
    ⟨by omega, by rw [Int.toNat_natCast]; omega⟩
  rw [Tourhdr.getIp, dif_pos hin, Option.some.injEq]
  apply Buf.ext
  rw [Buf.slice_bytes, h, Int.toNat_natCast, List.drop_left' (ipList_length l),
    List.take_left' ip.length_eq]

/-! ## Packets -/

/-- The packet with which `src` sends the tour on to `dst`, with the hosts `todo` to visit after
it. -/
def tourPacket (src dst mcastip : InAddr) (mcastport : Int16) (todo : List InAddr) : List UInt8 :=
  ipHeader src dst (sizeofIp + sizeofTourhdr + 4 * todo.length) ++
    (mcastip.bytes ++ le16 mcastport.toUInt16 ++ le16 (htons (UInt16.ofNat todo.length)) ++
      ipList todo.reverse)

theorem tourMaxips_eq : tourMaxips = 16376 := by decide

theorem toInt_len {n : Nat} (h : n ≤ tourMaxips) : (Int16.ofNat n).toInt = n := by
  rw [tourMaxips_eq] at h
  exact Int16.toInt_ofNat_of_lt (by omega)

theorem size_of_len {tour : Tourhdr} {n : Nat} (hlen : tour.len = Int16.ofNat n)
    (h : n ≤ tourMaxips) : tour.size = sizeofTourhdr + 4 * n := by
  rw [Tourhdr.size, hlen, toInt_len h]
  rw [tourMaxips_eq] at h
  change ((8 + (n : Int) * 4) % 2 ^ 64).toNat = 8 + 4 * n
  omega

theorem bytes_take (tour : Tourhdr) {l : List InAddr} {rest : List UInt8}
    (hips : tour.ips.bytes = ipList l ++ rest) :
    tour.bytes.take (sizeofTourhdr + 4 * l.length) =
      tour.mcastip.bytes ++ le16 tour.mcastport.toUInt16 ++ le16 tour.len.toUInt16 ++ ipList l := by
  rw [Tourhdr.bytes, hips, ← List.append_assoc]
  refine List.take_left' ?_
  simp only [List.length_append, tour.mcastip.length_eq, le16_length, ipList_length, sizeofTourhdr]

/-- `forward_tour` takes the next host from the end of the list. -/
theorem forwardTour_cons (hostip : InAddr) (tour : Tourhdr) {next : InAddr} {todo : List InAddr}
    {rest : List UInt8} (hips : tour.ips.bytes = ipList (next :: todo).reverse ++ rest)
    (hlen : tour.len = Int16.ofNat (todo.length + 1)) (hmax : todo.length < tourMaxips)
    (sendtoOk : Bool) :
    forwardTour hostip tour sendtoOk = some (sendtoOk, if sendtoOk then
      [.packet next (tourPacket hostip next tour.mcastip tour.mcastport todo)] else []) := by
  have hsplit : tour.ips.bytes = ipList todo.reverse ++ (next.bytes ++ rest) := by
    rw [hips, List.reverse_cons, ipList_append, List.append_assoc]
    simp [ipList]
  have hnext : tour.getIp (tour.len.toInt - 1) = some next := by
    rw [hlen, toInt_len hmax, show ((todo.length + 1 : Nat) : Int) - 1 = todo.reverse.length by simp]
    exact getIp_ipList hsplit
  have hrest : tour.len - 1 = Int16.ofNat todo.length := by
    rw [hlen, Int16.ofNat_add]
    exact Int16.add_sub_cancel _ _
  have hsize : ({ tour with len := tour.len - 1 } : Tourhdr).size = sizeofTourhdr + 4 * todo.length :=
    size_of_len hrest (Nat.le_of_lt hmax)
  -- the bytes that are sent
  have htake := bytes_take { tour with len := htonsShort (tour.len - 1) } hsplit
  rw [List.length_reverse] at htake
  have hfits : sizeofTourhdr + 4 * todo.length ≤
      ({ tour with len := htonsShort (tour.len - 1) } : Tourhdr).bytes.length := by
    have hlength := congrArg List.length htake
    rw [List.length_take] at hlength
    simp only [List.length_append, tour.mcastip.length_eq, le16_length, ipList_length,
      List.length_reverse, sizeofTourhdr] at hlength ⊢
    omega
  have hshort : (htonsShort (tour.len - 1)).toUInt16 = htons (UInt16.ofNat todo.length) := by
    rw [hrest]; rfl
  simp only [forwardTour, hnext, bind, Option.bind, hsize, sendIp, if_pos hfits, htake, hshort,
    tourPacket, Nat.add_assoc]

end Tour
