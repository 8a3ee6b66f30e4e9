import Tour.Cache.Basic

/-!
# ARP packets

`struct arp_hdr` and the functions of `arp.c` that lay it out and read it back: `build_arp`,
`send_frame`, `recv_frame`, `ntoh_arp`, `print_addresses` and `valid_arp`. Every copy and every
read through a pointer is checked; `none` means that it would leave its object. A pointer argument
is the bytes from the pointer to the end of the object it points into.
-/

namespace Tour

open Lib

/-- `ETH_HLEN`, `sizeof(struct ethhdr)`. -/
def ethHlen : Nat := 14

/-- `ETH_FRAME_LEN`. -/
def ethFrameLen : Nat := 1514

/-- `ETH_DATA_LEN`. -/
def ethDataLen : Nat := 1500

/-- `ETH_P_ARP_SH`, the Ethernet frame type. -/
def ethPArpSh : UInt16 := 0xF31F

def arpId : UInt16 := 0xDEAD

def arpMaxlen : Nat := 68

def arpHdrlen : Nat := 10

def arpMaxhwlen : Nat := 8

def arpMaxprlen : Nat := 16

def arpMaxdatalen : Nat := 2 * arpMaxhwlen + 2 * arpMaxprlen

/-- `sizeof(struct arp_hdr)`. -/
def arpHdrSize : Nat := arpHdrlen + arpMaxdatalen

def arpopRequest : UInt16 := 1

def arpopReply : UInt16 := 2

theorem arpopReply_ne : arpopReply ≠ arpopRequest := by decide

/-- `struct arp_hdr`. -/
structure ArpHdr where
  id : UInt16
  hardType : UInt16
  protType : UInt16
  hardLen : UInt8
  protLen : UInt8
  op : UInt16
  data : Buf arpMaxdatalen
deriving DecidableEq

namespace ArpHdr

/-- The structure that the bytes of the object hold. -/
def ofBuf (b : Buf arpHdrSize) : ArpHdr where
  id := ofLe16 (b.bytes.getD 0 0) (b.bytes.getD 1 0)
  hardType := ofLe16 (b.bytes.getD 2 0) (b.bytes.getD 3 0)
  protType := ofLe16 (b.bytes.getD 4 0) (b.bytes.getD 5 0)
  hardLen := b.bytes.getD 6 0
  protLen := b.bytes.getD 7 0
  op := ofLe16 (b.bytes.getD 8 0) (b.bytes.getD 9 0)
  data := b.slice arpHdrlen arpMaxdatalen (by decide)

variable (arp : ArpHdr)

/-- The offset of `ARP_SHA(arp)` in `data`. -/
def sha (_ : ArpHdr) : Nat := 0

/-- The offset of `ARP_SPA(arp)` in `data`. -/
def spa : Nat := arp.hardLen.toNat

/-- The offset of `ARP_THA(arp)` in `data`. -/
def tha : Nat := arp.hardLen.toNat + arp.protLen.toNat

/-- The offset of `ARP_TPA(arp)` in `data`. -/
def tpa : Nat := 2 * arp.hardLen.toNat + arp.protLen.toNat

/-- `ARP_DATALEN(arp)`. -/
def datalen : Nat := 2 * arp.hardLen.toNat + 2 * arp.protLen.toNat

end ArpHdr

/-- `ntoh_arp`. -/
def ntohArp (arp : ArpHdr) : ArpHdr :=
  { arp with
    id := ntohs arp.id
    hardType := ntohs arp.hardType
    protType := ntohs arp.protType
    op := ntohs arp.op }

/-- `valid_arp`, on a packet in host order. -/
def validArp (arp : ArpHdr) : Bool :=
  arp.id == arpId && arp.hardType == arphrdEther && arp.protType == afInet &&
    decide (arp.hardLen.toNat ≤ arpMaxhwlen) && decide (arp.protLen.toNat ≤ arpMaxprlen) &&
    (arp.op == arpopRequest || arp.op == arpopReply)

/-! ## Sending -/

/-- The header that `build_arp` stores: five fields in network order and the two lengths. -/
def arpHeader (hardType protType : UInt16) (hardLen protLen : UInt8) (op : UInt16) : List UInt8 :=
  le16 (htons arpId) ++ le16 (htons hardType) ++ le16 (htons protType) ++ [hardLen, protLen] ++
    le16 (htons op)

/-- One address of `build_arp`: `memset` for a null pointer, `memcpy` otherwise. -/
def putAddress {n : Nat} (start : Buf n) (off len : Nat) : Option (List UInt8) → Option (Buf n)
  | none => start.write off (List.replicate len 0)
  | some src => if len ≤ src.length then start.write off (src.take len) else none

/-- `build_arp(start, size, ...)`: the buffer afterwards and the returned length, which is 0 when
the packet does not fit. -/
def buildArp {n : Nat} (start : Buf n) (hardType protType : UInt16) (hardLen protLen : UInt8)
    (op : UInt16) (sendHwa sendPro targetHwa targetPro : Option (List UInt8)) :
    Option (Buf n × Nat) :=
  let hl := hardLen.toNat
  let pl := protLen.toNat
  let len := arpHdrlen + 2 * hl + 2 * pl
  if n < len then some (start, 0)
  else do
    let b ← start.write 0 (arpHeader hardType protType hardLen protLen op)
    let b ← putAddress b arpHdrlen hl sendHwa
    let b ← putAddress b (arpHdrlen + hl) pl sendPro
    let b ← putAddress b (arpHdrlen + hl + pl) hl targetHwa
    let b ← putAddress b (arpHdrlen + hl + pl + hl) pl targetPro
    some (b, len)

/-- The Ethernet header that `send_frame` builds. -/
def ethHeader (dst src : List UInt8) : List UInt8 := dst ++ src ++ le16 (htons ethPArpSh)

/-- `send_frame(sock, payload, size, dstmac, srcmac, ifi_index)` up to its `sendto`: the frame, or
`some none` when the payload is too large. A null MAC is dereferenced. -/
def sendFrame (payload : List UInt8) (size : Nat) (dstmac srcmac : Option (List UInt8)) :
    Option (Option (List UInt8)) :=
  if size > ethDataLen then some none
  else do
    let dst ← dstmac
    let src ← srcmac
    if ethAlen ≤ dst.length ∧ ethAlen ≤ src.length ∧ size ≤ payload.length then
      some (some (ethHeader (dst.take ethAlen) (src.take ethAlen) ++ payload.take size))
    else none

/-! ## Receiving -/

/-- The two `memcpy`s of `recv_frame` and `ntoh_arp`, for a datagram `frame` of at most
`ETH_FRAME_LEN` bytes. `eh` and `arp` are the zeroed structures that `run_arp` passes. -/
def recvCopy (frame : List UInt8) : Option (Buf ethHlen × ArpHdr) :=
  let eh := Buf.zero ethHlen
  let arp := Buf.zero arpHdrSize
  let nread := frame.length
  if nread > ethHlen + arpHdrlen then do
    let buf := Buf.fill ethFrameLen frame
    let src ← buf.read 0 ethHlen
    let eh ← eh.write 0 src
    let src ← buf.read ethHlen (nread - ethHlen)
    let arp ← arp.write 0 src
    some (eh, ntohArp (ArpHdr.ofBuf arp))
  else some (eh, ArpHdr.ofBuf arp)

/-- `ptr[i]` for an `i` counted from the start of `data`. -/
def ArpHdr.at (arp : ArpHdr) (i : Nat) : Option UInt8 :=
  (arp.data.read i 1).bind List.head?

/-- `for (i = 0; i < n; ++i) printf(ptr[i])`. -/
def printLoop (arp : ArpHdr) (ptr n : Nat) : Option (List UInt8) :=
  (List.range n).mapM fun i => arp.at (ptr + i)

/-- `print_addresses`, with the bytes it prints. The loops over a hardware address stop one byte
early and print that byte after the loop, also when the length is 0. -/
def printAddresses (arp : ArpHdr) : Option (List UInt8) := do
  let hl := arp.hardLen.toNat
  let pl := arp.protLen.toNat
  let sha ← printLoop arp arp.sha (hl - 1)
  let shaLast ← arp.at (arp.sha + (hl - 1))
  let spa ← printLoop arp arp.spa pl
  let tha ← printLoop arp arp.tha (hl - 1)
  let thaLast ← arp.at (arp.tha + (hl - 1))
  let tpa ← printLoop arp arp.tpa pl
  some (sha ++ [shaLast] ++ spa ++ tha ++ [thaLast] ++ tpa)

/-- `recv_frame`: the copies, then `PRINT_ARP` of what was copied. -/
def recvFrame (frame : List UInt8) : Option (Buf ethHlen × ArpHdr) := do
  let r ← recvCopy frame
  if frame.length > ethHlen + arpHdrlen then
    let _ ← printAddresses r.2
    some r
  else some r

/-! ## The copies of `recv_frame` -/

/-- A frame no longer than the two headers is not copied. -/
theorem recvCopy_of_short {frame : List UInt8} (h : frame.length ≤ ethHlen + arpHdrlen) :
    recvCopy frame = some (.zero ethHlen, .ofBuf (.zero arpHdrSize)) := by
  simp only [recvCopy, gt_iff_lt, if_neg (Nat.not_lt.2 h)]

theorem recvCopy_of_fits {frame : List UInt8} (hlo : ethHlen + arpHdrlen < frame.length)
    (hhi : frame.length ≤ ethHlen + arpHdrSize) :
    ∃ eh : Buf ethHlen, eh.bytes = frame.take ethHlen ∧
      recvCopy frame = some (eh, ntohArp (.ofBuf (.fill arpHdrSize (frame.drop ethHlen)))) := by
  have hlo' : 24 < frame.length := hlo
  have hhi' : frame.length ≤ 72 := hhi
  have hbuf : frame.length ≤ ethFrameLen := Nat.le_trans hhi' (by decide)
  -- the Ethernet header
  have hr₁ : (Buf.fill ethFrameLen frame).read 0 ethHlen = some (frame.take ethHlen) :=
    Buf.read_fill (by change 0 + 14 ≤ _; omega) hbuf
  have hlen₁ : (frame.take ethHlen).length = ethHlen := by
    rw [List.length_take]; change min 14 _ = 14; omega
  have hw₁ := Buf.write_zero (n := ethHlen) (Nat.le_of_eq hlen₁)
  -- the ARP message
  have hr₂ : (Buf.fill ethFrameLen frame).read ethHlen (frame.length - ethHlen) =
      some (frame.drop ethHlen) := by
    rw [Buf.read_fill (by change 14 + (_ - 14) ≤ _; omega) hbuf, ← List.length_drop,
      List.take_length]
  have hlen₂ : (frame.drop ethHlen).length ≤ arpHdrSize := by
    rw [List.length_drop]; change _ - 14 ≤ 58; omega
  have hw₂ := Buf.write_zero hlen₂
  refine ⟨.fill ethHlen (frame.take ethHlen), ?_, ?_⟩
  · rw [Buf.fill_bytes_of_le (Nat.le_of_eq hlen₁), hlen₁, Nat.sub_self, List.replicate_zero,
      List.append_nil]
  · have hlt : frame.length > ethHlen + arpHdrlen := hlo
    simp only [recvCopy, if_pos hlt, hr₁, hr₂, hw₁, hw₂, bind, Option.bind]

/-- A longer frame overruns the `struct arp_hdr`. -/
theorem recvCopy_of_long {frame : List UInt8} (h : ethHlen + arpHdrSize < frame.length) :
    recvCopy frame = none := by
  have hlt : frame.length > ethHlen + arpHdrlen := Nat.lt_trans (by decide) h
  rw [← Option.not_isSome_iff_eq_none]
  intro hsome
  obtain ⟨r, hr⟩ := Option.isSome_iff_exists.1 hsome
  simp only [recvCopy, if_pos hlt, bind, Option.bind_eq_some_iff] at hr
  obtain ⟨src₁, -, eh, -, src₂, hsrc₂, arp, harp, -⟩ := hr
  have hlen := Buf.read_length hsrc₂
  have hle := (Buf.write_eq_some.1 harp).1
  omega

/-! ## What is laid out and what is read back -/

@[simp] theorem arpHeader_length (hardType protType : UInt16) (hardLen protLen : UInt8)
    (op : UInt16) : (arpHeader hardType protType hardLen protLen op).length = arpHdrlen := rfl

/-- The bytes of one address: zeros for a null pointer. -/
def addressBytes (len : Nat) : Option (List UInt8) → List UInt8
  | none => List.replicate len 0
  | some src => src.take len

/-- The object behind an address argument holds the bytes that are copied from it. -/
def Holds (len : Nat) (src : Option (List UInt8)) : Prop := ∀ l, src = some l → len ≤ l.length

theorem addressBytes_length {len : Nat} {src : Option (List UInt8)} (h : Holds len src) :
    (addressBytes len src).length = len := by
  cases src with
  | none => exact List.length_replicate
  | some l => rw [addressBytes, List.length_take, Nat.min_eq_left (h l rfl)]

theorem putAddress_at {n len : Nat} {b : Buf n} {pre post : List UInt8}
    {src : Option (List UInt8)} (hb : b.bytes = pre ++ post) (hsrc : Holds len src)
    (hlen : len ≤ post.length) :
    ∃ c, putAddress b pre.length len src = some c ∧
      c.bytes = (pre ++ addressBytes len src) ++ post.drop len := by
  have hl := addressBytes_length hsrc
  obtain ⟨c, hc, hbytes⟩ := Buf.write_at hb (addressBytes len src) (by omega)
  refine ⟨c, ?_, by rw [hbytes, hl]⟩
  cases src with
  | none => exact hc
  | some l => simp only [putAddress, if_pos (hsrc l rfl)]; exact hc

/-- A packet that fits is the header and the four addresses, one behind the other. -/
theorem buildArp_of_fits {n : Nat} (start : Buf n) (hardType protType : UInt16)
    (hardLen protLen : UInt8) (op : UInt16) {sendHwa sendPro targetHwa targetPro : Option (List UInt8)}
    (h₁ : Holds hardLen.toNat sendHwa) (h₂ : Holds protLen.toNat sendPro)
    (h₃ : Holds hardLen.toNat targetHwa) (h₄ : Holds protLen.toNat targetPro)
    (hn : arpHdrlen + 2 * hardLen.toNat + 2 * protLen.toNat ≤ n) :
    ∃ b : Buf n,
      buildArp start hardType protType hardLen protLen op sendHwa sendPro targetHwa targetPro =
        some (b, arpHdrlen + 2 * hardLen.toNat + 2 * protLen.toNat) ∧
      b.bytes = arpHeader hardType protType hardLen protLen op ++
        addressBytes hardLen.toNat sendHwa ++ addressBytes protLen.toNat sendPro ++
        addressBytes hardLen.toNat targetHwa ++ addressBytes protLen.toNat targetPro ++
        start.bytes.drop (arpHdrlen + 2 * hardLen.toNat + 2 * protLen.toNat) := by
  have l₁ := addressBytes_length h₁
  have l₂ := addressBytes_length h₂
  have l₃ := addressBytes_length h₃
  have hb : start.bytes = [] ++ start.bytes := rfl
  obtain ⟨b₀, e₀, hb₀⟩ := Buf.write_at hb (arpHeader hardType protType hardLen protLen op)
    (by rw [arpHeader_length, start.length_eq]; omega)
  rw [arpHeader_length, List.nil_append] at hb₀
  obtain ⟨b₁, e₁, hb₁⟩ := putAddress_at hb₀ h₁ (by rw [List.length_drop, start.length_eq]; omega)
  rw [List.drop_drop] at hb₁
  obtain ⟨b₂, e₂, hb₂⟩ := putAddress_at hb₁ h₂ (by rw [List.length_drop, start.length_eq]; omega)
  rw [List.drop_drop] at hb₂
  obtain ⟨b₃, e₃, hb₃⟩ := putAddress_at hb₂ h₃ (by rw [List.length_drop, start.length_eq]; omega)
  rw [List.drop_drop] at hb₃
  obtain ⟨b₄, e₄, hb₄⟩ := putAddress_at hb₃ h₄ (by rw [List.length_drop, start.length_eq]; omega)
  rw [List.drop_drop] at hb₄
  simp only [List.length_append, arpHeader_length, l₁, l₂, l₃, List.length_nil] at e₀ e₁ e₂ e₃ e₄
  refine ⟨b₄, ?_, ?_⟩
  · simp only [buildArp, if_neg (Nat.not_lt.2 hn), e₀, e₁, e₂, e₃, e₄, bind, Option.bind]
  · rw [hb₄]
    congr 2
    omega

theorem sendFrame_of_fits {payload dst src : List UInt8} {size : Nat} (hsize : size ≤ ethDataLen)
    (hdst : ethAlen ≤ dst.length) (hsrc : ethAlen ≤ src.length) (hpayload : size ≤ payload.length) :
    sendFrame payload size (some dst) (some src) =
      some (some (ethHeader (dst.take ethAlen) (src.take ethAlen) ++ payload.take size)) := by
  simp only [sendFrame, gt_iff_lt, if_neg (Nat.not_lt.2 hsize), bind, Option.bind,
    if_pos (And.intro hdst (And.intro hsrc hpayload))]

theorem ntohArp_ofBuf_header (hardType protType : UInt16) (hardLen protLen : UInt8) (op : UInt16)
    {data : List UInt8} (hdata : data.length ≤ arpMaxdatalen) :
    ntohArp (.ofBuf (.fill arpHdrSize (arpHeader hardType protType hardLen protLen op ++ data))) =
      ⟨arpId, hardType, protType, hardLen, protLen, op, .fill arpMaxdatalen data⟩ := by
  have hlen : (arpHeader hardType protType hardLen protLen op ++ data).length ≤ arpHdrSize := by
    rw [List.length_append, arpHeader_length, arpHdrSize]; omega
  have hbytes := Buf.fill_bytes_of_le hlen
  have hsub : arpHdrSize - (arpHeader hardType protType hardLen protLen op ++ data).length =
      arpMaxdatalen - data.length := by
    rw [List.length_append, arpHeader_length, arpHdrSize]; omega
  rw [hsub, List.append_assoc] at hbytes
  have hslice : (Buf.fill arpHdrSize (arpHeader hardType protType hardLen protLen op ++ data)).slice
      arpHdrlen arpMaxdatalen (by decide) = .fill arpMaxdatalen data := by
    apply Buf.ext
    have hdrop : List.drop arpHdrlen (arpHeader hardType protType hardLen protLen op ++
        (data ++ List.replicate (arpMaxdatalen - data.length) 0)) =
        data ++ List.replicate (arpMaxdatalen - data.length) 0 :=
      List.drop_left' (arpHeader_length hardType protType hardLen protLen op)
    rw [Buf.slice_bytes, hbytes, hdrop, Buf.fill_bytes_of_le hdata, List.take_of_length_le]
    rw [List.length_append, List.length_replicate]
    omega
  generalize Buf.fill arpHdrSize (arpHeader hardType protType hardLen protLen op ++ data) = b
    at hbytes hslice ⊢
  simp only [ntohArp, ArpHdr.ofBuf, hslice, hbytes, arpHeader, le16, List.cons_append,
    List.nil_append, List.getD_cons_zero, List.getD_cons_succ, ofLe16_le16, ntohs_htons]

/-- What `recv_frame` copies out of a frame made of an Ethernet header, an ARP header and data. -/
theorem recvCopy_of_header {eth data : List UInt8} (hardType protType : UInt16)
    (hardLen protLen : UInt8) (op : UInt16) (heth : eth.length = ethHlen) (hpos : 0 < data.length)
    (hdata : data.length ≤ arpMaxdatalen) :
    ∃ eh : Buf ethHlen, eh.bytes = eth ∧
      recvCopy (eth ++ (arpHeader hardType protType hardLen protLen op ++ data)) =
        some (eh, ⟨arpId, hardType, protType, hardLen, protLen, op, .fill arpMaxdatalen data⟩) := by
  have hlen : (eth ++ (arpHeader hardType protType hardLen protLen op ++ data)).length =
      ethHlen + (arpHdrlen + data.length) := by
    rw [List.length_append, List.length_append, heth, arpHeader_length]
  obtain ⟨eh, heh, hcopy⟩ := @recvCopy_of_fits
    (eth ++ (arpHeader hardType protType hardLen protLen op ++ data))
    (by rw [hlen]; omega) (by rw [hlen, arpHdrSize]; omega)
  refine ⟨eh, ?_, ?_⟩
  · rw [heh, List.take_left' heth]
  · rw [hcopy, List.drop_left' heth, ntohArp_ofBuf_header _ _ _ _ _ hdata]

/-! ## The bounds of `recv_frame` -/

theorem ArpHdr.at_isSome (arp : ArpHdr) (i : Nat) : (arp.at i).isSome ↔ i < arpMaxdatalen := by
  unfold ArpHdr.at
  by_cases h : i + 1 ≤ arpMaxdatalen
  · obtain ⟨l, hl⟩ := Option.isSome_iff_exists.1 ((Buf.read_isSome arp.data i 1).2 h)
    have hlen := Buf.read_length hl
    cases l with
    | nil => cases hlen
    | cons x l => simp only [hl, Option.bind_some, List.head?_cons, Option.isSome_some, true_iff]; omega
  · have hnone : arp.data.read i 1 = none := by
      rw [← Option.not_isSome_iff_eq_none, Buf.read_isSome]; exact h
    simp only [hnone, Option.bind_none, Option.isSome_none, Bool.false_eq_true, false_iff]
    omega

theorem mapM_isSome {α β : Type} (f : α → Option β) (l : List α) :
    (l.mapM f).isSome ↔ ∀ x ∈ l, (f x).isSome := by
  induction l with
  | nil => simp
  | cons x l ih =>
    rw [List.mapM_cons, List.forall_mem_cons, ← ih]
    cases f x with
    | none => simp
    | some y => cases l.mapM f <;> simp

/-- A print loop stays inside `data` exactly when its last index does. -/
theorem printLoop_isSome (arp : ArpHdr) (ptr n : Nat) :
    (printLoop arp ptr n).isSome ↔ n = 0 ∨ ptr + n ≤ arpMaxdatalen := by
  rw [printLoop, mapM_isSome]
  constructor
  · intro h
    cases n with
    | zero => exact Or.inl rfl
    | succ n =>
      have hlast := h n (List.mem_range.2 (Nat.lt_succ_self n))
      rw [ArpHdr.at_isSome] at hlast
      exact Or.inr (by omega)
  · intro h i hi
    rw [List.mem_range] at hi
    rw [ArpHdr.at_isSome]
    omega

/-- `print_addresses` stays inside `data` exactly when the four addresses of the two lengths do. -/
theorem printAddresses_isSome (arp : ArpHdr) :
    (printAddresses arp).isSome ↔ arp.datalen ≤ arpMaxdatalen := by
  have h₁ := printLoop_isSome arp arp.sha (arp.hardLen.toNat - 1)
  have h₂ := arp.at_isSome (arp.sha + (arp.hardLen.toNat - 1))
  have h₃ := printLoop_isSome arp arp.spa arp.protLen.toNat
  have h₄ := printLoop_isSome arp arp.tha (arp.hardLen.toNat - 1)
  have h₅ := arp.at_isSome (arp.tha + (arp.hardLen.toNat - 1))
  have h₆ := printLoop_isSome arp arp.tpa arp.protLen.toNat
  have hsome : (printAddresses arp).isSome ↔
      (printLoop arp arp.sha (arp.hardLen.toNat - 1)).isSome ∧
      (arp.at (arp.sha + (arp.hardLen.toNat - 1))).isSome ∧
      (printLoop arp arp.spa arp.protLen.toNat).isSome ∧
      (printLoop arp arp.tha (arp.hardLen.toNat - 1)).isSome ∧
      (arp.at (arp.tha + (arp.hardLen.toNat - 1))).isSome ∧
      (printLoop arp arp.tpa arp.protLen.toNat).isSome := by
    simp only [printAddresses, bind, Option.isSome_bind]
    cases printLoop arp arp.sha (arp.hardLen.toNat - 1) <;>
      cases arp.at (arp.sha + (arp.hardLen.toNat - 1)) <;>
      cases printLoop arp arp.spa arp.protLen.toNat <;>
      cases printLoop arp arp.tha (arp.hardLen.toNat - 1) <;>
      cases arp.at (arp.tha + (arp.hardLen.toNat - 1)) <;>
      cases printLoop arp arp.tpa arp.protLen.toNat <;> simp
  rw [hsome, h₁, h₂, h₃, h₄, h₅, h₆]
  simp only [ArpHdr.sha, ArpHdr.spa, ArpHdr.tha, ArpHdr.tpa, ArpHdr.datalen, arpMaxdatalen,
    arpMaxhwlen, arpMaxprlen]
  omega

/-- What `recv_frame` makes of a frame whose lengths `valid_arp` accepts. -/
theorem recvFrame_of_header {eth data : List UInt8} (hardType protType : UInt16)
    {hardLen protLen : UInt8} (op : UInt16) (heth : eth.length = ethHlen) (hpos : 0 < data.length)
    (hdata : data.length ≤ arpMaxdatalen) (hhl : hardLen.toNat ≤ arpMaxhwlen)
    (hpl : protLen.toNat ≤ arpMaxprlen) :
    ∃ eh : Buf ethHlen, eh.bytes = eth ∧
      recvFrame (eth ++ (arpHeader hardType protType hardLen protLen op ++ data)) =
        some (eh, ⟨arpId, hardType, protType, hardLen, protLen, op, .fill arpMaxdatalen data⟩) := by
  obtain ⟨eh, heh, hcopy⟩ := recvCopy_of_header hardType protType hardLen protLen op heth hpos hdata
  refine ⟨eh, heh, ?_⟩
  have hprint : (printAddresses ⟨arpId, hardType, protType, hardLen, protLen, op,
      .fill arpMaxdatalen data⟩).isSome := by
    rw [printAddresses_isSome]
    simp only [ArpHdr.datalen, arpMaxdatalen]
    omega
  obtain ⟨printed, hprinted⟩ := Option.isSome_iff_exists.1 hprint
  have hlong : (eth ++ (arpHeader hardType protType hardLen protLen op ++ data)).length >
      ethHlen + arpHdrlen := by
    rw [List.length_append, List.length_append, heth, arpHeader_length]
    omega
  simp only [recvFrame, hcopy, bind, Option.bind, if_pos hlong, hprinted]

theorem datalen_recvCopy {frame : List UInt8} (hhi : frame.length ≤ ethHlen + arpHdrSize) :
    (ntohArp (.ofBuf (.fill arpHdrSize (frame.drop ethHlen)))).datalen =
      2 * (frame.getD 20 0).toNat + 2 * (frame.getD 21 0).toNat := by
  have hfit : (frame.drop ethHlen).length ≤ arpHdrSize := by rw [List.length_drop]; omega
  have hget : ∀ i, (Buf.fill arpHdrSize (frame.drop ethHlen)).bytes.getD i 0 =
      frame.getD (ethHlen + i) 0 := by
    intro i
    rw [Buf.fill_getD hfit, List.getD_eq_getElem?_getD, List.getElem?_drop,
      ← List.getD_eq_getElem?_getD]
  simp only [ArpHdr.datalen, ntohArp, ArpHdr.ofBuf, hget 6, hget 7]
  rfl

/-- **`recv_frame` stays inside its buffers** exactly for a frame too short to be copied, and for
one that fits `struct arp_hdr` and whose two lengths describe addresses that fit `data`. -/
theorem recvFrame_isSome_iff (frame : List UInt8) :
    (recvFrame frame).isSome ↔ frame.length ≤ 24 ∨
      (frame.length ≤ 72 ∧ 2 * (frame.getD 20 0).toNat + 2 * (frame.getD 21 0).toNat ≤ 48) := by
  rcases Nat.lt_or_ge (ethHlen + arpHdrlen) frame.length with hlo | hlo
  · have hshort : ¬frame.length ≤ 24 := Nat.not_le.2 hlo
    rcases Nat.lt_or_ge (ethHlen + arpHdrSize) frame.length with hhi | hhi
    · have hlong : ¬frame.length ≤ 72 := Nat.not_le.2 hhi
      simp [recvFrame, recvCopy_of_long hhi, hshort, hlong]
    · obtain ⟨eh, -, hcopy⟩ := recvCopy_of_fits hlo hhi
      have hprint := printAddresses_isSome (ntohArp (.ofBuf (.fill arpHdrSize (frame.drop ethHlen))))
      rw [datalen_recvCopy hhi] at hprint
      have hfit : frame.length ≤ 72 := hhi
      simp only [recvFrame, hcopy, bind, Option.bind, gt_iff_lt, if_pos hlo, hshort, hfit,
        false_or, true_and]
      refine Iff.trans ?_ hprint
      cases printAddresses (ntohArp (.ofBuf (.fill arpHdrSize (frame.drop ethHlen)))) <;> simp
  · have hshort : frame.length ≤ 24 := hlo
    simp [recvFrame, recvCopy_of_short hlo, Nat.not_lt.2 hlo, hshort]

/-- A frame of 73 bytes overruns the structure by one. -/
theorem recvFrame_overruns :
    ¬∀ frame : List UInt8, frame.length ≤ ethFrameLen → (recvFrame frame).isSome := by
  intro h
  have hsome := h (List.replicate 73 0) (by simp [ethFrameLen])
  have hlong : ethHlen + arpHdrSize < (List.replicate 73 (0 : UInt8)).length := by
    rw [List.length_replicate]; decide
  rw [recvFrame, recvCopy_of_long hlong] at hsome
  cases hsome

end Tour
