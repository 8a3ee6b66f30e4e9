import Tour.Arp.Handlers
import Tour.Lib.Ledger

/-!
# The list of the devices

`get_hw_addrs` and `free_hwa_info` of `get_hw_addrs.c`. What the process holds (its socket, the
ioctl buffers, the nodes of the list and their IP addresses) is explicit state, and what the kernel
and the allocator answer is an argument. A function is `none` when it follows a pointer to memory
that it does not hold or frees such memory, and the loop that grows the buffer is `none` when it
runs out of fuel.
-/

namespace Tour

open Lib

/-! ## Records -/

/-- `struct ifreq`: the name and the union behind it. -/
structure Ifreq where
  ifrName : Buf 16
  ifru : Buf 24
deriving DecidableEq

/-- `sizeof(struct ifreq)`. -/
def sizeofIfreq : Nat := 40

namespace Ifreq

variable (r : Ifreq)

/-- `ifr_addr`. -/
def addr : Sockaddr := .ofBytes r.ifru.bytes

/-- The first `IFHWADDRLEN` bytes of `ifr_hwaddr.sa_data`. -/
def hwaddr : Buf 6 := r.ifru.slice 2 6 (by decide)

/-- `ifr_ifindex`. -/
def ifindex : Int32 := (ofLe32 r.ifru.bytes).toInt32

/-- `ifr_hwaddr` is stored into the union. -/
def setHwaddr (hw : Sockaddr) : Ifreq :=
  { r with ifru := ⟨hw.bytes ++ r.ifru.bytes.drop 16, by simp [Sockaddr.bytes]⟩ }

/-- `ifr_ifindex` is stored into the union. -/
def setIfindex (index : Int32) : Ifreq :=
  { r with ifru := ⟨le32 index.toUInt32 ++ r.ifru.bytes.drop 4, by simp⟩ }

end Ifreq

/-- `strcmp(name, "eth0") == 0`. -/
def isEth0 (name : Buf 16) : Bool := name.bytes.take 5 == [0x65, 0x74, 0x68, 0x30, 0]

/-- `name[IFNAMSIZ-1] = '\0'`. -/
def terminated (name : Buf 16) : Buf 16 := ⟨name.bytes.set 15 0, by simp⟩

/-- `if ((cptr = strchr(name, ':')) != NULL) *cptr = 0;` -/
def cutColon (name : Buf 16) : Buf 16 :=
  let i := (name.bytes.takeWhile fun b => b != 0 && b != 0x3A).length
  if name.bytes[i]? = some 0x3A then ⟨name.bytes.set i 0, by simp⟩ else name

/-- `strncmp(a, b, IFNAMSIZ) == 0`. -/
def sameName (a b : Buf 16) : Bool :=
  a.bytes.takeWhile (· != 0) == b.bytes.takeWhile (· != 0)

/-- `struct hwa_info` without its link. -/
structure HwaNode where
  ifName : Buf 16
  ifHaddr : Buf 6
  ifIndex : Int32
  ipAlias : Int16
  ipAddr : Option Addr

/-- `calloc(1, sizeof(struct hwa_info))`. -/
def HwaNode.calloc : HwaNode := ⟨.zero 16, .zero 6, 0, 0, none⟩

/-- `IP_ALIAS`. -/
def ipAlias : Int16 := 1

/-! ## What the process holds -/

structure Proc where
  sockOpen : Bool
  /-- The ioctl buffers; a buffer is named by the pass of the loop that allocates it. -/
  bufs : Ledger Nat
  /-- The nodes of the list; a node is named by the record that it is for. -/
  nodes : Heap HwaNode
  /-- The IP addresses, named as the nodes are; their cells are not linked. -/
  ips : Heap Sockaddr

namespace Proc

/-- Nothing is held. -/
def init : Proc := ⟨false, .empty, ∅, ∅⟩

/-- `free(buf)`. -/
def freeBuf (p : Proc) (buf : Nat) : Option Proc := do
  let bufs ← p.bufs.free buf
  some { p with bufs := bufs }

/-- `close(sockfd)`. -/
def close (p : Proc) : Proc := { p with sockOpen := false }

/-- `free(hwa->ip_addr)`. -/
def freeIp (ips : Heap Sockaddr) : Option Addr → Option (Heap Sockaddr)
  | none => some ips
  | some a => ips.free a

/-- `free_hwa_info(hwahead)`. -/
def freeHwaInfo (p : Proc) : Nat → Option Addr → Option Proc
  | 0, _ => none
  | _ + 1, none => some p
  | fuel + 1, some hwa => do
    let c ← p.nodes.load hwa
    let ips ← freeIp p.ips c.val.ipAddr
    let nodes ← p.nodes.free hwa
    freeHwaInfo { p with nodes := nodes, ips := ips } fuel c.next

end Proc

inductive Errno
  | einval
  | other
deriving DecidableEq

/-- What the kernel and the allocator answer to one call of `get_hw_addrs`. -/
structure HwAddrsEnv where
  socketOk : Bool
  /-- Whether `malloc` grants the buffer of a pass when it is to have this size. -/
  mallocOk : Nat → Int32 → Bool
  /-- As a `size_t` a negative size is larger than any object. -/
  malloc_size : ∀ k len, mallocOk k len = true → 0 ≤ len
  /-- `SIOCGIFCONF` in a pass: the table of the interfaces at that time, or the error. -/
  gifconf : Nat → Except Errno (List Ifreq)
  /-- The bytes of `lastname` behind the first. -/
  stack : Buf 15
  /-- Whether the node for a record can be allocated, and the IP address. -/
  hwaOk : Nat → Bool
  ipOk : Nat → Bool
  /-- `SIOCGIFHWADDR` and `SIOCGIFINDEX` for a record. -/
  gifhwaddr : Nat → Ifreq → Option Sockaddr
  gifindex : Nat → Ifreq → Option Int32

variable (env : HwAddrsEnv)

/-! ## The buffer -/

/-- The number of records that a buffer of `len` bytes has room for. -/
def capacity (len : Int32) : Nat := len.toInt.toNat / sizeofIfreq

/-- `ifc_len` for the records that `SIOCGIFCONF` filled in. -/
def ifcLen (records : List Ifreq) : Int32 := Int32.ofNat (sizeofIfreq * records.length)

/-- How the loop that grows the buffer ends. -/
inductive Grown
  /-- `goto CLOSE_SOCK`. -/
  | closeSock (p : Proc)
  /-- `goto FREE_BUF`. -/
  | freeBuf (p : Proc) (buf : Nat)
  /-- The records are in the buffer. -/
  | records (p : Proc) (buf : Nat) (records : List Ifreq)

/-- The loop that grows the buffer, from pass `k` on. -/
def growLoop : Nat → Nat → Int32 → Int32 → Proc → Option Grown
  | 0, _, _, _, _ => none
  | fuel + 1, k, len, lastlen, p =>
    if !env.mallocOk k len then some (.closeSock p)
    else
      let p := { p with bufs := p.bufs.take k }
      let len' := len + Int32.ofNat (10 * sizeofIfreq)
      match env.gifconf k with
      | .error e =>
        if e ≠ .einval ∨ lastlen ≠ 0 then some (.freeBuf p k)
        else do
          let p ← p.freeBuf k
          growLoop fuel (k + 1) len' lastlen p
      | .ok table =>
        let records := table.take (capacity len)
        if ifcLen records = lastlen then some (.records p k records)
        else do
          let p ← p.freeBuf k
          growLoop fuel (k + 1) len' (ifcLen records) p

/-! ## The list -/

/-- The state of the loop over the records; `tail` is the node whose link `hwapnext` points to, and
none when it points to `hwahead`. -/
structure Build where
  proc : Proc
  head : Option Addr
  tail : Option Addr
  lastname : Buf 16

/-- Where the loop over the records goes from an iteration. -/
inductive Listed
  /-- `goto FREE_HWA`. -/
  | freeHwa (b : Build)
  /-- `goto FREE_BUF`. -/
  | freeBuf (b : Build)
  | next (b : Build)

/-- The two ioctls for a record: what is copied from `ifrcopy` after each. -/
def query (i : Nat) (ifrcopy : Ifreq) : Buf 6 × Int32 :=
  let ifrcopy := match env.gifhwaddr i ifrcopy with
    | some hw => ifrcopy.setHwaddr hw
    | none => ifrcopy
  let haddr := ifrcopy.hwaddr
  let ifrcopy := match env.gifindex i ifrcopy with
    | some index => ifrcopy.setIfindex index
    | none => ifrcopy
  (haddr, ifrcopy.ifindex)

/-- The loop body for the record `item` at `i`. -/
def addHwa (i : Nat) (item : Ifreq) (b : Build) : Option Listed :=
  if !isEth0 item.ifrName then some (.next b)
  else if !env.hwaOk i then some (.freeHwa b)
  else do
    let hwa := { HwaNode.calloc with ifName := terminated item.ifrName }
    let nodes ← b.proc.nodes.alloc i hwa
    let name := cutColon item.ifrName
    let aliasFlag := if sameName b.lastname name then ipAlias else 0
    let (nodes, head) ← nodes.link b.head b.tail i
    let hwa := { hwa with ipAlias := aliasFlag }
    let nodes ← nodes.setVal i hwa
    let b : Build := ⟨{ b.proc with nodes := nodes }, head, some i, name⟩
    if !env.ipOk i then some (.freeBuf b)
    else do
      let ips ← b.proc.ips.alloc i item.addr
      let (haddr, index) := query env i { item with ifrName := name }
      let nodes ← nodes.setVal i { hwa with ipAddr := some i, ifHaddr := haddr, ifIndex := index }
      some (.next { b with proc := { b.proc with nodes := nodes, ips := ips } })

/-- The loop over the records, the first of which has the index `i`. -/
def listLoop : List Ifreq → Nat → Build → Option Listed
  | [], _, b => some (.next b)
  | item :: items, i, b => do
    match ← addHwa env i item b with
    | .next b => listLoop items (i + 1) b
    | exit => some exit

/-- `get_hw_addrs()` from the end of the growing loop on. -/
def getHwAddrsFrom : Grown → Option (Proc × Option Addr)
  | .closeSock p => some (p.close, none)
  | .freeBuf p buf => do
    let p ← p.freeBuf buf
    some (p.close, none)
  | .records p buf records => do
    match ← listLoop env records 0 ⟨p, none, none, ⟨0 :: env.stack.bytes, by simp⟩⟩ with
    | .freeHwa b =>
      let p ← b.proc.freeHwaInfo (b.proc.nodes.size + 1) b.head
      let p ← p.freeBuf buf
      some (p.close, none)
    | .freeBuf b =>
      let p ← b.proc.freeBuf buf
      some (p.close, none)
    | .next b =>
      let p ← b.proc.freeBuf buf
      some (p, b.head)

/-- `get_hw_addrs()`: what the process holds afterwards, and the returned pointer. -/
def getHwAddrs (fuel : Nat) : Option (Proc × Option Addr) :=
  if !env.socketOk then some (.init, none)
  else do
    let p := { Proc.init with sockOpen := true }
    let grown ← growLoop env fuel 0 (Int32.ofNat (100 * sizeofIfreq)) 0 p
    getHwAddrsFrom env grown

end Tour
