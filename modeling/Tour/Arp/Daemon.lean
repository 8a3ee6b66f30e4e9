import Tour.Lib.Machine
import Tour.Arp.Handlers

/-!
# The ARP daemon as a machine

`run_arp` as a step function. A state is what the process holds (the cache, the place in the loop)
and what the kernel holds for it (which connection each open client descriptor is); `log` records
what reached the outside. One step is one visit of the sweep, one removal, one `accept` or one
received frame, and an event is what the kernel answers in that step. A step is `none` when the
event does not belong to the place in the loop, or when the code has no defined next state: it
left an object, read a freed node, or linked a linked node again.
-/

namespace Tour

open Lib

/-- An accepted connection; descriptors are reused, connections are not. -/
abbrev Conn := Nat

/-- What the daemon was started with. `main` returns when there is no device or no socket. -/
structure Config where
  devices : List HwaInfo
  devices_ne : devices ≠ []
  unixDomain : Int
  pfSocket : Int
  unixDomain_open : 0 ≤ unixDomain
  pfSocket_open : 0 ≤ pfSocket
  sockets_ne : unixDomain ≠ pfSocket

/-- The place in the loop of `run_arp`; `rset` is what `select` left readable. -/
inductive Pc
  /-- The top of an iteration. -/
  | select
  /-- In the sweep over the cache, at `current`. -/
  | sweep (rset : Int → Bool) (current : Option Addr)
  /-- In the sweep, about to close and remove `rm`; `next` is already read from it. -/
  | remove (rset : Int → Bool) (rm : Addr) (next : Option Addr)
  /-- At the test of the listening socket. -/
  | accept (rset : Int → Bool)
  /-- At the test of the packet socket. -/
  | packet (rset : Int → Bool)
  /-- The loop was left. -/
  | halted

/-- What reached the outside. -/
inductive Obs
  | received (c : Conn) (msg : List UInt8)
  /-- A `send` to the client of the connection was attempted, with this result. -/
  | answered (c : Conn) (hw : Hwaddr) (ok : Bool)
  | closed (c : Conn)
  | emitted (frame : List UInt8)
deriving DecidableEq

structure World where
  cache : List Node
  pc : Pc
  /-- The open client descriptors, with their connections. -/
  fds : Int → Option Conn
  /-- The connections accepted so far are those below this. -/
  nextConn : Conn
  /-- The newest first. -/
  log : List Obs

def World.init : World := ⟨[], .select, fun _ => none, 0, []⟩

/-- The kernel's side of a system call. A `send` on a descriptor that is not open reaches nobody. -/
def World.perform (w : World) : Effect → World
  | .received fd msg =>
    match w.fds fd with
    | some c => { w with log := .received c msg :: w.log }
    | none => w
  | .send fd hw ok =>
    match w.fds fd with
    | some c => { w with log := .answered c hw ok :: w.log }
    | none => w
  | .close fd =>
    match w.fds fd with
    | some c => { w with fds := fun x => if x = fd then none else w.fds x, log := .closed c :: w.log }
    | none => w
  | .frame _ bytes => { w with log := .emitted bytes :: w.log }

def World.performAll (w : World) (effects : List Effect) : World := effects.foldl World.perform w

/-- What a received frame comes with: the kernel's answers to the two packet handlers. -/
structure PacketEnv where
  src : SockaddrLl
  req : ReqEnv
  sendOk : Addr → Bool

/-- What the kernel answers in a step. -/
inductive Event
  /-- `select` fails, or reports these descriptors. -/
  | select (rset : Option (Int → Bool))
  /-- The step asks the kernel nothing. -/
  | tick
  /-- A client in `STATE_CONNECTION` is readable. -/
  | areq (env : AreqEnv)
  /-- `accept` returns `sfd`; `fresh` is where `calloc` would put the entry. -/
  | accept (sfd : Int) (fresh : Addr)
  /-- `recvfrom` fails, or returns this frame. -/
  | packet (frame : Option (List UInt8)) (env : PacketEnv)

variable (cfg : Config)

/-- The call of `handle_areq` for the entry `c` at `a`: `recv` fails on a descriptor that is not
open. -/
def callAreq (w : World) (a : Addr) (c : Cache) (env : AreqEnv) : Option AreqResult :=
  handleAreq cfg.devices w.cache a c
    { env with recv := if (w.fds c.domainSocket).isSome then env.recv else none }

/-- One turn of the sweep at the entry `c` at `a`. -/
def stepVisit (w : World) (rset : Int → Bool) (a : Addr) (c : Cache) (e : Event) : Option World :=
  let next := nextOf w.cache a
  if c.state = .complete ∨ rset c.domainSocket = false then
    match e with
    | .tick => some { w with pc := .sweep rset next }
    | _ => none
  else if c.state = .connection then
    match e with
    | .areq env => do
      let r ← callAreq cfg w a c env
      let w := World.performAll { w with cache := r.cache } r.effects
      some { w with pc := if r.rv then .sweep rset next else .remove rset a next }
    | _ => none
  else
    match e with
    | .tick => some { w with pc := .remove rset a next }
    | _ => none

/-- `close(rm->domain_socket); rm->domain_socket = -1; removeFromCache(&cache, rm);` The comparisons
of `removeFromCache` may not leave an address. -/
def stepRemove (w : World) (rset : Int → Bool) (rm : Addr) (next : Option Addr) : Option World := do
  let c ← entryAt w.cache rm
  let w := w.perform (.close c.domainSocket)
  let cache := updateAt w.cache rm fun c => { c with domainSocket := -1 }
  if ComparesInside cache (rm, { c with domainSocket := -1 }) then
    some { w with
      cache := removeFromCache cache (rm, { c with domainSocket := -1 })
      pc := .sweep rset next }
  else none

/-- The entry that a successful lookup-and-allocate leaves for a new connection. -/
def freshEntry (sfd : Int) : Cache := { Cache.calloc with domainSocket := sfd, state := .connection }

/-- The branch of `run_arp` on the listening socket. When `getCacheBySocket` finds an entry, that
entry is linked again while it is in the list: what follows is no list (`Tour.Arp.Accept`). -/
def stepAccept (w : World) (rset : Int → Bool) (sfd : Int) (fresh : Addr) : Option World :=
  match getCacheBySocket w.cache sfd with
  | some _ => none
  | none =>
    if fresh ∈ addrs w.cache then none
    else some { w with
      cache := addToCache w.cache (fresh, freshEntry sfd)
      pc := .packet rset
      fds := if 0 ≤ sfd then fun x => if x = sfd then some w.nextConn else w.fds x else w.fds
      nextConn := if 0 ≤ sfd then w.nextConn + 1 else w.nextConn }

/-- The switch of `run_arp` on a valid packet. -/
def dispatch (cache : List Node) (eh : Buf ethHlen) (arp : ArpHdr) (env : PacketEnv) :
    Option (List Node × List Effect) :=
  if arp.op = arpopRequest then
    if env.req.fresh ∈ addrs cache then none
    else handleReq cfg.devices cache eh arp env.src env.req
  else if arp.op = arpopReply then handleReply cfg.devices cache arp env.src env.sendOk
  else some (cache, [])

/-- The branch of `run_arp` on the packet socket, for a received frame. -/
def handleFrame (cache : List Node) (frame : List UInt8) (env : PacketEnv) :
    Option (List Node × List Effect) := do
  let (eh, arp) ← recvFrame frame
  if frame.length < ethHlen + arpHdrlen ∨ frame.length < ethHlen + arpHdrlen + arp.datalen then
    some (cache, [])
  else if validArp arp then dispatch cfg cache eh arp env
  else some (cache, [])

/-- The packet of a frame that `run_arp` hands to `handle_req`. -/
def requestOf (frame : List UInt8) : Option (Buf ethHlen × ArpHdr) :=
  (recvFrame frame).filter fun r =>
    decide (ethHlen + arpHdrlen ≤ frame.length ∧
      ethHlen + arpHdrlen + r.2.datalen ≤ frame.length) &&
    (validArp r.2 && decide (r.2.op = arpopRequest))

def stepPacket (w : World) (frame : List UInt8) (env : PacketEnv) : Option World := do
  let (cache, effects) ← handleFrame cfg w.cache frame env
  let w := World.performAll { w with cache := cache } effects
  some { w with pc := .select }

/-- One step of `run_arp`. -/
def step (w : World) (e : Event) : Option World :=
  match w.pc with
  | .select =>
    match e with
    | .select none => some { w with pc := .halted }
    | .select (some rset) => some { w with pc := .sweep rset (w.cache.head?.map Prod.fst) }
    | _ => none
  | .sweep rset none =>
    match e with
    | .tick => some { w with pc := .accept rset }
    | _ => none
  | .sweep rset (some a) => do
    let c ← entryAt w.cache a
    stepVisit cfg w rset a c e
  | .remove rset rm next =>
    match e with
    | .tick => stepRemove w rset rm next
    | _ => none
  | .accept rset =>
    if rset cfg.unixDomain then
      match e with
      | .accept sfd fresh => stepAccept w rset sfd fresh
      | _ => none
    else
      match e with
      | .tick => some { w with pc := .packet rset }
      | _ => none
  | .packet rset =>
    if rset cfg.pfSocket then
      match e with
      | .packet none _ => some { w with pc := .halted }
      | .packet (some frame) env => stepPacket cfg w frame env
      | _ => none
    else
      match e with
      | .tick => some { w with pc := .select }
      | _ => none
  | .halted => none

/-- The daemon. -/
def daemon : Machine World Event := ⟨.init, step cfg⟩

/-- The hardware address of the host 10.0.0.`i`. -/
def hostMac (i : UInt8) : Buf 6 := ⟨[2, 0, 0, 0, 0, i], rfl⟩

/-- Its address. -/
def hostIp (i : UInt8) : InAddr := ⟨[10, 0, 0, i], rfl⟩

/-- A host with one interface, 10.0.0.1. -/
def loneHost : Config where
  devices := [{
    ifHaddr := hostMac 1
    ifIndex := 2
    ipAddr := ⟨afInet, ⟨[0, 0, 10, 0, 0, 1, 0, 0, 0, 0, 0, 0, 0, 0], rfl⟩⟩ }]
  devices_ne := List.cons_ne_nil _ _
  unixDomain := 3
  pfSocket := 4
  unixDomain_open := by decide
  pfSocket_open := by decide
  sockets_ne := by decide

/-- `select` reports these descriptors. -/
def readable (fds : List Int) : Event := .select (some fun fd => fds.contains fd)

/-! ## System calls -/

namespace World

variable (w : World) (e : Effect) (effects : List Effect)

@[simp] theorem perform_cache : (w.perform e).cache = w.cache := by
  cases e <;> simp only [perform] <;> first | rfl | (split <;> rfl)

@[simp] theorem perform_nextConn : (w.perform e).nextConn = w.nextConn := by
  cases e <;> simp only [perform] <;> first | rfl | (split <;> rfl)

@[simp] theorem performAll_nil : w.performAll [] = w := rfl

@[simp] theorem performAll_cons : w.performAll (e :: effects) = (w.perform e).performAll effects :=
  rfl

@[simp] theorem performAll_cache : (w.performAll effects).cache = w.cache := by
  induction effects generalizing w with
  | nil => rfl
  | cons e effects ih => rw [performAll_cons, ih, perform_cache]

/-- Frames only add to the log. -/
theorem performAll_frames (h : ∀ e ∈ effects, e.IsFrame) :
    ∃ obs, (∀ o ∈ obs, ∃ i bytes, .frame i bytes ∈ effects ∧ o = .emitted bytes) ∧
      w.performAll effects = { w with log := obs ++ w.log } := by
  induction effects generalizing w with
  | nil => exact ⟨[], List.forall_mem_nil _, rfl⟩
  | cons e effects ih =>
    obtain ⟨i, bytes, rfl⟩ := h e List.mem_cons_self
    obtain ⟨obs, hobs, hrun⟩ := ih { w with log := .emitted bytes :: w.log }
      fun e he => h e (List.mem_cons_of_mem _ he)
    refine ⟨obs ++ [.emitted bytes], ?_, ?_⟩
    · intro o ho
      rcases List.mem_append.1 ho with ho | ho
      · obtain ⟨j, b, hmem, rfl⟩ := hobs o ho
        exact ⟨j, b, List.mem_cons_of_mem _ hmem, rfl⟩
      · exact ⟨i, bytes, List.mem_cons_self, List.mem_singleton.1 ho⟩
    · rw [performAll_cons, perform, hrun]
      simp only [List.append_assoc, List.singleton_append]

end World

/-! ## What a step can do -/

/-- The entry that is about to be closed and removed. -/
def Pc.dying : Pc → Option Addr
  | .remove _ rm _ => some rm
  | _ => none

/-- Everything a step of the daemon can do. -/
inductive Advance (w : World) : Event → World → Prop
  /-- Only the place in the loop changes. -/
  | moved {e : Event} {pc : Pc} (hfrom : w.pc.dying = none) (hto : pc.dying = none)
    (hquiet : ∀ env, e ≠ .areq env) : Advance w e { w with pc := pc }
  /-- `recv` failed on a client, or a client that waits for a reply is readable. -/
  | dropped {e : Event} {rset : Int → Bool} {a : Addr} {next : Option Addr} {c : Cache}
    (hpc : w.pc = .sweep rset (some a)) (hc : (a, c) ∈ w.cache) (hstate : c.state ≠ .complete)
    (hquiet : ∀ env, e = .areq env → env.recv = none ∨ w.fds c.domainSocket = none) :
    Advance w e { w with pc := .remove rset a next }
  | refused {env : AreqEnv} {rset : Int → Bool} {a : Addr} {next : Option Addr} {c : Cache}
    {k : Conn} {msg : List UInt8} (hpc : w.pc = .sweep rset (some a)) (hc : (a, c) ∈ w.cache)
    (hstate : c.state = .connection) (hfd : w.fds c.domainSocket = some k)
    (hrecv : env.recv = some msg) (hmsg : ¬ValidAreq msg) :
    Advance w (.areq env) { w with pc := .remove rset a next, log := .received k msg :: w.log }
  | cached {env : AreqEnv} {rset : Int → Bool} {a : Addr} {next : Option Addr} {c : Cache}
    {k : Conn} {msg : List UInt8} {n : Node} (hpc : w.pc = .sweep rset (some a))
    (hc : (a, c) ∈ w.cache) (hstate : c.state = .connection) (hfd : w.fds c.domainSocket = some k)
    (hrecv : env.recv = some msg) (hmsg : ValidAreq msg)
    (hn : getCacheByIpAddr w.cache (.ofBytes msg) = some n)
    (hcomplete : n.2.state = .complete) :
    Advance w (.areq env) { w with
      pc := .remove rset a next
      log := .answered k n.2.hw env.sendOk :: .received k msg :: w.log }
  | asked {env : AreqEnv} {rset : Int → Bool} {a : Addr} {next : Option Addr} {c : Cache}
    {k : Conn} {msg : List UInt8} {pc : Pc} {obs : List Obs} (hpc : w.pc = .sweep rset (some a))
    (hto : pc = .sweep rset next ∨ pc = .remove rset a next)
    (hc : (a, c) ∈ w.cache) (hstate : c.state = .connection) (hfd : w.fds c.domainSocket = some k)
    (hrecv : env.recv = some msg) (hmsg : ValidAreq msg)
    (hmiss : ∀ n, getCacheByIpAddr w.cache (.ofBytes msg) = some n → n.2.state ≠ .complete)
    (hobs : ∀ o ∈ obs, ∃ d ∈ cfg.devices,
      o = .emitted (requestFrame d (Sockaddr.ofBytes msg).sinAddr)) :
    Advance w (.areq env) { w with
      cache := updateAt w.cache a fun c =>
        { c with state := .incomplete, ipaddress := .ofBytes msg }
      pc := pc, log := obs ++ .received k msg :: w.log }
  | removed {rset : Int → Bool} {rm : Addr} {next : Option Addr} {c : Cache}
    (hpc : w.pc = .remove rset rm next) (hc : entryAt w.cache rm = some c) :
    Advance w .tick { w.perform (.close c.domainSocket) with
      cache := removeFromCache (updateAt w.cache rm fun c => { c with domainSocket := -1 })
        (rm, { c with domainSocket := -1 })
      pc := .sweep rset next }
  | accepted {rset : Int → Bool} {sfd : Int} {fresh : Addr} (hpc : w.pc = .accept rset)
    (hmiss : getCacheBySocket w.cache sfd = none) (hfresh : fresh ∉ addrs w.cache) :
    Advance w (.accept sfd fresh) { w with
      cache := addToCache w.cache (fresh, freshEntry sfd)
      pc := .packet rset
      fds := if 0 ≤ sfd then fun x => if x = sfd then some w.nextConn else w.fds x else w.fds
      nextConn := if 0 ≤ sfd then w.nextConn + 1 else w.nextConn }
  | packet {rset : Int → Bool} {frame : List UInt8} {env : PacketEnv} {cache : List Node}
    {effects : List Effect} (hpc : w.pc = .packet rset)
    (hframe : handleFrame cfg w.cache frame env = some (cache, effects)) :
    Advance w (.packet (some frame) env)
      { World.performAll { w with cache := cache } effects with pc := .select }

theorem stepVisit_cases {w w' : World} {rset : Int → Bool} {a : Addr} {c : Cache} {e : Event}
    (hpc : w.pc = .sweep rset (some a)) (hc : (a, c) ∈ w.cache)
    (h : stepVisit cfg w rset a c e = some w') : Advance cfg w e w' := by
  have hfrom : w.pc.dying = none := by rw [hpc]; rfl
  unfold stepVisit at h
  dsimp only at h
  split at h
  · split at h
    · cases h; exact .moved hfrom rfl (fun _ he => by cases he)
    · cases h
  rename_i hvisit
  have hstate : c.state ≠ .complete := fun hs => hvisit (Or.inl hs)
  split at h
  · rename_i hconn
    split at h
    · rename_i env
      simp only [bind, Option.bind_eq_some_iff] at h
      obtain ⟨r, hr, h⟩ := h
      have hcase := handleAreq_cases hr
      -- a message is received only on an open descriptor
      cases hfd : w.fds c.domainSocket with
      | none =>
        rw [hfd] at hcase
        cases hcase
        cases h
        exact .dropped hpc hc hstate fun _ _ => Or.inr hfd
      | some k =>
        simp only [hfd, Option.isSome_some, if_true] at hcase
        generalize hrecv : env.recv = recv at hcase
        cases hcase with
        | failed =>
          cases h
          exact .dropped hpc hc hstate fun _ he => Or.inl (by cases he; exact hrecv)
        | refused hmsg =>
          simp only [World.performAll_cons, World.performAll_nil, World.perform, hfd] at h
          cases h
          exact .refused hpc hc hconn hfd hrecv hmsg
        | cached hmsg hn hcomplete =>
          simp only [World.performAll_cons, World.performAll_nil, World.perform, hfd] at h
          cases h
          exact .cached hpc hc hconn hfd hrecv hmsg hn hcomplete
        | @asked msg rv frames hmsg hmiss hframes =>
          have hisFrame : ∀ e ∈ frames, e.IsFrame := fun e he => by
            obtain ⟨d, -, rfl⟩ := hframes e he
            exact ⟨_, _, rfl⟩
          simp only [World.performAll_cons, World.perform, hfd] at h
          obtain ⟨obs, hobs, hrun⟩ := World.performAll_frames _ frames hisFrame
          rw [hrun] at h
          cases h
          have hemitted : ∀ o ∈ obs, ∃ d ∈ cfg.devices,
              o = .emitted (requestFrame d (Sockaddr.ofBytes msg).sinAddr) := by
            intro o ho
            obtain ⟨i, bytes, hmem, rfl⟩ := hobs o ho
            obtain ⟨d, hd, heq⟩ := hframes _ hmem
            cases heq
            exact ⟨d, hd, rfl⟩
          cases rv with
          | true => exact .asked hpc (.inl rfl) hc hconn hfd hrecv hmsg hmiss hemitted
          | false => exact .asked hpc (.inr rfl) hc hconn hfd hrecv hmsg hmiss hemitted
    · cases h
  · split at h
    · cases h; exact .dropped hpc hc hstate (fun _ he => by cases he)
    · cases h

theorem stepAccept_cases {w w' : World} {rset : Int → Bool} {sfd : Int} {fresh : Addr}
    (hpc : w.pc = .accept rset) (h : stepAccept w rset sfd fresh = some w') :
    Advance cfg w (.accept sfd fresh) w' := by
  unfold stepAccept at h
  split at h
  · cases h
  rename_i hmiss
  split at h
  · cases h
  rename_i hfresh
  cases h
  exact .accepted hpc hmiss hfresh

/-- Every step is one of the cases of `Advance`. -/
theorem step_cases {w w' : World} {e : Event} (h : step cfg w e = some w') :
    Advance cfg w e w' := by
  unfold step at h
  split at h
  · rename_i hpc
    have hfrom : w.pc.dying = none := by rw [hpc]; rfl
    split at h
    · cases h; exact .moved hfrom rfl fun _ he => (by cases he)
    · cases h; exact .moved hfrom rfl fun _ he => (by cases he)
    · cases h
  · rename_i rset hpc
    have hfrom : w.pc.dying = none := by rw [hpc]; rfl
    split at h
    · cases h; exact .moved hfrom rfl fun _ he => (by cases he)
    · cases h
  · rename_i rset a hpc
    simp only [bind, Option.bind_eq_some_iff] at h
    obtain ⟨c, hc, h⟩ := h
    exact stepVisit_cases cfg hpc (entryAt_some hc) h
  · rename_i rset rm next hpc
    split at h
    · simp only [stepRemove, bind, Option.bind_eq_some_iff, World.perform_cache] at h
      obtain ⟨c, hc, h⟩ := h
      split at h
      · cases h
        exact .removed hpc hc
      · cases h
    · cases h
  · rename_i rset hpc
    have hfrom : w.pc.dying = none := by rw [hpc]; rfl
    split at h
    · split at h
      · exact stepAccept_cases cfg hpc h
      · cases h
    · split at h
      · cases h; exact .moved hfrom rfl fun _ he => (by cases he)
      · cases h
  · rename_i rset hpc
    have hfrom : w.pc.dying = none := by rw [hpc]; rfl
    split at h
    · split at h
      · cases h; exact .moved hfrom rfl fun _ he => (by cases he)
      · simp only [stepPacket, bind, Option.bind_eq_some_iff] at h
        obtain ⟨⟨cache, effects⟩, hframe, h⟩ := h
        cases h
        exact .packet hpc hframe
      · cases h
    · split at h
      · cases h; exact .moved hfrom rfl fun _ he => (by cases he)
      · cases h
  · cases h

theorem handleFrame_cases {cache : List Node} {frame : List UInt8} {env : PacketEnv}
    {r : List Node × List Effect} (h : handleFrame cfg cache frame env = some r) :
    FrameCase cache r.1 r.2 := by
  have hkept : FrameCase cache cache [] := .kept fun e he => by cases he
  simp only [handleFrame, bind, Option.bind_eq_some_iff] at h
  obtain ⟨⟨eh, arp⟩, -, h⟩ := h
  split at h
  · cases h; exact hkept
  split at h
  · rename_i hvalid
    have hfam : arp.protType = afInet := by
      simp only [validArp, Bool.and_eq_true, beq_iff_eq] at hvalid
      exact hvalid.1.1.1.2
    unfold dispatch at h
    split at h
    · split at h
      · cases h
      · rename_i hfresh
        exact handleReq_cases hfam hfresh h
    split at h
    · exact handleReply_cases hfam h
    · cases h; exact hkept
  · cases h; exact hkept

end Tour
