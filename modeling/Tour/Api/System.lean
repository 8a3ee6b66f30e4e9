import Tour.Arp.Network
import Tour.Arp.Questions
import Tour.Api.Areq

/-!
# Clients, daemons and the network

Any number of hosts, each with its daemon, and any number of calls of `areq` on them, in any
interleaving. A connection of a call waits in the backlog of the daemon of its host until an
`accept`; the connections are accepted in the order in which they were made, so the connection `k`
of the daemon is that of `peers[k]`. Between a call and the daemon is a stream in each direction:
a `recv` returns some prefix of what the other side has sent. Other programs may connect too, and
send anything. `ApiInv` is the invariant; the result is that what `areq` returns is the truth about
the network (`areq_correct`).
-/

namespace Tour

open Lib Machine

structure ApiSystem (H C : Type) where
  daemons : H → World
  calls : C → AreqCall
  /-- What each call has put on its connection. -/
  sent : C → List UInt8
  /-- The connections that wait to be accepted, the oldest first; `none` is another program's. -/
  backlog : H → List (Option C)
  /-- The accepted connections. -/
  peers : H → List (Option C)

inductive ApiEvent (H C : Type)
  | daemon (h : H) (e : Event)
  | call (c : C) (answer : AreqAnswer)
  /-- Another program connects to the daemon. -/
  | stranger (h : H)

/-- The hosts, and for each call of `areq` its host, its arguments and what `hwa` held before. -/
structure ApiConfig (H C : Type) where
  hosts : H → Config
  home : C → H
  args : C → AreqArgs
  hwa : C → Buf sizeofHwaddr

/-! ## The system -/

section Machine

variable {H C : Type} [DecidableEq H] [DecidableEq C] (cfg : ApiConfig H C)

/-- `accept` returns a descriptor. -/
def Event.accepts : Event → Bool
  | .accept sfd _ => decide (0 ≤ sfd)
  | _ => false

/-- A step of the daemon of `h`. When `accept` returns a descriptor, it is for the connection that
has waited longest. -/
def stepDaemon (sys : ApiSystem H C) (h : H) (e : Event) : Option (ApiSystem H C) := do
  let daemons ← (network cfg.hosts).step sys.daemons (h, e)
  let sys := { sys with daemons := daemons }
  if e.accepts then
    match sys.backlog h with
    | [] => none
    | peer :: rest => some { sys with
        backlog := fun g => if g = h then rest else sys.backlog g
        peers := fun g => if g = h then sys.peers h ++ [peer] else sys.peers g }
  else some sys

/-- A connection to the daemon of `h` is made. -/
def ApiSystem.enqueue (sys : ApiSystem H C) (h : H) (peer : Option C) : ApiSystem H C :=
  { sys with backlog := fun g => if g = h then sys.backlog h ++ [peer] else sys.backlog g }

/-- A step of the call `c`. -/
def stepCall (sys : ApiSystem H C) (c : C) (answer : AreqAnswer) : Option (ApiSystem H C) := do
  let call ← stepAreq (sys.calls c) answer
  let sys := { sys with calls := fun d => if d = c then call else sys.calls d }
  match answer with
  | .connect true => some (sys.enqueue (cfg.home c) (some c))
  | .send (some n) =>
    some { sys with sent := fun d => if d = c then call.args.bytes.take n else sys.sent d }
  | _ => some sys

def stepApi (sys : ApiSystem H C) : ApiEvent H C → Option (ApiSystem H C)
  | .daemon h e => stepDaemon cfg sys h e
  | .call c answer => stepCall cfg sys c answer
  | .stranger h => some (sys.enqueue h none)

def apiSystem : Machine (ApiSystem H C) (ApiEvent H C) where
  init :=
    { daemons := fun _ => .init
      calls := fun c => .start (cfg.args c) (cfg.hwa c)
      sent := fun _ => []
      backlog := fun _ => []
      peers := fun _ => [] }
  step := stepApi cfg

/-! ## What the kernel guarantees -/

/-- What a daemon has sent on the connection `k`. -/
def repliesTo (k : Conn) (log : List Obs) : List UInt8 :=
  log.reverse.flatMap fun o =>
    match o with
    | .answered c hw ok => if c = k ∧ ok then hw.bytes else []
    | _ => []

/-- What the daemon has sent to the call `c`. -/
def ApiSystem.inbox (sys : ApiSystem H C) (c : C) : List UInt8 :=
  match (sys.peers (cfg.home c)).idxOf? (some c) with
  | some k => repliesTo k (sys.daemons (cfg.home c)).log
  | none => []

/-- The connection that `handle_areq` would read from. -/
def World.reading (w : World) : Option Conn :=
  match w.pc with
  | .sweep _ (some a) => (entryAt w.cache a).bind fun c => w.fds c.domainSocket
  | _ => none

/-- The call of `areq` that the daemon of `h` would read from. -/
def ApiSystem.reading (sys : ApiSystem H C) (h : H) : Option C :=
  (sys.daemons h).reading.bind fun k => ((sys.peers h)[k]?).join

/-- `recv` returns a prefix of what was sent. -/
def StreamSound (sys : ApiSystem H C) : ApiEvent H C → Prop
  | .daemon h (.areq env) => ∀ c ∈ sys.reading h, ∀ msg ∈ env.recv, msg <+: sys.sent c
  | .call c (.recv bytes) => ∀ got ∈ bytes, got <+: sys.inbox cfg c
  | _ => True

/-- The guarantees of `accept` and of the network. -/
def DaemonSound (sys : ApiSystem H C) : ApiEvent H C → Prop
  | .daemon h e => AcceptSound (sys.daemons h) e ∧ Delivers cfg.hosts sys.daemons (h, e)
  | _ => True

def ApiSound (sys : ApiSystem H C) (e : ApiEvent H C) : Prop :=
  StreamSound cfg sys e ∧ DaemonSound cfg sys e

instance (sys : ApiSystem H C) : (e : ApiEvent H C) → Decidable (StreamSound cfg sys e)
  | .daemon _ e =>
    match e with
    | .areq _ => inferInstanceAs (Decidable (∀ _ ∈ _, ∀ _ ∈ _, _))
    | .select _ | .tick | .accept _ _ | .packet _ _ => .isTrue trivial
  | .call _ answer =>
    match answer with
    | .recv _ => inferInstanceAs (Decidable (∀ _ ∈ _, _))
    | .socket _ | .connect _ | .send _ | .select _ => .isTrue trivial
  | .stranger _ => .isTrue trivial

instance [Fintype H] (sys : ApiSystem H C) : (e : ApiEvent H C) → Decidable (DaemonSound cfg sys e)
  | .daemon _ _ => instDecidableAnd
  | .call _ _ | .stranger _ => .isTrue trivial

instance [Fintype H] (sys : ApiSystem H C) (e : ApiEvent H C) : Decidable (ApiSound cfg sys e) :=
  instDecidableAnd

end Machine

/-! ## Two calls -/

/-- A question for 10.0.0.2. -/
def askTwo : AreqArgs := ⟨etherIp (hostIp 2), 16⟩

/-- Two calls on the host 10.0.0.1 that ask for 10.0.0.2. -/
def twoCalls : ApiConfig Bool Bool := ⟨twoHosts, fun _ => false, fun _ => askTwo, fun _ => .zero _⟩

/-- What the daemon of the first host knows of the second in the end. -/
def recordOfTwo : List UInt8 :=
  [2, 0, 0, 0, 0, 0, 6, 2, 0, 0, 0, 0, 1, 0, 0, 0, 0, 1, 6, 2, 0, 0, 0, 0, 2, 0, 0, 0]

/-- Both calls ask, the daemon asks the network, the second host replies, and both calls are
answered. -/
def bothCalls : List (ApiEvent Bool Bool) :=
  let hears := ⟨some askTwo.bytes, true, fun _ => true⟩
  [.call false (.socket true), .call false (.connect true), .call true (.socket true),
    .call true (.connect true), .call false (.send (some 20)), .call true (.send (some 20))] ++
  (twoClients ++ [readable [5, 6], .areq hears, .areq hears, .tick, .tick, .tick, readable [4],
    .tick, .tick, .tick, .tick]).map (.daemon false) ++
  [readable [4], .tick, .tick, .packet (some requestFromOne) fromOne].map (.daemon true) ++
  [.daemon false (.packet (some replyFrame) fromTwo), .call false (.select 1), .call true (.select 1),
    .call false (.recv (some recordOfTwo)), .call true (.recv (some recordOfTwo))]

end Tour
