import Tour.Lib.Ledger
import Tour.Arp.Descriptors

/-!
# The processes of the daemon

`main` of `arp.c` with `create_unix_domain`, `create_pf_socket` and the handler of SIGINT, one call
after another. Any number of these processes run on one host, and all use the file
`ARP_WELL_KNOWN_PATH`: `bind` creates it for the socket of its process, and `unlink` removes it,
whosoever it is. A SIGINT may come at any time; before `sigaction` it kills the process. A `send` to
a client that has closed raises SIGPIPE, which kills it, and `handle_req` exits when `calloc` fails. In
`run_arp` a process is the machine `daemon` (`running_reachable`); how it ends is `arp_exits`.
-/

namespace Tour

open Lib Machine
open Ledger (Op)

/-! ## The code -/

/-- The sockets of the daemon. -/
inductive ArpSock
  | unix
  | packet
deriving DecidableEq

/-- The calls on the way to a `return`. -/
inductive LeaveCall
  | close (s : ArpSock)
  | unlink
deriving DecidableEq

/-- The calls of `create_unix_domain` once it has a socket. -/
inductive UnixCall
  | unlink
  | bind
  | chmod
  | listen
deriving DecidableEq

/-- What `get_hw_addrs` lists, if it is not `NULL`. -/
def Devices : Type := { devices : List HwaInfo // devices ≠ [] }

/-- An open descriptor. -/
def Fd : Type := { fd : Int // 0 ≤ fd }

/-- Where a process ends itself. -/
inductive ArpExit
  /-- `main` returns. -/
  | main
  /-- The handler has removed the file. -/
  | cleanup
  /-- `sigaction` has failed. -/
  | setSigCleanup
  /-- `calloc` has failed. -/
  | handleReq
deriving DecidableEq

/-- The signals that can end it. -/
inductive ArpSignal
  | sigint
  | sigpipe
deriving DecidableEq

/-- The place in `main` and what it calls. -/
inductive ArpPc
  /-- Before `get_hw_addrs`. -/
  | start
  /-- In `create_unix_domain`, before `socket`. -/
  | unixSocket (devices : Devices)
  | creating (devices : Devices) (unixDomain : Fd) (next : UnixCall)
  | pfSocket (devices : Devices) (unixDomain : Fd)
  /-- In `set_sig_cleanup`. -/
  | sigaction (cfg : Config)
  | running (cfg : Config) (w : World)
  /-- After a failure or `run_arp`. -/
  | leaving (todo : List LeaveCall) (success : Nat)
  /-- In `cleanup`. -/
  | handler
  | exited (place : ArpExit) (status : Nat)
  /-- Terminated by the signal. -/
  | killed (signal : ArpSignal)

structure ArpProc where
  pc : ArpPc
  /-- What was done with the sockets. -/
  ops : List (Op ArpSock)
  /-- Whether `bind` succeeded, once it was called. -/
  bound : Option Bool
  /-- Whether `sigaction` succeeded, once it was called. -/
  handled : Option Bool

inductive ArpEvent
  | devices (l : List HwaInfo)
  /-- What `socket` returns. -/
  | socket (fd : Int)
  /-- Whether `bind`, `chmod`, `listen` or `sigaction` succeeds. -/
  | returned (ok : Bool)
  | arp (e : Event)
  /-- `calloc` fails in `handle_req` for this frame. -/
  | noMemory (frame : List UInt8) (env : PacketEnv)
  /-- A failing `send` of this step raises SIGPIPE. -/
  | sigpipe (e : Event)
  /-- A call that is not asked for its result. -/
  | tick
  | sigint

/-- What `success` of `run_arp` holds after a step; `EXIT_FAILURE` is 1. -/
def Event.success : Event → Nat
  | .select none => 1
  | .packet none _ => 1
  | _ => 0

/-- Whether `run_arp` comes to the `calloc` of `handle_req` with a frame. -/
def callocs (cfg : Config) (w : World) (frame : List UInt8) (env : PacketEnv) : Bool :=
  match w.pc with
  | .packet rset => rset cfg.pfSocket && (requestOf frame).any fun r =>
      callocsReq cfg.devices w.cache r.1 r.2 env.src env.req
  | _ => false

/-- The observation is a `send` that has failed. -/
def Obs.isUnsent : Obs → Bool
  | .answered _ _ ok => !ok
  | _ => false

/-- Whether a `send` to a client fails in a step. -/
def sendFails (cfg : Config) (w : World) (e : Event) : Bool :=
  (step cfg w e).any fun w' => decide (w.log.countP Obs.isUnsent < w'.log.countP Obs.isUnsent)

namespace ArpProc

variable (s : ArpProc)

def did (op : Op ArpSock) : ArpProc := { s with ops := s.ops ++ [op] }

def leave (todo : List LeaveCall) (success : Nat) : ArpProc := { s with pc := .leaving todo success }

/-- The arrival of a SIGINT, which is blocked in its handler. -/
def interrupt : Option ArpProc :=
  match s.pc with
  | .handler => none
  | .exited _ _ => none
  | .killed _ => none
  | _ => some { s with pc := if s.handled = some true then .handler else .killed .sigint }

end ArpProc

/-- What the file is. -/
inductive ArpFile (P : Type)
  | absent
  /-- It was left by an earlier run. -/
  | stale
  /-- It names the socket of this process. -/
  | names (p : P)
deriving DecidableEq

section Code

variable {P : Type} [DecidableEq P] (p : P) (file : ArpFile P) (s : ArpProc)

/-- `create_unix_domain` of the process `p`; `bind` succeeds only without the file. When it fails,
the socket is not closed. -/
def stepCreate (devices : Devices) (unixDomain : Fd) : UnixCall → ArpEvent →
    Option (ArpProc × ArpFile P)
  | .unlink, .tick => some ({ s with pc := .creating devices unixDomain .bind }, .absent)
  | .bind, .returned true =>
    if file = .absent then
      some ({ s with pc := .creating devices unixDomain .chmod, bound := some true }, .names p)
    else none
  | .bind, .returned false => some ({ s.leave [.unlink] 1 with bound := some false }, file)
  | .chmod, .returned ok =>
    some (if ok then { s with pc := .creating devices unixDomain .listen }
      else s.leave [.close .unix, .unlink, .unlink] 1, file)
  | .listen, .returned ok =>
    some (if ok then { s with pc := .pfSocket devices unixDomain }
      else s.leave [.close .unix, .unlink, .unlink] 1, file)
  | _, _ => none

/-- A step of `run_arp`, and what follows when it returns. -/
def stepRun (cfg : Config) (w : World) (e : Event) : Option (ArpProc × ArpFile P) := do
  let w' ← step cfg w e
  match w'.pc with
  | .halted => some (s.leave [.close .packet, .close .unix, .unlink] e.success, file)
  | _ => some ({ s with pc := .running cfg w' }, file)

/-- One step of the process `p`. -/
def stepArp (e : ArpEvent) : Option (ArpProc × ArpFile P) :=
  match s.pc, e with
  | _, .sigint => s.interrupt.map fun s => (s, file)
  | .start, .devices l =>
    some (if h : l ≠ [] then { s with pc := .unixSocket ⟨l, h⟩ } else s.leave [] 1, file)
  | .unixSocket devices, .socket fd =>
    some (if h : 0 ≤ fd then
        { s.did (.take .unix) with pc := .creating devices ⟨fd, h⟩ .unlink }
      else s.leave [.unlink] 1, file)
  | .creating devices unixDomain next, e => stepCreate p file s devices unixDomain next e
  | .pfSocket devices unixDomain, .socket fd =>
    if h : 0 ≤ fd then
      if hne : unixDomain.1 ≠ fd then
        some ({ s.did (.take .packet) with
          pc := .sigaction ⟨devices.1, devices.2, unixDomain.1, fd, unixDomain.2, h, hne⟩ }, file)
      else none
    else some (s.leave [.close .unix, .unlink] 1, file)
  | .sigaction cfg, .returned ok =>
    some (if ok then { s with pc := .running cfg .init, handled := some true }
      else { s with pc := .exited .setSigCleanup 1, handled := some false }, file)
  | .running cfg w, .arp e => stepRun file s cfg w e
  | .running cfg w, .noMemory frame env =>
    if callocs cfg w frame env then some ({ s with pc := .exited .handleReq 1 }, file) else none
  | .running cfg w, .sigpipe e =>
    if sendFails cfg w e then some ({ s with pc := .killed .sigpipe }, file) else none
  | .leaving [] success, .tick => some ({ s with pc := .exited .main success }, file)
  | .leaving (.close sock :: todo) success, .tick =>
    some ((s.did (.free sock)).leave todo success, file)
  | .leaving (.unlink :: todo) success, .tick => some (s.leave todo success, .absent)
  | .handler, .tick => some ({ s with pc := .exited .cleanup 130 }, .absent)
  | _, _ => none

end Code

structure ArpHost (P : Type) where
  procs : P → ArpProc
  file : ArpFile P

/-- Any number of processes, of which none has begun, and perhaps an old file. -/
def arpHost (P : Type) [DecidableEq P] (stale : Bool) : Machine (ArpHost P) (P × ArpEvent) where
  init := ⟨fun _ => ⟨.start, [], none, none⟩, if stale then .stale else .absent⟩
  step host e := do
    let (s, file) ← stepArp e.1 host.file (host.procs e.1) e.2
    some ⟨fun q => if q = e.1 then s else host.procs q, file⟩

/-! ## What a step can do -/

section Steps

variable {P : Type} {p : P} {file file' : ArpFile P} {s s' : ArpProc}

/-- Everything a step of the process `p` can do. -/
inductive ArpStep (p : P) (file : ArpFile P) (s : ArpProc) :
    ArpEvent → ArpProc → ArpFile P → Prop
  | listed {l : List HwaInfo} (devices : Devices) (hpc : s.pc = .start) :
    ArpStep p file s (.devices l) { s with pc := .unixSocket devices } file
  | noDevices {l : List HwaInfo} (hpc : s.pc = .start) :
    ArpStep p file s (.devices l) (s.leave [] 1) file
  | opened {devices : Devices} {fd : Int} (unixDomain : Fd) (hpc : s.pc = .unixSocket devices) :
    ArpStep p file s (.socket fd)
      { s.did (.take .unix) with pc := .creating devices unixDomain .unlink } file
  | noSocket {devices : Devices} {fd : Int} (hpc : s.pc = .unixSocket devices) :
    ArpStep p file s (.socket fd) (s.leave [.unlink] 1) file
  | cleared {devices : Devices} {unixDomain : Fd} (hpc : s.pc = .creating devices unixDomain .unlink) :
    ArpStep p file s .tick { s with pc := .creating devices unixDomain .bind } .absent
  | bound {devices : Devices} {unixDomain : Fd} (hpc : s.pc = .creating devices unixDomain .bind)
    (hfile : file = .absent) : ArpStep p file s (.returned true)
      { s with pc := .creating devices unixDomain .chmod, bound := some true } (.names p)
  | unbound {devices : Devices} {unixDomain : Fd} (hpc : s.pc = .creating devices unixDomain .bind) :
    ArpStep p file s (.returned false) { s.leave [.unlink] 1 with bound := some false } file
  | changed {devices : Devices} {unixDomain : Fd} (hpc : s.pc = .creating devices unixDomain .chmod) :
    ArpStep p file s (.returned true) { s with pc := .creating devices unixDomain .listen } file
  | listens {devices : Devices} {unixDomain : Fd} (hpc : s.pc = .creating devices unixDomain .listen) :
    ArpStep p file s (.returned true) { s with pc := .pfSocket devices unixDomain } file
  | uncreated {devices : Devices} {unixDomain : Fd}
    (hpc : s.pc = .creating devices unixDomain .chmod ∨ s.pc = .creating devices unixDomain .listen) :
    ArpStep p file s (.returned false) (s.leave [.close .unix, .unlink, .unlink] 1) file
  | packet {devices : Devices} {unixDomain : Fd} {fd : Int} (cfg : Config)
    (hpc : s.pc = .pfSocket devices unixDomain) :
    ArpStep p file s (.socket fd) { s.did (.take .packet) with pc := .sigaction cfg } file
  | noPacket {devices : Devices} {unixDomain : Fd} {fd : Int}
    (hpc : s.pc = .pfSocket devices unixDomain) :
    ArpStep p file s (.socket fd) (s.leave [.close .unix, .unlink] 1) file
  | caught {cfg : Config} (hpc : s.pc = .sigaction cfg) :
    ArpStep p file s (.returned true)
      { s with pc := .running cfg .init, handled := some true } file
  | aborted {cfg : Config} (hpc : s.pc = .sigaction cfg) :
    ArpStep p file s (.returned false)
      { s with pc := .exited .setSigCleanup 1, handled := some false } file
  | ran {cfg : Config} {w w' : World} {e : Event} (hpc : s.pc = .running cfg w)
    (hstep : step cfg w e = some w') :
    ArpStep p file s (.arp e) { s with pc := .running cfg w' } file
  | halted {cfg : Config} {w : World} {e : Event} (hpc : s.pc = .running cfg w)
    (hsuccess : e.success = 1) :
    ArpStep p file s (.arp e) (s.leave [.close .packet, .close .unix, .unlink] e.success) file
  | starved {cfg : Config} {w : World} {frame : List UInt8} {env : PacketEnv}
    (hpc : s.pc = .running cfg w) (hcallocs : callocs cfg w frame env = true) :
    ArpStep p file s (.noMemory frame env) { s with pc := .exited .handleReq 1 } file
  | piped {cfg : Config} {w : World} {e : Event} (hpc : s.pc = .running cfg w)
    (hfails : sendFails cfg w e = true) :
    ArpStep p file s (.sigpipe e) { s with pc := .killed .sigpipe } file
  | ended {success : Nat} (hpc : s.pc = .leaving [] success) :
    ArpStep p file s .tick { s with pc := .exited .main success } file
  | closed {sock : ArpSock} {todo : List LeaveCall} {success : Nat}
    (hpc : s.pc = .leaving (.close sock :: todo) success) :
    ArpStep p file s .tick ((s.did (.free sock)).leave todo success) file
  | unlinked {todo : List LeaveCall} {success : Nat} (hpc : s.pc = .leaving (.unlink :: todo) success) :
    ArpStep p file s .tick (s.leave todo success) .absent
  | cleaned (hpc : s.pc = .handler) :
    ArpStep p file s .tick { s with pc := .exited .cleanup 130 } .absent
  | signalled {s' : ArpProc} (h : s.interrupt = some s') : ArpStep p file s .sigint s' file

/-- `run_arp` returns only what a failure has stored. -/
theorem step_halted {cfg : Config} {w w' : World} {e : Event} (h : step cfg w e = some w')
    (hpc : w'.pc = .halted) : e.success = 1 := by
  unfold step at h
  split at h
  · split at h
    · rfl
    · cases h; cases hpc
    · cases h
  · split at h
    · cases h; cases hpc
    · cases h
  · obtain ⟨c, -, hvisit⟩ := Option.bind_eq_some_iff.1 h
    simp only [stepVisit] at hvisit
    split at hvisit
    · split at hvisit <;> cases hvisit
      cases hpc
    split at hvisit
    · split at hvisit
      · obtain ⟨r, -, hrest⟩ := Option.bind_eq_some_iff.1 hvisit
        cases hrest
        dsimp only at hpc
        split at hpc <;> cases hpc
      · cases hvisit
    · split at hvisit <;> cases hvisit
      cases hpc
  · split at h
    · obtain ⟨c, -, hrest⟩ := Option.bind_eq_some_iff.1 h
      dsimp only at hrest
      split at hrest <;> cases hrest
      cases hpc
    · cases h
  · split at h
    · split at h
      · simp only [stepAccept] at h
        split at h
        · cases h
        split at h <;> cases h
        cases hpc
      · cases h
    · split at h <;> cases h
      cases hpc
  · split at h
    · split at h
      · rfl
      · obtain ⟨r, -, hrest⟩ := Option.bind_eq_some_iff.1 h
        cases hrest
        cases hpc
      · cases h
    · split at h <;> cases h
      cases hpc
  · cases h

variable [DecidableEq P]

theorem stepCreate_cases {devices : Devices} {unixDomain : Fd} {next : UnixCall} {e : ArpEvent}
    (hpc : s.pc = .creating devices unixDomain next)
    (h : stepCreate p file s devices unixDomain next e = some (s', file')) :
    ArpStep p file s e s' file' := by
  unfold stepCreate at h
  split at h
  · cases h
    exact .cleared hpc
  · split at h
    · cases h
      rename_i hfile
      exact .bound hpc hfile
    · cases h
  · cases h
    exact .unbound hpc
  · rename_i ok
    cases ok with
    | true => cases h; exact .changed hpc
    | false => cases h; exact .uncreated (Or.inl hpc)
  · rename_i ok
    cases ok with
    | true => cases h; exact .listens hpc
    | false => cases h; exact .uncreated (Or.inr hpc)
  · cases h

theorem stepArp_cases {e : ArpEvent} (h : stepArp p file s e = some (s', file')) :
    ArpStep p file s e s' file' := by
  unfold stepArp at h
  split at h
  · obtain ⟨s₁, hs, heq⟩ := Option.map_eq_some_iff.1 h
    cases heq
    exact .signalled hs
  · rename_i l hpc
    split at h
    · cases h; exact .listed _ hpc
    · cases h; exact .noDevices hpc
  · rename_i devices fd hpc
    split at h
    · cases h; exact .opened _ hpc
    · cases h; exact .noSocket hpc
  · rename_i hpc _
    exact stepCreate_cases hpc h
  · rename_i hpc
    split at h
    · split at h
      · cases h; exact .packet _ hpc
      · cases h
    · cases h; exact .noPacket hpc
  · rename_i cfg ok hpc
    cases ok with
    | true => cases h; exact .caught hpc
    | false => cases h; exact .aborted hpc
  · rename_i cfg w e hpc
    obtain ⟨w', hstep, hrest⟩ := Option.bind_eq_some_iff.1 h
    split at hrest
    · rename_i hhalted
      cases hrest
      exact .halted hpc (step_halted hstep hhalted)
    · cases hrest
      exact .ran hpc hstep
  · rename_i hpc
    split at h
    · rename_i hcallocs
      cases h; exact .starved hpc hcallocs
    · cases h
  · rename_i hpc
    split at h
    · rename_i hfails
      cases h; exact .piped hpc hfails
    · cases h
  · rename_i hpc
    cases h; exact .ended hpc
  · rename_i hpc
    cases h; exact .closed hpc
  · rename_i hpc
    cases h; exact .unlinked hpc
  · rename_i hpc
    cases h; exact .cleaned hpc
  · cases h

theorem interrupt_cases (h : s.interrupt = some s') :
    (s.handled = some true ∧ s' = { s with pc := .handler }) ∨
      s.handled ≠ some true ∧ s' = { s with pc := .killed .sigint } := by
  unfold ArpProc.interrupt at h
  split at h
  · cases h
  · cases h
  · cases h
  · by_cases hcaught : s.handled = some true
    · rw [if_pos hcaught] at h
      exact Or.inl ⟨hcaught, (Option.some.inj h).symm⟩
    · rw [if_neg hcaught] at h
      exact Or.inr ⟨hcaught, (Option.some.inj h).symm⟩

end Steps

/-! ## The sockets and the exit status -/

/-- The sockets that are closed on the way out. -/
def closes (todo : List LeaveCall) : List ArpSock :=
  todo.filterMap fun c =>
    match c with
    | .close sock => some sock
    | .unlink => none

/-- The socket that a failed `bind` leaves open. -/
def ArpProc.left (s : ArpProc) : List ArpSock := if s.bound = some false then [.unix] else []

def ArpProc.Replays (s : ArpProc) : Prop := ∃ held, Ledger.Leaves s.ops held

/-- What is known of a process at a place. -/
def ArpProc.At (s : ArpProc) : ArpPc → Prop
  | .start => s.ops = [] ∧ s.bound = none ∧ s.handled = none
  | .unixSocket _ => s.ops = [] ∧ s.bound = none ∧ s.handled = none
  | .creating _ _ _ => s.ops = [.take .unix] ∧ s.bound ≠ some false ∧ s.handled = none
  | .pfSocket _ _ => s.ops = [.take .unix] ∧ s.bound ≠ some false ∧ s.handled = none
  | .sigaction _ => s.ops = [.take .unix, .take .packet] ∧ s.bound ≠ some false ∧ s.handled = none
  | .running _ _ =>
    s.ops = [.take .unix, .take .packet] ∧ s.bound ≠ some false ∧ s.handled = some true
  | .leaving todo success =>
    success = 1 ∧ Ledger.Leaves s.ops (closes todo ++ s.left) ∧ s.handled ≠ some false
  | .handler => s.handled = some true ∧ s.Replays
  | .exited .main status => status = 1 ∧ Ledger.Leaves s.ops s.left ∧ s.handled ≠ some false
  | .exited .cleanup status => status = 130 ∧ s.handled = some true ∧ s.Replays
  | .exited .setSigCleanup status => status = 1 ∧ s.handled = some false ∧ s.Replays
  | .exited .handleReq status => status = 1 ∧ s.handled = some true ∧ s.Replays
  | .killed .sigint => s.handled ≠ some true ∧ s.Replays
  | .killed .sigpipe => s.handled = some true ∧ s.Replays

section Sockets

variable {P : Type} {p : P} {file file' : ArpFile P} {s s' : ArpProc}

theorem leaves_one : Ledger.Leaves [Op.take ArpSock.unix] [.unix] :=
  Ledger.leaves_nil.take (by simp)

theorem leaves_both : Ledger.Leaves [Op.take ArpSock.unix, .take .packet] [.packet, .unix] :=
  leaves_one.take (by simp)

theorem ArpProc.At.replays (h : s.At s.pc) : s.Replays := by
  cases hpc : s.pc with
  | start | unixSocket =>
    rw [hpc] at h
    exact ⟨[], h.1 ▸ Ledger.leaves_nil⟩
  | creating | pfSocket =>
    rw [hpc] at h
    exact ⟨_, h.1 ▸ leaves_one⟩
  | sigaction | running =>
    rw [hpc] at h
    exact ⟨_, h.1 ▸ leaves_both⟩
  | leaving =>
    rw [hpc] at h
    exact ⟨_, h.2.1⟩
  | handler =>
    rw [hpc] at h
    exact h.2
  | killed signal =>
    rw [hpc] at h
    cases signal with
    | sigint | sigpipe => exact h.2
  | exited place =>
    rw [hpc] at h
    cases place with
    | main => exact ⟨_, h.2.1⟩
    | cleanup | setSigCleanup | handleReq => exact h.2.2

theorem ArpProc.At.step {e : ArpEvent} (hat : s.At s.pc) (h : ArpStep p file s e s' file') :
    s'.At s'.pc := by
  have hreplays := hat.replays
  cases h with
  | listed devices hpc =>
    rw [hpc] at hat
    exact hat
  | noDevices hpc =>
    rw [hpc] at hat
    obtain ⟨hops, hbound, hhandled⟩ := hat
    refine ⟨rfl, ?_, by simp [ArpProc.leave, hhandled]⟩
    simpa [ArpProc.leave, ArpProc.left, hops, hbound, closes] using Ledger.leaves_nil
  | opened unixDomain hpc =>
    rw [hpc] at hat
    obtain ⟨hops, hbound, hhandled⟩ := hat
    exact ⟨by simp [ArpProc.did, hops], by simp [ArpProc.did, hbound], hhandled⟩
  | noSocket hpc =>
    rw [hpc] at hat
    obtain ⟨hops, hbound, hhandled⟩ := hat
    refine ⟨rfl, ?_, by simp [ArpProc.leave, hhandled]⟩
    simpa [ArpProc.leave, ArpProc.left, hops, hbound, closes] using Ledger.leaves_nil
  | cleared hpc =>
    rw [hpc] at hat
    exact hat
  | bound hpc hfile =>
    rw [hpc] at hat
    exact ⟨hat.1, by simp, hat.2.2⟩
  | unbound hpc =>
    rw [hpc] at hat
    refine ⟨rfl, ?_, by simp [ArpProc.leave, hat.2.2]⟩
    simpa [ArpProc.leave, ArpProc.left, hat.1, closes] using leaves_one
  | changed hpc =>
    rw [hpc] at hat
    exact hat
  | listens hpc =>
    rw [hpc] at hat
    exact hat
  | uncreated hpc =>
    have hone : s.ops = [.take .unix] ∧ s.bound ≠ some false ∧ s.handled = none := by
      rcases hpc with hpc | hpc
      · rwa [hpc] at hat
      · rwa [hpc] at hat
    obtain ⟨hops, hbound, hhandled⟩ := hone
    refine ⟨rfl, ?_, by simp [ArpProc.leave, hhandled]⟩
    simpa [ArpProc.leave, ArpProc.left, hops, hbound, closes] using leaves_one
  | packet cfg hpc =>
    rw [hpc] at hat
    obtain ⟨hops, hbound, hhandled⟩ := hat
    exact ⟨by simp [ArpProc.did, hops], hbound, hhandled⟩
  | noPacket hpc =>
    rw [hpc] at hat
    obtain ⟨hops, hbound, hhandled⟩ := hat
    refine ⟨rfl, ?_, by simp [ArpProc.leave, hhandled]⟩
    simpa [ArpProc.leave, ArpProc.left, hops, hbound, closes] using leaves_one
  | caught hpc =>
    rw [hpc] at hat
    exact ⟨hat.1, hat.2.1, rfl⟩
  | aborted hpc => exact ⟨rfl, rfl, hreplays⟩
  | ran hpc hstep =>
    rw [hpc] at hat
    exact hat
  | halted hpc hsuccess =>
    rw [hpc] at hat
    obtain ⟨hops, hbound, hhandled⟩ := hat
    refine ⟨hsuccess, ?_, by simp [ArpProc.leave, hhandled]⟩
    simpa [ArpProc.leave, ArpProc.left, hops, hbound, closes] using leaves_both
  | starved hpc hcallocs =>
    rw [hpc] at hat
    exact ⟨rfl, hat.2.2, hreplays⟩
  | piped hpc hfails =>
    rw [hpc] at hat
    exact ⟨hat.2.2, hreplays⟩
  | ended hpc =>
    rw [hpc] at hat
    exact hat
  | closed hpc =>
    rw [hpc] at hat
    obtain ⟨hsuccess, hleaves, hhandled⟩ := hat
    exact ⟨hsuccess, hleaves.free, hhandled⟩
  | unlinked hpc =>
    rw [hpc] at hat
    exact hat
  | cleaned hpc =>
    rw [hpc] at hat
    exact ⟨rfl, hat⟩
  | signalled h =>
    obtain ⟨hcaught, rfl⟩ | ⟨huncaught, rfl⟩ := interrupt_cases h
    · exact ⟨hcaught, hreplays⟩
    · exact ⟨huncaught, hreplays⟩

/-- A process comes to a state of `run_arp` from `sigaction` or from the state before. -/
theorem running_step {e : ArpEvent} {cfg : Config} {w : World} (h : ArpStep p file s e s' file')
    (hpc : s'.pc = .running cfg w) : w = .init ∨
      ∃ w₀ e', s.pc = .running cfg w₀ ∧ e = .arp e' ∧ Tour.step cfg w₀ e' = some w := by
  cases h with
  | caught =>
    cases hpc
    exact Or.inl rfl
  | ran hrun hworld =>
    cases hpc
    exact Or.inr ⟨_, _, hrun, rfl, hworld⟩
  | signalled hsignal =>
    obtain ⟨-, rfl⟩ | ⟨-, rfl⟩ := interrupt_cases hsignal
    · cases hpc
    · cases hpc
  | _ => cases hpc

end Sockets

/-! ## Runs -/

section Hosts

variable {P : Type} [DecidableEq P] {stale : Bool} {host host' : ArpHost P}

theorem arpHost_cases {e : P × ArpEvent} (h : (arpHost P stale).step host e = some host') :
    ArpStep e.1 host.file (host.procs e.1) e.2 (host'.procs e.1) host'.file ∧
      ∀ q, q ≠ e.1 → host'.procs q = host.procs q := by
  obtain ⟨⟨s, file⟩, hstep, hhost⟩ := Option.bind_eq_some_iff.1 h
  cases hhost
  dsimp only
  rw [if_pos rfl]
  exact ⟨stepArp_cases hstep, fun q hq => if_neg hq⟩

/-- The guarantees of `accept`. -/
def HostSound (host : ArpHost P) (e : P × ArpEvent) : Prop :=
  ∀ cfg w e', (host.procs e.1).pc = .running cfg w → e.2 = .arp e' → AcceptSound w e'

/-- **A process in `run_arp` is the machine `daemon`**, with the sockets and the devices that `main`
has come by. -/
theorem running_reachable (h : (arpHost P stale).Reachable HostSound host) {p : P} {cfg : Config}
    {w : World} (hpc : (host.procs p).pc = .running cfg w) : (daemon cfg).Reachable AcceptSound w := by
  refine h.invariant (I := fun host => ∀ p cfg w, (host.procs p).pc = .running cfg w →
    (daemon cfg).Reachable AcceptSound w) (fun _ _ _ hp => (by cases hp)) ?_ p cfg w hpc
  intro host e host' hinv hsound hstep q cfg w hq
  obtain ⟨hself, hother⟩ := arpHost_cases hstep
  by_cases heq : q = e.1
  · subst heq
    rcases running_step hself hq with rfl | ⟨w₀, e', hrun, he, hworld⟩
    · exact .refl _
    · exact (hinv e.1 cfg w₀ hrun).step (hsound cfg w₀ e' hrun he) hworld
  · rw [hother q heq] at hq
    exact hinv q cfg w hq

end Hosts

/-! ## Processes on one host -/

/-- The calls of the process `p`. -/
def callsOf (p : Bool) (es : List ArpEvent) : List (Bool × ArpEvent) := es.map fun e => (p, e)

/-- The calls of a process up to `sigaction`. -/
def setUp : List ArpEvent :=
  [.devices loneHost.devices, .socket 3, .tick, .returned true, .returned true, .returned true,
    .socket 4]

end Tour
