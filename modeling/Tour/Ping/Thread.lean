import Tour.Lib.Ledger
import Tour.Api.Areq
import Tour.Arp.Ether
import Tour.Ping.Sender

/-!
# A ping thread, one system call after another

`run_ping_send` with its calls of `areq` in it, so that a step is one system call, and may be the
last: the thread can be cancelled at any of them, and the cleanup handler then closes the packet
socket. A thread that ends has closed each of its sockets once, but for the socket of `areq` if it
was cancelled there, which no handler knows, and the packet socket if it was cancelled in closing it
(`thread_closes`). The thread sends what `pinger` sends in the iterations that it completes
(`Follows`).
-/

namespace Tour

open Lib Machine
open Ledger (Op)

/-! ## The code -/

/-- The sockets of a ping thread. -/
inductive PingSock
  | packet
  /-- The socket of a call of `areq`, which is the one before the frame `n`. -/
  | areq (n : Nat)
deriving DecidableEq

/-- The place in `run_ping_send`. -/
inductive ThreadPc
  /-- Before the socket is created. -/
  | start
  /-- In a call of `areq`; `seq` has been incremented. -/
  | asking (packet : PingPacket) (seq : UInt16) (call : AreqCall)
  /-- Before `send_frame`. -/
  | sending (packet : PingPacket) (seq : UInt16) (dst : Hwaddr)
  /-- In `sleep`. -/
  | sleeping (packet : PingPacket) (seq : UInt16)
  /-- At `pthread_cleanup_pop`, after the loop. -/
  | closing
  | exited

structure PingThread where
  pc : ThreadPc
  /-- The frames sent, with their interfaces, the newest first. -/
  sent : List (Int × List UInt8)
  /-- What was done with the sockets. -/
  ops : List (Op PingSock)
  /-- Where the thread was cancelled. -/
  cancelled : Option ThreadPc

/-- What the kernel answers. -/
inductive ThreadEvent
  /-- Whether `socket` succeeds. -/
  | socket (ok : Bool)
  | areq (answer : AreqAnswer)
  /-- Whether `sendto` succeeds. -/
  | sendto (ok : Bool)
  | slept
  | closed
  /-- A cancellation is acted upon. -/
  | cancel

/-- What a system call of `areq` does with its socket. A call that fails is followed by `close`. -/
def areqOps (n : Nat) (call call' : AreqCall) : List (Op PingSock) :=
  match call.sock, call'.sock with
  | false, false => []
  | false, true => [.take (.areq n)]
  | true, true => [.use (.areq n)]
  | true, false => [.use (.areq n), .free (.areq n)]

/-- The arguments with which `run_ping_send` calls `areq`. -/
def pingArgs (tgtip : InAddr) : AreqArgs := ⟨etherIp tgtip, 16⟩

section Code

variable (hostip tgtip : InAddr) (tid : UInt64) (stack : Nat → Buf sizeofHwaddr)

/-- A call on a socket is recorded. -/
def PingThread.did (t : PingThread) (op : Op PingSock) : PingThread := { t with ops := t.ops ++ [op] }

/-- The first lines of the loop, up to the call of `areq`; `dst` is not initialised. -/
def PingThread.iterate (t : PingThread) (packet : PingPacket) (seq : UInt16) : PingThread :=
  let call := .start (pingArgs tgtip) (stack t.sent.length)
  { t with pc := .asking (nextEcho packet seq) (seq + 1) call }

/-- Where the thread goes on from a call of `areq`. -/
def ThreadPc.ofCall (packet : PingPacket) (seq : UInt16) (call : AreqCall) : ThreadPc :=
  match call.pc with
  | .returned true => .sending packet seq (.ofBytes call.hwa.bytes)
  | .returned false => .closing
  | _ => .asking packet seq call

/-- The call of `send_frame`, and what follows. -/
def PingThread.send (t : PingThread) (packet : PingPacket) (seq : UInt16) (dst : Hwaddr)
    (ok : Bool) : Option PingThread := do
  match ← pingSendFrame packet.bytes pingSize (some dst.sllAddr.bytes)
      (some dst.sllIfaddr.bytes) with
  | none => some { t with pc := .closing }
  | some frame =>
    let t := t.did (.use .packet)
    if ok then some { t with pc := .sleeping packet seq, sent := (dst.sllIfindex, frame) :: t.sent }
    else some { t with pc := .closing }

/-- A cancellation: the handler closes the packet socket while it is pushed. -/
def PingThread.cancel (t : PingThread) : Option PingThread :=
  let last := { t with pc := .exited, cancelled := some t.pc }
  match t.pc with
  | .start => none
  | .exited => none
  | .closing => some last
  | _ => some (last.did (.free .packet))

/-- One step of `run_ping_send`. -/
def stepThread (t : PingThread) (e : ThreadEvent) : Option PingThread :=
  match t.pc, e with
  | .start, .socket ok =>
    some (if ok then (t.did (.take .packet)).iterate tgtip stack (buildPing hostip tgtip tid) 0
      else { t with pc := .exited })
  | .asking packet seq call, .areq answer => do
    let call' ← stepAreq call answer
    some { t with pc := .ofCall packet seq call', ops := t.ops ++ areqOps t.sent.length call call' }
  | .sending packet seq dst, .sendto ok => t.send packet seq dst ok
  | .sleeping packet seq, .slept => some (t.iterate tgtip stack packet seq)
  | .closing, .closed => some { t.did (.free .packet) with pc := .exited }
  | _, .cancel => t.cancel
  | _, _ => none

/-- `run_ping_send`, for the host `hostip`, the target `tgtip` and the thread `tid`, on a stack that
holds `stack` where `dst` comes to lie. -/
def pingThread : Machine PingThread ThreadEvent where
  init := ⟨.start, [], [], none⟩
  step := stepThread hostip tgtip tid stack

end Code

variable {hostip tgtip : InAddr} {tid : UInt64} {stack : Nat → Buf sizeofHwaddr}

/-! ## What a step can do -/

/-- Everything a step of the thread can do. -/
inductive ThreadStep (hostip tgtip : InAddr) (tid : UInt64) (stack : Nat → Buf sizeofHwaddr)
    (t : PingThread) : ThreadEvent → PingThread → Prop
  | noSocket (hpc : t.pc = .start) :
    ThreadStep hostip tgtip tid stack t (.socket false) { t with pc := .exited }
  | opened (hpc : t.pc = .start) : ThreadStep hostip tgtip tid stack t (.socket true)
    ((t.did (.take .packet)).iterate tgtip stack (buildPing hostip tgtip tid) 0)
  | asked {packet : PingPacket} {seq : UInt16} {call call' : AreqCall} {answer : AreqAnswer}
    (hpc : t.pc = .asking packet seq call) (hcall : stepAreq call answer = some call') :
    ThreadStep hostip tgtip tid stack t (.areq answer)
      { t with pc := .ofCall packet seq call', ops := t.ops ++ areqOps t.sent.length call call' }
  | sent {packet : PingPacket} {seq : UInt16} {dst : Hwaddr} {frame : List UInt8}
    (hpc : t.pc = .sending packet seq dst)
    (hframe : pingSendFrame packet.bytes pingSize (some dst.sllAddr.bytes)
      (some dst.sllIfaddr.bytes) = some (some frame)) :
    ThreadStep hostip tgtip tid stack t (.sendto true)
      { t.did (.use .packet) with
        pc := .sleeping packet seq
        sent := (dst.sllIfindex, frame) :: t.sent }
  | failed {packet : PingPacket} {seq : UInt16} {dst : Hwaddr} (hpc : t.pc = .sending packet seq dst) :
    ThreadStep hostip tgtip tid stack t (.sendto false)
      { t.did (.use .packet) with pc := .closing }
  | slept {packet : PingPacket} {seq : UInt16} (hpc : t.pc = .sleeping packet seq) :
    ThreadStep hostip tgtip tid stack t .slept (t.iterate tgtip stack packet seq)
  | closed (hpc : t.pc = .closing) : ThreadStep hostip tgtip tid stack t .closed
      { t.did (.free .packet) with pc := .exited }
  | cancelled {t' : PingThread} (h : t.cancel = some t') :
    ThreadStep hostip tgtip tid stack t .cancel t'

theorem stepThread_cases {t t' : PingThread} {e : ThreadEvent}
    (h : stepThread hostip tgtip tid stack t e = some t') :
    ThreadStep hostip tgtip tid stack t e t' := by
  unfold stepThread at h
  split at h
  · rename_i ok hpc
    cases ok with
    | false => cases h; exact .noSocket hpc
    | true => cases h; exact .opened hpc
  · rename_i packet seq call answer hpc
    obtain ⟨call', hcall, hrest⟩ := Option.bind_eq_some_iff.1 h
    cases hrest
    exact .asked hpc hcall
  · rename_i packet seq dst ok hpc
    simp only [PingThread.send, pingSendFrame_ok, bind, Option.bind_some] at h
    cases ok with
    | false => cases h; exact .failed hpc
    | true => cases h; exact .sent hpc (pingSendFrame_ok packet dst)
  · rename_i packet seq hpc
    cases h
    exact .slept hpc
  · rename_i hpc
    cases h
    exact .closed hpc
  · exact .cancelled h
  · cases h

/-- A cancellation that is acted upon ends the thread. -/
theorem cancel_cases {t t' : PingThread} (h : t.cancel = some t') :
    t.pc ≠ .start ∧ t.pc ≠ .exited ∧ ((t.pc = .closing ∧
        t' = { t with pc := .exited, cancelled := some t.pc }) ∨
      (t.pc ≠ .closing ∧
        t' = { t with pc := .exited, cancelled := some t.pc }.did (.free .packet))) := by
  unfold PingThread.cancel at h
  dsimp only at h
  split at h
  · cases h
  · cases h
  · rename_i hpc
    cases h
    exact ⟨by simp [hpc], by simp [hpc], Or.inl ⟨hpc, rfl⟩⟩
  · rename_i hstart hexited hclosing
    cases h
    exact ⟨hstart, hexited, Or.inr ⟨hclosing, rfl⟩⟩

/-! ## The sockets -/

/-- The sockets that are open at a place before the frame `n`. -/
def ThreadPc.holds (n : Nat) : ThreadPc → List PingSock
  | .start => []
  | .asking _ _ call => if call.sock then [.areq n, .packet] else [.packet]
  | .sending _ _ _ => [.packet]
  | .sleeping _ _ => [.packet]
  | .closing => [.packet]
  | .exited => []

/-- The socket that is left open when the thread is cancelled at a place before the frame `n`. -/
def ThreadPc.leaves (n : Nat) : ThreadPc → List PingSock
  | .asking _ _ call => if call.sock then [.areq n] else []
  | .closing => [.packet]
  | _ => []

/-- The sockets that the thread left open when it was cancelled. -/
def PingThread.left (t : PingThread) : List PingSock :=
  match t.cancelled with
  | none => []
  | some pc => pc.leaves t.sent.length

/-- Whether the call of `areq` of an iteration has asked for its socket. -/
def ThreadPc.asked : ThreadPc → Bool
  | .start => false
  | .asking _ _ call => decide (call.pc ≠ .socket)
  | .sending _ _ _ => true
  | .sleeping _ _ => false
  | .closing => true
  | .exited => true

/-- The invariant of the sockets. -/
structure SockInv (tgtip : InAddr) (stack : Nat → Buf sizeofHwaddr) (t : PingThread) : Prop where
  leaves : Ledger.Leaves t.ops (t.pc.holds t.sent.length ++ t.left)
  running : t.pc ≠ .exited → t.cancelled = none
  start : t.pc = .start → t.ops = [] ∧ t.sent = []
  fresh : ∀ n, Op.take (.areq n) ∈ t.ops → n < t.sent.length ∨ n = t.sent.length ∧ t.pc.asked = true
  call : ∀ packet seq call, t.pc = .asking packet seq call →
    CallInv (pingArgs tgtip) (stack t.sent.length) call

/-! ### A system call of `areq` -/

/-- The sockets that are open in a call of `areq`. -/
def callHolds (n : Nat) (call : AreqCall) : List PingSock :=
  if call.sock then [.areq n, .packet] else [.packet]

/-- The first system call of `areq` is made once. -/
theorem AreqStep.left_start {call call' : AreqCall} {answer : AreqAnswer}
    (h : AreqStep call answer call') : call'.pc ≠ .socket := by
  cases h <;> simp [AreqCall.close]

/-- Only the first system call of `areq` opens a socket. -/
theorem AreqStep.opens {call call' : AreqCall} {answer : AreqAnswer} (h : AreqStep call answer call')
    (hclosed : call.sock = false) (hopen : call'.sock = true) : call.pc = .socket := by
  cases h with
  | opened hpc => exact hpc
  | noSocket | connected | sent | readable => exact absurd hopen (by simp [hclosed])
  | failed | short | answered => exact absurd hopen (by simp [AreqCall.close])

theorem leaves_areqOps {n : Nat} {ops : List (Op PingSock)} {call call' : AreqCall}
    {answer : AreqAnswer} (h : Ledger.Leaves ops (callHolds n call))
    (hstep : AreqStep call answer call') (hfresh : call.pc = .socket → .take (.areq n) ∉ ops) :
    Ledger.Leaves (ops ++ areqOps n call call') (callHolds n call') := by
  unfold callHolds areqOps at *
  cases hsock : call.sock <;> cases hsock' : call'.sock <;>
    simp only [hsock, if_true, if_false, Bool.false_eq_true] at h ⊢
  · rw [List.append_nil]
    exact h
  · exact h.take (hfresh (hstep.opens hsock hsock'))
  · have hused := (h.use List.mem_cons_self).free
    rwa [List.append_assoc] at hused
  · exact h.use List.mem_cons_self

theorem take_areqOps {n m : Nat} {call call' : AreqCall}
    (h : .take (.areq m) ∈ areqOps n call call') : m = n := by
  unfold areqOps at h
  split at h <;> simp_all

theorem ofCall_cases (packet : PingPacket) (seq : UInt16) (call : AreqCall) :
    (call.pc = .returned true ∧
      ThreadPc.ofCall packet seq call = .sending packet seq (.ofBytes call.hwa.bytes)) ∨
    (call.pc = .returned false ∧ ThreadPc.ofCall packet seq call = .closing) ∨
    ThreadPc.ofCall packet seq call = .asking packet seq call := by
  unfold ThreadPc.ofCall
  split
  · rename_i hpc
    exact Or.inl ⟨hpc, rfl⟩
  · rename_i hpc
    exact Or.inr (Or.inl ⟨hpc, rfl⟩)
  · exact Or.inr (Or.inr rfl)

/-- Where the thread goes on from `areq`, the same sockets are open. -/
theorem holds_ofCall {args : AreqArgs} {hwa : Buf sizeofHwaddr} {call : AreqCall}
    (hinv : CallInv args hwa call) (packet : PingPacket) (seq : UInt16) (n : Nat) :
    (ThreadPc.ofCall packet seq call).holds n = callHolds n call := by
  have hsock := hinv.sock
  rcases ofCall_cases packet seq call with ⟨hpc, heq⟩ | ⟨hpc, heq⟩ | heq
  · rw [heq, callHolds, hsock, hpc]
    rfl
  · rw [heq, callHolds, hsock, hpc]
    rfl
  · rw [heq]
    rfl

theorem asked_ofCall {call : AreqCall} (hpc : call.pc ≠ .socket) (packet : PingPacket)
    (seq : UInt16) : (ThreadPc.ofCall packet seq call).asked = true := by
  rcases ofCall_cases packet seq call with ⟨-, heq⟩ | ⟨-, heq⟩ | heq
  · rw [heq]
    rfl
  · rw [heq]
    rfl
  · rw [heq]
    exact decide_eq_true hpc

/-! ### The steps -/

theorem sockInv_init :
    SockInv tgtip stack (pingThread hostip tgtip tid stack).init where
  leaves := Ledger.leaves_nil
  running _ := rfl
  start _ := ⟨rfl, rfl⟩
  fresh _ h := by cases h
  call _ _ _ h := by cases h

/-- The next iteration begins. -/
theorem SockInv.iterate {t : PingThread} {packet : PingPacket} {seq : UInt16}
    (hleaves : Ledger.Leaves t.ops [.packet]) (hrunning : t.cancelled = none)
    (hfresh : ∀ n, Op.take (.areq n) ∈ t.ops → n < t.sent.length) :
    SockInv tgtip stack (t.iterate tgtip stack packet seq) where
  leaves := by
    have hnone : (t.iterate tgtip stack packet seq).left = [] := by
      rw [PingThread.left, show (t.iterate tgtip stack packet seq).cancelled = none from hrunning]
    rw [hnone]
    exact hleaves
  running _ := hrunning
  start h := by cases h
  fresh n hn := Or.inl (hfresh n hn)
  call _ _ _ h := by
    cases h
    exact callInv_start _ _

/-- The thread goes on, or ends, after a call that takes no socket. -/
theorem SockInv.did {t t' : PingThread} {ops : List (Op PingSock)} (hinv : SockInv tgtip stack t)
    (hops : t'.ops = t.ops ++ ops) (hnew : ∀ s, Op.take s ∉ ops)
    (hleaves : Ledger.Leaves t'.ops (t'.pc.holds t'.sent.length ++ t'.left))
    (hrunning : t'.pc ≠ .exited → t'.cancelled = none) (hstart : t'.pc ≠ .start)
    (hcall : ∀ packet seq call, t'.pc ≠ .asking packet seq call)
    (hsent : t.sent.length < t'.sent.length ∨
      t'.sent.length = t.sent.length ∧ t'.pc.asked = true) : SockInv tgtip stack t' where
  leaves := hleaves
  running := hrunning
  start h := absurd h hstart
  fresh n hn := by
    rw [hops] at hn
    have hold := hinv.fresh n ((List.mem_append.1 hn).resolve_right (hnew _))
    rcases hsent with hlt | ⟨heq, hasked⟩
    · exact Or.inl (by omega)
    · rw [heq]
      exact hold.imp id fun h => ⟨h.1, hasked⟩
  call packet seq call h := absurd h (hcall packet seq call)

/-- While the thread runs, no socket was left. -/
theorem SockInv.holds {t : PingThread} (hinv : SockInv tgtip stack t) (hpc : t.pc ≠ .exited) :
    Ledger.Leaves t.ops (t.pc.holds t.sent.length) := by
  have hleaves := hinv.leaves
  rw [PingThread.left, hinv.running hpc, List.append_nil] at hleaves
  exact hleaves

/-- Where a thread is cancelled, the handler closes the packet socket. -/
theorem holds_perm {t t' : PingThread} (h : t.cancel = some t') (hpc : t.pc ≠ .closing) (n : Nat) :
    (t.pc.holds n).Perm (.packet :: t.pc.leaves n) := by
  obtain ⟨hstarted, hrunning, -⟩ := cancel_cases h
  cases hcase : t.pc with
  | asking packet seq call =>
    simp only [ThreadPc.holds, ThreadPc.leaves]
    split
    · exact .swap _ _ _
    · exact .refl _
  | start => exact absurd hcase hstarted
  | exited => exact absurd hcase hrunning
  | closing => exact absurd hcase hpc
  | sending | sleeping => exact .refl _

theorem SockInv.asked {t : PingThread} {packet : PingPacket} {seq : UInt16} {call call' : AreqCall}
    {answer : AreqAnswer} (hinv : SockInv tgtip stack t) (hpc : t.pc = .asking packet seq call)
    (hcase : AreqStep call answer call') : SockInv tgtip stack { t with
      pc := .ofCall packet seq call', ops := t.ops ++ areqOps t.sent.length call call' } := by
  have hrunning := hinv.running (by simp [hpc])
  have hleaves := hinv.holds (by simp [hpc])
  have hnext := (hinv.call packet seq call hpc).step hcase
  have hasked := asked_ofCall hcase.left_start packet seq
  rw [hpc] at hleaves
  refine ⟨?_, fun _ => hrunning, fun h => ?_, fun n hn => ?_, fun p s c h => ?_⟩
  · simp only [PingThread.left, hrunning, List.append_nil, holds_ofCall hnext]
    refine leaves_areqOps hleaves hcase fun hsocket hmem => ?_
    rcases hinv.fresh _ hmem with hlt | ⟨-, hold⟩
    · exact absurd hlt (Nat.lt_irrefl _)
    · simp [hpc, ThreadPc.asked, hsocket] at hold
  · rw [show ThreadPc.ofCall packet seq call' = .start from h] at hasked
    cases hasked
  · rcases List.mem_append.1 hn with hold | hnew
    · exact (hinv.fresh n hold).imp id fun h => ⟨h.1, hasked⟩
    · exact Or.inr ⟨take_areqOps hnew, hasked⟩
  · rcases ofCall_cases packet seq call' with ⟨-, heq⟩ | ⟨-, heq⟩ | heq
    · cases heq.symm.trans h
    · cases heq.symm.trans h
    · cases heq.symm.trans h
      exact hnext

theorem SockInv.step {t t' : PingThread} {e : ThreadEvent} (hinv : SockInv tgtip stack t)
    (h : ThreadStep hostip tgtip tid stack t e t') : SockInv tgtip stack t' := by
  have hheld := hinv.holds
  have hrunning := hinv.running
  cases h with
  | noSocket hpc =>
    rw [hpc] at hheld hrunning
    refine hinv.did (List.append_nil _).symm (by simp) ?_ (fun h => absurd rfl h) (by simp) (by simp)
      (Or.inr ⟨rfl, rfl⟩)
    simp only [PingThread.left, hrunning (by simp)]
    exact hheld (by simp)
  | opened hpc =>
    obtain ⟨hops, -⟩ := hinv.start hpc
    rw [hpc] at hheld hrunning
    refine .iterate ((hheld (by simp)).take (by simp [hops])) (hrunning (by simp)) fun n hn => ?_
    simp [PingThread.did, hops] at hn
  | asked hpc hstep => exact hinv.asked hpc (stepAreq_cases hstep)
  | sent hpc hframe =>
    rw [hpc] at hheld hrunning
    refine hinv.did rfl (by simp) ?_ (fun _ => hrunning (by simp)) (by simp) (by simp)
      (Or.inl (Nat.lt_succ_self _))
    simp only [PingThread.left, PingThread.did, hrunning (by simp)]
    exact (hheld (by simp)).use List.mem_cons_self
  | failed hpc =>
    rw [hpc] at hheld hrunning
    refine hinv.did rfl (by simp) ?_ (fun _ => hrunning (by simp)) (by simp) (by simp)
      (Or.inr ⟨rfl, rfl⟩)
    simp only [PingThread.left, PingThread.did, hrunning (by simp)]
    exact (hheld (by simp)).use List.mem_cons_self
  | slept hpc =>
    rw [hpc] at hheld hrunning
    refine .iterate (hheld (by simp)) (hrunning (by simp)) fun n hn => ?_
    rcases hinv.fresh n hn with hlt | ⟨-, hasked⟩
    · exact hlt
    · simp [hpc, ThreadPc.asked] at hasked
  | closed hpc =>
    rw [hpc] at hheld hrunning
    refine hinv.did rfl (by simp) ?_ (fun h => absurd rfl h) (by simp) (by simp) (Or.inr ⟨rfl, rfl⟩)
    simp only [PingThread.left, PingThread.did, hrunning (by simp)]
    exact (hheld (by simp)).free
  | cancelled h =>
    obtain ⟨-, hpc, ⟨hclosing, rfl⟩ | ⟨hclosing, rfl⟩⟩ := cancel_cases h
    · refine hinv.did (List.append_nil _).symm (by simp) ?_ (fun h => absurd rfl h) (by simp)
        (by simp) (Or.inr ⟨rfl, rfl⟩)
      simp only [PingThread.left, hclosing]
      rw [hclosing] at hheld
      exact hheld (by simp)
    · refine hinv.did rfl (by simp) ?_ (fun h => absurd rfl h) (by simp [PingThread.did])
        (by simp [PingThread.did]) (Or.inr ⟨rfl, rfl⟩)
      exact ((hheld hpc).perm (holds_perm h hclosing _)).free

/-- **A ping thread closes its sockets**, however it ends: it never closes or uses a socket that it
does not hold, and when it has ended each socket that it opened was closed once, but for the one in
`left`: that of the call of `areq` in which the thread was cancelled, or the packet socket when it
was cancelled in closing it. -/
theorem thread_closes {G : PingThread → ThreadEvent → Prop} {t : PingThread}
    (h : (pingThread hostip tgtip tid stack).Reachable G t) (hpc : t.pc = .exited) :
    Ledger.Leaves t.ops t.left ∧ t.left.length ≤ 1 ∧ (t.cancelled = none → t.left = []) := by
  have hinv : SockInv tgtip stack t := h.invariant (I := SockInv tgtip stack) sockInv_init
    fun _ _ _ hinv _ hs => hinv.step (stepThread_cases hs)
  have hleaves := hinv.leaves
  rw [hpc] at hleaves
  refine ⟨hleaves, ?_, fun hnone => by rw [PingThread.left, hnone]⟩
  unfold PingThread.left
  split
  · exact Nat.zero_le 1
  · unfold ThreadPc.leaves
    split
    · split <;> simp
    · exact Nat.le_refl 1
    · exact Nat.zero_le 1

/-- A thread that is cancelled while `areq` waits for the daemon. -/
def waits : List ThreadEvent :=
  [.socket true, .areq (.socket true), .areq (.connect true), .areq (.send (some 20)), .cancel]

theorem thread_closes_cancelled : ∃ t, (pingThread (.zero 4) (.zero 4) 7 fun _ => .zero _).Reachable
    (fun _ _ => True) t ∧ t.left = [.areq 0] ∧ Ledger.Leaves t.ops t.left := by
  have hrun : (pingThread (.zero 4) (.zero 4) 7 fun _ => .zero _).Reachable (fun _ _ => True) _ :=
    .of_run waits (fun _ _ => trivial) rfl
  exact ⟨_, hrun, rfl, (thread_closes hrun rfl).1⟩

/-! ## Iterations -/

/-- The iteration with this packet has begun, which `s` will do in one step. -/
def Begun (packet : PingPacket) (seq : UInt16) (s : PingSend) : Prop :=
  ∃ packet₀ seq₀, s.pc = .loop packet₀ seq₀ ∧ packet = nextEcho packet₀ seq₀ ∧ seq = seq₀ + 1

/-- Where `s` is, while the thread is at this place; `S` holds of what `areq` has stored. A thread
that has left its loop has sent all that it will. -/
def ThreadPc.Matches (S : Hwaddr → Prop) (s : PingSend) : ThreadPc → Prop
  | .start => s.pc = .start
  | .asking packet seq _ => Begun packet seq s
  | .sending packet seq dst => S dst ∧ Begun packet seq s
  | .sleeping packet seq => s.pc = .loop packet seq
  | .closing => True
  | .exited => True

/-- The thread `t` has sent what `s` has, and is in the same iteration. -/
structure Follows (S : Hwaddr → Prop) (t : PingThread) (s : PingSend) : Prop where
  sent : s.sent = t.sent
  place : t.pc.Matches S s

/-- What `areq` stores meets `S`. -/
def Stores (S : Hwaddr → Prop) (_ : PingSend) : PingEvent → Prop
  | .socket _ => True
  | .iterate hwa _ => ∀ dst ∈ hwa, S dst

/-- A step of the thread is one of `pinger`, or none of its steps. -/
theorem Follows.step {S : Hwaddr → Prop} {t t' : PingThread} {s : PingSend} {e : ThreadEvent}
    (hfollows : Follows S t s) (h : ThreadStep hostip tgtip tid stack t e t')
    (hstored : ∀ packet seq dst, t'.pc = .sending packet seq dst → S dst) :
    ∃ s', (pinger hostip tgtip tid).Steps (Stores S) s s' ∧ Follows S t' s' := by
  obtain ⟨hsent, hplace⟩ := hfollows
  cases h with
  | noSocket => exact ⟨s, .refl s, hsent, trivial⟩
  | opened hpc =>
    rw [hpc] at hplace
    have hstart : s.pc = .start := hplace
    have hstep : (pinger hostip tgtip tid).step s (.socket true) =
        some { s with pc := .loop (buildPing hostip tgtip tid) 0 } := by
      simp only [pinger, hstart, if_true]
    have hok : Stores S s (.socket true) := trivial
    exact ⟨_, (Steps.refl s).tail hok hstep, hsent, _, _, rfl, rfl, rfl⟩
  | @asked packet seq call call' answer hpc =>
    rw [hpc] at hplace
    refine ⟨s, .refl s, hsent, ?_⟩
    rcases ofCall_cases packet seq call' with ⟨-, heq⟩ | ⟨-, heq⟩ | heq
    · rw [heq]
      exact ⟨hstored packet seq _ heq, hplace⟩
    · rw [heq]
      trivial
    · rw [heq]
      exact hplace
  | @sent packet seq dst frame hpc hframe =>
    rw [hpc] at hplace
    obtain ⟨hdst, packet₀, seq₀, hloop, rfl, rfl⟩ := hplace
    have hstep : (pinger hostip tgtip tid).step s (.iterate (some dst) true) =
        some ⟨.loop (nextEcho packet₀ seq₀) (seq₀ + 1), (dst.sllIfindex, frame) :: s.sent⟩ := by
      simp only [pinger, hloop, stepEcho, hframe, bind, Option.bind_some, if_true]
    have hok : Stores S s (.iterate (some dst) true) := by
      rintro _ ⟨⟩
      exact hdst
    exact ⟨_, (Steps.refl s).tail hok hstep, congrArg _ hsent, rfl⟩
  | failed => exact ⟨s, .refl s, hsent, trivial⟩
  | slept hpc =>
    rw [hpc] at hplace
    exact ⟨s, .refl s, hsent, _, _, hplace, rfl, rfl⟩
  | closed => exact ⟨s, .refl s, hsent, trivial⟩
  | cancelled h =>
    obtain ⟨-, -, ⟨-, rfl⟩ | ⟨-, rfl⟩⟩ := cancel_cases h
    · exact ⟨s, .refl s, hsent, trivial⟩
    · exact ⟨s, .refl s, hsent, trivial⟩

end Tour
