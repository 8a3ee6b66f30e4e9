import Tour.Ping.Threads
import Tour.Route.Hops

/-!
# The process of a node

`main`, `run_tour` and `end_tour` of `tour.c` as a state machine: a process stands before `main`, in
the loop of `run_tour`, in the loop of `end_tour`, or it has exited. An input is what the call that
it waits in returns, with what the kernel answers to the calls that follow; the calls that take or
give back a socket, a thread or the memory of a thread are recorded in order. A datagram on the
multicast socket ends the loop of `run_tour`, whatever it says.
-/

namespace Tour

open Lib Machine

/-! ## The state -/

/-- The sockets that `main` opens. -/
inductive TourSocket
  | rt
  | udpRecv
  | udpSend
deriving DecidableEq

/-- The calls that take or give back something, with what those on threads return. -/
inductive TourCall
  | socket (s : TourSocket)
  | close (s : TourSocket)
  | createRecv
  | cancelRecv (err : Int)
  | joinRecv (err : Int)
  /-- `create_pingt` put an element in front of the list, and started its thread. -/
  | createPing (elem : Addr) (tid : UInt64)
  | ping (call : ThreadCall)
deriving DecidableEq

inductive TourPhase
  /-- Before `main`. -/
  | idle
  /-- In the loop of `run_tour`. -/
  | touring
  /-- In the loop of `end_tour`. -/
  | ending
  | exited (status : Nat)
deriving DecidableEq

structure TourProc where
  node : TourNode
  phase : TourPhase
  /-- The list of ping threads, newest first. -/
  threads : List (Addr × Pingt)
  calls : List TourCall

def exitSuccess : Nat := 0

def exitFailure : Nat := 1

/-- What the calls of `main` return before `start_tour`, and that of `run_tour` before its loop. -/
structure MainEnv where
  rtOk : Bool
  hdrinclOk : Bool
  udpRecvOk : Bool
  udpSendOk : Bool
  gethostnameOk : Bool
  createRecvOk : Bool

/-- What `pthread_cancel` and `pthread_join` return: for the thread that receives replies, and for
the ping threads by the number of the call. -/
structure ThreadEnv where
  cancelErr : Int
  joinErr : Int
  cancelErrs : Nat → Int
  joinErrs : Nat → Int

/-- What `recvfrom` on the multicast socket returns, and then the calls that end a tour. -/
structure HearEnv where
  recvOk : Bool
  threads : ThreadEnv
  sendOk : Bool

/-- What happens to a process. -/
inductive TourInput
  /-- It is started with these arguments. -/
  | main (hosts : List String) (menv : MainEnv) (env : TourEnv)
  /-- A datagram on the raw socket; `elem` and `tid` are of the thread that it may start. -/
  | raw (packet : List UInt8) (src : InAddr) (env : TourEnv) (elem : Addr) (tid : UInt64)
    (tenv : ThreadEnv)
  /-- A datagram on the multicast socket. -/
  | heard (text : String) (henv : HearEnv)
  /-- Five seconds went by without one. -/
  | timeout
  /-- `select` fails, or `recvfrom` on the raw socket. -/
  | fails (tenv : ThreadEnv)

/-! ## The functions -/

/-- What `end_tour` multicasts. -/
def identified (host : String) : String :=
  "<<<<< Node " ++ host ++ ". I am a member of the group. >>>>>"

namespace TourProc

variable (p : TourProc)

/-- `main` fails before all its sockets are open. -/
def stop (calls : List TourCall) : TourProc :=
  { p with node := p.node.exit, phase := .exited exitFailure, calls := calls }

/-- The labels at the end of `main`. -/
def quit (status : Nat) : TourProc :=
  { p with
    node := p.node.exit
    phase := .exited status
    calls := p.calls ++ [.close .udpSend, .close .udpRecv, .close .rt] }

/-- `destroy_pingt` on the list of the process. -/
def destroy (tenv : ThreadEnv) : TourProc :=
  let r := destroyPingt tenv.cancelErrs tenv.joinErrs p.threads
  { p with
    node := { p.node with pings := r.head.map fun cur => cur.2.tgtip }
    threads := r.head
    calls := p.calls ++ r.calls.map .ping }

/-- The label `CLEANUP_THREADS` of `run_tour`, and what `main` makes of the result. -/
def abort (tenv : ThreadEnv) : TourProc :=
  (({ p with calls := p.calls ++ [.cancelRecv tenv.cancelErr, .joinRecv tenv.joinErr] } :
    TourProc).destroy tenv).quit exitFailure

/-- `end_tour` up to its loop. -/
def endTour (sendOk : Bool) : TourProc × List TourEffect :=
  match p.node.peer with
  | some peer =>
    if sendOk then ({ p with phase := .ending }, [.multicast peer (identified p.node.host)])
    else (p.quit exitFailure, [])
  | none => (p.quit exitFailure, [])

/-- What follows the loop of `run_tour`. -/
def finish (henv : HearEnv) : TourProc × List TourEffect :=
  let p : TourProc := { p with calls := p.calls ++ [.cancelRecv henv.threads.cancelErr] }
  if henv.threads.cancelErr ≠ 0 then ((p.destroy henv.threads).quit exitFailure, [])
  else
    let p : TourProc := { p with calls := p.calls ++ [.joinRecv henv.threads.joinErr] }
    if henv.threads.joinErr ≠ 0 then ((p.destroy henv.threads).quit exitFailure, [])
    else if (destroyPingt henv.threads.cancelErrs henv.threads.joinErrs p.threads).ret = 0 then
      ((p.destroy henv.threads).quit exitFailure, [])
    else (p.destroy henv.threads).endTour henv.sendOk

end TourProc

/-- A process before `main`. -/
def bootProc (cfg : TourConfig) (a : InAddr) : TourProc := ⟨bootNode cfg a, .idle, [], []⟩

/-- The block `if(argc > 1)` of `main`. -/
def startHosts (resolve : String → Option InAddr) (node : TourNode) (hosts : List String)
    (env : TourEnv) : Option (TourNode × List TourEffect) :=
  if hosts.isEmpty then some (node, []) else startTour resolve node hosts env

/-- `main`, up to the loop of `run_tour`. -/
def mainTour (resolve : String → Option InAddr) (p : TourProc) (hosts : List String)
    (menv : MainEnv) (env : TourEnv) : Option (TourProc × List TourEffect) :=
  if !validArgs hosts then some (p.stop [], [])
  else if !menv.rtOk then some (p.stop [], [])
  else if !menv.hdrinclOk then some (p.stop [.socket .rt, .close .rt], [])
  else if !menv.udpRecvOk then some (p.stop [.socket .rt, .close .rt], [])
  else if !menv.udpSendOk then
    some (p.stop [.socket .rt, .socket .udpRecv, .close .udpRecv, .close .rt], [])
  else
    let p := { p with calls := [.socket .rt, .socket .udpRecv, .socket .udpSend] }
    if !menv.gethostnameOk then some (p.quit exitFailure, [])
    else do
      let (node, effects) ← startHosts resolve p.node hosts env
      let p := { p with node := node }
      if !node.running then some (p.quit exitFailure, effects)
      else if !menv.createRecvOk then some (p.quit exitFailure, effects)
      else some ({ p with phase := .touring, calls := p.calls ++ [.createRecv] }, effects)

/-- Whether `create_pingt` starts a thread for a datagram on the raw socket. -/
def startsPing (node : TourNode) (packet : List UInt8) (src : InAddr) (env : TourEnv) : Bool :=
  match outcomeOf node packet src env with
  | .ignored => false
  | .aborted _ => false
  | .forwards node' _ => decide (node.pings.length < node'.pings.length)
  | .ends node' => decide (node.pings.length < node'.pings.length)

/-- A step of the loop of `run_tour` on the raw socket. -/
def rawTour (p : TourProc) (packet : List UInt8) (src : InAddr) (env : TourEnv) (elem : Addr)
    (tid : UInt64) (tenv : ThreadEnv) : Option (TourProc × List TourEffect) := do
  let (node, effects) ← recvTour p.node packet src env
  let p :=
    if startsPing p.node packet src env then
      { p with threads := (elem, ⟨src, tid⟩) :: p.threads, calls := p.calls ++ [.createPing elem tid] }
    else p
  some (if node.running then { p with node := node } else p.abort tenv, effects)

/-- One step of a process; `none` when it does not wait for the input. -/
def stepProc (resolve : String → Option InAddr) (p : TourProc) (input : TourInput) :
    Option (TourProc × List TourEffect) :=
  match p.phase, input with
  | .idle, .main hosts menv env => mainTour resolve p hosts menv env
  | .touring, .raw packet src env elem tid tenv => rawTour p packet src env elem tid tenv
  | .touring, .heard _ henv =>
    some (if henv.recvOk then p.finish henv else (p.abort henv.threads, []))
  | .touring, .fails tenv => some (p.abort tenv, [])
  | .ending, .heard _ henv => some (if henv.recvOk then p else p.quit exitFailure, [])
  | .ending, .timeout => some (p.quit exitSuccess, [])
  | .ending, .fails _ => some (p.quit exitFailure, [])
  | _, _ => none

/-! ## How a tour starts and passes by -/

theorem validArgs_le {hosts : List String} (h : validArgs hosts = true) :
    hosts.length ≤ tourMaxips := by
  simp only [validArgs, Bool.and_eq_true, decide_eq_true_eq] at h
  exact h.1

theorem exit_eq {node node' : TourNode} (hhost : node'.host = node.host)
    (hhostip : node'.hostip = node.hostip) : node'.exit = node.exit := by
  simp only [TourNode.exit, hhost, hhostip]

/-- The two ends of `start_tour`. -/
inductive StartOutcome (resolve : String → Option InAddr) (node : TourNode) (hosts : List String)
    (env : TourEnv) : TourNode × List TourEffect → Prop
  | failed : StartOutcome resolve node hosts env (node.exit, [])
  | started (first : InAddr) (todo : List InAddr)
    (resolved : hosts.map resolve = (first :: todo).map some) :
    StartOutcome resolve node hosts env ({ node with
        binded := true
        port := some env.bind.ephemeral
        peer := some (mcastAddr, env.bind.ephemeral)
        group := some mcastAddr },
      [.packet first (tourPacket node.hostip first mcastAddr env.bind.ephemeral.toInt16 todo)])

/-- What `bind_port` returns is the port that the socket is bound to, or negative. -/
theorem bindPort_cases (port : Int) (env : TourEnv) :
    (bindPort port env.bind).2 < 0 ∨ bindPort port env.bind =
      (some (chosenPort (UInt16.ofInt port) env),
        ((chosenPort (UInt16.ofInt port) env).toNat : Int)) := by
  have hmask : ∀ p : UInt16, p.toNat &&& 0xFFFF = p.toNat := by
    intro p
    rw [show 0xFFFF = 2 ^ 16 - 1 from rfl, Nat.and_two_pow_sub_one_eq_mod]
    exact Nat.mod_eq_of_lt p.toNat_lt
  unfold bindPort
  dsimp only
  split
  · split
    · exact Or.inr (by rw [hmask]; rfl)
    · exact Or.inl (Int.negSucc_lt_zero 0)
  · exact Or.inl (Int.negSucc_lt_zero 0)

theorem startTour_outcome {resolve : String → Option InAddr} {node : TourNode}
    {hosts : List String} {env : TourEnv} {r : TourNode × List TourEffect}
    (hmax : hosts.length ≤ tourMaxips) (h : startTour resolve node hosts env = some r) :
    StartOutcome resolve node hosts env r := by
  have hport : chosenPort (UInt16.ofInt 0) env = env.bind.ephemeral := if_pos rfl
  rcases bindPort_cases 0 env with hneg | hbind
  · simp only [startTour, if_pos hneg] at h
    cases h
    exact .failed
  rw [hport] at hbind
  have hpos : ¬((env.bind.ephemeral.toNat : Int) < 0) := by omega
  simp only [startTour, hbind, if_neg hpos, toInt16_ofInt, ofInt_toNat] at h
  split at h
  · cases h; exact .failed
  split at h
  · cases h; exact .failed
  obtain ⟨stored, hstored, h⟩ := Option.bind_eq_some_iff.1 h
  cases stored with
  | none => cases h; exact .failed
  | some tour =>
    obtain ⟨⟨sent, effects⟩, hsend, h⟩ := Option.bind_eq_some_iff.1 h
    obtain ⟨ips, b, rest, hres, hb, rfl⟩ := storeHosts_spec rfl hmax hstored
    have hlength : hosts.length = ips.length := by simpa using congrArg List.length hres
    cases ips with
    | nil =>
      -- there is no last address
      rw [hlength, forwardTour] at hsend
      cases hsend
    | cons first todo =>
      rw [List.length_cons] at hlength
      rw [forwardTour_cons node.hostip _ hb (by rw [hlength]; exact Int16.ofInt_eq_ofNat)
        (by omega)] at hsend
      cases hsend
      cases h
      cases env.sendtoOk with
      | false => exact .failed
      | true => exact .started first todo hres

/-- The three ends of `run_tour`'s work on a tour packet from `src`. -/
inductive RecvOutcome (node : TourNode) (src mcastip : InAddr) (mcastport : Int16)
    (todo : List InAddr) (env : TourEnv) : TourNode × List TourEffect → Prop
  | failed : RecvOutcome node src mcastip mcastport todo env (node.exit, [])
  | forwarded (next : InAddr) (todo' : List InAddr) (left : todo = next :: todo') :
    RecvOutcome node src mcastip mcastport todo env
      (node.visited src mcastip (chosenPort mcastport.toUInt16 env),
        [.packet next (tourPacket node.hostip next mcastip mcastport todo')])
  | ended (peer : InAddr × UInt16) (last : todo = [])
    (connected : (node.visited src mcastip (chosenPort mcastport.toUInt16 env)).peer = some peer) :
    RecvOutcome node src mcastip mcastport todo env
      (node.visited src mcastip (chosenPort mcastport.toUInt16 env),
        [.multicast peer (tourEnded node.host)])

theorem joinTour_cases (node : TourNode) (tour : Tourhdr) (env : TourEnv) :
    joinTour node tour env = none ∨ joinTour node tour env =
      some (node.join tour.mcastip (chosenPort tour.mcastport.toUInt16 env)) := by
  unfold joinTour TourNode.join
  split
  · exact Or.inr rfl
  rcases bindPort_cases tour.mcastport.toInt env with hneg | hbind
  · exact Or.inl (if_pos hneg)
  · rw [ofInt_toInt] at hbind
    have hpos : ¬(((chosenPort tour.mcastport.toUInt16 env).toNat : Int) < 0) := by omega
    simp only [hbind, if_neg hpos, ofInt_toNat]
    split
    · exact Or.inl rfl
    split
    · exact Or.inl rfl
    · exact Or.inr rfl

/-- A successful `create_pingt` leaves a thread for the target. -/
theorem createPingt_cases (pings : List InAddr) (tgtip : InAddr) (env : TourEnv) :
    createPingt pings tgtip env = (false, pings) ∨
      createPingt pings tgtip env = (true, pings.insert tgtip) := by
  have hany : (pings.any fun cur => cur == tgtip) = true ↔ tgtip ∈ pings := by simp
  unfold createPingt
  split
  · rename_i hmem
    exact Or.inr (by rw [List.insert_of_mem (hany.1 hmem)])
  · rename_i hmem
    split
    · exact Or.inr (by rw [List.insert_of_not_mem fun h => hmem (hany.2 h)])
    · exact Or.inl rfl

theorem join_names (node : TourNode) (ip : InAddr) (port : UInt16) :
    (node.join ip port).host = node.host ∧ (node.join ip port).hostip = node.hostip := by
  unfold TourNode.join
  split <;> exact ⟨rfl, rfl⟩

/-- The visit of a tour leaves the name and the address of the node. -/
@[simp] theorem visited_host (node : TourNode) (src ip : InAddr) (port : UInt16) :
    (node.visited src ip port).host = node.host := (join_names node ip port).1

@[simp] theorem visited_hostip (node : TourNode) (src ip : InAddr) (port : UInt16) :
    (node.visited src ip port).hostip = node.hostip := (join_names node ip port).2

theorem recvTour_outcome {node : TourNode} {src dst sender mcastip : InAddr} {mcastport : Int16}
    {todo : List InAddr} {env : TourEnv} {r : TourNode × List TourEffect}
    (hmax : todo.length ≤ tourMaxips)
    (h : recvTour node (tourPacket src dst mcastip mcastport todo) sender env = some r) :
    RecvOutcome node sender mcastip mcastport todo env r := by
  obtain ⟨ips, rest, hips, htour⟩ := hostTour_tourPacket src dst mcastip mcastport hmax
  have hwords := ipHeader_words src dst (sizeofIp + sizeofTourhdr + 4 * todo.length)
    (mcastip.bytes ++ le16 mcastport.toUInt16 ++ le16 (htons (UInt16.ofNat todo.length)) ++
      ipList todo.reverse)
  have hle := tourPacket_le src dst mcastip mcastport hmax
  have hchecks : PassesChecks (tourPacket src dst mcastip mcastport todo) := by
    have hlength := tourPacket_length src dst mcastip mcastport todo
    refine ⟨by omega, ?_, hwords.2⟩
    rw [tourPacket, hwords.1, UInt16.toNat_ofNat', Nat.mod_eq_of_lt]
    · omega
    · rw [hlength, ipMaxpacket] at hle
      omega
  rw [recvTour_eq node hle, outcomeOf, if_pos hchecks, htour] at h
  have hnames := join_names node mcastip (chosenPort mcastport.toUInt16 env)
  rcases joinTour_cases node ⟨mcastip, mcastport, Int16.ofNat todo.length, ips⟩ env with
    hjoin | hjoin
  · rw [hjoin] at h
    cases h
    exact .failed
  rw [hjoin] at h
  dsimp only at h
  rcases createPingt_cases (node.join mcastip (chosenPort mcastport.toUInt16 env)).pings sender env
    with hping | hping
  · rw [hping] at h
    simp only [Bool.not_false, if_true, TourOutcome.run] at h
    cases h
    rw [exit_eq hnames.1 hnames.2]
    exact .failed
  rw [hping, joinTour_pings] at h
  change TourOutcome.run node env
    (if 0 < (Int16.ofNat todo.length).toInt then
      TourOutcome.forwards (node.visited sender mcastip (chosenPort mcastport.toUInt16 env)) _
    else .ends (node.visited sender mcastip (chosenPort mcastport.toUInt16 env))) = some r at h
  rw [toInt_len hmax] at h
  cases todo with
  | nil =>
    rw [List.length_nil, Int.natCast_zero, if_neg (Int.lt_irrefl 0), TourOutcome.run] at h
    split at h
    · rename_i peer hpeer
      split at h
      · cases h
        rw [visited_host]
        exact .ended peer rfl hpeer
      · cases h
        rw [exit_eq (visited_host ..) (visited_hostip ..)]
        exact .failed
    · cases h
      rw [exit_eq (visited_host ..) (visited_hostip ..)]
      exact .failed
  | cons next todo =>
    rw [if_pos (by simp only [List.length_cons]; omega), TourOutcome.run] at h
    rw [forwardTour_cons _ _ hips rfl hmax, visited_hostip] at h
    cases h
    cases env.sendtoOk with
    | false =>
      change RecvOutcome node sender mcastip mcastport (next :: todo) env
        ((node.visited sender mcastip (chosenPort mcastport.toUInt16 env)).exit, [])
      rw [exit_eq (visited_host ..) (visited_hostip ..)]
      exact .failed
    | true => exact .forwarded next todo rfl

end Tour
