import Tour.Lib.Ledger
import Tour.Route.Endings

/-!
# What a tour process takes and gives back

The calls of a process are replayed in a ledger of its sockets, its threads and the elements of the
list of ping threads. In every run, on every path and whatever the calls return, no socket is closed
twice, no element is freed twice, and no thread is joined or cancelled that is not there; and a
process that has exited has closed each socket that it opened and freed each element. A thread is
left only when a call on a thread failed. The invariant is `Owns`, what a process holds in each
phase `TourProc.holds`; the result is `tour_gives_back`.
-/

namespace Tour

open Lib Machine

/-- What a tour process takes. -/
inductive TourRes
  | socket (s : TourSocket)
  | recvThread
  | thread (tid : UInt64)
  | elem (a : Addr)
deriving DecidableEq

def TourRes.IsThread : TourRes → Prop
  | .socket _ => False
  | .recvThread => True
  | .thread _ => True
  | .elem _ => False

open Ledger in
/-- What a call does with resources. A thread is given back by a join that succeeds. -/
def TourCall.ops : TourCall → List (Op TourRes)
  | .socket s => [.take (.socket s)]
  | .close s => [.free (.socket s)]
  | .createRecv => [.take .recvThread]
  | .cancelRecv _ => [.use .recvThread]
  | .joinRecv err => if err = 0 then [.free .recvThread] else [.use .recvThread]
  | .createPing a tid => [.take (.elem a), .take (.thread tid)]
  | .ping (.cancel tid _) => [.use (.thread tid)]
  | .ping (.join tid err) => if err = 0 then [.free (.thread tid)] else [.use (.thread tid)]
  | .ping (.free a) => [.free (.elem a)]

/-- A call on a thread that failed, after which the thread may never be joined. -/
def TourCall.Failed : TourCall → Prop
  | .socket _ => False
  | .close _ => False
  | .createRecv => False
  | .cancelRecv err => err ≠ 0
  | .joinRecv err => err ≠ 0
  | .createPing _ _ => False
  | .ping (.cancel _ _) => False
  | .ping (.join _ err) => err ≠ 0
  | .ping (.free _) => False

/-- The ping threads and their elements. -/
def pingRes (threads : List (Addr × Pingt)) : List TourRes :=
  threads.map (fun cur => .thread cur.2.tid) ++ threads.map fun cur => .elem cur.1

/-- The sockets, in the order in which they are closed. -/
def openSockets : List TourRes := [.socket .udpSend, .socket .udpRecv, .socket .rt]

/-- What a process holds in a phase. -/
def TourProc.holds (p : TourProc) : List TourRes :=
  match p.phase with
  | .idle => []
  | .touring => .recvThread :: (pingRes p.threads ++ openSockets)
  | .ending => openSockets
  | .exited _ => []

/-- The calls can be replayed, and leave what is in `held`, but for threads after a failed call. -/
def Owns (calls : List TourCall) (held : List TourRes) : Prop :=
  ∃ (l : Ledger TourRes) (left : List TourRes),
    (Ledger.book TourRes).run .empty (calls.flatMap TourCall.ops) = some l ∧
    l.Settled (held ++ left) ∧ (∀ b ∈ left, b.IsThread) ∧ (left ≠ [] → ∃ c ∈ calls, c.Failed)

/-! ## The calls one by one -/

section Owns

variable {calls : List TourCall} {held : List TourRes}

theorem Owns.perm {held' : List TourRes} (h : Owns calls held) (hperm : held.Perm held') :
    Owns calls held' := by
  obtain ⟨l, left, hrun, hsettled, hleft, hfailed⟩ := h
  exact ⟨l, left, hrun, hsettled.perm (hperm.append_right left), hleft, hfailed⟩

/-- Calls that can be replayed from what is held, and leave what is in `held'`. -/
theorem Owns.then {held' : List TourRes} {calls' : List TourCall} (h : Owns calls held)
    (more : List TourRes) (hcalls : ∀ (l : Ledger TourRes) left, l.Settled (held ++ left) →
      (∀ b ∈ l.taken, .take b ∈ calls.flatMap TourCall.ops) →
      ∃ l', (Ledger.book TourRes).run l (calls'.flatMap TourCall.ops) = some l' ∧
        l'.Settled (held' ++ (more ++ left)))
    (hmore : ∀ b ∈ more, b.IsThread) (hfailed : more ≠ [] → ∃ c ∈ calls', c.Failed) :
    Owns (calls ++ calls') held' := by
  obtain ⟨l, left, hrun, hsettled, hleft, hold⟩ := h
  have htaken : ∀ b ∈ l.taken, .take b ∈ calls.flatMap TourCall.ops := by
    intro b hb
    exact (Ledger.mem_taken_of_run hrun hb).resolve_left fun hempty => (by cases hempty)
  obtain ⟨l', hrun', hsettled'⟩ := hcalls l left hsettled htaken
  refine ⟨l', more ++ left, ?_, hsettled', ?_, fun hne => ?_⟩
  · rw [List.flatMap_append]
    exact Ledger.book_append hrun hrun'
  · rw [List.forall_mem_append]
    exact ⟨hmore, hleft⟩
  · by_cases hnil : more = []
    · rw [hnil] at hne
      obtain ⟨c, hc, hf⟩ := hold hne
      exact ⟨c, List.mem_append_left _ hc, hf⟩
    · obtain ⟨c, hc, hf⟩ := hfailed hnil
      exact ⟨c, List.mem_append_right _ hc, hf⟩

theorem owns_nil : Owns [] [] :=
  ⟨.empty, [], rfl, Ledger.settled_empty, List.forall_mem_nil _, fun hne => absurd rfl hne⟩

/-- A call that takes what is new. -/
theorem Owns.take (h : Owns calls held) {c : TourCall} {b : TourRes} (hc : c.ops = [.take b])
    (hnew : .take b ∉ calls.flatMap TourCall.ops) : Owns (calls ++ [c]) (b :: held) := by
  refine h.then [] (fun l left hsettled htaken => ?_) (List.forall_mem_nil _)
    fun hne => absurd rfl hne
  refine ⟨l.take b, ?_, hsettled.take fun hb => hnew (htaken b hb)⟩
  rw [List.flatMap_singleton, hc]
  rfl

/-- Calls that use what is held. -/
theorem Owns.uses (h : Owns calls held) (bs : List TourRes) {calls' : List TourCall}
    (hcalls : calls'.flatMap TourCall.ops = bs.map .use) (hbs : ∀ b ∈ bs, b ∈ held) :
    Owns (calls ++ calls') held := by
  refine h.then [] (fun l left hsettled _ => ⟨l, ?_, hsettled⟩) (List.forall_mem_nil _)
    fun hne => absurd rfl hne
  rw [hcalls]
  exact hsettled.uses fun b hb => List.mem_append_left _ (hbs b hb)

/-- Calls that give back what is held. -/
theorem Owns.frees (bs : List TourRes) (h : Owns calls (bs ++ held)) {calls' : List TourCall}
    (hcalls : calls'.flatMap TourCall.ops = bs.map .free) : Owns (calls ++ calls') held := by
  refine h.then [] (fun l left hsettled _ => ?_) (List.forall_mem_nil _)
    fun hne => absurd rfl hne
  rw [List.append_assoc] at hsettled
  rw [hcalls]
  exact hsettled.frees

/-- A call on a thread that is held, which leaves it if it fails. -/
theorem Owns.leaves {b : TourRes} (h : Owns calls (b :: held)) {c : TourCall}
    (hb : b.IsThread) (hc : c.ops = [.use b]) (hfailed : c.Failed) : Owns (calls ++ [c]) held := by
  refine h.then [b] (fun l left hsettled _ => ⟨l, ?_, ?_⟩)
    (List.forall_mem_singleton.2 hb) fun _ => ⟨c, List.mem_singleton_self c, hfailed⟩
  · rw [List.flatMap_singleton, hc]
    have hheld : ∀ b' ∈ [b], b' ∈ b :: held ++ left :=
      List.forall_mem_singleton.2 (List.mem_append_left _ List.mem_cons_self)
    exact hsettled.uses hheld
  · exact hsettled.perm List.perm_middle.symm

/-- A join gives a thread back, or fails. -/
theorem Owns.join {b : TourRes} (h : Owns calls (b :: held)) {c : TourCall} {err : Int}
    (hb : b.IsThread) (hc : c.ops = if err = 0 then [.free b] else [.use b])
    (hfailed : err ≠ 0 → c.Failed) : Owns (calls ++ [c]) held := by
  by_cases herr : err = 0
  · rw [if_pos herr] at hc
    refine Owns.frees [b] h ?_
    rw [List.flatMap_singleton, hc]
    rfl
  · rw [if_neg herr] at hc
    exact h.leaves hb hc (hfailed herr)

/-! ## The functions -/

variable {joinErrs : Nat → Int}

theorem cancelLoop_ops (cancelErrs : Nat → Int) (i : Nat) (threads : List (Addr × Pingt)) :
    ((cancelLoop cancelErrs i threads).map TourCall.ping).flatMap TourCall.ops =
      (threads.map fun cur => TourRes.thread cur.2.tid).map .use := by
  induction threads generalizing i with
  | nil => rfl
  | cons cur rest ih =>
    rw [List.map_cons, List.map_cons, ← ih (i + 1)]
    rfl

theorem freeLoop_ops (threads : List (Addr × Pingt)) :
    ((freeLoop threads).2.map TourCall.ping).flatMap TourCall.ops =
      (threads.map fun cur => TourRes.elem cur.1).map .free := by
  induction threads with
  | nil => rfl
  | cons cur rest ih =>
    rw [List.map_cons, List.map_cons, ← ih]
    rfl

theorem Owns.joinLoop {threads : List (Addr × Pingt)} (i : Nat) (status : Int)
    (h : Owns calls ((threads.map fun cur => TourRes.thread cur.2.tid) ++ held)) :
    Owns (calls ++ (joinLoop joinErrs i status threads).2.map .ping) held := by
  induction threads generalizing calls i status with
  | nil =>
    rw [show (Tour.joinLoop joinErrs i status []).2.map TourCall.ping = [] from rfl,
      List.append_nil]
    exact h
  | cons cur rest ih =>
    have hjoin : Owns (calls ++ [.ping (.join cur.2.tid (joinErrs i))])
        ((rest.map fun cur => TourRes.thread cur.2.tid) ++ held) :=
      Owns.join h trivial rfl id
    have hrest := ih (i + 1) (if joinErrs i ≠ 0 then 1 else status) hjoin
    rw [List.append_assoc] at hrest
    exact hrest

/-- `destroy_pingt` gives back the ping threads and their elements. -/
theorem Owns.destroy {p : TourProc} (tenv : ThreadEnv)
    (h : Owns p.calls (pingRes p.threads ++ held)) : Owns (p.destroy tenv).calls held := by
  have hcalls : (p.destroy tenv).calls = p.calls ++
      (cancelLoop tenv.cancelErrs 0 p.threads).map .ping ++
      (Tour.joinLoop tenv.joinErrs 0 1 p.threads).2.map .ping ++
      (freeLoop p.threads).2.map .ping := by
    simp only [TourProc.destroy, destroyPingt, List.map_append, List.append_assoc]
  rw [hcalls]
  rw [pingRes, List.append_assoc] at h
  have hcancel := h.uses _ (cancelLoop_ops tenv.cancelErrs 0 p.threads)
    fun b hb => List.mem_append_left _ hb
  exact Owns.frees _ (hcancel.joinLoop 0 1) (freeLoop_ops p.threads)

/-- The labels of `main` close the sockets. -/
theorem Owns.quit {p : TourProc} (status : Nat) (h : Owns p.calls openSockets) :
    Owns (p.quit status).calls [] := by
  rw [← List.append_nil openSockets] at h
  exact Owns.frees openSockets h rfl

theorem Owns.abort {p : TourProc} (tenv : ThreadEnv)
    (h : Owns p.calls (.recvThread :: (pingRes p.threads ++ openSockets))) :
    Owns (p.abort tenv).calls [] := by
  have hcancel : Owns (p.calls ++ [.cancelRecv tenv.cancelErr]) _ :=
    h.uses [.recvThread] rfl (List.forall_mem_singleton.2 List.mem_cons_self)
  have hjoin := hcancel.join (c := .joinRecv tenv.joinErr) trivial rfl id
  rw [List.append_assoc] at hjoin
  exact Owns.quit exitFailure (Owns.destroy tenv hjoin)

end Owns

/-! ## The runs of a process -/

/-- A process by itself. -/
def procMachine (cfg : TourConfig) (a : InAddr) : Machine TourProc TourInput :=
  ⟨bootProc cfg a, fun p input => (stepProc cfg.resolve p input).map Prod.fst⟩

/-- `calloc` and `pthread_create` return what they have not returned before. -/
def TourInput.Fresh (p : TourProc) : TourInput → Prop
  | .main _ _ _ => True
  | .raw _ _ _ elem tid _ => ∀ a t, .createPing a t ∈ p.calls → a ≠ elem ∧ t ≠ tid
  | .heard _ _ => True
  | .timeout => True
  | .fails _ => True

/-- What a process took and did not give back is what it holds. -/
structure Accounted (p : TourProc) : Prop where
  holds : Owns p.calls p.holds
  threads : p.phase = .idle → p.threads = []

section Runs

variable {resolve : String → Option InAddr} {p : TourProc} {r : TourProc × List TourEffect}

theorem take_elem_mem {calls : List TourCall} {a : Addr}
    (h : .take (.elem a) ∈ calls.flatMap TourCall.ops) : ∃ t, .createPing a t ∈ calls := by
  obtain ⟨c, hc, hop⟩ := List.mem_flatMap.1 h
  cases c with
  | createPing a' t =>
    simp only [TourCall.ops, List.mem_cons, Ledger.Op.take.injEq, TourRes.elem.injEq,
      reduceCtorEq, List.not_mem_nil, or_false] at hop
    exact ⟨t, hop ▸ hc⟩
  | joinRecv err => simp only [TourCall.ops] at hop; split at hop <;> simp at hop
  | ping call =>
    cases call with
    | join tid err => simp only [TourCall.ops] at hop; split at hop <;> simp at hop
    | cancel tid err => simp [TourCall.ops] at hop
    | free a => simp [TourCall.ops] at hop
  | socket s => simp [TourCall.ops] at hop
  | close s => simp [TourCall.ops] at hop
  | createRecv => simp [TourCall.ops] at hop
  | cancelRecv err => simp [TourCall.ops] at hop

theorem take_thread_mem {calls : List TourCall} {tid : UInt64}
    (h : .take (.thread tid) ∈ calls.flatMap TourCall.ops) : ∃ a, .createPing a tid ∈ calls := by
  obtain ⟨c, hc, hop⟩ := List.mem_flatMap.1 h
  cases c with
  | createPing a t =>
    simp only [TourCall.ops, List.mem_cons, Ledger.Op.take.injEq, TourRes.thread.injEq,
      reduceCtorEq, List.not_mem_nil, or_false, false_or] at hop
    exact ⟨a, hop ▸ hc⟩
  | joinRecv err => simp only [TourCall.ops] at hop; split at hop <;> simp at hop
  | ping call =>
    cases call with
    | join tid err => simp only [TourCall.ops] at hop; split at hop <;> simp at hop
    | cancel tid err => simp [TourCall.ops] at hop
    | free a => simp [TourCall.ops] at hop
  | socket s => simp [TourCall.ops] at hop
  | close s => simp [TourCall.ops] at hop
  | createRecv => simp [TourCall.ops] at hop
  | cancelRecv err => simp [TourCall.ops] at hop

/-- A ping thread more, with its element. -/
theorem Owns.create {calls : List TourCall} {held : List TourRes} (h : Owns calls held)
    {elem : Addr} {tid : UInt64}
    (hfresh : ∀ a t, .createPing a t ∈ calls → a ≠ elem ∧ t ≠ tid) :
    Owns (calls ++ [.createPing elem tid]) (.thread tid :: .elem elem :: held) := by
  refine h.then [] (fun l left hsettled htaken => ?_) (List.forall_mem_nil _)
    fun hne => absurd rfl hne
  have helem : .elem elem ∉ l.taken := by
    intro hmem
    obtain ⟨t, ht⟩ := take_elem_mem (htaken _ hmem)
    exact (hfresh elem t ht).1 rfl
  have htid : .thread tid ∉ (l.take (.elem elem)).taken := by
    intro hmem
    obtain ⟨a, ha⟩ := take_thread_mem (htaken _ ((List.mem_cons.1 hmem).resolve_left (by simp)))
    exact (hfresh a tid ha).2 rfl
  exact ⟨(l.take (.elem elem)).take (.thread tid), rfl, (hsettled.take helem).take htid⟩

/-! ### `main` -/

theorem owns_rt : Owns [.socket .rt] [.socket .rt] := owns_nil.take rfl (by simp)

theorem owns_udpRecv : Owns [.socket .rt, .socket .udpRecv] [.socket .udpRecv, .socket .rt] :=
  owns_rt.take (c := .socket .udpRecv) rfl (by simp [TourCall.ops])

theorem owns_sockets : Owns [.socket .rt, .socket .udpRecv, .socket .udpSend] openSockets :=
  owns_udpRecv.take (c := .socket .udpSend) rfl (by simp [TourCall.ops])

theorem accounted_stop {calls : List TourCall} (h : Owns calls []) : Accounted (p.stop calls) :=
  ⟨h, fun hidle => (by cases hidle)⟩

theorem accounted_quit {status : Nat} (h : Owns p.calls openSockets) :
    Accounted (p.quit status) := ⟨h.quit status, fun hidle => (by cases hidle)⟩

theorem accounted_main {hosts : List String} {menv : MainEnv} {env : TourEnv}
    (hthreads : p.threads = []) (h : mainTour resolve p hosts menv env = some r) :
    Accounted r.1 := by
  have hrt : Owns [.socket .rt, .close .rt] [] := Owns.frees [.socket .rt] owns_rt rfl
  have hudpRecv : Owns [.socket .rt, .socket .udpRecv, .close .udpRecv, .close .rt] [] :=
    Owns.frees [.socket .udpRecv, .socket .rt] owns_udpRecv rfl
  unfold mainTour at h
  split at h
  · cases h; exact accounted_stop owns_nil
  split at h
  · cases h; exact accounted_stop owns_nil
  split at h
  · cases h; exact accounted_stop hrt
  split at h
  · cases h; exact accounted_stop hrt
  split at h
  · cases h; exact accounted_stop hudpRecv
  dsimp only at h
  split at h
  · cases h; exact accounted_quit owns_sockets
  obtain ⟨⟨node, effects⟩, -, h⟩ := Option.bind_eq_some_iff.1 h
  split at h
  · cases h; exact accounted_quit owns_sockets
  split at h
  · cases h; exact accounted_quit owns_sockets
  · cases h
    refine ⟨?_, fun hidle => (by cases hidle)⟩
    simp only [TourProc.holds, hthreads]
    exact owns_sockets.take (c := .createRecv) rfl (by simp [TourCall.ops])

/-! ### `run_tour` and `end_tour` -/

theorem accounted_raw {packet : List UInt8} {src : InAddr} {env : TourEnv} {elem : Addr}
    {tid : UInt64} {tenv : ThreadEnv} (hp : Accounted p) (hphase : p.phase = .touring)
    (hfresh : TourInput.Fresh p (.raw packet src env elem tid tenv))
    (h : rawTour p packet src env elem tid tenv = some r) : Accounted r.1 := by
  have hholds := hp.holds
  rw [TourProc.holds, hphase] at hholds
  dsimp only at hholds
  obtain ⟨⟨node, effects⟩, -, h⟩ := Option.bind_eq_some_iff.1 h
  -- the process after `create_pingt`
  obtain ⟨q, hq, hqphase, hqholds⟩ : ∃ q : TourProc,
      q = (if startsPing p.node packet src env then
        { p with threads := (elem, ⟨src, tid⟩) :: p.threads,
                 calls := p.calls ++ [.createPing elem tid] }
      else p) ∧ q.phase = .touring ∧
      Owns q.calls (.recvThread :: (pingRes q.threads ++ openSockets)) := by
    refine ⟨_, rfl, ?_, ?_⟩
    · split <;> exact hphase
    · split
      · refine (hholds.create hfresh).perm ?_
        simp only [pingRes, List.map_cons, List.cons_append, List.append_assoc]
        exact ((List.Perm.swap _ _ _).cons _).trans ((List.Perm.swap _ _ _).trans
          ((List.perm_middle.symm.cons _).cons _))
      · exact hholds
  dsimp only at h
  rw [← hq] at h
  cases h
  split
  · refine ⟨?_, fun hidle => absurd (hqphase.symm.trans hidle) (by simp)⟩
    simp only [TourProc.holds, hqphase]
    exact hqholds
  · exact ⟨hqholds.abort tenv, fun hidle => (by cases hidle)⟩

/-- What is left of the receiver of replies when the loop of `run_tour` was left. -/
theorem accounted_finish {henv : HearEnv} (hp : Accounted p) (hphase : p.phase = .touring)
    (h : p.finish henv = r) : Accounted r.1 := by
  have hholds := hp.holds
  rw [TourProc.holds, hphase] at hholds
  dsimp only at hholds
  have hquit : ∀ q : TourProc, q.threads = p.threads →
      Owns q.calls (pingRes p.threads ++ openSockets) →
      Accounted ((q.destroy henv.threads).quit exitFailure) := by
    intro q hq hcalls
    rw [← hq] at hcalls
    exact accounted_quit (hcalls.destroy henv.threads)
  subst h
  unfold TourProc.finish
  dsimp only
  split
  · rename_i herr
    exact hquit _ rfl (hholds.leaves (c := .cancelRecv _) trivial rfl herr)
  have hcancel : Owns (p.calls ++ [.cancelRecv henv.threads.cancelErr]) _ :=
    hholds.uses [.recvThread] rfl (List.forall_mem_singleton.2 List.mem_cons_self)
  have hjoin := hcancel.join (c := .joinRecv henv.threads.joinErr) trivial rfl id
  split
  · exact hquit _ rfl hjoin
  split
  · exact hquit _ rfl hjoin
  have hdestroy : Owns (TourProc.destroy { p with calls := _ } henv.threads).calls openSockets :=
    Owns.destroy henv.threads hjoin
  unfold TourProc.endTour
  split
  · split
    · exact ⟨hdestroy, fun hidle => (by cases hidle)⟩
    · exact accounted_quit hdestroy
  · exact accounted_quit hdestroy

theorem accounted_abort {tenv : ThreadEnv} (hp : Accounted p) (hphase : p.phase = .touring) :
    Accounted (p.abort tenv) := by
  have hholds := hp.holds
  rw [TourProc.holds, hphase] at hholds
  exact ⟨Owns.abort tenv hholds, fun hidle => (by cases hidle)⟩

theorem accounted_ending {status : Nat} (hp : Accounted p) (hphase : p.phase = .ending) :
    Accounted (p.quit status) := by
  have hholds := hp.holds
  rw [TourProc.holds, hphase] at hholds
  exact accounted_quit hholds

/-- **A step** of a process keeps the account. -/
theorem accounted_step {input : TourInput} (hp : Accounted p) (hfresh : input.Fresh p)
    (h : stepProc resolve p input = some r) : Accounted r.1 := by
  cases hphase : p.phase with
  | idle =>
    cases input <;> simp only [stepProc, hphase, reduceCtorEq] at h
    exact accounted_main (hp.threads hphase) h
  | touring =>
    cases input <;> simp only [stepProc, hphase, reduceCtorEq, Option.some.injEq] at h
    · exact accounted_raw hp hphase hfresh h
    · split at h
      · exact accounted_finish hp hphase h
      · cases h
        exact accounted_abort hp hphase
    · cases h
      exact accounted_abort hp hphase
  | ending =>
    cases input <;> simp only [stepProc, hphase, reduceCtorEq, Option.some.injEq] at h
    · cases h
      split
      · exact hp
      · exact accounted_ending hp hphase
    · cases h
      exact accounted_ending hp hphase
    · cases h
      exact accounted_ending hp hphase
  | exited status =>
    cases input <;> simp only [stepProc, hphase, reduceCtorEq] at h

theorem reachable_accounted {cfg : TourConfig} {a : InAddr}
    (h : (procMachine cfg a).Reachable (fun p input => input.Fresh p) p) : Accounted p := by
  refine h.invariant ⟨owns_nil, fun _ => rfl⟩ fun p input p' hp hfresh hstep => ?_
  obtain ⟨r, hr, rfl⟩ := Option.map_eq_some_iff.1 hstep
  exact accounted_step hp hfresh hr

end Runs

/-- **A tour process gives back what it takes.** In every run of a process, whatever the calls return,
nothing is closed, freed or joined twice, and no thread is used that is not there; and when the
process has exited each socket was closed once and each element freed once, and, if no call on a
thread failed, each thread was joined once. -/
theorem tour_gives_back {cfg : TourConfig} {a : InAddr} {p : TourProc}
    (h : (procMachine cfg a).Reachable (fun p input => input.Fresh p) p) :
    ∃ l : Ledger TourRes, (Ledger.book TourRes).run .empty (p.calls.flatMap TourCall.ops) = some l ∧
      ∀ status, p.phase = .exited status →
        (∀ b ∈ l.taken, b.IsThread ∨ l.freed.count b = 1) ∧
        ((∀ c ∈ p.calls, ¬c.Failed) → ∀ b ∈ l.taken, l.freed.count b = 1) := by
  obtain ⟨l, left, hrun, hsettled, hthreads, hfailed⟩ := (reachable_accounted h).holds
  refine ⟨l, hrun, fun status hphase => ?_⟩
  rw [TourProc.holds, hphase] at hsettled
  have hcases : ∀ b ∈ l.taken, b ∈ left ∨ l.freed.count b = 1 := by
    intro b hb
    exact ((hsettled.mem b).1 hb).imp_right (List.count_eq_one_of_mem l.once)
  refine ⟨fun b hb => (hcases b hb).imp_left (hthreads b), fun hok b hb => ?_⟩
  refine (hcases b hb).resolve_left fun hleft => ?_
  obtain ⟨c, hc, hf⟩ := hfailed (List.ne_nil_of_mem hleft)
  exact hok c hc hf

/-- The last host of a tour: it pings the host that the tour came from, hears that the tour has ended,
and then nothing more. -/
theorem tour_gives_back_pinged : ∃ p : TourProc, p.phase = .exited exitSuccess ∧
    .createPing 100 7 ∈ p.calls ∧ ∃ l : Ledger TourRes,
      (Ledger.book TourRes).run .empty (p.calls.flatMap TourCall.ops) = some l ∧
      ∀ b ∈ l.taken, l.freed.count b = 1 := by
  obtain ⟨p, hreach, hphase, hcalls⟩ : ∃ p : TourProc,
      (procMachine threeHosts (vm 2)).Reachable (fun p input => input.Fresh p) p ∧
      p.phase = .exited exitSuccess ∧ p.calls = [.socket .rt, .socket .udpRecv, .socket .udpSend,
        .createRecv, .createPing 100 7, .cancelRecv 0, .joinRecv 0, .ping (.cancel 7 0),
        .ping (.join 7 0), .ping (.free 100), .close .udpSend, .close .udpRecv, .close .rt] := by
    have hmain := (Steps.refl (procMachine threeHosts (vm 2)).init).tail
      (G := fun p input => TourInput.Fresh p input) (M := procMachine threeHosts (vm 2))
      (e := .main [] openAll smooth) trivial rfl
    have hnone : ∀ a t, .createPing a t ∉ [TourCall.socket .rt, .socket .udpRecv, .socket .udpSend,
        .createRecv] := by simp
    have hraw := hmain.tail (e := .raw (tourPacket (vm 1) (vm 2) mcastAddr 0 []) (vm 1) smooth 100 7
      joinAll) (by exact fun a t hmem => absurd hmem (hnone a t)) rfl
    have hheard := hraw.tail (e := .heard "" ⟨true, joinAll, true⟩)
      (show TourInput.Fresh _ (.heard "" _) from trivial) rfl
    exact ⟨_, hheard.tail (show TourInput.Fresh _ .timeout from trivial) rfl, rfl, rfl⟩
  obtain ⟨l, hrun, hexited⟩ := tour_gives_back hreach
  refine ⟨p, hphase, by simp [hcalls], l, hrun, (hexited _ hphase).2 fun c hc => ?_⟩
  rw [hcalls] at hc
  simp only [List.mem_cons, List.not_mem_nil, or_false] at hc
  rcases hc with rfl | rfl | rfl | rfl | rfl | rfl | rfl | rfl | rfl | rfl | rfl | rfl | rfl <;>
    simp [TourCall.Failed]

end Tour
