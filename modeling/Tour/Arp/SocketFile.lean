import Mathlib.Data.Fintype.Basic
import Tour.Arp.Answers
import Tour.Arp.Lifecycle

/-!
# The file of the daemon

The file `ARP_WELL_KNOWN_PATH`, through which `areq` finds the daemon, in the runs of any number of
daemons on one host. A daemon that ends leaves the file as its own only if `sigaction` did not succeed,
if `handle_req` had no memory, or if a `send` raised SIGPIPE (`file_names`). One daemon at a time is reached through the file while it runs (`daemon_reached`);
two at once are not, since each removes the file whosoever it is (`daemon_unreached`).
-/

namespace Tour

open Lib Machine

/-! ## Whose file it is -/

/-- Whether the file can name the socket of a process at this place. -/
def ArpProc.MayName (s : ArpProc) : ArpPc → Prop
  | .start => False
  | .unixSocket _ => False
  | .creating _ _ next => next = .chmod ∨ next = .listen
  | .pfSocket _ _ => True
  | .sigaction _ => True
  | .running _ _ => True
  | .leaving todo _ => .unlink ∈ todo
  | .handler => True
  | .exited place _ => place = .setSigCleanup ∨ place = .handleReq
  | .killed signal => signal = .sigpipe ∨ s.handled ≠ some true

section Steps

variable {P : Type} {p q : P} {file file' : ArpFile P} {s s' : ArpProc} {e : ArpEvent}

theorem mayName_step (h : ArpStep p file s e s' file') (hold : file = .names p → s.MayName s.pc)
    (hfile : file' = .names p) : s'.MayName s'.pc := by
  cases h with
  | listed devices hpc =>
    rw [hpc] at hold
    exact hold hfile
  | noDevices hpc =>
    rw [hpc] at hold
    exact (hold hfile).elim
  | opened unixDomain hpc =>
    rw [hpc] at hold
    exact (hold hfile).elim
  | noSocket hpc => exact List.mem_cons_self
  | cleared | unlinked | cleaned => cases hfile
  | bound => exact Or.inl rfl
  | unbound => exact List.mem_cons_self
  | changed => exact Or.inr rfl
  | listens | packet | caught | ran => trivial
  | uncreated | noPacket | halted => simp [ArpProc.leave, ArpProc.MayName]
  | aborted => exact Or.inl rfl
  | starved => exact Or.inr rfl
  | piped => exact Or.inl rfl
  | ended hpc =>
    rw [hpc] at hold
    cases hold hfile
  | closed hpc =>
    rw [hpc] at hold
    exact (List.mem_cons.1 (hold hfile)).resolve_left (by simp)
  | signalled h =>
    obtain ⟨-, rfl⟩ | ⟨huncaught, rfl⟩ := interrupt_cases h
    · trivial
    · exact Or.inr huncaught

theorem bound_step (h : ArpStep p file s e s' file')
    (hold : file = .names p → s.bound = some true ∧ s.MayName s.pc) (hfile : file' = .names p) :
    s'.bound = some true := by
  cases h with
  | cleared | unlinked | cleaned => cases hfile
  | bound => rfl
  | unbound hpc =>
    rw [hpc] at hold
    obtain ⟨-, hnext | hnext⟩ := hold hfile
    · cases hnext
    · cases hnext
  | signalled h =>
    obtain ⟨-, rfl⟩ | ⟨-, rfl⟩ := interrupt_cases h
    · exact (hold hfile).1
    · exact (hold hfile).1
  | _ => exact (hold hfile).1

/-- The other processes are left alone, and a step makes the file name nobody else. -/
theorem file_step (h : ArpStep p file s e s' file') (hq : q ≠ p) (hfile : file' = .names q) :
    file = .names q := by
  cases h with
  | cleared | unlinked | cleaned => cases hfile
  | bound =>
    cases hfile
    exact absurd rfl hq
  | _ => exact hfile

/-- The process has begun and has not ended. -/
def ArpPc.live : ArpPc → Bool
  | .start => false
  | .exited _ _ => false
  | .killed _ => false
  | _ => true

/-- The process has bound its socket, and neither it nor its handler is on the way out. -/
def ArpPc.serving : ArpPc → Bool
  | .creating _ _ next => decide (next = .chmod ∨ next = .listen)
  | .pfSocket _ _ => true
  | .sigaction _ => true
  | .running _ _ => true
  | _ => false

theorem live_of_serving {pc : ArpPc} (h : pc.serving = true) : pc.live = true := by
  cases pc <;> first | rfl | cases h

theorem serving_step (h : ArpStep p file s e s' file') (hold : s.pc.serving = true → file = .names p)
    (hserving : s'.pc.serving = true) : file' = .names p := by
  cases h with
  | bound => rfl
  | changed hpc | listens hpc | packet _ hpc | caught hpc | ran hpc _ =>
    rw [hpc] at hold
    exact hold rfl
  | signalled h =>
    obtain ⟨-, rfl⟩ | ⟨-, rfl⟩ := interrupt_cases h
    · cases hserving
    · cases hserving
  | _ => cases hserving

end Steps

/-! ## Runs -/

section Hosts

variable {P : Type} [DecidableEq P] {stale : Bool} {host : ArpHost P}

/-- **Who leaves the file.** In every run of any number of daemons on one host, the file names the
socket of a process that has bound it, and which runs, or is about to remove the file, or was ended by
a SIGINT before `sigaction`, by the failure of `sigaction`, by a SIGPIPE, or by the failure of `calloc`
in `handle_req`. -/
theorem file_names {G : ArpHost P → P × ArpEvent → Prop} (h : (arpHost P stale).Reachable G host)
    {p : P} (hfile : host.file = .names p) :
    (host.procs p).bound = some true ∧ (host.procs p).MayName (host.procs p).pc := by
  have hinit : ∀ p, (arpHost P stale).init.file = .names p →
      ((arpHost P stale).init.procs p).bound = some true ∧
        ((arpHost P stale).init.procs p).MayName ((arpHost P stale).init.procs p).pc := by
    intro p hp
    cases stale <;> cases hp
  refine h.invariant (I := fun host => ∀ p, host.file = .names p →
    (host.procs p).bound = some true ∧ (host.procs p).MayName (host.procs p).pc) hinit ?_ p hfile
  intro host e host' hinv _ hstep q hq
  obtain ⟨hself, hother⟩ := arpHost_cases hstep
  by_cases heq : q = e.1
  · subst heq
    exact ⟨bound_step hself (hinv e.1) hq, mayName_step hself (fun hf => (hinv e.1 hf).2) hq⟩
  · rw [hother q heq]
    exact hinv q (file_step hself heq hq)

/-- No other daemon runs. -/
def Alone (host : ArpHost P) (e : P × ArpEvent) : Prop :=
  ∀ q, q ≠ e.1 → (host.procs q).pc.live = false

instance [Fintype P] (host : ArpHost P) (e : P × ArpEvent) : Decidable (Alone host e) :=
  inferInstanceAs (Decidable (∀ q, q ≠ e.1 → _))

/-- **One daemon is reached through the file.** In every run in which a daemon begins only after the
earlier ones have ended, however they ended and whatever file they left, the file names the socket of
the daemon from its `bind` until it leaves. -/
theorem daemon_reached (h : (arpHost P stale).Reachable Alone host) {p : P}
    (hserving : (host.procs p).pc.serving = true) : host.file = .names p := by
  refine h.invariant (I := fun host => ∀ p, (host.procs p).pc.serving = true →
    host.file = .names p) (fun _ hp => (by cases hp)) ?_ p hserving
  intro host e host' hinv halone hstep q hq
  obtain ⟨hself, hother⟩ := arpHost_cases hstep
  by_cases heq : q = e.1
  · subst heq
    exact serving_step hself (hinv e.1) hq
  · rw [hother q heq] at hq
    have hlive := halone q heq
    rw [live_of_serving hq] at hlive
    cases hlive

end Hosts

/-! ## Two daemons -/

/-- A request of 10.0.0.2 for 10.0.0.1. -/
def requestOfTwo : List UInt8 :=
  arpFrame broadhwa (hostMac 2) arpopRequest
    (arpData (hostMac 2) (hostIp 2) (.zero 6) (hostIp 1))

/-- The daemon hears the request, and there is no memory for the reverse entry. -/
def starved : List ArpEvent :=
  [.arp (readable [4]), .arp .tick, .arp .tick, .noMemory requestOfTwo fromTwo]

theorem file_names_starved : ∃ host, (arpHost Bool true).Reachable (fun _ _ => True) host ∧
    host.file = .names false ∧ (host.procs false).pc.live = false ∧
      (host.procs false).bound = some true := by
  have hreach : (arpHost Bool true).Reachable (fun _ _ => True) _ :=
    .of_run (callsOf false (setUp ++ .returned true :: starved)) (fun _ _ => trivial) rfl
  exact ⟨_, hreach, rfl, rfl, (file_names hreach rfl).1⟩

/-- The first daemon is killed in `set_sig_cleanup`, and the second removes the file that it left. -/
theorem daemon_reached_second : ∃ host, (arpHost Bool true).Reachable Alone host ∧
    host.file = .names true := by
  have hreach : (arpHost Bool true).Reachable Alone _ :=
    .of_guardedRun (callsOf false (setUp ++ [.sigint]) ++ callsOf true (setUp ++ [.returned true])) rfl
  exact ⟨_, hreach, daemon_reached hreach rfl⟩

/-- Of two daemons at once, the first removes the file of the second when it is interrupted, and the
second runs on. -/
theorem daemon_unreached : ∃ host, (arpHost Bool false).Reachable (fun _ _ => True) host ∧
    (host.procs true).pc.serving = true ∧ host.file = .absent := by
  have hreach : (arpHost Bool false).Reachable (fun _ _ => True) _ :=
    .of_run (callsOf false (setUp ++ [.returned true]) ++
      callsOf true (setUp ++ [.returned true]) ++ callsOf false [.sigint, .tick])
      (fun _ _ => trivial) rfl
  exact ⟨_, hreach, rfl, rfl⟩

end Tour
