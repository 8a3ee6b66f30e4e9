import Tour.Lib.Progress
import Tour.Arp.Sweep
import Tour.Arp.Answers
import Tour.Arp.Copies

/-!
# The daemon goes on

What the kernel can answer at each place in the loop of `run_arp` is `Offered`: accepts succeed, and
the frames that arrive fit the structures. Then the loop is never stuck, and whatever the answers are,
each iteration comes to an end (`iteration_ends`): the work left in an iteration is `Due`, and every
step lowers it. The cache is the list and `rset` the set of descriptors; what the code does with the
pointers of `cache.c` is not seen here.
-/

namespace Tour

open Lib Machine

variable (cfg : Config)

/-- A frame that fits the structures: it is too short to be looked at, or it fits `struct arp_hdr`
and declares protocol addresses of four bytes and hardware addresses of at most six. -/
def FitsArp (frame : List UInt8) : Prop :=
  frame.length ≤ 24 ∨
    (frame.length ≤ 72 ∧ (frame.getD 20 0).toNat ≤ 6 ∧ frame.getD 21 0 = 4)

/-- What the kernel can answer where the daemon waits. -/
def Offered (w : World) (e : Event) : Prop :=
  match w.pc with
  | .select => ∃ rset, e = .select rset
  | .sweep _ none => e = .tick
  | .sweep rset (some a) => ∃ c env, entryAt w.cache a = some c ∧ e = visitEvent rset c env
  | .remove _ _ _ => e = .tick
  | .accept rset =>
    if rset cfg.unixDomain then
      ∃ sfd fresh, e = .accept sfd fresh ∧ 0 < sfd ∧ w.fds sfd = none ∧ fresh ∉ addrs w.cache
    else e = .tick
  | .packet rset =>
    if rset cfg.pfSocket then
      ∃ frame env, e = .packet frame env ∧ ∀ bytes, frame = some bytes →
        FitsArp bytes ∧ (∃ d ∈ cfg.devices, d.ifIndex = env.src.sllIfindex) ∧
          env.src.sllHalen.toNat ≤ 8 ∧ env.req.fresh ∉ addrs w.cache
    else e = .tick
  | .halted => False

/-- The number of steps left in an iteration is at most `k`, and the place in the sweep is a place in
the list. -/
def Due (w : World) (k : Nat) : Prop :=
  match w.pc with
  | .select => k = 0
  | .sweep _ current => ∃ l₁ l₂, w.cache = l₁ ++ l₂ ∧ current = l₂.head?.map Prod.fst ∧
      k = 2 * l₂.length + 3
  | .remove _ rm next => ∃ l₁ c l₂, w.cache = l₁ ++ (rm, c) :: l₂ ∧
      next = l₂.head?.map Prod.fst ∧ k = 2 * l₂.length + 4
  | .accept _ => k = 2
  | .packet _ => k = 1
  | .halted => k = 0

variable {cfg}

/-! ## Frames that fit -/

theorem recvFrame_fits {frame : List UInt8} (h : FitsArp frame) :
    ∃ eh arp, recvFrame frame = some (eh, arp) ∧
      (validArp arp = true → arp.hardLen.toNat ≤ 6 ∧ arp.protLen = 4) := by
  rcases Nat.lt_or_ge 24 frame.length with hlo | hlo
  · obtain ⟨hhi, hhl, hpl⟩ := h.resolve_left (Nat.not_le.2 hlo)
    obtain ⟨eh, -, hcopy⟩ := recvCopy_of_fits hlo hhi
    have hfit : (frame.drop ethHlen).length ≤ arpHdrSize := by
      rw [List.length_drop]
      change frame.length - 14 ≤ 58
      omega
    have hget : ∀ i, (Buf.fill arpHdrSize (frame.drop ethHlen)).bytes.getD i 0 =
        frame.getD (ethHlen + i) 0 := by
      intro i
      rw [Buf.fill_getD hfit, List.getD_eq_getElem?_getD, List.getElem?_drop,
        ← List.getD_eq_getElem?_getD]
    generalize harp : ntohArp (.ofBuf (.fill arpHdrSize (frame.drop ethHlen))) = arp at hcopy
    have hhard : arp.hardLen = frame.getD 20 0 := by
      rw [← harp]
      exact hget 6
    have hprot : arp.protLen = frame.getD 21 0 := by
      rw [← harp]
      exact hget 7
    have hprint : (printAddresses arp).isSome := by
      rw [printAddresses_isSome, ArpHdr.datalen, hhard, hprot, hpl]
      change 2 * (frame.getD 20 0).toNat + 2 * 4 ≤ 48
      omega
    obtain ⟨printed, hprinted⟩ := Option.isSome_iff_exists.1 hprint
    have hlong : frame.length > ethHlen + arpHdrlen := hlo
    refine ⟨eh, arp, ?_, fun _ => ⟨hhard ▸ hhl, hprot.trans hpl⟩⟩
    simp only [recvFrame, hcopy, bind, Option.bind_some, if_pos hlong, hprinted]
  · -- nothing was copied, and the zeroed structure is not valid
    refine ⟨.zero ethHlen, .ofBuf (.zero arpHdrSize), ?_, fun hvalid => by cases hvalid⟩
    have hnot : ¬frame.length > ethHlen + arpHdrlen := Nat.not_lt.2 hlo
    simp only [recvFrame, recvCopy_of_short hlo, bind, Option.bind_some, if_neg hnot]

/-- The daemon deals with a frame that fits. -/
theorem handleFrame_fits {cache : List Node} {frame : List UInt8} {env : PacketEnv}
    (h : FitsArp frame) (hlisted : ∃ d ∈ cfg.devices, d.ifIndex = env.src.sllIfindex)
    (hhalen : env.src.sllHalen.toNat ≤ 8) (hfresh : env.req.fresh ∉ addrs cache) :
    ∃ r, handleFrame cfg cache frame env = some r := by
  obtain ⟨eh, arp, hrecv, hlens⟩ := recvFrame_fits h
  simp only [handleFrame, hrecv, bind, Option.bind_some]
  by_cases hshort : frame.length < ethHlen + arpHdrlen ∨
      frame.length < ethHlen + arpHdrlen + arp.datalen
  · exact ⟨_, if_pos hshort⟩
  rw [if_neg hshort]
  cases hvalid : validArp arp with
  | false => exact ⟨_, rfl⟩
  | true =>
    obtain ⟨hhl, hpl⟩ := hlens hvalid
    obtain ⟨-, -, -, hop⟩ := validArp_bounds hvalid
    simp only [if_true, dispatch]
    rcases hop with hop | hop
    · rw [if_pos hop, if_neg hfresh]
      have hreq : ReqProcessed cfg.devices cache eh arp env.src :=
        reqProcessed_of_fits hvalid hlisted hpl fun _ => ⟨hhl, fun _ => hhalen⟩
      obtain ⟨r, hr, -⟩ := hreq env.req
      exact ⟨_, handleReqMembers_refines hr⟩
    · rw [if_neg (fun hreq => arpopReply_ne (hop.symm.trans hreq)), if_pos hop]
      obtain ⟨hw, key, hrec, -⟩ := (replyProcessed_iff hvalid hlisted).2 ⟨hpl, hhl⟩
      simp only [handleReply, replyRecordMembers_refines hrec, bind, Option.bind_some]
      exact ⟨_, rfl⟩

/-! ## One step -/

theorem Offered.sound {w : World} {e : Event} (h : Offered cfg w e) : AcceptSound w e := by
  cases e with
  | accept sfd fresh =>
    unfold Offered at h
    split at h
    · obtain ⟨rset, heq⟩ := h
      cases heq
    · cases h
    · obtain ⟨c, env, -, heq⟩ := h
      unfold visitEvent at heq
      split at heq <;> cases heq
    · cases h
    · split at h
      · obtain ⟨sfd', fresh', heq, hpos, hfree, -⟩ := h
        cases heq
        exact Or.inr ⟨hpos, hfree⟩
      · cases h
    · split at h
      · obtain ⟨frame, env, heq, -⟩ := h
        cases heq
      · cases h
    · cases h
  | _ => trivial

theorem atHead_self {w : World} {rset : Int → Bool} {l : List Node}
    (hpc : w.pc = .sweep rset (l.head?.map Prod.fst)) : atHead w rset l = w := by
  rw [atHead, ← hpc]

/-- The event takes the daemon to a state from which less than `k` steps are left. -/
def Nearer (cfg : Config) (w : World) (e : Event) (k : Nat) : Prop :=
  ∃ w', step cfg w e = some w' ∧ ∃ j < k, Due w' j

section Places

variable {w : World} {rset : Int → Bool}

theorem nearer_select (hpc : w.pc = .select) (answer : Option (Int → Bool)) :
    Nearer cfg w (.select answer) (2 * w.cache.length + 4) := by
  cases answer with
  | none => exact ⟨{ w with pc := .halted }, by simp only [step, hpc], 0, by omega, rfl⟩
  | some rset =>
    exact ⟨{ w with pc := .sweep rset (w.cache.head?.map Prod.fst) }, by simp only [step, hpc],
      2 * w.cache.length + 3, by omega, [], w.cache, rfl, rfl, rfl⟩

/-- A visit of the entry `n`, whatever its client says. -/
theorem nearer_visit {l₁ l₂ : List Node} {n : Node} (hcache : w.cache = l₁ ++ n :: l₂)
    (hnodup : (addrs w.cache).Nodup) (env : AreqEnv) :
    Nearer cfg (atHead w rset (n :: l₂)) (visitEvent rset n.2 env)
      (2 * (n :: l₂).length + 3) := by
  rw [List.length_cons]
  by_cases hquiet : Quiet rset n
  · have htick : visitEvent rset n.2 env = .tick := by
      refine if_neg fun hvisit => ?_
      rcases hquiet with hcomplete | hunset
      · rw [hcomplete] at hvisit
        cases hvisit.1
      · rw [hunset] at hvisit
        cases hvisit.2
    rw [htick]
    exact ⟨_, step_quiet hcache hnodup hquiet, _, by omega, l₁ ++ [n], l₂,
      by simp [atHead, hcache], rfl, rfl⟩
  · obtain ⟨w', c, hcache', -, -, hstep⟩ := step_readable cfg hcache hnodup hquiet env
    rcases hstep with ⟨-, hstep⟩ | hstep
    · exact ⟨_, hstep, _, by omega, l₁ ++ [(n.1, c)], l₂, by simp [atHead, hcache'], rfl, rfl⟩
    · exact ⟨_, hstep, _, by omega, l₁, c, l₂, hcache', rfl, rfl⟩

theorem nearer_sweep {current : Option Addr} {k : Nat} {e : Event}
    (hnodup : (addrs w.cache).Nodup) (hpc : w.pc = .sweep rset current) (hdue : Due w k)
    (hoff : Offered cfg w e) : Nearer cfg w e k := by
  unfold Due at hdue
  unfold Offered at hoff
  rw [hpc] at hdue hoff
  obtain ⟨l₁, l₂, hcache, rfl, rfl⟩ := hdue
  cases l₂ with
  | nil =>
    obtain rfl : e = .tick := hoff
    exact ⟨{ w with pc := .accept rset }, by simp only [step, hpc]; rfl, 2, by simp, rfl⟩
  | cons n l₂ =>
    obtain ⟨c, env, hc, rfl⟩ := hoff
    rw [entryAt_current hcache hnodup] at hc
    cases hc
    have hvisit : Nearer cfg (atHead w rset (n :: l₂)) (visitEvent rset n.2 env) _ :=
      nearer_visit hcache hnodup env
    rwa [atHead_self hpc] at hvisit

theorem nearer_remove {rm : Addr} {next : Option Addr} {k : Nat} (hw : Consistent w)
    (hpc : w.pc = .remove rset rm next) (hdue : Due w k) : Nearer cfg w .tick k := by
  unfold Due at hdue
  rw [hpc] at hdue
  obtain ⟨l₁, c, l₂, hcache, rfl, rfl⟩ := hdue
  -- the entry is a client's, and declares no address
  obtain ⟨d, hd, hstate⟩ := hw.dying rm (by rw [hpc]; rfl)
  obtain rfl : d = c := entry_unique hw.cache.nodup hd (hcache ▸ by simp)
  have hhalen : d.hw.sllHalen ≤ 8 := by
    rw [(hw.cache.entry _ hd).blank hstate]
    decide
  obtain ⟨w', hstep, hcache'⟩ := step_drop cfg rset (n := (rm, d)) hcache hw.cache.nodup hhalen
  have hself : { w with pc := .remove rset rm (l₂.head?.map Prod.fst) } = w := by rw [← hpc]
  rw [hself] at hstep
  exact ⟨_, hstep, _, Nat.lt_succ_self _, _, l₂, hcache', rfl, rfl⟩

theorem nearer_accept {e : Event} (hfd : FdInv w.cache w.fds) (hpc : w.pc = .accept rset)
    (hoff : Offered cfg w e) : Nearer cfg w e 2 := by
  unfold Offered at hoff
  rw [hpc] at hoff
  dsimp only at hoff
  split at hoff
  · rename_i hset
    obtain ⟨sfd, fresh, rfl, hpos, hfree, hfresh⟩ := hoff
    have hmiss := getCacheBySocket_none.2 (hfd.not_held hpos hfree)
    have hstep : step cfg w (.accept sfd fresh) = stepAccept w rset sfd fresh := by
      simp only [step, hpc, hset, if_true]
    simp only [stepAccept, hmiss, if_neg hfresh] at hstep
    exact ⟨_, hstep, 1, by omega, rfl⟩
  · rename_i hset
    subst hoff
    exact ⟨{ w with pc := .packet rset }, by simp only [step, hpc, hset]; rfl, 1, by omega, rfl⟩

theorem nearer_packet {e : Event} (hpc : w.pc = .packet rset) (hoff : Offered cfg w e) :
    Nearer cfg w e 1 := by
  unfold Offered at hoff
  rw [hpc] at hoff
  dsimp only at hoff
  split at hoff
  · rename_i hset
    obtain ⟨frame, env, rfl, hframe⟩ := hoff
    cases frame with
    | none =>
      exact ⟨{ w with pc := .halted }, by simp only [step, hpc, hset, if_true], 0, by omega, rfl⟩
    | some frame =>
      obtain ⟨hfits, hlisted, hhalen, hfresh⟩ := hframe frame rfl
      obtain ⟨r, hr⟩ : ∃ r, handleFrame cfg w.cache frame env = some r :=
        handleFrame_fits hfits hlisted hhalen hfresh
      have hstep : step cfg w (.packet (some frame) env) = stepPacket cfg w frame env := by
        simp only [step, hpc, hset, if_true]
      simp only [stepPacket, hr, bind, Option.bind_some] at hstep
      exact ⟨_, hstep, 0, by omega, rfl⟩
  · rename_i hset
    subst hoff
    exact ⟨{ w with pc := .select }, by simp only [step, hpc, hset]; rfl, 0, by omega, rfl⟩

/-- Inside an iteration each answer takes the daemon nearer to its end. -/
theorem nearer_of_due {k : Nat} {e : Event} (hw : Consistent w)
    (hfd : FdInv w.cache w.fds) (hdue : Due w k) (hoff : Offered cfg w e)
    (hinside : ¬(w.pc = .select ∨ w.pc = .halted)) : Nearer cfg w e k := by
  cases hpc : w.pc with
  | select => exact absurd (Or.inl hpc) hinside
  | sweep rset current => exact nearer_sweep hw.cache.nodup hpc hdue hoff
  | remove rset rm next =>
    have htick : e = .tick := by
      unfold Offered at hoff
      rwa [hpc] at hoff
    exact htick ▸ nearer_remove hw hpc hdue
  | accept rset =>
    have hk : k = 2 := by
      unfold Due at hdue
      rwa [hpc] at hdue
    exact hk ▸ nearer_accept hfd hpc hoff
  | packet rset =>
    have hk : k = 1 := by
      unfold Due at hdue
      rwa [hpc] at hdue
    exact hk ▸ nearer_packet hpc hoff
  | halted => exact absurd (Or.inr hpc) hinside

end Places

/-! ## There is always an answer -/

/-- Only finitely many descriptors are open. -/
def FewOpen (w : World) : Prop := ∃ m : Int, ∀ x, m ≤ x → w.fds x = none

theorem Advance.fewOpen {w w' : World} {e : Event} (h : Advance cfg w e w') (hfew : FewOpen w) :
    FewOpen w' := by
  obtain ⟨m, hm⟩ := hfew
  have hmono : (∀ x k, w'.fds x = some k → w.fds x = some k) → FewOpen w' := by
    intro hfds
    refine ⟨m, fun x hx => ?_⟩
    cases hx' : w'.fds x with
    | none => rfl
    | some k =>
      have hold := hfds x k hx'
      rw [hm x hx] at hold
      cases hold
  cases h with
  | @accepted _ sfd fresh hpc hmiss hfresh =>
    refine ⟨max m (sfd + 1), fun x hx => ?_⟩
    have hne : x ≠ sfd := by omega
    dsimp only
    split
    · exact (if_neg hne).trans (hm x (by omega))
    · exact hm x (by omega)
  | moved => exact hmono fun _ _ hx => hx
  | dropped => exact hmono fun _ _ hx => hx
  | refused => exact hmono fun _ _ hx => hx
  | cached => exact hmono fun _ _ hx => hx
  | asked => exact hmono fun _ _ hx => hx
  | removed => exact hmono fun _ _ hx => perform_fds_mono hx
  | @packet _ _ _ cache effects =>
    exact hmono fun x k hx => performAll_fds_mono (w := { w with cache := cache }) hx

theorem exists_fresh (list : List Node) : ∃ a, a ∉ addrs list := by
  refine ⟨(addrs list).foldr max 0 + 1, fun hmem => ?_⟩
  have hle : ∀ l : List Addr, ∀ a ∈ l, a ≤ l.foldr max 0 := by
    intro l
    induction l with
    | nil => exact fun a ha => by cases ha
    | cons b l ih =>
      intro a ha
      rcases List.mem_cons.1 ha with rfl | ha
      · exact Nat.le_max_left _ _
      · exact Nat.le_trans (ih a ha) (Nat.le_max_right _ _)
  exact absurd (hle _ _ hmem) (Nat.not_succ_le_self _)

/-- The kernel can always answer. -/
theorem offered_exists {w : World} {k : Nat} (hnodup : (addrs w.cache).Nodup) (hfew : FewOpen w)
    (hdue : Due w k) (hpc : w.pc ≠ .halted) : ∃ e, Offered cfg w e := by
  unfold Offered
  unfold Due at hdue
  split
  · exact ⟨.select none, none, rfl⟩
  · exact ⟨.tick, rfl⟩
  · rename_i rset a hsweep
    simp only [hsweep] at hdue
    obtain ⟨l₁, l₂, hcache, hhead, -⟩ := hdue
    cases l₂ with
    | nil => cases hhead
    | cons n l₂ =>
      cases hhead
      exact ⟨_, n.2, ⟨none, true, fun _ => true⟩, entryAt_current hcache hnodup, rfl⟩
  · exact ⟨.tick, rfl⟩
  · split
    · obtain ⟨m, hm⟩ := hfew
      obtain ⟨fresh, hfresh⟩ := exists_fresh w.cache
      exact ⟨_, max m 1, fresh, rfl, by omega, hm _ (by omega), hfresh⟩
    · exact ⟨.tick, rfl⟩
  · split
    · exact ⟨.packet none ⟨⟨0, 0, 0, .zero 8⟩, ⟨.zero 4, true, 0⟩, fun _ => true⟩, none, _, rfl,
        fun bytes hbytes => by cases hbytes⟩
    · exact ⟨.tick, rfl⟩
  · rename_i hhalted
    exact absurd hhalted hpc

/-! ## Iterations -/

/-- What holds in every state of a run with such answers. -/
structure Running (cfg : Config) (w : World) : Prop where
  sound : (daemon cfg).Reachable AcceptSound w
  few : FewOpen w
  due : ∃ k, Due w k

theorem reachable_running {w : World} (h : (daemon cfg).Reachable (Offered cfg) w) :
    Running cfg w := by
  refine h.invariant (I := Running cfg) ⟨.refl _, ⟨0, fun _ _ => rfl⟩, 0, rfl⟩ ?_
  rintro w e w' ⟨hsound, hfew, k, hdue⟩ hoff hstep
  have hadv := step_cases cfg hstep
  refine ⟨hsound.step hoff.sound hstep, hadv.fewOpen hfew, ?_⟩
  have hnearer : ∃ k, Nearer cfg w e k := by
    by_cases hpc : w.pc = .select
    · have hoff' := hoff
      unfold Offered at hoff'
      rw [hpc] at hoff'
      obtain ⟨answer, rfl⟩ := hoff'
      exact ⟨_, nearer_select hpc answer⟩
    · refine ⟨k, nearer_of_due (reachable_consistent hsound) (reachable_fdInv hsound) hdue hoff ?_⟩
      rintro (hselect | hhalted)
      · exact hpc hselect
      · unfold Offered at hoff
        rw [hhalted] at hoff
        exact hoff
  obtain ⟨k, w'', hstep', j, -, hdue'⟩ := hnearer
  cases Option.some.inj (hstep.symm.trans hstep')
  exact ⟨j, hdue'⟩

/-- The end of an iteration. -/
def World.Between (w : World) : Prop := w.pc = .select ∨ w.pc = .halted

theorem due_ends {w : World} {k : Nat} (h : (daemon cfg).Reachable (Offered cfg) w)
    (hdue : Due w k) : (daemon cfg).Inevitable (Offered cfg) World.Between k w := by
  refine inevitable_of_rank (R := fun w k => (daemon cfg).Reachable (Offered cfg) w ∧ Due w k) ?_
    ⟨h, hdue⟩
  rintro w k ⟨hreach, hdue⟩
  by_cases hbetween : w.Between
  · exact Or.inl hbetween
  obtain ⟨hsound, hfew, -⟩ := reachable_running hreach
  have hw := reachable_consistent hsound
  refine Or.inr ⟨offered_exists hw.cache.nodup hfew hdue fun hhalted => hbetween (Or.inr hhalted), ?_⟩
  intro e hoff
  obtain ⟨w', hstep, j, hj, hdue'⟩ :=
    nearer_of_due hw (reachable_fdInv hsound) hdue hoff hbetween
  exact ⟨w', hstep, j, hj, hreach.step hoff hstep, hdue'⟩

theorem due_le {w : World} {k : Nat} (hdue : Due w k) : k ≤ 2 * w.cache.length + 3 := by
  unfold Due at hdue
  split at hdue
  · omega
  · obtain ⟨l₁, l₂, hcache, -, rfl⟩ := hdue
    simp only [hcache, List.length_append]
    omega
  · obtain ⟨l₁, c, l₂, hcache, -, rfl⟩ := hdue
    simp only [hcache, List.length_append, List.length_cons]
    omega
  · omega
  · omega
  · omega

/-- **Each iteration of `run_arp` comes to an end.** In every state of every run in which accepts
succeed and frames fit the structures, the kernel has an answer unless the loop was left; each answer
has a next state; and whatever the answers are, `select` is reached again, or the loop is left, after
at most two steps for each entry of the cache and four more. -/
theorem iteration_ends {w : World} (h : (daemon cfg).Reachable (Offered cfg) w)
    (hpc : w.pc ≠ .halted) :
    (daemon cfg).Goes (Offered cfg)
      ((daemon cfg).Inevitable (Offered cfg) World.Between (2 * w.cache.length + 3)) w := by
  obtain ⟨hsound, hfew, k, hdue⟩ := reachable_running h
  have hw := reachable_consistent hsound
  refine ⟨offered_exists hw.cache.nodup hfew hdue hpc, fun e hoff => ?_⟩
  have hnearer : Nearer cfg w e (2 * w.cache.length + 4) := by
    by_cases hselect : w.pc = .select
    · have hoff' := hoff
      unfold Offered at hoff'
      rw [hselect] at hoff'
      obtain ⟨answer, rfl⟩ := hoff'
      exact nearer_select hselect answer
    · obtain ⟨w', hstep, j, hj, hdue'⟩ := nearer_of_due hw (reachable_fdInv hsound) hdue hoff
        fun hbetween => hbetween.elim hselect hpc
      exact ⟨w', hstep, j, Nat.lt_of_lt_of_le hj (Nat.le_succ_of_le (due_le hdue)), hdue'⟩
  obtain ⟨w', hstep, j, hj, hdue'⟩ := hnearer
  exact ⟨w', hstep, (due_ends (h.step hoff hstep) hdue').mono (Nat.le_of_lt_succ hj)⟩

/-- The iteration that begins when the daemon has started. -/
theorem iteration_ends_first : (daemon loneHost).Goes (Offered loneHost)
    ((daemon loneHost).Inevitable (Offered loneHost) World.Between 3) .init :=
  iteration_ends (.refl _) fun hpc => by cases hpc

end Tour
