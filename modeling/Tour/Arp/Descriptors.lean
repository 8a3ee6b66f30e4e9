import Tour.Arp.Consistency

/-!
# Which entry holds which descriptor

`run_arp` closes the descriptor of one entry but lets the cache remove by content. When every
`accept` fails or is fresh (`AcceptSound`) the positive descriptors held by entries are open and
distinct (`FdInv`). That every open descriptor is held (`Held`) needs more: that every `accept`
succeeds (`AcceptFresh`), and that the first entry that looks like a dropped one is the dropped one
(`DropsItself`). `no_client_lost` is the result, and `client_lost` the run that breaks it without
`DropsItself`.
-/

namespace Tour

open Lib Machine

/-! ## One completion at a time -/

/-- The entry that a reply leaves. -/
def Cache.answer (new : Hwaddr) (c : Cache) : Cache := ⟨c.ipaddress, -1, .complete, new⟩

/-- `handle_reply` for one matching entry. -/
def World.complete (w : World) (n : Node) (new : Hwaddr) (ok : Bool) : World :=
  { (w.perform (.send n.2.domainSocket new ok)).perform (.close n.2.domainSocket) with
    cache := updateAt w.cache n.1 (Cache.answer new) }

theorem World.perform_setCache (w : World) (cache : List Node) (e : Effect) :
    ({ w with cache := cache }).perform e = { w.perform e with cache := cache } := by
  cases e <;> simp only [perform] <;> split <;> rfl

/-- The reply loop keeps what completing one waiting entry keeps. -/
theorem replyLoop_invariant {P : World → Prop} {ip : Sockaddr} {new : Hwaddr}
    {sendOk : Addr → Bool}
    (hstep : ∀ w n ok, P w → (addrs w.cache).Nodup → n ∈ w.cache → n.2.ipaddress = ip →
      n.2.state = .incomplete → P (w.complete n new ok))
    (ns done : List Node) (w : World) (hcache : w.cache = done ++ ns)
    (hnodup : (addrs w.cache).Nodup) (hP : P w) :
    P (World.performAll { w with cache := done ++ (replyLoop ip new sendOk ns).1 }
      (replyLoop ip new sendOk ns).2) := by
  induction ns generalizing done w with
  | nil =>
    have : ({ w with cache := done ++ [] } : World) = w := by rw [← hcache]
    exact this ▸ hP
  | cons n ns ih =>
    unfold replyLoop
    dsimp only
    split
    · rename_i hmatch
      have hn : n ∈ w.cache := by rw [hcache]; simp
      have hupd := updateAt_middle (f := Cache.answer new) (hcache ▸ hnodup)
      have hcache' : (w.complete n new (sendOk n.1)).cache =
          (done ++ [(n.1, n.2.answer new)]) ++ ns := by
        rw [World.complete, hcache, hupd, List.append_assoc, List.singleton_append]
      have hnodup' : (addrs (w.complete n new (sendOk n.1)).cache).Nodup := by
        rw [World.complete, addrs_updateAt]; exact hnodup
      have hrest := ih _ _ hcache' hnodup' (hstep w n _ hP hnodup hn hmatch.1 hmatch.2)
      rw [List.append_assoc, List.singleton_append] at hrest
      rw [World.performAll_cons, World.performAll_cons, World.perform_setCache w,
        World.perform_setCache (w.perform _)]
      exact hrest
    · have hrest := ih (done ++ [n]) w (by rw [hcache, List.append_assoc, List.singleton_append])
        hnodup hP
      rw [List.append_assoc, List.singleton_append] at hrest
      exact hrest

/-- What a frame preserves: a property of the state that does not depend on the frames emitted, and
that an entry learnt and an entry completed keep. -/
theorem FrameCase.preserves {P : World → Prop} {w : World} {cache : List Node}
    {effects : List Effect} (h : FrameCase w.cache cache effects) (hnodup : (addrs w.cache).Nodup)
    (hemit : ∀ w obs, (∀ o ∈ obs, ∃ frame, o = .emitted frame) → P w →
      P { w with log := obs ++ w.log })
    (hlearn : ∀ w fresh ip hw, P w → fresh ∉ addrs w.cache →
      P { w with cache := addToCache w.cache (fresh, ⟨ip, 0, .complete, hw⟩) })
    (hcomplete : ∀ w n new ok, P w → (addrs w.cache).Nodup → n ∈ w.cache →
      n.2.state = .incomplete → P (w.complete n new ok))
    (hP : P w) : P (({ w with cache := cache } : World).performAll effects) := by
  cases h with
  | kept hframes =>
    obtain ⟨obs, hobs, hrun⟩ := World.performAll_frames { w with cache := w.cache } _ hframes
    rw [hrun]
    refine hemit w obs (fun o ho => ?_) hP
    obtain ⟨i, frame, -, rfl⟩ := hobs o ho
    exact ⟨frame, rfl⟩
  | learnt hframes hfresh =>
    obtain ⟨obs, hobs, hrun⟩ := World.performAll_frames { w with cache := addToCache w.cache _ } _
      hframes
    rw [hrun]
    refine hemit _ obs (fun o ho => ?_) (hlearn w _ _ _ hP hfresh)
    obtain ⟨i, frame, -, rfl⟩ := hobs o ho
    exact ⟨frame, rfl⟩
  | completed =>
    exact replyLoop_invariant (fun w n ok hP hnodup hn _ => hcomplete w n _ ok hP hnodup hn)
      w.cache [] w rfl hnodup hP

/-! ## Descriptors -/

/-- `accept` yields a fresh positive descriptor. -/
def AcceptFresh (w : World) : Event → Prop
  | .accept sfd _ => 0 < sfd ∧ w.fds sfd = none
  | _ => True

/-- `accept` fails with -1 or yields a fresh positive descriptor. -/
def AcceptSound (w : World) : Event → Prop
  | .accept sfd _ => sfd = -1 ∨ (0 < sfd ∧ w.fds sfd = none)
  | _ => True

theorem AcceptFresh.sound {w : World} {e : Event} (h : AcceptFresh w e) : AcceptSound w e := by
  cases e with
  | accept => exact Or.inr h
  | _ => trivial

instance (w : World) : (e : Event) → Decidable (AcceptFresh w e)
  | .accept _ _ => instDecidableAnd
  | .select _ | .tick | .areq _ | .packet _ _ => .isTrue trivial

instance (w : World) : (e : Event) → Decidable (AcceptSound w e)
  | .accept _ _ => instDecidableOr
  | .select _ | .tick | .areq _ | .packet _ _ => .isTrue trivial

/-- The kernel's table after `close(fd)`. -/
def closeFd (fds : Int → Option Conn) (fd : Int) : Int → Option Conn :=
  fun x => if x = fd then none else fds x

@[simp] theorem perform_close_fds (w : World) (fd : Int) :
    (w.perform (.close fd)).fds = closeFd w.fds fd := by
  simp only [World.perform]
  split
  · rfl
  · rename_i hnone
    funext x
    by_cases hx : x = fd
    · rw [hx, hnone]; exact (if_pos rfl).symm
    · simp only [closeFd, if_neg hx]

@[simp] theorem perform_send_fds (w : World) (fd : Int) (hw : Hwaddr) (ok : Bool) :
    (w.perform (.send fd hw ok)).fds = w.fds := by
  simp only [World.perform]
  split <;> rfl

theorem complete_fds (w : World) (n : Node) (new : Hwaddr) (ok : Bool) :
    (w.complete n new ok).fds = closeFd w.fds n.2.domainSocket := by
  rw [World.complete, perform_close_fds, perform_send_fds]

/-- What the descriptor fields of the entries say about the kernel's table. -/
structure FdInv (cache : List Node) (fds : Int → Option Conn) : Prop where
  positive : ∀ f k, fds f = some k → 0 < f
  live : ∀ n ∈ cache, 0 < n.2.domainSocket →
    n.2.state ≠ .complete ∧ ∃ k, fds n.2.domainSocket = some k
  idle : ∀ n ∈ cache, n.2.state ≠ .complete → n.2.domainSocket ≤ 0 → n.2.domainSocket = -1
  distinct : ∀ n ∈ cache, ∀ m ∈ cache, 0 < n.2.domainSocket →
    n.2.domainSocket = m.2.domainSocket → n = m

namespace FdInv

variable {cache : List Node} {fds : Int → Option Conn} {a : Addr} {c : Cache} {f : Cache → Cache}

theorem nil : FdInv [] fun _ => none where
  positive _ _ h := by cases h
  live := List.forall_mem_nil _
  idle := List.forall_mem_nil _
  distinct := List.forall_mem_nil _

theorem sublist {cache' : List Node} (h : FdInv cache fds) (hsub : cache'.Sublist cache) :
    FdInv cache' fds where
  positive := h.positive
  live n hn := h.live n (hsub.subset hn)
  idle n hn := h.idle n (hsub.subset hn)
  distinct n hn m hm := h.distinct n (hsub.subset hn) m (hsub.subset hm)

/-- A descriptor that is not open is held by no entry. -/
theorem not_held {sfd : Int} (h : FdInv cache fds) (hpos : 0 < sfd) (hfree : fds sfd = none) :
    ∀ n ∈ cache, n.2.domainSocket ≠ sfd := by
  rintro n hn rfl
  obtain ⟨-, k, hk⟩ := h.live n hn hpos
  rw [hfree] at hk
  cases hk

theorem accept {sfd : Int} {k : Conn} (h : FdInv cache fds) (hpos : 0 < sfd)
    (hfree : fds sfd = none) :
    FdInv (addToCache cache (a, freshEntry sfd)) fun x => if x = sfd then some k else fds x where
  positive x j hx := by
    split at hx
    · rename_i heq; rw [heq]; exact hpos
    · exact h.positive x j hx
  live := by
    refine List.forall_mem_cons.2 ⟨fun _ => ⟨by simp [freshEntry], k, if_pos rfl⟩, ?_⟩
    intro n hn hn0
    rw [if_neg (h.not_held hpos hfree n hn)]
    exact h.live n hn hn0
  idle := List.forall_mem_cons.2 ⟨fun _ hle => absurd hpos (Int.not_lt.2 hle), h.idle⟩
  distinct := by
    intro n hn m hm hn0 heq
    rcases List.mem_cons.1 hn with rfl | hn <;> rcases List.mem_cons.1 hm with rfl | hm
    · rfl
    · exact absurd heq.symm (h.not_held hpos hfree m hm)
    · exact absurd heq (h.not_held hpos hfree n hn)
    · exact h.distinct n hn m hm hn0 heq

theorem acceptFailed (h : FdInv cache fds) : FdInv (addToCache cache (a, freshEntry (-1))) fds where
  positive := h.positive
  live := List.forall_mem_cons.2 ⟨fun hpos => (by cases hpos), h.live⟩
  idle := List.forall_mem_cons.2 ⟨fun _ _ => rfl, h.idle⟩
  distinct := by
    intro x hx y hy hx0 heq
    rcases List.mem_cons.1 hx with rfl | hx
    · cases hx0
    rcases List.mem_cons.1 hy with rfl | hy
    · rw [heq] at hx0; cases hx0
    · exact h.distinct x hx y hy hx0 heq

theorem learn {n : Node} (h : FdInv cache fds) (hstate : n.2.state = .complete)
    (hfd : n.2.domainSocket = 0) : FdInv (addToCache cache n) fds where
  positive := h.positive
  live := List.forall_mem_cons.2 ⟨fun hpos => by simp [hfd] at hpos, h.live⟩
  idle := List.forall_mem_cons.2 ⟨fun hne => absurd hstate hne, h.idle⟩
  distinct := by
    intro x hx y hy hx0 heq
    rcases List.mem_cons.1 hx with rfl | hx
    · simp [hfd] at hx0
    rcases List.mem_cons.1 hy with rfl | hy
    · rw [heq, hfd] at hx0; cases hx0
    · exact h.distinct x hx y hy hx0 heq

theorem ask (h : FdInv cache fds) (hnodup : (addrs cache).Nodup) (hc : (a, c) ∈ cache)
    (hstate : c.state ≠ .complete) (hstate' : (f c).state ≠ .complete)
    (hfd : (f c).domainSocket = c.domainSocket) : FdInv (updateAt cache a f) fds := by
  -- every new node has an old one at its address with its descriptor
  have hold : ∀ n ∈ updateAt cache a f, ∃ d, (n.1, d) ∈ cache ∧
      d.domainSocket = n.2.domainSocket ∧ (n.2.state ≠ .complete ↔ d.state ≠ .complete) := by
    intro n hn
    rcases mem_updateAt.1 hn with ⟨hn, -⟩ | ⟨d, hd, rfl⟩
    · exact ⟨n.2, hn, rfl, Iff.rfl⟩
    · cases entry_unique hnodup hc hd
      exact ⟨c, hc, hfd.symm, by simp [hstate, hstate']⟩
  refine ⟨h.positive, ?_, ?_, ?_⟩
  · intro n hn hpos
    obtain ⟨d, hd, heq, hiff⟩ := hold n hn
    rw [← heq] at hpos
    obtain ⟨hs, k, hk⟩ := h.live _ hd hpos
    exact ⟨hiff.2 hs, k, heq ▸ hk⟩
  · intro n hn hs hle
    obtain ⟨d, hd, heq, hiff⟩ := hold n hn
    exact heq ▸ h.idle _ hd (hiff.1 hs) (heq ▸ hle)
  · intro n hn m hm hpos heq
    obtain ⟨d, hd, hdn, -⟩ := hold n hn
    obtain ⟨d', hd', hdm, -⟩ := hold m hm
    have := h.distinct _ hd _ hd' (by rw [hdn]; exact hpos) (by rw [hdn, hdm]; exact heq)
    have hnodup' : (addrs (updateAt cache a f)).Nodup := by rw [addrs_updateAt]; exact hnodup
    exact node_unique hnodup' hn hm (Prod.mk.inj this).1

/-- Closing the descriptor of an entry and storing -1 over it. -/
theorem close (h : FdInv cache fds) (hnodup : (addrs cache).Nodup) (hc : (a, c) ∈ cache)
    (hfd : (f c).domainSocket = -1) : FdInv (updateAt cache a f) (closeFd fds c.domainSocket) := by
  have hold : ∀ n ∈ updateAt cache a f, 0 < n.2.domainSocket → n ∈ cache ∧ n.1 ≠ a := by
    intro n hn hpos
    rcases mem_updateAt.1 hn with hn | ⟨d, hd, rfl⟩
    · exact hn
    · cases entry_unique hnodup hc hd
      rw [hfd] at hpos
      cases hpos
  refine ⟨?_, ?_, ?_, ?_⟩
  · intro x k hx
    unfold closeFd at hx
    split at hx
    · cases hx
    · exact h.positive x k hx
  · intro n hn hpos
    obtain ⟨hmem, hne⟩ := hold n hn hpos
    obtain ⟨hs, k, hk⟩ := h.live n hmem hpos
    refine ⟨hs, k, ?_⟩
    rw [closeFd, if_neg, hk]
    intro heq
    exact hne (congrArg Prod.fst (h.distinct n hmem _ hc hpos heq))
  · intro n hn hs hle
    rcases mem_updateAt.1 hn with ⟨hn, -⟩ | ⟨d, hd, rfl⟩
    · exact h.idle n hn hs hle
    · cases entry_unique hnodup hc hd
      exact hfd
  · intro n hn m hm hpos heq
    exact h.distinct n (hold n hn hpos).1 m (hold m hm (heq ▸ hpos)).1 hpos heq

end FdInv

/-! ## Runs -/

variable {cfg : Config}

theorem Advance.fdInv {w w' : World} {e : Event} (h : Advance cfg w e w') (hg : AcceptSound w e)
    (hw : Consistent w) (hfd : FdInv w.cache w.fds) : FdInv w'.cache w'.fds := by
  cases h with
  | moved => exact hfd
  | dropped => exact hfd
  | refused => exact hfd
  | cached => exact hfd
  | @asked _ _ _ _ _ _ msg _ _ _ _ hc hstate =>
    exact hfd.ask (f := fun c => { c with state := .incomplete, ipaddress := .ofBytes msg })
      hw.cache.nodup hc (by simp [hstate]) (by simp) rfl
  | removed hpc hc =>
    rw [perform_close_fds]
    exact (hfd.close hw.cache.nodup (entryAt_some hc) rfl).sublist removeFromCache_sublist
  | accepted hpc hmiss hfresh =>
    rcases hg with rfl | ⟨hpos, hfree⟩
    · exact hfd.acceptFailed
    · simp only [if_pos (Int.le_of_lt hpos)]
      exact hfd.accept hpos hfree
  | @packet _ _ _ cache effects _ hframe =>
    have hcase : FrameCase w.cache cache effects := handleFrame_cases cfg hframe
    refine hcase.preserves (P := fun w => FdInv w.cache w.fds) hw.cache.nodup
      (fun w obs _ hfd => hfd) (fun w fresh ip hw hfd _ => hfd.learn rfl rfl) ?_ hfd
    intro w n new ok hfd hnodup hn _
    rw [complete_fds]
    exact hfd.close (f := Cache.answer new) hnodup hn rfl

theorem reachable_fdInv {w : World} (h : (daemon cfg).Reachable AcceptSound w) :
    FdInv w.cache w.fds :=
  h.invariant_under (J := Consistent) (I := fun w => FdInv w.cache w.fds)
    (fun _ hs => reachable_consistent hs) .nil
    fun _ _ _ hw hfd hg hs => (step_cases cfg hs).fdInv hg hw hfd

/-! ## No client is lost when the sweep drops the entry it meant -/

/-- The first entry that looks like the one about to be dropped is that entry itself. -/
def DropsItself (w : World) : Prop :=
  ∀ rm ∈ w.pc.dying, ∀ c ∈ entryAt w.cache rm,
    w.cache.find? (fun n => isSameCache n (rm, c)) = some (rm, c)

instance (w : World) : Decidable (DropsItself w) := by unfold DropsItself; infer_instance

/-- Every entry that is not complete holds a descriptor, and every open one is held. -/
structure Held (cache : List Node) (fds : Int → Option Conn) : Prop where
  pending : ∀ n ∈ cache, n.2.state ≠ .complete → 0 < n.2.domainSocket
  held : ∀ f k, fds f = some k → ∃ n ∈ cache, n.2.state ≠ .complete ∧ n.2.domainSocket = f

namespace Held

variable {cache cache' : List Node} {fds : Int → Option Conn} {a : Addr} {c : Cache}

theorem nil : Held [] fun _ => none where
  pending := List.forall_mem_nil _
  held _ _ h := by cases h

theorem accept {sfd : Int} {k : Conn} (h : Held cache fds) (hpos : 0 < sfd) :
    Held (addToCache cache (a, freshEntry sfd)) fun x => if x = sfd then some k else fds x where
  pending := List.forall_mem_cons.2 ⟨fun _ => hpos, h.pending⟩
  held f j hf := by
    split at hf
    · rename_i heq
      exact ⟨_, List.mem_cons_self, by simp [freshEntry], heq.symm⟩
    · obtain ⟨n, hn, hrest⟩ := h.held f j hf
      exact ⟨n, List.mem_cons_of_mem _ hn, hrest⟩

theorem learn {n : Node} (h : Held cache fds) (hstate : n.2.state = .complete) :
    Held (addToCache cache n) fds where
  pending := List.forall_mem_cons.2 ⟨fun hne => absurd hstate hne, h.pending⟩
  held f k hf := by
    obtain ⟨m, hm, hrest⟩ := h.held f k hf
    exact ⟨m, List.mem_cons_of_mem _ hm, hrest⟩

theorem ask {f : Cache → Cache} (h : Held cache fds) (hnodup : (addrs cache).Nodup)
    (hc : (a, c) ∈ cache) (hstate : c.state ≠ .complete) (hstate' : (f c).state ≠ .complete)
    (hfd : (f c).domainSocket = c.domainSocket) : Held (updateAt cache a f) fds where
  pending n hn hs := by
    rcases mem_updateAt.1 hn with ⟨hn, -⟩ | ⟨d, hd, rfl⟩
    · exact h.pending n hn hs
    · cases entry_unique hnodup hc hd
      rw [hfd]
      exact h.pending _ hc hstate
  held x k hx := by
    obtain ⟨n, hn, hs, heq⟩ := h.held x k hx
    by_cases hna : n.1 = a
    · obtain rfl : n = (a, c) := node_unique hnodup hn hc hna
      exact ⟨_, mem_updateAt_self hc, hstate', hfd.trans heq⟩
    · exact ⟨n, mem_updateAt.2 (Or.inl ⟨hn, hna⟩), hs, heq⟩

/-- Closing the descriptor of one entry, when exactly that entry stops waiting. -/
theorem close (h : Held cache fds) (hnodup : (addrs cache).Nodup) (hc : (a, c) ∈ cache)
    (hkeep : ∀ n ∈ cache, n.1 ≠ a → n ∈ cache')
    (hnew : ∀ n ∈ cache', n.2.state ≠ .complete → n ∈ cache) :
    Held cache' (closeFd fds c.domainSocket) where
  pending n hn hs := h.pending n (hnew n hn hs) hs
  held x k hx := by
    unfold closeFd at hx
    split at hx
    · cases hx
    rename_i hne
    obtain ⟨n, hn, hs, heq⟩ := h.held x k hx
    refine ⟨n, hkeep n hn ?_, hs, heq⟩
    intro hna
    obtain rfl : n = (a, c) := node_unique hnodup hn hc hna
    exact hne heq.symm

end Held

/-- The removal of an entry that is the first of its looks deletes that entry and no other. -/
theorem removeFromCache_itself {list : List Node} {rm : Addr} {c : Cache}
    (hnodup : (addrs list).Nodup)
    (hfirst : list.find? (fun n => isSameCache n (rm, c)) = some (rm, c)) (n : Node) :
    n ∈ removeFromCache (updateAt list rm fun c => { c with domainSocket := -1 })
      (rm, { c with domainSocket := -1 }) ↔ n ∈ list ∧ n.1 ≠ rm := by
  obtain ⟨hsame, l₁, l₂, rfl, hno⟩ := List.find?_eq_some_iff_append.1 hfirst
  have hdrop : removeFromCache (updateAt (l₁ ++ (rm, c) :: l₂) rm
      fun c => { c with domainSocket := -1 }) (rm, { c with domainSocket := -1 }) = l₁ ++ l₂ := by
    rw [updateAt_middle hnodup, removeFromCache, List.eraseP_append_right, List.eraseP_cons_of_pos]
    · exact isSameCache_self _
    · intro m hm hcontra
      have := hno m hm
      rw [show isSameCache m (rm, c) = true from hcontra] at this
      cases this
  rw [addrs_append, addrs_cons, List.nodup_middle, List.nodup_cons, List.mem_append, not_or] at hnodup
  have hne : ∀ l : List Node, rm ∉ addrs l → ∀ m ∈ l, m.1 ≠ rm := by
    rintro l hl m hm rfl
    exact hl (List.mem_map_of_mem hm)
  rw [hdrop, List.mem_append, List.mem_append, List.mem_cons]
  constructor
  · rintro (hn | hn)
    · exact ⟨Or.inl hn, hne l₁ hnodup.1.1 n hn⟩
    · exact ⟨Or.inr (Or.inr hn), hne l₂ hnodup.1.2 n hn⟩
  · rintro ⟨hn | rfl | hn, hnrm⟩
    · exact Or.inl hn
    · exact absurd rfl hnrm
    · exact Or.inr hn

theorem Advance.held {w w' : World} {e : Event} (h : Advance cfg w e w') (hg : AcceptFresh w e)
    (hdrop : DropsItself w) (hw : Consistent w) (hheld : Held w.cache w.fds) :
    Held w'.cache w'.fds := by
  cases h with
  | moved => exact hheld
  | dropped => exact hheld
  | refused => exact hheld
  | cached => exact hheld
  | @asked _ _ _ _ _ _ msg _ _ _ _ hc hstate =>
    exact hheld.ask (f := fun c => { c with state := .incomplete, ipaddress := .ofBytes msg })
      hw.cache.nodup hc (by simp [hstate]) (by simp) rfl
  | @removed _ rm _ c hpc hc =>
    have hmem := entryAt_some hc
    have hitself := removeFromCache_itself hw.cache.nodup (hdrop rm (by rw [hpc]; rfl) c hc)
    rw [perform_close_fds]
    exact hheld.close hw.cache.nodup hmem (fun n hn hne => (hitself n).2 ⟨hn, hne⟩)
      fun n hn _ => ((hitself n).1 hn).1
  | accepted hpc hmiss hfresh =>
    simp only [if_pos (Int.le_of_lt hg.1)]
    exact hheld.accept hg.1
  | @packet _ _ _ cache effects _ hframe =>
    have hcase : FrameCase w.cache cache effects := handleFrame_cases cfg hframe
    refine hcase.preserves (P := fun w => Held w.cache w.fds) hw.cache.nodup
      (fun w obs _ hheld => hheld) (fun w fresh ip hw hheld _ => hheld.learn rfl) ?_ hheld
    intro w n new ok hheld hnodup hn _
    rw [complete_fds]
    refine hheld.close hnodup hn (fun m hm hne => mem_updateAt.2 (Or.inl ⟨hm, hne⟩)) ?_
    intro m hm hs
    rcases mem_updateAt.1 hm with ⟨hm, -⟩ | ⟨d, -, rfl⟩
    · exact hm
    · exact absurd rfl hs

/-- At the top of an iteration nothing is lost: every entry that is not complete holds an open
descriptor, no two hold the same, and every open descriptor is held by exactly one. -/
structure NoneLost (w : World) : Prop where
  pending : ∀ n ∈ w.cache, n.2.state ≠ .complete →
    0 ≤ n.2.domainSocket ∧ (w.fds n.2.domainSocket).isSome
  distinct : ∀ n ∈ w.cache, ∀ m ∈ w.cache, n.2.state ≠ .complete → m.2.state ≠ .complete →
    n.2.domainSocket = m.2.domainSocket → n = m
  held : ∀ f, (w.fds f).isSome →
    ∃! n, n ∈ w.cache ∧ n.2.state ≠ .complete ∧ n.2.domainSocket = f

/-- **No client connection is lost** in a run in which every drop removes the entry it meant, and
then a drop removes nothing else. -/
theorem no_client_lost {w : World}
    (h : (daemon cfg).Reachable (fun w e => AcceptFresh w e ∧ DropsItself w) w) :
    NoneLost w ∧ ∀ rm w', w.pc.dying = some rm → DropsItself w → step cfg w .tick = some w' →
      ∀ n, n ∈ w'.cache ↔ n ∈ w.cache ∧ n.1 ≠ rm := by
  have hw := reachable_consistent h
  have hfd := reachable_fdInv (h.mono fun _ _ hg => hg.1.sound)
  have hheld : Held w.cache w.fds :=
    h.invariant_under (J := Consistent) (I := fun w => Held w.cache w.fds)
      (fun _ hs => reachable_consistent hs) .nil
      fun _ _ _ hw hheld hg hs => (step_cases cfg hs).held hg.1 hg.2 hw hheld
  refine ⟨⟨?_, ?_, ?_⟩, ?_⟩
  · intro n hn hs
    have hpos := hheld.pending n hn hs
    obtain ⟨-, k, hk⟩ := hfd.live n hn hpos
    exact ⟨Int.le_of_lt hpos, by rw [hk]; rfl⟩
  · intro n hn m hm hs _ heq
    exact hfd.distinct n hn m hm (hheld.pending n hn hs) heq
  · intro f hf
    obtain ⟨k, hk⟩ := Option.isSome_iff_exists.1 hf
    obtain ⟨n, hn, hs, rfl⟩ := hheld.held f k hk
    refine ⟨n, ⟨hn, hs, rfl⟩, ?_⟩
    rintro m ⟨hm, hms, heq⟩
    exact hfd.distinct m hm n hn (hheld.pending m hm hms) heq
  · intro rm w' hdying hdrop hs n
    cases step_cases cfg hs with
    | moved hfrom => rw [hfrom] at hdying; cases hdying
    | dropped hpc => rw [hpc] at hdying; cases hdying
    | removed hpc hc =>
      rw [hpc] at hdying
      cases hdying
      exact removeFromCache_itself hw.cache.nodup (hdrop _ (by rw [hpc]; rfl) _ hc) n

/-- Two clients connect, one after the other. -/
def twoClients : List Event :=
  [readable [3], .tick, .accept 5 100, .tick, readable [3], .tick, .tick, .accept 6 200, .tick]

/-- The sweep when the client on descriptor 6, the newer one, closes without a question. -/
def newerCloses : List Event :=
  [readable [6], .areq ⟨none, true, fun _ => true⟩, .tick, .tick, .tick, .tick, .tick]

/-- The sweep when the client on descriptor 5, the older one, closes without a question. -/
def olderCloses : List Event :=
  [readable [5], .tick, .areq ⟨none, true, fun _ => true⟩, .tick, .tick, .tick, .tick]

/-- The entry of the newer client hides the other from no removal. -/
theorem no_client_lost_newer : ∃ w,
    (daemon loneHost).guardedRun (fun w e => AcceptFresh w e ∧ DropsItself w) .init
      (twoClients ++ newerCloses) = some w ∧ NoneLost w :=
  ⟨_, rfl, (no_client_lost (.of_guardedRun (twoClients ++ newerCloses) rfl :
    (daemon loneHost).Reachable _ _)).1⟩

/-- When the older client closes, its entry is left with the descriptor -1 and the entry of the
newer one, whose connection is open, is gone. -/
theorem client_lost :
    ¬∀ (cfg : Config) (w : World), (daemon cfg).Reachable AcceptFresh w → w.pc = .select →
      NoneLost w := by
  intro h
  obtain ⟨w, hrun⟩ := Option.isSome_iff_exists.1
    (show ((daemon loneHost).guardedRun AcceptFresh .init (twoClients ++ olderCloses)).isSome
      from rfl)
  have hpc : w.pc = .select := by cases hrun; rfl
  have hmem : (100, freshEntry (-1)) ∈ w.cache := by cases hrun; exact List.mem_singleton.2 rfl
  have hlost := (h loneHost w (Steps.of_guardedRun hrun) hpc).pending _ hmem (by decide)
  exact absurd hlost.1 (by decide)

end Tour
