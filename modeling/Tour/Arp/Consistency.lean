import Tour.Arp.Daemon

/-!
# The cache of the daemon is consistent

`CacheInv`: what an entry holds follows from its state, and the entries for one address agree. The
invariant is a property of the list alone; each way in which the daemon changes the list keeps it
(`CacheInv.add`, `CacheInv.update`, `CacheInv.replyLoop`, `CacheInv.sublist`), and keeps every entry
that is complete. From that, once per step: `Advance.consistent` and `Advance.keeps`.
-/

namespace Tour

open Lib Machine

/-- What an entry holds in each state. -/
structure EntryInv (c : Cache) : Prop where
  blank : c.state ≠ .complete → c.hw = .zero
  unasked : c.state = .connection → c.ipaddress = .zero
  asked : c.state ≠ .connection → c.ipaddress.saFamily = afInet

/-- Two entries that do not contradict one another. -/
def Agree (c d : Cache) : Prop :=
  c.ipaddress = d.ipaddress → c.ipaddress.saFamily = afInet → c.state = d.state ∧ c.hw = d.hw

theorem Agree.symm {c d : Cache} (h : Agree c d) : Agree d c := by
  intro hip hfam
  obtain ⟨hstate, hhw⟩ := h hip.symm (by rw [← hip]; exact hfam)
  exact ⟨hstate.symm, hhw.symm⟩

/-- The invariant of the cache. -/
structure CacheInv (cache : List Node) : Prop where
  nodup : (addrs cache).Nodup
  entry : ∀ n ∈ cache, EntryInv n.2
  agree : ∀ n ∈ cache, ∀ m ∈ cache, Agree n.2 m.2

/-- The complete entries of one cache are in the other, unchanged. -/
def Keeps (cache cache' : List Node) : Prop :=
  ∀ n ∈ cache, n.2.state = .complete → n ∈ cache'

theorem Keeps.refl (cache : List Node) : Keeps cache cache := fun _ hn _ => hn

theorem EntryInv.family {c : Cache} (h : EntryInv c) :
    c.ipaddress.saFamily = afInet ↔ c.state ≠ .connection := by
  constructor
  · intro hfam hstate
    rw [h.unasked hstate] at hfam
    revert hfam
    decide
  · exact h.asked

/-- A blank entry declares no bytes to compare. -/
theorem comparesInside_blank {list : List Node} {a : Addr} {c : Cache} (h : c.hw = .zero) (fd : Int) :
    ComparesInside list (a, { c with domainSocket := fd }) :=
  Or.inl (by rw [h]; decide)

theorem entryInv_calloc (sfd : Int) : EntryInv (freshEntry sfd) where
  blank _ := rfl
  unasked _ := rfl
  asked h := absurd rfl h

namespace CacheInv

variable {cache : List Node}

theorem nil : CacheInv [] where
  nodup := List.nodup_nil
  entry := List.forall_mem_nil _
  agree := List.forall_mem_nil _

theorem add {n : Node} (h : CacheInv cache) (hfresh : n.1 ∉ addrs cache) (hn : EntryInv n.2)
    (hagree : ∀ m ∈ cache, Agree n.2 m.2) : CacheInv (addToCache cache n) where
  nodup := by
    rw [addToCache, addrs_cons, List.nodup_cons]
    exact ⟨hfresh, h.nodup⟩
  entry := List.forall_mem_cons.2 ⟨hn, h.entry⟩
  agree := by
    refine List.forall_mem_cons.2 ⟨List.forall_mem_cons.2 ⟨fun _ _ => ⟨rfl, rfl⟩, hagree⟩, ?_⟩
    exact fun x hx => List.forall_mem_cons.2 ⟨(hagree x hx).symm, h.agree x hx⟩

/-- A store into one entry. -/
theorem update {a : Addr} {c : Cache} {f : Cache → Cache} (h : CacheInv cache)
    (hc : (a, c) ∈ cache) (hf : EntryInv (f c))
    (hagree : ∀ m ∈ cache, m.1 ≠ a → Agree (f c) m.2) : CacheInv (updateAt cache a f) := by
  have hat : ∀ d, (a, d) ∈ cache → d = c := fun d hd => entry_unique h.nodup hd hc
  refine ⟨by rw [addrs_updateAt]; exact h.nodup, ?_, ?_⟩
  · intro n hn
    rcases mem_updateAt.1 hn with ⟨hn, -⟩ | ⟨d, hd, rfl⟩
    · exact h.entry n hn
    · rw [hat d hd]; exact hf
  · intro x hx y hy
    rcases mem_updateAt.1 hx with ⟨hx, hxa⟩ | ⟨d, hd, rfl⟩ <;>
      rcases mem_updateAt.1 hy with ⟨hy, hya⟩ | ⟨d', hd', rfl⟩
    · exact h.agree x hx y hy
    · rw [hat d' hd']; exact (hagree x hx hxa).symm
    · rw [hat d hd]; exact hagree y hy hya
    · rw [hat d hd, hat d' hd']; exact fun _ _ => ⟨rfl, rfl⟩

theorem sublist {cache' : List Node} (h : CacheInv cache) (hsub : cache'.Sublist cache) :
    CacheInv cache' where
  nodup := h.nodup.sublist (hsub.map Prod.fst)
  entry n hn := h.entry n (hsub.subset hn)
  agree n hn m hm := h.agree n (hsub.subset hn) m (hsub.subset hm)

end CacheInv

/-! ## The sweep -/

section Sweep

variable {cache : List Node} {a : Addr} {c : Cache}

/-- Turning a fresh connection into a question whose address has no complete entry. -/
theorem CacheInv.ask {ip : Sockaddr} (h : CacheInv cache) (hc : (a, c) ∈ cache)
    (hstate : c.state = .connection) (hfam : ip.saFamily = afInet)
    (hmiss : ∀ n, getCacheByIpAddr cache ip = some n → n.2.state ≠ .complete) :
    CacheInv (updateAt cache a fun c => { c with state := .incomplete, ipaddress := ip }) := by
  have hblank : c.hw = .zero := (h.entry _ hc).blank (by simp [hstate])
  refine h.update hc ⟨fun _ => hblank, fun hs => by simp at hs, fun _ => hfam⟩ ?_
  intro m hm _ hip _
  dsimp only at hip
  -- the first entry for `ip` speaks for all of them
  cases hfirst : getCacheByIpAddr cache ip with
  | none => exact absurd hip.symm (getCacheByIpAddr_none.1 hfirst m hm)
  | some n =>
    obtain ⟨hn, hnip⟩ := getCacheByIpAddr_some hfirst
    have hagree := h.agree m hm n hn (by rw [hnip, ← hip]) (by rw [← hip]; exact hfam)
    have hmc : m.2.state ≠ .connection := (h.entry m hm).family.1 (by rw [← hip]; exact hfam)
    have hmf : m.2.state ≠ .complete := by rw [hagree.1]; exact hmiss n hfirst
    refine ⟨?_, by rw [hblank, (h.entry m hm).blank hmf]⟩
    cases hs : m.2.state
    · exact absurd hs hmc
    · rfl
    · exact absurd hs hmf

theorem keeps_updateAt {f : Cache → Cache} (h : CacheInv cache) (hc : (a, c) ∈ cache)
    (hstate : c.state ≠ .complete) : Keeps cache (updateAt cache a f) := by
  intro n hn hcomplete
  refine mem_updateAt.2 (Or.inl ⟨hn, ?_⟩)
  rintro rfl
  rw [← entry_unique h.nodup hn hc] at hstate
  exact hstate hcomplete

theorem CacheInv.clear (h : CacheInv cache) (hc : (a, c) ∈ cache) (fd : Int) :
    CacheInv (updateAt cache a fun c => { c with domainSocket := fd }) := by
  obtain ⟨hblank, hunasked, hasked⟩ := h.entry _ hc
  exact h.update hc ⟨hblank, hunasked, hasked⟩ fun m hm _ => h.agree _ hc m hm

/-- Removing an entry that is not complete removes no complete entry: no complete entry looks like
it. -/
theorem keeps_removeFromCache (h : CacheInv cache) (hc : (a, c) ∈ cache)
    (hstate : c.state ≠ .complete) : Keeps cache (removeFromCache cache (a, c)) := by
  intro n hn hcomplete
  refine mem_removeFromCache_of_ne hn ?_
  rw [Bool.eq_false_iff]
  intro hsame
  rcases isSameCache_ip hsame with haddr | hip
  · have := node_unique h.nodup hn hc haddr
    subst this
    exact hstate hcomplete
  · have hfam : n.2.ipaddress.saFamily = afInet := (h.entry n hn).asked (by simp [hcomplete])
    exact hstate ((h.agree n hn _ hc hip hfam).1 ▸ hcomplete)

end Sweep

/-! ## The reply -/

section Reply

variable {cache : List Node} {ip : Sockaddr} {new : Hwaddr} {sendOk : Addr → Bool}

/-- What the loop of `handle_reply` makes of one node. -/
def completeNode (ip : Sockaddr) (new : Hwaddr) (n : Node) : Node :=
  if n.2.ipaddress = ip ∧ n.2.state = .incomplete then (n.1, ⟨n.2.ipaddress, -1, .complete, new⟩)
  else n

theorem replyLoop_fst : (replyLoop ip new sendOk cache).1 = cache.map (completeNode ip new) := by
  induction cache with
  | nil => rfl
  | cons n cache ih =>
    rw [List.map_cons, ← ih, completeNode, replyLoop]
    dsimp only
    split <;> rfl

@[simp] theorem completeNode_fst (n : Node) : (completeNode ip new n).1 = n.1 := by
  unfold completeNode; split <;> rfl

@[simp] theorem completeNode_ipaddress (n : Node) :
    (completeNode ip new n).2.ipaddress = n.2.ipaddress := by
  unfold completeNode; split <;> rfl

theorem completeNode_of_not {n : Node} (h : ¬(n.2.ipaddress = ip ∧ n.2.state = .incomplete)) :
    completeNode ip new n = n := if_neg h

theorem addrs_replyLoop : addrs (replyLoop ip new sendOk cache).1 = addrs cache := by
  rw [replyLoop_fst, addrs, List.map_map]
  exact List.map_congr_left fun n _ => completeNode_fst n

theorem CacheInv.replyLoop (h : CacheInv cache) (hfam : ip.saFamily = afInet) :
    CacheInv (replyLoop ip new sendOk cache).1 := by
  refine ⟨by rw [addrs_replyLoop]; exact h.nodup, ?_, ?_⟩
  · rw [replyLoop_fst, List.forall_mem_map]
    intro n hn
    unfold completeNode
    split
    · rename_i hmatch
      exact ⟨fun hs => absurd rfl hs, fun hs => by simp at hs, fun _ => by rw [hmatch.1]; exact hfam⟩
    · exact h.entry n hn
  · rw [replyLoop_fst, List.forall_mem_map]
    intro n hn
    rw [List.forall_mem_map]
    intro m hm hip hf
    rw [completeNode_ipaddress, completeNode_ipaddress] at hip
    rw [completeNode_ipaddress] at hf
    have hagree := h.agree n hn m hm hip hf
    -- both entries are matched, or neither is
    unfold completeNode
    rw [← hip, ← hagree.1]
    split
    · exact ⟨rfl, rfl⟩
    · exact hagree

theorem keeps_replyLoop : Keeps cache (Tour.replyLoop ip new sendOk cache).1 := by
  intro n hn hcomplete
  rw [replyLoop_fst]
  refine List.mem_map.2 ⟨n, hn, completeNode_of_not ?_⟩
  simp [hcomplete]

end Reply

/-- Whatever a frame does to the cache, it keeps the invariant and the complete entries. -/
theorem FrameCase.consistent {cache cache' : List Node} {effects : List Effect}
    (h : FrameCase cache cache' effects) (hinv : CacheInv cache) :
    CacheInv cache' ∧ Keeps cache cache' := by
  cases h with
  | kept => exact ⟨hinv, .refl _⟩
  | learnt _ hfresh hfam _ hmiss =>
    refine ⟨hinv.add hfresh ⟨fun hs => absurd rfl hs, fun hs => by simp at hs, fun _ => hfam⟩ ?_,
      fun n hn _ => List.mem_cons_of_mem _ hn⟩
    intro m hm hip
    exact absurd hip.symm (getCacheByIpAddr_none.1 hmiss m hm)
  | completed hfam hport => exact ⟨hinv.replyLoop hfam, keeps_replyLoop⟩

/-! ## Runs -/

variable {cfg : Config}

/-- The invariant of a state: its cache is consistent, and the entry about to be removed is in it
and not complete. -/
structure Consistent (w : World) : Prop where
  cache : CacheInv w.cache
  dying : ∀ rm, w.pc.dying = some rm → ∃ c, (rm, c) ∈ w.cache ∧ c.state ≠ .complete

theorem consistent_init : Consistent .init := ⟨.nil, fun _ h => by cases h⟩

theorem Advance.consistent {w w' : World} {e : Event} (h : Advance cfg w e w')
    (hinv : Consistent w) : Consistent w' ∧ Keeps w.cache w'.cache := by
  cases h with
  | moved hfrom hto => exact ⟨⟨hinv.cache, fun rm hrm => by simp [hto] at hrm⟩, .refl _⟩
  | dropped hpc hc hstate =>
    exact ⟨⟨hinv.cache, fun rm hrm => by cases hrm; exact ⟨_, hc, hstate⟩⟩, .refl _⟩
  | refused hpc hc hstate hfd hrecv hmsg =>
    exact ⟨⟨hinv.cache, fun rm hrm => by cases hrm; exact ⟨_, hc, by simp [hstate]⟩⟩, .refl _⟩
  | cached hpc hc hstate hfd hrecv hmsg hn hcomplete =>
    exact ⟨⟨hinv.cache, fun rm hrm => by cases hrm; exact ⟨_, hc, by simp [hstate]⟩⟩, .refl _⟩
  | @asked _ _ a next c _ msg pc _ hpc hto hc hstate hfd hrecv hmsg hmiss hobs =>
    have hkeeps : Keeps w.cache (updateAt w.cache a fun c =>
        { c with state := .incomplete, ipaddress := .ofBytes msg }) :=
      keeps_updateAt hinv.cache hc (by simp [hstate])
    refine ⟨⟨hinv.cache.ask hc hstate hmsg.2 hmiss, fun rm hrm => ?_⟩, hkeeps⟩
    rcases hto with rfl | rfl
    · cases hrm
    · cases hrm
      exact ⟨{ c with state := .incomplete, ipaddress := .ofBytes msg },
        mem_updateAt_self (f := fun c => { c with state := .incomplete, ipaddress := .ofBytes msg })
          hc, by simp⟩
  | @removed rset rm next c hpc hc =>
    have hmem := entryAt_some hc
    have hstate : c.state ≠ .complete := by
      obtain ⟨d, hd, hs⟩ := hinv.dying rm (by rw [hpc]; rfl)
      rw [entry_unique hinv.cache.nodup hmem hd]
      exact hs
    have hclear := hinv.cache.clear hmem (-1)
    have hmem' := mem_updateAt_self (f := fun c => { c with domainSocket := -1 }) hmem
    refine ⟨⟨hclear.sublist removeFromCache_sublist, fun _ hrm => by cases hrm⟩, ?_⟩
    intro n hn hcomplete
    exact keeps_removeFromCache hclear hmem' hstate n
      (keeps_updateAt hinv.cache hmem hstate n hn hcomplete) hcomplete
  | accepted hpc hmiss hfresh =>
    refine ⟨⟨hinv.cache.add hfresh (entryInv_calloc _) ?_, fun _ hrm => by cases hrm⟩,
      fun n hn _ => List.mem_cons_of_mem _ hn⟩
    intro m _ _ hfam
    exact absurd rfl ((entryInv_calloc _).family.1 hfam)
  | packet hpc hframe =>
    have hcase := handleFrame_cases cfg hframe
    obtain ⟨hcache, hkeeps⟩ := hcase.consistent hinv.cache
    exact ⟨⟨by simpa using hcache, fun _ hrm => by cases hrm⟩, by simpa using hkeeps⟩

theorem step_consistent {w w' : World} {e : Event} (hinv : Consistent w)
    (h : step cfg w e = some w') : Consistent w' :=
  ((step_cases cfg h).consistent hinv).1

/-- Every reachable state is consistent, whatever the kernel, the clients and the network do. -/
theorem reachable_consistent {G : World → Event → Prop} {w : World}
    (h : (daemon cfg).Reachable G w) : Consistent w :=
  h.invariant (I := Consistent) consistent_init fun _ _ _ hinv _ hs => step_consistent hinv hs

/-- A complete entry stays, with its address, state and `hw`, for the rest of the run. -/
theorem steps_keeps {G : World → Event → Prop} {w w' : World} (h : (daemon cfg).Steps G w w')
    (hw : Consistent w) : Keeps w.cache w'.cache := by
  induction h with
  | refl => exact .refl _
  | tail hrun hg hs ih =>
    have hinv := hrun.invariant (I := Consistent) (fun _ _ _ hi _ hs => step_consistent hi hs) hw
    have hkeeps := ((step_cases cfg hs).consistent hinv).2
    exact fun n hn hc => hkeeps n (ih n hn hc) hc

end Tour
