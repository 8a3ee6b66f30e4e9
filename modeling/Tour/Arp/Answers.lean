import Tour.Arp.Descriptors

/-!
# What each client is told

The part of the log that concerns one connection is its `history`. Where every `accept` fails or is
fresh, a history is empty, one question, or one question and its answer (`Exchange`), and an answer is the
`hw` of a complete entry for the address that was asked. `ConnInv` ties the histories to the
entries and descriptors: a fresh connection has said nothing, an entry that waits has asked for its
address, and a connection that was answered is closed. The results are `cache_consistent` and
`answered_once`.
-/

namespace Tour

open Lib Machine

/-! ## Histories -/

/-- The observation is an exchange with the client of `k`. -/
def Obs.about (k : Conn) : Obs → Bool
  | .received c _ => c == k
  | .answered c _ _ => c == k
  | _ => false

/-- What the client of `k` was asked and told, the newest first. -/
def history (log : List Obs) (k : Conn) : List Obs := log.filter (Obs.about k)

/-- The histories after one more observation about `k`. -/
def push (hist : Conn → List Obs) (k : Conn) (o : Obs) : Conn → List Obs :=
  fun c => if c = k then o :: hist c else hist c

theorem history_push {log : List Obs} {k : Conn} {o : Obs} (h : ∀ c, o.about c = (k == c)) :
    history (o :: log) = push (history log) k o := by
  funext c
  unfold history push
  rw [List.filter_cons, h c]
  by_cases hc : c = k
  · rw [if_pos hc, if_pos (by simp [hc])]
  · rw [if_neg hc, if_neg (by simp [Ne.symm hc])]

theorem history_received (log : List Obs) (k : Conn) (msg : List UInt8) :
    history (.received k msg :: log) = push (history log) k (.received k msg) :=
  history_push fun _ => rfl

theorem history_answered (log : List Obs) (k : Conn) (hw : Hwaddr) (ok : Bool) :
    history (.answered k hw ok :: log) = push (history log) k (.answered k hw ok) :=
  history_push fun _ => rfl

/-- Observations about no client change no history. -/
theorem history_append {obs log : List Obs} (h : ∀ o ∈ obs, ∀ k, o.about k = false) :
    history (obs ++ log) = history log := by
  funext k
  unfold history
  rw [List.filter_append, List.filter_eq_nil_iff.2 fun o ho => by simp [h o ho k], List.nil_append]

theorem push_self {hist : Conn → List Obs} {k : Conn} {o : Obs} : push hist k o k = o :: hist k :=
  if_pos rfl

theorem push_ne {hist : Conn → List Obs} {k c : Conn} {o : Obs} (h : c ≠ k) :
    push hist k o c = hist c := if_neg h

/-- What the client of `k` can have been asked and told. -/
inductive Exchange (cache : List Node) (k : Conn) : List Obs → Prop
  | nothing : Exchange cache k []
  | asked (msg : List UInt8) : Exchange cache k [.received k msg]
  | answered {msg : List UInt8} {n : Node} (ok : Bool) (hmsg : ValidAreq msg) (hn : n ∈ cache)
    (hstate : n.2.state = .complete) (hip : n.2.ipaddress = .ofBytes msg) :
    Exchange cache k [.answered k n.2.hw ok, .received k msg]

theorem Exchange.keeps {cache cache' : List Node} {k : Conn} {l : List Obs}
    (h : Exchange cache k l) (hkeeps : Keeps cache cache') : Exchange cache' k l := by
  cases h with
  | nothing => exact .nothing
  | asked msg => exact .asked msg
  | answered ok hmsg hn hstate hip => exact .answered ok hmsg (hkeeps _ hn hstate) hstate hip

/-! ## The invariant -/

/-- What the client behind an entry was told: nothing while the entry is fresh (and not about to be
removed), and its question while the entry waits. -/
def Told (dying : Option Addr) (fds : Int → Option Conn) (hist : Conn → List Obs) (n : Node) :
    Prop :=
  ∀ k, fds n.2.domainSocket = some k →
    (n.2.state = .connection → dying ≠ some n.1 → hist k = []) ∧
    (n.2.state = .incomplete →
      ∃ msg, ValidAreq msg ∧ n.2.ipaddress = .ofBytes msg ∧ hist k = [.received k msg])

/-- How the entries, the descriptors and the histories fit together; `dying` is the entry about to
be closed and removed, and connections from `next` on are not yet accepted. -/
structure ConnInv (dying : Option Addr) (cache : List Node) (fds : Int → Option Conn) (next : Conn)
    (hist : Conn → List Obs) : Prop where
  inj : ∀ f g k, fds f = some k → fds g = some k → f = g
  known : ∀ f k, fds f = some k → k < next
  unborn : ∀ k, next ≤ k → hist k = []
  talk : ∀ k, Exchange cache k (hist k)
  told : ∀ n ∈ cache, Told dying fds hist n
  gone : ∀ f k hw ok, fds f = some k → .answered k hw ok ∈ hist k →
    ∃ rm c, dying = some rm ∧ (rm, c) ∈ cache ∧ c.domainSocket = f

namespace ConnInv

variable {dying dying' : Option Addr} {cache cache' : List Node} {fds fds' : Int → Option Conn}
  {next : Conn} {hist hist' : Conn → List Obs} {a : Addr} {c : Cache} {k : Conn}
  {msg : List UInt8} {f : Cache → Cache}

theorem nil : ConnInv none [] (fun _ => none) 0 fun _ => [] where
  inj _ _ _ h := by cases h
  known _ _ h := by cases h
  unborn _ _ := rfl
  talk _ := .nothing
  told := List.forall_mem_nil _
  gone _ _ _ _ h := by cases h

/-- One entry and the history of its connection change; every other entry stays as it is. -/
theorem evolve (h : ConnInv dying cache fds next hist)
    (hfds : ∀ x j, fds' x = some j → fds x = some j)
    (hold : ∀ n ∈ cache', n.1 ≠ a → n ∈ cache ∧ (dying = some n.1 → dying' = some n.1))
    (hkeeps : Keeps cache cache')
    (hhist : ∀ j, hist' j ≠ hist j → j < next ∧ Exchange cache' j (hist' j) ∧
      ∀ n ∈ cache, n.1 ≠ a → fds n.2.domainSocket ≠ some j)
    (hnew : ∀ d, (a, d) ∈ cache' → Told dying' fds' hist' (a, d))
    (hgone : ∀ x j hw ok, fds' x = some j → .answered j hw ok ∈ hist' j →
      ∃ rm d, dying' = some rm ∧ (rm, d) ∈ cache' ∧ d.domainSocket = x) :
    ConnInv dying' cache' fds' next hist' where
  inj x y j hx hy := h.inj x y j (hfds x j hx) (hfds y j hy)
  known x j hx := h.known x j (hfds x j hx)
  unborn j hj := by
    by_contra hne
    rw [← h.unborn j hj] at hne
    exact absurd (hhist j hne).1 (Nat.not_lt.2 hj)
  talk j := by
    by_cases hj : hist' j = hist j
    · rw [hj]; exact (h.talk j).keeps hkeeps
    · exact (hhist j hj).2.1
  told n hn := by
    by_cases hna : n.1 = a
    · subst hna; exact hnew n.2 hn
    · obtain ⟨hmem, hdying⟩ := hold n hn hna
      intro j hj
      have hj' := hfds _ j hj
      have hsame : hist' j = hist j := by
        by_contra hne
        exact (hhist j hne).2.2 n hmem hna hj'
      obtain ⟨hsilent, hwaiting⟩ := h.told n hmem j hj'
      rw [hsame]
      exact ⟨fun hs hd => hsilent hs fun hd' => hd (hdying hd'), hwaiting⟩
  gone := hgone

/-- An open connection is that of one entry. -/
theorem only (h : ConnInv dying cache fds next hist) (hfd : FdInv cache fds) (hc : (a, c) ∈ cache)
    (hk : fds c.domainSocket = some k) :
    ∀ n ∈ cache, n.1 ≠ a → fds n.2.domainSocket ≠ some k := by
  intro n hn hna hnk
  have heq := h.inj _ _ _ hnk hk
  exact hna (congrArg Prod.fst (hfd.distinct n hn _ hc (hfd.positive _ _ hnk) heq))

/-- Unless an entry is about to be removed, an open connection was not answered. -/
theorem unanswered (h : ConnInv none cache fds next hist) {x : Int} {j : Conn} {hw : Hwaddr}
    {ok : Bool} (hx : fds x = some j) : .answered j hw ok ∉ hist j := by
  intro hmem
  obtain ⟨rm, d, hrm, -⟩ := h.gone x j hw ok hx hmem
  cases hrm

theorem ne_of_push {o : Obs} {j : Conn} (h : push hist k o j ≠ hist j) : j = k := by
  by_contra hj
  exact h (push_ne hj)

/-- An entry is chosen to be removed. -/
theorem doom (h : ConnInv none cache fds next hist) (a : Addr) :
    ConnInv (some a) cache fds next hist := by
  refine h.evolve (a := a) (fun _ _ hx => hx) (fun n hn _ => ⟨hn, fun hd => by cases hd⟩) (.refl _)
    (fun j hj => absurd rfl hj) ?_ fun x j hw ok hx hmem => absurd hmem (h.unanswered hx)
  intro d hd j hj
  exact ⟨fun _ hne => absurd rfl hne, (h.told _ hd j hj).2⟩

/-- A fresh connection sends something, and its entry is to be removed. -/
theorem refuse (h : ConnInv none cache fds next hist) (hfd : FdInv cache fds)
    (hnodup : (addrs cache).Nodup) (hc : (a, c) ∈ cache) (hstate : c.state = .connection)
    (hk : fds c.domainSocket = some k) :
    ConnInv (some a) cache fds next (push hist k (.received k msg)) := by
  have hsilent : hist k = [] := ((h.told _ hc k hk).1 hstate (by simp))
  refine h.evolve (a := a) (fun _ _ hx => hx) (fun n hn _ => ⟨hn, fun hd => by cases hd⟩) (.refl _)
    ?_ ?_ ?_
  · intro j hj
    obtain rfl := ne_of_push hj
    rw [push_self, hsilent]
    exact ⟨h.known _ _ hk, .asked msg, h.only hfd hc hk⟩
  · intro d hd j hj
    obtain rfl := entry_unique hnodup hc hd
    exact ⟨fun _ hne => absurd rfl hne, fun hs => by simp [hstate] at hs⟩
  · intro x j hw ok hx hmem
    by_cases hj : j = k
    · subst hj
      rw [push_self, hsilent, List.mem_singleton] at hmem
      cases hmem
    · rw [push_ne hj] at hmem
      exact absurd hmem (h.unanswered hx)

/-- A fresh connection asks and is answered from the cache, and its entry is to be removed. -/
theorem reply (h : ConnInv none cache fds next hist) (hfd : FdInv cache fds)
    (hnodup : (addrs cache).Nodup) (hc : (a, c) ∈ cache) (hstate : c.state = .connection)
    (hk : fds c.domainSocket = some k) {n : Node} (ok : Bool) (hmsg : ValidAreq msg)
    (hn : n ∈ cache) (hcomplete : n.2.state = .complete) (hip : n.2.ipaddress = .ofBytes msg) :
    ConnInv (some a) cache fds next
      (push (push hist k (.received k msg)) k (.answered k n.2.hw ok)) := by
  have hsilent : hist k = [] := ((h.told _ hc k hk).1 hstate (by simp))
  refine h.evolve (a := a) (fun _ _ hx => hx) (fun n hn _ => ⟨hn, fun hd => by cases hd⟩) (.refl _)
    ?_ ?_ ?_
  · intro j hj
    have hjk : j = k := by
      by_contra hne
      exact hj (by rw [push_ne hne, push_ne hne])
    subst hjk
    rw [push_self, push_self, hsilent]
    exact ⟨h.known _ _ hk, .answered ok hmsg hn hcomplete hip, h.only hfd hc hk⟩
  · intro d hd j hj
    obtain rfl := entry_unique hnodup hc hd
    exact ⟨fun _ hne => absurd rfl hne, fun hs => by simp [hstate] at hs⟩
  · intro x j hw ok' hx hmem
    by_cases hj : j = k
    · subst hj
      exact ⟨a, c, rfl, hc, h.inj _ _ _ hk hx⟩
    · rw [push_ne hj, push_ne hj] at hmem
      exact absurd hmem (h.unanswered hx)

/-- A fresh connection asks, and its entry waits for the reply. -/
theorem ask (h : ConnInv none cache fds next hist) (hfd : FdInv cache fds)
    (hw : CacheInv cache) (hc : (a, c) ∈ cache) (hstate : c.state = .connection)
    (hk : fds c.domainSocket = some k) (hmsg : ValidAreq msg) :
    ConnInv none (updateAt cache a fun c => { c with state := .incomplete, ipaddress := .ofBytes msg })
      fds next (push hist k (.received k msg)) := by
  have hsilent : hist k = [] := ((h.told _ hc k hk).1 hstate (by simp))
  have hkeeps := keeps_updateAt (f := fun c => { c with state := .incomplete, ipaddress := .ofBytes msg })
    hw hc (by simp [hstate])
  refine h.evolve (a := a) (fun _ _ hx => hx) ?_ hkeeps ?_ ?_ ?_
  · intro n hn hna
    rcases mem_updateAt.1 hn with ⟨hn, -⟩ | ⟨d, -, rfl⟩
    · exact ⟨hn, fun hd => by cases hd⟩
    · exact absurd rfl hna
  · intro j hj
    obtain rfl := ne_of_push hj
    rw [push_self, hsilent]
    exact ⟨h.known _ _ hk, .asked msg, h.only hfd hc hk⟩
  · intro d hd j hj
    rcases mem_updateAt.1 hd with ⟨-, hna⟩ | ⟨d', hd', heq⟩
    · exact absurd rfl hna
    · obtain rfl := entry_unique hw.nodup hc hd'
      cases heq
      obtain rfl : k = j := Option.some.inj (hk.symm.trans hj)
      exact ⟨fun hs => by simp at hs, fun _ => ⟨msg, hmsg, rfl, by rw [push_self, hsilent]⟩⟩
  · intro x j hw ok hx hmem
    by_cases hj : j = k
    · subst hj
      rw [push_self, hsilent, List.mem_singleton] at hmem
      cases hmem
    · rw [push_ne hj] at hmem
      exact absurd hmem (h.unanswered hx)

theorem closeFd_some {x y : Int} {j : Conn} (h : closeFd fds x y = some j) :
    y ≠ x ∧ fds y = some j := by
  unfold closeFd at h
  split at h
  · cases h
  · rename_i hne; exact ⟨hne, h⟩

/-- The doomed entry is closed, and one entry that looks like it is removed. -/
theorem remove (h : ConnInv (some a) cache fds next hist) (hfd : FdInv cache fds)
    (hnodup : (addrs cache).Nodup) (hc : (a, c) ∈ cache)
    (hold : ∀ n ∈ cache', n ∈ updateAt cache a fun c => { c with domainSocket := -1 })
    (hkeeps : Keeps cache cache') :
    ConnInv none cache' (closeFd fds c.domainSocket) next hist := by
  refine h.evolve (a := a) (fun _ _ hx => (closeFd_some hx).2) ?_ hkeeps
    (fun j hj => absurd rfl hj) ?_ ?_
  · intro n hn hna
    rcases mem_updateAt.1 (hold n hn) with ⟨hn, -⟩ | ⟨d, -, rfl⟩
    · exact ⟨hn, fun hd => absurd (Option.some.inj hd).symm hna⟩
    · exact absurd rfl hna
  · intro d hd j hj
    rcases mem_updateAt.1 (hold _ hd) with ⟨-, hna⟩ | ⟨d', -, heq⟩
    · exact absurd rfl hna
    · cases heq
      have hpos : 0 < (-1 : Int) := hfd.positive _ _ (closeFd_some hj).2
      cases hpos
  · intro x j hw ok hx hmem
    obtain ⟨hne, hx⟩ := closeFd_some hx
    obtain ⟨rm, d, hrm, hd, rfl⟩ := h.gone x j hw ok hx hmem
    cases hrm
    obtain rfl := entry_unique hnodup hc hd
    exact absurd rfl hne

theorem accept {sfd : Int} (h : ConnInv none cache fds next hist) (hfd : FdInv cache fds)
    (hpos : 0 < sfd) (hfree : fds sfd = none) :
    ConnInv none (addToCache cache (a, freshEntry sfd))
      (fun x => if x = sfd then some next else fds x) (next + 1) hist := by
  -- an open descriptor is the new one, with the new connection, or an old one
  have hcase : ∀ x j, (if x = sfd then some next else fds x) = some j →
      (x = sfd ∧ j = next) ∨ (x ≠ sfd ∧ fds x = some j ∧ j < next) := by
    intro x j hx
    split at hx
    · rename_i heq; exact Or.inl ⟨heq, (Option.some.inj hx).symm⟩
    · rename_i hne; exact Or.inr ⟨hne, hx, h.known x j hx⟩
  refine ⟨?_, ?_, fun j hj => h.unborn j (Nat.le_of_succ_le hj), ?_, ?_, ?_⟩
  · intro x y j hx hy
    rcases hcase x j hx with ⟨rfl, rfl⟩ | ⟨-, hx, hlt⟩ <;>
      rcases hcase y j hy with ⟨rfl, hj⟩ | ⟨-, hy, hlt'⟩
    · rfl
    · exact absurd hlt' (Nat.lt_irrefl _)
    · exact absurd (hj ▸ hlt) (Nat.lt_irrefl _)
    · exact h.inj x y j hx hy
  · intro x j hx
    rcases hcase x j hx with ⟨-, rfl⟩ | ⟨-, -, hlt⟩
    · exact Nat.lt_succ_self _
    · exact Nat.lt_succ_of_lt hlt
  · intro j
    exact (h.talk j).keeps fun n hn _ => List.mem_cons_of_mem _ hn
  · refine List.forall_mem_cons.2 ⟨?_, ?_⟩
    · intro j hj
      rcases hcase _ j hj with ⟨-, rfl⟩ | ⟨hne, -⟩
      · exact ⟨fun _ _ => h.unborn _ (Nat.le_refl _), fun hs => by simp [freshEntry] at hs⟩
      · exact absurd rfl hne
    · intro n hn j hj
      rcases hcase _ j hj with ⟨heq, -⟩ | ⟨-, hj, -⟩
      · exact absurd heq (hfd.not_held hpos hfree n hn)
      · exact h.told n hn j hj
  · intro x j hw ok hx hmem
    rcases hcase x j hx with ⟨-, rfl⟩ | ⟨-, hx, -⟩
    · rw [h.unborn _ (Nat.le_refl _)] at hmem
      cases hmem
    · exact absurd hmem (h.unanswered hx)

theorem acceptFailed (h : ConnInv none cache fds next hist) (hfd : FdInv cache fds)
    (hfresh : a ∉ addrs cache) :
    ConnInv none (addToCache cache (a, freshEntry (-1))) fds next hist := by
  refine h.evolve (a := a) (fun _ _ hx => hx) ?_ (fun m hm _ => List.mem_cons_of_mem _ hm)
    (fun j hj => absurd rfl hj) ?_ fun x j hw ok hx hmem => absurd hmem (h.unanswered hx)
  · intro m hm hne
    rcases List.mem_cons.1 hm with rfl | hm
    · exact absurd rfl hne
    · exact ⟨hm, fun hd => by cases hd⟩
  · intro d hd j hj
    rcases List.mem_cons.1 hd with heq | hd
    · cases heq
      have hpos : 0 < (-1 : Int) := hfd.positive _ _ hj
      cases hpos
    · exact absurd (List.mem_map_of_mem (f := Prod.fst) hd) hfresh

theorem learn {n : Node} (h : ConnInv none cache fds next hist) (hfresh : n.1 ∉ addrs cache)
    (hstate : n.2.state = .complete) : ConnInv none (addToCache cache n) fds next hist := by
  refine h.evolve (a := n.1) (fun _ _ hx => hx) ?_ (fun m hm _ => List.mem_cons_of_mem _ hm)
    (fun j hj => absurd rfl hj) ?_ fun x j hw ok hx hmem => absurd hmem (h.unanswered hx)
  · intro m hm hne
    rcases List.mem_cons.1 hm with rfl | hm
    · exact absurd rfl hne
    · exact ⟨hm, fun hd => by cases hd⟩
  · intro d hd j hj
    rcases List.mem_cons.1 hd with heq | hd
    · rw [← heq] at hstate
      exact ⟨fun hs => (by cases hstate.symm.trans hs), fun hs => (by cases hstate.symm.trans hs)⟩
    · exact absurd (List.mem_map_of_mem (f := Prod.fst) hd) hfresh

/-- A waiting entry is completed; its client, if it is still connected, is told and closed. -/
theorem complete {n : Node} {new : Hwaddr} (ok : Bool) (h : ConnInv none cache fds next hist)
    (hfd : FdInv cache fds) (hnodup : (addrs cache).Nodup) (hn : n ∈ cache)
    (hstate : n.2.state = .incomplete)
    (hhist : ∀ k, fds n.2.domainSocket = some k → hist' = push hist k (.answered k new ok))
    (hhist' : fds n.2.domainSocket = none → hist' = hist) :
    ConnInv none (updateAt cache n.1 (Cache.answer new)) (closeFd fds n.2.domainSocket) next
      hist' := by
  have hkeeps : Keeps cache (updateAt cache n.1 (Cache.answer new)) := by
    intro m hm hs
    refine mem_updateAt.2 (Or.inl ⟨hm, fun heq => ?_⟩)
    rw [node_unique hnodup hm hn heq, hstate] at hs
    cases hs
  have hself : (n.1, n.2.answer new) ∈ updateAt cache n.1 (Cache.answer new) := mem_updateAt_self hn
  refine h.evolve (a := n.1) (fun _ _ hx => (closeFd_some hx).2) ?_ hkeeps ?_ ?_ ?_
  · intro m hm hne
    rcases mem_updateAt.1 hm with ⟨hm, -⟩ | ⟨d, -, rfl⟩
    · exact ⟨hm, fun hd => by cases hd⟩
    · exact absurd rfl hne
  · intro j hj
    cases hk : fds n.2.domainSocket with
    | none => exact absurd (by rw [hhist' hk]) hj
    | some k =>
      rw [hhist k hk] at hj ⊢
      obtain rfl := ne_of_push hj
      obtain ⟨msg, hmsg, hip, htold⟩ := (h.told n hn j hk).2 hstate
      rw [push_self, htold]
      exact ⟨h.known _ _ hk, .answered (n := (n.1, n.2.answer new)) ok hmsg hself rfl hip,
        h.only hfd hn hk⟩
  · intro d hd j hj
    rcases mem_updateAt.1 hd with ⟨-, hne⟩ | ⟨d', -, heq⟩
    · exact absurd rfl hne
    · cases heq
      exact ⟨fun hs => by simp [Cache.answer] at hs, fun hs => by simp [Cache.answer] at hs⟩
  · intro x j hw ok' hx hmem
    obtain ⟨hne, hx⟩ := closeFd_some hx
    cases hk : fds n.2.domainSocket with
    | none =>
      rw [hhist' hk] at hmem
      exact absurd hmem (h.unanswered hx)
    | some k =>
      rw [hhist k hk] at hmem
      by_cases hj : j = k
      · subst hj
        exact absurd (h.inj _ _ _ hx hk) hne
      · rw [push_ne hj] at hmem
        exact absurd hmem (h.unanswered hx)

end ConnInv

/-! ## Runs -/

/-- The invariant of a state. -/
def Conns (w : World) : Prop :=
  ConnInv w.pc.dying w.cache w.fds w.nextConn (history w.log)

theorem history_close (w : World) (fd : Int) :
    history (w.perform (.close fd)).log = history w.log := by
  simp only [World.perform]
  split
  · rename_i k _
    exact history_append (List.forall_mem_singleton.2 fun _ => rfl : ∀ o ∈ [Obs.closed k], _)
  · rfl

theorem history_emitted {obs log : List Obs} (h : ∀ o ∈ obs, ∃ frame, o = .emitted frame) :
    history (obs ++ log) = history log := by
  refine history_append fun o ho k => ?_
  obtain ⟨frame, rfl⟩ := h o ho
  rfl

variable {cfg : Config}

theorem Conns.complete {w : World} {n : Node} {new : Hwaddr} (ok : Bool)
    (h : ConnInv none w.cache w.fds w.nextConn (history w.log)) (hfd : FdInv w.cache w.fds)
    (hnodup : (addrs w.cache).Nodup) (hn : n ∈ w.cache) (hstate : n.2.state = .incomplete) :
    ConnInv none (w.complete n new ok).cache (w.complete n new ok).fds
      (w.complete n new ok).nextConn (history (w.complete n new ok).log) := by
  have hlog : history (w.complete n new ok).log =
      history (w.perform (.send n.2.domainSocket new ok)).log := history_close _ _
  rw [complete_fds, hlog]
  simp only [World.complete, World.perform_nextConn]
  refine h.complete ok hfd hnodup hn hstate ?_ ?_
  · intro k hk
    simp only [World.perform, hk]
    exact history_answered ..
  · intro hk
    simp only [World.perform, hk]

theorem Advance.conns {w w' : World} {e : Event} (h : Advance cfg w e w') (hg : AcceptSound w e)
    (hw : Consistent w) (hfd : FdInv w.cache w.fds) (hconns : Conns w) : Conns w' := by
  have hnone : w.pc.dying = none → ConnInv none w.cache w.fds w.nextConn (history w.log) :=
    fun hd => hd ▸ hconns
  have hnodup := hw.cache.nodup
  cases h with
  | @moved _ pc hfrom hto =>
    have := hnone hfrom
    rw [← hto] at this
    exact this
  | dropped hpc hc hstate => exact (hnone (by rw [hpc]; rfl)).doom _
  | refused hpc hc hstate hk hrecv hmsg =>
    unfold Conns
    simp only [history_received]
    exact (hnone (by rw [hpc]; rfl)).refuse hfd hnodup hc hstate hk
  | cached hpc hc hstate hk hrecv hmsg hn hcomplete =>
    obtain ⟨hmem, hip⟩ := getCacheByIpAddr_some hn
    unfold Conns
    simp only [history_received, history_answered]
    exact (hnone (by rw [hpc]; rfl)).reply hfd hnodup hc hstate hk _ hmsg hmem hcomplete hip
  | @asked _ rset a next c k msg pc obs hpc hto hc hstate hk hrecv hmsg hmiss hobs =>
    have hask := (hnone (by rw [hpc]; rfl)).ask hfd hw.cache hc hstate hk hmsg
    have hlog : history (obs ++ .received k msg :: w.log) =
        push (history w.log) k (.received k msg) := by
      rw [history_append, history_received]
      intro o ho j
      obtain ⟨d, -, rfl⟩ := hobs o ho
      rfl
    unfold Conns
    rw [hlog]
    rcases hto with rfl | rfl
    · exact hask
    · exact hask.doom a
  | @removed _ rm _ c hpc hc =>
    have hdying : ConnInv (some rm) w.cache w.fds w.nextConn (history w.log) := by
      unfold Conns at hconns
      rw [hpc] at hconns
      exact hconns
    have hkeeps := ((Advance.removed hpc hc : Advance cfg w .tick _).consistent hw).2
    unfold Conns
    simp only [perform_close_fds, history_close, World.perform_nextConn]
    exact hdying.remove hfd hnodup (entryAt_some hc) (fun n hn => mem_of_mem_removeFromCache hn)
      hkeeps
  | accepted hpc hmiss hfresh =>
    have hstart := hnone (by rw [hpc]; rfl)
    rcases hg with rfl | ⟨hpos, hfree⟩
    · exact hstart.acceptFailed hfd hfresh
    · unfold Conns
      simp only [if_pos (Int.le_of_lt hpos)]
      exact hstart.accept hfd hpos hfree
  | @packet _ _ _ cache effects hpc hframe =>
    have hstart := hnone (by rw [hpc]; rfl)
    have hcase : FrameCase w.cache cache effects := handleFrame_cases cfg hframe
    refine (hcase.preserves (P := fun w => FdInv w.cache w.fds ∧
      ConnInv none w.cache w.fds w.nextConn (history w.log)) hnodup ?_ ?_ ?_ ⟨hfd, hstart⟩).2
    · rintro w obs hobs ⟨hfd, hconns⟩
      refine ⟨hfd, ?_⟩
      simp only [history_emitted hobs]
      exact hconns
    · rintro w fresh ip hw ⟨hfd, hconns⟩ hfresh
      exact ⟨hfd.learn rfl rfl, hconns.learn hfresh rfl⟩
    · rintro w n new ok ⟨hfd, hconns⟩ hnodup hn hstate
      refine ⟨?_, Conns.complete ok hconns hfd hnodup hn hstate⟩
      rw [complete_fds]
      exact hfd.close (f := Cache.answer new) hnodup hn rfl

theorem reachable_conns {w : World} (h : (daemon cfg).Reachable AcceptSound w) : Conns w :=
  h.invariant_under (J := fun w => Consistent w ∧ FdInv w.cache w.fds) (I := Conns)
    (fun _ hs => ⟨reachable_consistent hs, reachable_fdInv hs⟩) .nil
    fun _ _ _ hw hconns hg hs => (step_cases cfg hs).conns hg hw.1 hw.2 hconns

/-! ## One address, one answer -/

/-- In a reachable state an answer is preceded by its question, and a complete entry holds both. -/
theorem answered_record {w : World} (h : (daemon cfg).Reachable AcceptSound w) {k : Conn}
    {hw : Hwaddr} {ok : Bool} (hmem : .answered k hw ok ∈ w.log) :
    ∃ msg n, ValidAreq msg ∧ history w.log k = [.answered k hw ok, .received k msg] ∧
      n ∈ w.cache ∧ n.2.state = .complete ∧ n.2.ipaddress = .ofBytes msg ∧ n.2.hw = hw := by
  have hhist : .answered k hw ok ∈ history w.log k := List.mem_filter.2 ⟨hmem, by simp [Obs.about]⟩
  have htalk := (reachable_conns h).talk k
  generalize hl : history w.log k = l at htalk hhist
  cases htalk with
  | nothing => cases hhist
  | asked msg => cases List.mem_singleton.1 hhist
  | @answered msg n ok' hmsg hn hstate hip =>
    have heq : Obs.answered k hw ok = .answered k n.2.hw ok' := by
      rcases List.mem_cons.1 hhist with heq | hrest
      · exact heq
      · cases List.mem_singleton.1 hrest
    cases heq
    exact ⟨msg, n, hmsg, rfl, hn, hstate, hip, rfl⟩

theorem received_history {log : List Obs} {k : Conn} {msg : List UInt8}
    (h : .received k msg ∈ log) : .received k msg ∈ history log k :=
  List.mem_filter.2 ⟨h, by simp [Obs.about]⟩

/-- The question of a client that was answered is the one its answer is on record for. -/
theorem answered_for {w : World} (h : (daemon cfg).Reachable AcceptSound w) {k : Conn}
    {msg : List UInt8} {hw : Hwaddr} {ok : Bool} (hq : .received k msg ∈ w.log)
    (ha : .answered k hw ok ∈ w.log) :
    ∃ n ∈ w.cache, n.2.state = .complete ∧ n.2.ipaddress = .ofBytes msg ∧ n.2.hw = hw := by
  obtain ⟨msg', n, -, hhist, hn, hrest⟩ := answered_record h ha
  have hq' := received_history hq
  rw [hhist] at hq'
  have hsame : msg = msg' := by simpa using hq'
  exact ⟨n, hn, hsame ▸ hrest⟩

/-- **The cache never holds two conflicting answers and never changes one**, and all answers for
one address are the same. -/
theorem cache_consistent {w : World} (h : (daemon cfg).Reachable AcceptSound w) :
    (∀ n ∈ w.cache, ∀ m ∈ w.cache, n.2.ipaddress = m.2.ipaddress →
      n.2.ipaddress.saFamily = afInet →
      (n.2.state = .incomplete ∧ m.2.state = .incomplete) ∨
        (n.2.state = .complete ∧ m.2.state = .complete ∧ n.2.hw = m.2.hw)) ∧
    (∀ w', (daemon cfg).Steps AcceptSound w w' →
      ∀ n ∈ w.cache, n.2.state = .complete → n ∈ w'.cache) ∧
    (∀ w', (daemon cfg).Steps AcceptSound w w' → ∀ k₁ k₂ msg₁ msg₂ hw₁ hw₂ ok₁ ok₂,
      .received k₁ msg₁ ∈ w'.log → .answered k₁ hw₁ ok₁ ∈ w'.log →
      .received k₂ msg₂ ∈ w'.log → .answered k₂ hw₂ ok₂ ∈ w'.log →
      Sockaddr.ofBytes msg₁ = .ofBytes msg₂ → hw₁ = hw₂) := by
  have hw := reachable_consistent h
  refine ⟨?_, fun w' hrun => steps_keeps hrun hw, ?_⟩
  · intro n hn m hm hip hfam
    obtain ⟨hstate, hhw⟩ := hw.cache.agree n hn m hm hip hfam
    have hasked := (hw.cache.entry n hn).family.1 hfam
    cases hs : n.2.state with
    | connection => exact absurd hs hasked
    | incomplete => exact Or.inl ⟨rfl, hstate ▸ hs⟩
    | complete => exact Or.inr ⟨rfl, hstate ▸ hs, hhw⟩
  · intro w' hrun k₁ k₂ msg₁ msg₂ hw₁ hw₂ ok₁ ok₂ hq₁ ha₁ hq₂ ha₂ hsame
    have h' : (daemon cfg).Reachable AcceptSound w' := h.trans hrun
    have hw' := reachable_consistent h'
    obtain ⟨n₁, hn₁, hs₁, hip₁, rfl⟩ := answered_for h' hq₁ ha₁
    obtain ⟨n₂, hn₂, hs₂, hip₂, rfl⟩ := answered_for h' hq₂ ha₂
    have hfam : n₁.2.ipaddress.saFamily = afInet := (hw'.cache.entry _ hn₁).asked (by simp [hs₁])
    exact (hw'.cache.agree _ hn₁ _ hn₂ (by rw [hip₁, hip₂, hsame]) hfam).2

/-- A question for 10.0.0.2. -/
def question : AreqEnv :=
  ⟨some ([2, 0, 0, 0, 10, 0, 0, 2] ++ List.replicate 12 0), true, fun _ => true⟩

/-- The reply of 10.0.0.2, whose hardware address is 02:00:00:00:00:02. -/
def replyFrame : List UInt8 :=
  arpFrame (hostMac 1) (hostMac 2) arpopReply
    (arpData (hostMac 1) (hostIp 2) (hostMac 2) (hostIp 2))

/-- How a frame of 10.0.0.2 arrives. -/
def fromTwo : PacketEnv where
  src := ⟨2, 1, 6, ⟨[2, 0, 0, 0, 0, 2, 0, 0], rfl⟩⟩
  req := ⟨.zero 4, true, 300⟩
  sendOk := fun _ => true

/-- Two clients ask for 10.0.0.2, and the packet socket becomes readable. -/
def bothAsk : List Event :=
  twoClients ++ [readable [5, 6], .areq question, .areq question, .tick, .tick, .tick,
    readable [4], .tick, .tick, .tick, .tick]

theorem cache_consistent_two : ∃ w,
    (daemon loneHost).guardedRun AcceptSound .init
      (bothAsk ++ [.packet (some replyFrame) fromTwo]) = some w ∧
    (w.cache.map fun n => n.2.state) = [.complete, .complete] ∧
    ∀ w', (daemon loneHost).Steps AcceptSound w w' → ∀ n ∈ w.cache, n.2.state = .complete →
      n ∈ w'.cache :=
  ⟨_, rfl, rfl, (cache_consistent (.of_guardedRun
    (bothAsk ++ [.packet (some replyFrame) fromTwo]) rfl : (daemon loneHost).Reachable _ _)).2.1⟩

/-! ## One answer for each client -/

/-- The end of the handling of an event: an entry that is to be removed is closed and removed. -/
def settle (w : World) : Option World :=
  match w.pc with
  | .remove rset rm next => stepRemove w rset rm next
  | _ => some w

/-- The observation is an answer to the client of `k`. -/
def Obs.isAnswer (k : Conn) : Obs → Bool
  | .answered c _ _ => c == k
  | _ => false

theorem perform_fds_mono {w : World} {e : Effect} {x : Int} {k : Conn}
    (h : (w.perform e).fds x = some k) : w.fds x = some k := by
  cases e with
  | close fd =>
    rw [perform_close_fds] at h
    exact (ConnInv.closeFd_some h).2
  | send fd hw ok => rw [perform_send_fds] at h; exact h
  | received fd msg =>
    simp only [World.perform] at h
    split at h <;> exact h
  | frame i bytes => exact h

theorem performAll_fds_mono {w : World} {effects : List Effect} {x : Int} {k : Conn}
    (h : (w.performAll effects).fds x = some k) : w.fds x = some k := by
  induction effects generalizing w with
  | nil => exact h
  | cons e effects ih => exact perform_fds_mono (ih h)

/-- Only `accept` opens a descriptor, and it tells nobody anything. -/
theorem Advance.fds_mono {w w' : World} {e : Event} (h : Advance cfg w e w') :
    (∀ x k, w'.fds x = some k → w.fds x = some k) ∨ w'.log = w.log := by
  cases h with
  | accepted => exact Or.inr rfl
  | moved => exact Or.inl fun _ _ hx => hx
  | dropped => exact Or.inl fun _ _ hx => hx
  | refused => exact Or.inl fun _ _ hx => hx
  | cached => exact Or.inl fun _ _ hx => hx
  | asked => exact Or.inl fun _ _ hx => hx
  | removed => exact Or.inl fun _ _ hx => perform_fds_mono hx
  | @packet _ _ _ cache effects =>
    exact Or.inl fun x k hx => performAll_fds_mono (w := { w with cache := cache }) hx

/-- Settling a reachable state is possible and leads to a reachable state, in which nothing more was
said and nothing was opened. -/
theorem settle_reachable {w : World} (h : (daemon cfg).Reachable AcceptSound w) :
    ∃ w', settle w = some w' ∧ (daemon cfg).Reachable AcceptSound w' ∧ w'.pc.dying = none ∧
      history w'.log = history w.log ∧ ∀ x k, w'.fds x = some k → w.fds x = some k := by
  cases hpc : w.pc with
  | remove rset rm next =>
    have hw := reachable_consistent h
    obtain ⟨c, hc, hstate⟩ := hw.dying rm (by rw [hpc]; rfl)
    have hentry := entryAt_of_mem hw.cache.nodup hc
    obtain ⟨w', hw'⟩ : ∃ w', stepRemove w rset rm next = some w' := by
      rw [stepRemove, hentry]
      exact ⟨_, if_pos (comparesInside_blank ((hw.cache.entry _ hc).blank hstate) _)⟩
    have hs : step cfg w .tick = some w' := by unfold step; rw [hpc]; exact hw'
    refine ⟨w', by unfold settle; rw [hpc]; exact hw', h.step (e := .tick) trivial hs, ?_⟩
    cases step_cases cfg hs with
    | moved hfrom => rw [hpc] at hfrom; cases hfrom
    | dropped hpc' => rw [hpc] at hpc'; cases hpc'
    | removed => exact ⟨rfl, history_close _ _, fun _ _ hx => perform_fds_mono hx⟩
  | _ =>
    exact ⟨w, by unfold settle; rw [hpc], h, by rw [hpc]; rfl, rfl, fun _ _ hx => hx⟩

/-- In a log whose history of `k` is one question and one answer, the question came first. -/
theorem received_before {l₁ l₂ : List Obs} {k : Conn} {hw : Hwaddr} {ok : Bool} {msg : List UInt8}
    (h : history (l₁ ++ .answered k hw ok :: l₂) k = [.answered k hw ok, .received k msg]) :
    .received k msg ∈ l₂ := by
  have habout : Obs.about k (.answered k hw ok) = true := by simp [Obs.about]
  rw [history, List.filter_append, List.filter_cons_of_pos habout] at h
  cases hl : l₁.filter (Obs.about k) with
  | nil =>
    rw [hl, List.nil_append, List.cons.injEq] at h
    exact List.mem_of_mem_filter (h.2 ▸ List.mem_singleton_self _)
  | cons o l =>
    rw [hl, List.cons_append, List.cons.injEq] at h
    -- nothing but the question is left, and the answer is not it
    have hmem : Obs.answered k hw ok ∈ [Obs.received k msg] := by rw [← h.2]; simp
    cases List.mem_singleton.1 hmem

/-- **Each client gets at most one answer**, and it is the answer to its own question. Whenever a
step answers a client, that client had sent one valid question and nothing else, and once the event
is handled the answer is the `hw` of a complete entry for that question, the connection is closed,
and no entry holds the descriptor it was on. -/
theorem answered_once {w w' : World} {e : Event} (h : (daemon cfg).Reachable AcceptSound w)
    (hg : AcceptSound w e) (hs : step cfg w e = some w') :
    (∀ k, w'.log.countP (Obs.isAnswer k) ≤ 1) ∧
    ∀ k hw ok l₁ l₂, w'.log = l₁ ++ .answered k hw ok :: l₂ → w.log <:+ l₂ →
      ∃ msg, msg.length = sizeofAreq ∧ (Sockaddr.ofBytes msg).saFamily = afInet ∧
        .received k msg ∈ l₂ ∧ (∀ msg', .received k msg' ∈ w'.log → msg' = msg) ∧
        ∃ w'', settle w' = some w'' ∧
          (∃ n ∈ w''.cache, n.2.state = .complete ∧ n.2.ipaddress = .ofBytes msg ∧ n.2.hw = hw) ∧
          (∀ x, w''.fds x ≠ some k) ∧
          ∀ x, w.fds x = some k → ∀ n ∈ w''.cache, n.2.domainSocket ≠ x := by
  have h' : (daemon cfg).Reachable AcceptSound w' := h.step hg hs
  constructor
  · intro k
    have hcount : w'.log.countP (Obs.isAnswer k) = (history w'.log k).countP (Obs.isAnswer k) := by
      unfold history
      rw [List.countP_filter]
      refine List.countP_congr fun o _ => ?_
      cases o <;> simp [Obs.isAnswer, Obs.about]
    have htalk := (reachable_conns h').talk k
    rw [hcount]
    generalize history w'.log k = l at htalk ⊢
    cases htalk with
    | nothing => exact Nat.zero_le 1
    | asked msg => simp [Obs.isAnswer]
    | answered ok hmsg hn hstate hip => simp [Obs.isAnswer]
  · intro k hw ok l₁ l₂ hlog hnew
    have hmem : Obs.answered k hw ok ∈ w'.log := by rw [hlog]; simp
    obtain ⟨msg, -, hmsg, hhist, -⟩ := answered_record h' hmem
    obtain ⟨w'', hsettle, hreach, hdying, hsame, hmono⟩ := settle_reachable h'
    have hhist'' : history w''.log k = [.answered k hw ok, .received k msg] := by rw [hsame, hhist]
    have hclosed : ∀ x, w''.fds x ≠ some k := by
      intro x hx
      obtain ⟨rm, c, hrm, -⟩ := (reachable_conns hreach).gone x k hw ok hx (by rw [hhist'']; simp)
      rw [hdying] at hrm
      cases hrm
    refine ⟨msg, hmsg.1, hmsg.2, received_before (hlog ▸ hhist), ?_, w'', hsettle, ?_, hclosed, ?_⟩
    · intro msg' hmem'
      have hq := received_history hmem'
      rw [hhist] at hq
      simpa using hq
    · have hmem : Obs.answered k hw ok ∈ history w''.log k := by rw [hhist'']; simp
      obtain ⟨msg', n, -, hrec, hn, hrest⟩ :=
        answered_record hreach (List.mem_of_mem_filter hmem)
      have hsameMsg : msg' = msg := by simpa [hhist''] using hrec.symm
      exact ⟨n, hn, hsameMsg ▸ hrest⟩
    · rintro x hx n hn rfl
      have hpos := (reachable_fdInv h).positive _ _ hx
      obtain ⟨-, j, hj⟩ := (reachable_fdInv hreach).live n hn hpos
      rcases (step_cases cfg hs).fds_mono with hopen | hquiet
      · obtain rfl : k = j := Option.some.inj (hx.symm.trans (hopen _ _ (hmono _ _ hj)))
        exact hclosed _ hj
      · -- nothing was said in this step
        have hle := hnew.length_le
        rw [← hquiet, hlog, List.length_append, List.length_cons] at hle
        omega

theorem answered_once_both : ∃ w w',
    (daemon loneHost).guardedRun AcceptSound .init bothAsk = some w ∧
    step loneHost w (.packet (some replyFrame) fromTwo) = some w' ∧
    (∀ k, w'.log.countP (Obs.isAnswer k) ≤ 1) ∧ w'.log.countP (Obs.isAnswer 1) = 1 :=
  ⟨_, _, rfl, rfl, (answered_once (.of_guardedRun bothAsk rfl : (daemon loneHost).Reachable _ _)
    (e := .packet (some replyFrame) fromTwo) trivial rfl).1, rfl⟩

end Tour
