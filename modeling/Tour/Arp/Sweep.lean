import Tour.Arp.Consistency

/-!
# The sweep of `run_arp`

The loop in which `run_arp` handles and drops its readable clients walks over the list that it
removes entries from, and the node that `removeFromCache` frees need not be the one that was
visited: it is the first that looks the same. That node lies at or before the current one
(`removeFromCache_middle`), so the entries that are still to be visited stay as they were
(`turn_spec`), and each of them has its one turn (`sweep_survives`).
-/

namespace Tour

open Lib Machine

variable {cfg : Config}

/-- The sweep passes the entry by. -/
def Quiet (rset : Int → Bool) (n : Node) : Prop :=
  n.2.state = .complete ∨ rset n.2.domainSocket = false

instance (rset : Int → Bool) (n : Node) : Decidable (Quiet rset n) :=
  inferInstanceAs (Decidable (_ ∨ _))

/-! ## Turns -/

/-- What the loop does with an entry. -/
inductive Treatment
  | passed
  /-- `handle_areq` returned 1. -/
  | handled
  /-- Closed and removed, by `handle_areq` returning 0 or without a call. -/
  | dropped
deriving DecidableEq

structure Turn where
  entry : Addr
  treatment : Treatment
  /-- The node that the loop continues with. -/
  next : Option Addr
  /-- The cache when it does. -/
  after : List Node

/-- What the kernel is asked in a visit of the entry `c`. -/
def visitEvent (rset : Int → Bool) (c : Cache) (env : AreqEnv) : Event :=
  if c.state = .connection ∧ rset c.domainSocket = true then .areq env else .tick

/-- One turn of the loop: the visit of the entry at `a`, and the removal that it may lead to. -/
def turn (cfg : Config) (rset : Int → Bool) (a : Addr) (env : AreqEnv) (w : World) :
    Option (World × Turn) := do
  let c ← entryAt w.cache a
  let e := visitEvent rset c env
  let w ← step cfg w e
  match w.pc, e with
  | .sweep _ next, .areq _ => some (w, ⟨a, .handled, next, w.cache⟩)
  | .sweep _ next, _ => some (w, ⟨a, .passed, next, w.cache⟩)
  | .remove _ _ next, _ => do
    let w ← step cfg w .tick
    some (w, ⟨a, .dropped, next, w.cache⟩)
  | _, _ => none

/-- The loop, with at most `fuel` turns left; `env` is what the kernel answers at each entry. -/
def sweep (cfg : Config) (rset : Int → Bool) (env : Addr → AreqEnv) :
    Nat → World → Option (World × List Turn)
  | 0, w =>
    match w.pc with
    | .sweep _ none => some (w, [])
    | _ => none
  | fuel + 1, w =>
    match w.pc with
    | .sweep _ none => some (w, [])
    | .sweep _ (some a) => do
      let (w, t) ← turn cfg rset a (env a) w
      let (w, ts) ← sweep cfg rset env fuel w
      some (w, t :: ts)
    | _ => none

/-- The state at the next node of the sweep, the first of `l`. -/
def atHead (w : World) (rset : Int → Bool) (l : List Node) : World :=
  { w with pc := .sweep rset (l.head?.map Prod.fst) }

/-! ## One visit -/

section Visit

variable {w : World} {rset : Int → Bool} {l₁ l₂ : List Node} {n : Node}
  (hcache : w.cache = l₁ ++ n :: l₂) (hnodup : (addrs w.cache).Nodup)

include hcache hnodup

theorem entryAt_current : entryAt w.cache n.1 = some n.2 := by
  apply entryAt_of_mem hnodup
  rw [hcache]
  simp

theorem nextOf_current : nextOf w.cache n.1 = l₂.head?.map Prod.fst := by
  rw [hcache] at hnodup ⊢
  exact nextOf_middle hnodup

theorem step_current (e : Event) : step cfg (atHead w rset (n :: l₂)) e =
    stepVisit cfg (atHead w rset (n :: l₂)) rset n.1 n.2 e := by
  have hentry : entryAt (atHead w rset (n :: l₂)).cache n.1 = some n.2 :=
    entryAt_current hcache hnodup
  have hpc : (atHead w rset (n :: l₂)).pc = .sweep rset (some n.1) := rfl
  simp only [step, hpc, hentry, bind, Option.bind_some]

theorem step_quiet (hquiet : Quiet rset n) :
    step cfg (atHead w rset (n :: l₂)) .tick = some (atHead w rset l₂) := by
  have hnext : nextOf (atHead w rset (n :: l₂)).cache n.1 = l₂.head?.map Prod.fst :=
    nextOf_current hcache hnodup
  simp only [step_current hcache hnodup, stepVisit, hnext]
  exact if_pos hquiet

omit hcache hnodup in
/-- `handle_areq` changes no entry but the client's, and keeps the client's `hw`. -/
theorem AreqCase.cache_eq {devices : List HwaInfo} {conn : Cache} {sendOk : Bool}
    {recv : Option (List UInt8)} {r : AreqResult} (hnodup : (addrs (l₁ ++ n :: l₂)).Nodup)
    (h : AreqCase devices (l₁ ++ n :: l₂) n.1 conn sendOk recv r) :
    ∃ c : Cache, r.cache = l₁ ++ (n.1, c) :: l₂ ∧ c.hw = n.2.hw := by
  cases h with
  | failed => exact ⟨n.2, rfl, rfl⟩
  | refused => exact ⟨n.2, rfl, rfl⟩
  | cached => exact ⟨n.2, rfl, rfl⟩
  | @asked msg =>
    have hmiddle := updateAt_middle (f := fun c =>
      { c with state := .incomplete, ipaddress := .ofBytes msg }) hnodup
    exact ⟨_, hmiddle, rfl⟩

variable (cfg) in
/-- A visit of a readable client: its entry may change, but not the `hw` in it, nor the address that
it already waits for, and no other entry does. -/
theorem step_readable (hread : ¬Quiet rset n) (env : AreqEnv) :
    ∃ (w' : World) (c : Cache), w'.cache = l₁ ++ (n.1, c) :: l₂ ∧ c.hw = n.2.hw ∧
      (n.2.state = .incomplete → c.ipaddress = n.2.ipaddress) ∧
      (visitEvent rset n.2 env = .areq env ∧
          step cfg (atHead w rset (n :: l₂)) (visitEvent rset n.2 env) = some (atHead w' rset l₂) ∨
        step cfg (atHead w rset (n :: l₂)) (visitEvent rset n.2 env) =
          some { w' with pc := .remove rset n.1 (l₂.head?.map Prod.fst) }) := by
  have hnext : nextOf (atHead w rset (n :: l₂)).cache n.1 = l₂.head?.map Prod.fst :=
    nextOf_current hcache hnodup
  have hset : rset n.2.domainSocket = true := by simpa using (not_or.1 hread).2
  have hread' : ¬(n.2.state = .complete ∨ rset n.2.domainSocket = false) := hread
  simp only [step_current hcache hnodup, stepVisit, if_neg hread', hnext]
  cases hstate : n.2.state with
  | complete => exact absurd hstate (not_or.1 hread).1
  | incomplete =>
    have htick : visitEvent rset n.2 env = .tick := by simp [visitEvent, hstate]
    rw [htick]
    exact ⟨w, n.2, hcache, rfl, fun _ => rfl, .inr rfl⟩
  | connection =>
    have hareq : visitEvent rset n.2 env = .areq env := by simp [visitEvent, hstate, hset]
    obtain ⟨r, hr⟩ : ∃ r, callAreq cfg (atHead w rset (n :: l₂)) n.1 n.2 env = some r :=
      handleAreq_returns _ _ _ _ hstate
    have hcase : AreqCase cfg.devices (l₁ ++ n :: l₂) n.1 n.2 _ _ r :=
      hcache ▸ handleAreq_cases hr
    obtain ⟨c, hc, hhw⟩ := hcase.cache_eq (hcache ▸ hnodup)
    have hwaits : CacheState.connection = .incomplete → c.ipaddress = n.2.ipaddress :=
      fun hs => by cases hs
    refine ⟨World.performAll { atHead w rset (n :: l₂) with cache := r.cache } r.effects, c, ?_, hhw,
      hwaits, ?_⟩
    · rw [World.performAll_cache, hc]
    · simp only [hareq, if_true, hr, bind, Option.bind_some]
      cases r.rv with
      | true => exact .inl ⟨trivial, rfl⟩
      | false => exact .inr rfl

end Visit

/-! ## One turn -/

/-- The turn of the entry `n`: it is handled or dropped exactly when it is readable, and the node
that the loop continues with is in the list. -/
structure TurnAt (rset : Int → Bool) (n : Node) (t : Turn) : Prop where
  entry : t.entry = n.1
  processed : t.treatment ≠ .passed ↔ n.2.state ≠ .complete ∧ rset n.2.domainSocket = true
  live : ∀ b, t.next = some b → b ∈ addrs t.after

/-- The entry `n` cannot take the entry `m` out of the cache in its place: they differ in what is
compared. A client that has not asked may be removed with another address than it has. -/
def Spares (n m : Node) : Prop :=
  n.2.state ≠ .complete →
    ¬(m.2.hw.sllIfindex = n.2.hw.sllIfindex ∧
      sameBytes m.2.hw.sllAddr n.2.hw.sllAddr n.2.hw.sllHalen.toNat = true ∧
      (n.2.state = .incomplete → m.2.ipaddress = n.2.ipaddress))

section Turn

variable {w : World} {rset : Int → Bool} {l₁ l₂ : List Node} {n : Node}

theorem head_live {b : Addr} (h : l₂.head?.map Prod.fst = some b) : b ∈ addrs (l₁ ++ l₂) := by
  cases l₂ with
  | nil => cases h
  | cons m l₂ =>
    cases h
    rw [addrs_append, addrs_cons]
    simp

variable (cfg rset) in
/-- The removal in a turn: all behind the current entry stays. -/
theorem step_drop {c : Cache} (hcache : w.cache = l₁ ++ (n.1, c) :: l₂)
    (hnodup : (addrs w.cache).Nodup) (hhalen : c.hw.sllHalen ≤ 8) :
    ∃ w' : World, step cfg { w with pc := .remove rset n.1 (l₂.head?.map Prod.fst) } .tick =
        some (atHead w' rset l₂) ∧
      w'.cache = removeFromCache (l₁ ++ [(n.1, { c with domainSocket := -1 })])
        (n.1, { c with domainSocket := -1 }) ++ l₂ := by
  have hentry : entryAt w.cache n.1 = some c := entryAt_current hcache hnodup
  have hclear : updateAt w.cache n.1 (fun c => { c with domainSocket := -1 }) =
      l₁ ++ (n.1, { c with domainSocket := -1 }) :: l₂ := by
    rw [hcache] at hnodup ⊢
    exact updateAt_middle (n := (n.1, c)) hnodup
  refine ⟨{ { w with pc := .remove rset n.1 (l₂.head?.map Prod.fst) }.perform
      (.close c.domainSocket) with
    cache := removeFromCache (l₁ ++ (n.1, { c with domainSocket := -1 }) :: l₂)
      (n.1, { c with domainSocket := -1 }) }, ?_, removeFromCache_middle l₁ l₂⟩
  simp only [step, stepRemove, hentry, bind, Option.bind_some, World.perform_cache, hclear]
  exact if_pos (Or.inl hhalen)

theorem mem_spared {c : Cache} {m : Node} (hm : m ∈ l₁) (hne : m.1 ≠ n.1)
    (hsame : sameContent m.2 c = false) :
    m ∈ removeFromCache (l₁ ++ [(n.1, { c with domainSocket := -1 })])
      (n.1, { c with domainSocket := -1 }) := by
  apply mem_removeFromCache_of_ne (List.mem_append_left _ hm)
  have haddr : (m.1 == n.1) = false := beq_eq_false_iff_ne.2 hne
  rw [isSameCache, haddr, Bool.false_or]
  exact hsame

/-- What a turn of the entry `n`, with `l₁` before it and `l₂` behind it, leaves: all of `l₂`, and
the complete entries that `n` spares. -/
structure Turned (rset : Int → Bool) (l₁ l₂ : List Node) (n : Node) (t : Turn) (w' : World) :
    Prop where
  turn : TurnAt rset n t
  after : t.after = w'.cache
  nodup : (addrs w'.cache).Nodup
  kept : ∃ l, w'.cache = l ++ l₂ ∧ ∀ m ∈ l₁ ++ [n], m.2.state = .complete → Spares n m → m ∈ l

variable (cfg) in
theorem turn_quiet (hcache : w.cache = l₁ ++ n :: l₂) (hnodup : (addrs w.cache).Nodup)
    (hquiet : Quiet rset n) (env : AreqEnv) :
    ∃ t, turn cfg rset n.1 env (atHead w rset (n :: l₂)) = some (atHead w rset l₂, t) ∧
      Turned rset l₁ l₂ n t w := by
  have hentry : entryAt (atHead w rset (n :: l₂)).cache n.1 = some n.2 :=
    entryAt_current hcache hnodup
  have htick : visitEvent rset n.2 env = .tick := by
    apply if_neg
    rintro ⟨hconn, hset⟩
    obtain hcomplete | hunset := hquiet
    · rw [hcomplete] at hconn; cases hconn
    · rw [hunset] at hset; cases hset
  have hsplit : w.cache = (l₁ ++ [n]) ++ l₂ := by rw [hcache, List.append_cons]
  refine ⟨⟨n.1, .passed, l₂.head?.map Prod.fst, w.cache⟩, ?_, ⟨rfl, ?_, ?_⟩, rfl, hnodup,
    l₁ ++ [n], hsplit, fun m hm _ _ => hm⟩
  · simp only [turn, hentry, bind, Option.bind_some, htick, step_quiet hcache hnodup hquiet]
    rfl
  · refine ⟨fun h => absurd rfl h, fun h => ?_⟩
    obtain hcomplete | hunset := hquiet
    · exact absurd hcomplete h.1
    · rw [hunset] at h; cases h.2
  · intro b hb
    rw [hsplit]
    exact head_live hb

/-- A turn in which `handle_areq` returned 1. -/
theorem turned_handled {w' : World} {c : Cache} (hread : ¬Quiet rset n)
    (hcache' : w'.cache = l₁ ++ (n.1, c) :: l₂) (hnodup' : (addrs w'.cache).Nodup) :
    Turned rset l₁ l₂ n ⟨n.1, .handled, l₂.head?.map Prod.fst, w'.cache⟩ w' := by
  have hread' : n.2.state ≠ .complete ∧ rset n.2.domainSocket = true := by
    simpa [Quiet] using hread
  have hsplit : w'.cache = (l₁ ++ [(n.1, c)]) ++ l₂ := by rw [hcache', List.append_cons]
  refine ⟨⟨rfl, ⟨fun _ => hread', fun _ h => by cases h⟩, ?_⟩, rfl, hnodup', l₁ ++ [(n.1, c)], hsplit,
    ?_⟩
  · intro b hb
    rw [hsplit]
    exact head_live hb
  · intro m hm hcomplete _
    rcases List.mem_append.1 hm with hm | hm
    · exact List.mem_append_left _ hm
    · rw [List.mem_singleton.1 hm] at hcomplete
      exact absurd hcomplete hread'.1

/-- A turn in which the client is closed and removed. -/
theorem turned_dropped {w' : World} {c : Cache} (hread : ¬Quiet rset n) (hhw : c.hw = n.2.hw)
    (hip : n.2.state = .incomplete → c.ipaddress = n.2.ipaddress)
    (hnodup : (addrs (l₁ ++ n :: l₂)).Nodup)
    (hcache' : w'.cache = removeFromCache (l₁ ++ [(n.1, { c with domainSocket := -1 })])
      (n.1, { c with domainSocket := -1 }) ++ l₂) :
    Turned rset l₁ l₂ n ⟨n.1, .dropped, l₂.head?.map Prod.fst, w'.cache⟩ w' := by
  have hread' : n.2.state ≠ .complete ∧ rset n.2.domainSocket = true := by
    simpa [Quiet] using hread
  refine ⟨⟨rfl, ⟨fun _ => hread', fun _ h => by cases h⟩, ?_⟩, rfl, ?_, _, hcache', ?_⟩
  · intro b hb
    rw [hcache']
    exact head_live hb
  · rw [hcache']
    apply List.Nodup.sublist ((removeFromCache_sublist.append_right l₂).map Prod.fst)
    simp only [addrs, List.map_append, List.map_cons, List.append_assoc,
      List.singleton_append] at hnodup ⊢
    exact hnodup
  · intro m hm hcomplete hspares
    rcases List.mem_append.1 hm with hm | hm
    · apply mem_spared hm
      · rw [addrs_append, addrs_cons, List.nodup_middle, List.nodup_cons] at hnodup
        intro heq
        exact hnodup.1 (heq ▸ List.mem_append_left _ (List.mem_map_of_mem hm))
      · rw [← Bool.not_eq_true]
        intro hsame
        simp only [sameContent, hhw, Bool.and_eq_true, beq_iff_eq] at hsame
        obtain ⟨⟨hindex, hbytes⟩, haddress⟩ := hsame
        exact hspares hread'.1 ⟨hindex, hbytes, fun hs => haddress.trans (hip hs)⟩
    · rw [List.mem_singleton.1 hm] at hcomplete
      exact absurd hcomplete hread'.1

variable (cfg rset) in
theorem turn_spec (hcache : w.cache = l₁ ++ n :: l₂) (hnodup : (addrs w.cache).Nodup)
    (hhalen : n.2.state ≠ .complete → n.2.hw.sllHalen ≤ 8) (env : AreqEnv) : ∃ (w' : World) (t : Turn),
      turn cfg rset n.1 env (atHead w rset (n :: l₂)) = some (atHead w' rset l₂, t) ∧
      Turned rset l₁ l₂ n t w' := by
  by_cases hquiet : Quiet rset n
  · exact ⟨w, turn_quiet cfg hcache hnodup hquiet env⟩
  have hentry : entryAt (atHead w rset (n :: l₂)).cache n.1 = some n.2 :=
    entryAt_current hcache hnodup
  obtain ⟨w₁, c, hcache₁, hhw, hip, hstep⟩ := step_readable cfg hcache hnodup hquiet env
  have hnodup₁ : (addrs w₁.cache).Nodup := by
    rw [hcache, addrs_append, addrs_cons] at hnodup
    rw [hcache₁, addrs_append, addrs_cons]
    exact hnodup
  rcases hstep with ⟨hareq, hstep⟩ | hstep
  · refine ⟨w₁, _, ?_, turned_handled hquiet hcache₁ hnodup₁⟩
    rw [hareq] at hstep
    simp only [turn, hentry, bind, Option.bind_some, hareq, hstep]
    rfl
  · have hhalen₁ : c.hw.sllHalen ≤ 8 := hhw ▸ hhalen (not_or.1 hquiet).1
    obtain ⟨w₂, hdrop, hcache₂⟩ := step_drop cfg rset hcache₁ hnodup₁ hhalen₁
    refine ⟨w₂, _, ?_, turned_dropped hquiet hhw hip (hcache ▸ hnodup) hcache₂⟩
    simp only [turn, hentry, bind, Option.bind_some, hstep, hdrop]
    rfl

end Turn

/-! ## The loop -/

variable (cfg) in
/-- The loop from the first of `l₂` on, with the entries before it already visited. -/
theorem sweep_spec (rset : Int → Bool) (env : Addr → AreqEnv) (l₁ l₂ : List Node) {w : World}
    (hcache : w.cache = l₁ ++ l₂) (hnodup : (addrs w.cache).Nodup)
    (hhalen : ∀ n ∈ l₂, n.2.state ≠ .complete → n.2.hw.sllHalen ≤ 8) :
    ∃ (w' : World) (turns : List Turn),
      sweep cfg rset env l₂.length (atHead w rset l₂) = some (atHead w' rset [], turns) ∧
      List.Forall₂ (TurnAt rset) l₂ turns ∧
      ∀ m ∈ w.cache, m.2.state = .complete → (∀ n ∈ l₂, Spares n m) →
        m ∈ w'.cache ∧ ∀ t ∈ turns, m ∈ t.after := by
  induction l₂ generalizing l₁ w with
  | nil => exact ⟨w, [], rfl, .nil, fun m hm _ _ => ⟨hm, fun t ht => by cases ht⟩⟩
  | cons n l₂ ih =>
    obtain ⟨hfirst, hlater⟩ := List.forall_mem_cons.1 hhalen
    obtain ⟨w₁, t, hturn, hat, hafter, hnodup₁, l, hcache₁, hkeeps⟩ :=
      turn_spec cfg rset hcache hnodup hfirst (env n.1)
    obtain ⟨w', turns, hsweep, hturns, hall⟩ := ih l hcache₁ hnodup₁ hlater
    refine ⟨w', t :: turns, ?_, .cons hat hturns, ?_⟩
    · have hpc : (atHead w rset (n :: l₂)).pc = .sweep rset (some n.1) := rfl
      simp only [List.length_cons, sweep, hpc, hturn, hsweep, bind, Option.bind_some]
    · intro m hm hcomplete hspares
      obtain ⟨hn, hrest⟩ := List.forall_mem_cons.1 hspares
      have hm₁ : m ∈ w₁.cache := by
        rw [hcache, List.append_cons] at hm
        rw [hcache₁]
        rcases List.mem_append.1 hm with hm | hm
        · exact List.mem_append_left _ (hkeeps m hm hcomplete hn)
        · exact List.mem_append_right _ hm
      obtain ⟨hend, hafters⟩ := hall m hm₁ hcomplete hrest
      exact ⟨hend, List.forall_mem_cons.2 ⟨hafter ▸ hm₁, hafters⟩⟩

theorem entries_of_turns {rset : Int → Bool} {l : List Node} {turns : List Turn}
    (h : List.Forall₂ (TurnAt rset) l turns) : turns.map Turn.entry = addrs l := by
  induction h with
  | nil => rfl
  | cons hat _ ih => rw [List.map_cons, addrs_cons, hat.entry, ih]

/-- No entry of a reachable cache is in the place of an answer. -/
theorem reachable_spares {G : World → Event → Prop} {w : World}
    (h : (daemon cfg).Reachable G w) {n m : Node} (hn : n ∈ w.cache)
    (hm : m.2.hw.sllIfindex ≠ 0) : Spares n m := by
  rintro hstate ⟨heq, -⟩
  rw [((reachable_consistent h).cache.entry n hn).blank hstate] at heq
  exact hm heq

/-- A sweep of the daemon loses no answer. -/
theorem sweep_keeps_answers {G : World → Event → Prop} {w : World}
    (h : (daemon cfg).Reachable G w) (rset : Int → Bool) (env : Addr → AreqEnv) :
    ∃ (w' : World) (turns : List Turn),
      sweep cfg rset env w.cache.length (atHead w rset w.cache) = some (w', turns) ∧
      ∀ m ∈ w.cache, m.2.state = .complete → m.2.hw.sllIfindex ≠ 0 →
        m ∈ w'.cache ∧ ∀ t ∈ turns, m ∈ t.after := by
  have hcache := (reachable_consistent h).cache
  have hhalen : ∀ n ∈ w.cache, n.2.state ≠ .complete → n.2.hw.sllHalen ≤ 8 := by
    intro n hn hstate
    rw [(hcache.entry n hn).blank hstate]
    decide
  obtain ⟨w', turns, hsweep, -, hall⟩ := sweep_spec cfg rset env [] w.cache rfl hcache.nodup hhalen
  exact ⟨_, turns, hsweep, fun m hm hcomplete hindex =>
    hall m hm hcomplete fun n hn => reachable_spares h hn hindex⟩

variable (cfg) in
/-- **The sweep survives its removals.** It ends after one turn for each entry that the cache held
when it began, in their order, and the turn does what the entry's state and descriptor asked for
then. A complete entry stays when no client's entry looks the same. The entries of the clients declare
at most eight address bytes, so that no comparison leaves them. -/
theorem sweep_survives (w : World) (hnodup : (addrs w.cache).Nodup)
    (hhalen : ∀ n ∈ w.cache, n.2.state ≠ .complete → n.2.hw.sllHalen ≤ 8) (rset : Int → Bool)
    (env : Addr → AreqEnv) :
    ∃ (w' : World) (turns : List Turn),
      sweep cfg rset env w.cache.length (atHead w rset w.cache) = some (w', turns) ∧
      w'.pc = .sweep rset none ∧ List.Forall₂ (TurnAt rset) w.cache turns ∧
      (turns.map Turn.entry).Nodup ∧
      ∀ m ∈ w.cache, m.2.state = .complete → (∀ n ∈ w.cache, Spares n m) →
        m ∈ w'.cache ∧ ∀ t ∈ turns, m ∈ t.after := by
  obtain ⟨w', turns, hsweep, hturns, hall⟩ := sweep_spec cfg rset env [] w.cache rfl hnodup hhalen
  refine ⟨atHead w' rset [], turns, hsweep, rfl, hturns, ?_, hall⟩
  rw [entries_of_turns hturns]
  exact hnodup

/-- The `hw` of an answer that came in on the interface 2. -/
def answerHw : Hwaddr := { Hwaddr.zero with sllIfindex := 2 }

/-- A state with an answer, and a waiting client whose `hw` is `hw`. -/
def answerAndClient (hw : Hwaddr) : World :=
  { World.init with
    cache := [(1, ⟨.zero, -1, .complete, answerHw⟩), (2, ⟨.zero, 5, .incomplete, hw⟩)] }

/-- The `hw` of another address on the same interface. -/
def otherHw : Hwaddr := { answerHw with sllHalen := 6, sllAddr := .fill 8 (hostMac 3).bytes }

/-- A client that hangs up while it waits leaves an answer on its interface alone. -/
theorem sweep_survives_client : ∃ (w' : World) (turns : List Turn),
    sweep loneHost (fun _ => true) (fun _ => ⟨none, true, fun _ => true⟩) 2
      (atHead (answerAndClient otherHw) (fun _ => true) (answerAndClient otherHw).cache) =
        some (w', turns) ∧
    (1, ⟨.zero, -1, .complete, answerHw⟩) ∈ w'.cache := by
  obtain ⟨w', turns, hsweep, -, -, -, hall⟩ := sweep_survives loneHost
    (answerAndClient otherHw) (by decide) (by decide) (fun _ => true)
    (fun _ => ⟨none, true, fun _ => true⟩)
  refine ⟨w', turns, hsweep, (hall _ List.mem_cons_self rfl ?_).1⟩
  intro n hn hstate
  rcases List.mem_cons.1 hn with rfl | hn
  · exact absurd rfl hstate
  · rw [List.mem_singleton.1 hn]
    decide

/-- In a list that no run reaches, a waiting client takes the answer with its own `hw` out of the
cache in its place. -/
theorem sweep_removes_answer :
    ¬∀ (w : World) (rset : Int → Bool) (env : Addr → AreqEnv) (w' : World) (turns : List Turn),
      (addrs w.cache).Nodup → (∀ n ∈ w.cache, n.2.hw.sllHalen ≤ 8) →
      sweep loneHost rset env w.cache.length (atHead w rset w.cache) = some (w', turns) →
      ∀ m ∈ w.cache, m.2.state = .complete → m.2.hw.sllIfindex ≠ 0 → m ∈ w'.cache := by
  intro h
  have hrun : (sweep loneHost (fun _ => true) (fun _ => ⟨none, true, fun _ => true⟩) 2
      (atHead (answerAndClient answerHw) (fun _ => true) (answerAndClient answerHw).cache)).map
        (fun r => r.1.cache) = some [(2, ⟨.zero, -1, .incomplete, answerHw⟩)] := by decide
  obtain ⟨⟨w', turns⟩, hsweep, hcache⟩ := Option.map_eq_some_iff.1 hrun
  have hmem := h (answerAndClient answerHw) _ _ w' turns (by decide) (by decide) hsweep _
    List.mem_cons_self rfl (by decide)
  rw [show w'.cache = _ from hcache] at hmem
  revert hmem
  decide

end Tour
