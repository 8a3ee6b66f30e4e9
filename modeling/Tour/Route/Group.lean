import Tour.Route.Walk

/-!
# The group that a tour leaves behind

What a node holds after a tour came by is decided by the nodes that sent it the tour (`visits`):
whether there were any says whether it is bound, and they are the targets of its ping threads, each
once. The result is `group_agrees`.
-/

namespace Tour

open Lib Machine

section Visits

variable {cfg : TourConfig} {port : UInt16} (node : TourNode) (srcs : List InAddr)

theorem visits_binded :
    (visits cfg port node srcs).binded = true ↔ node.binded = true ∨ srcs ≠ [] := by
  induction srcs generalizing node with
  | nil => simp [visits]
  | cons src srcs ih =>
    rw [visits_cons, ih, TourNode.visited_binded]
    simp

theorem visits_nodup (h : node.pings.Nodup) : (visits cfg port node srcs).pings.Nodup := by
  induction srcs generalizing node with
  | nil => exact h
  | cons src srcs ih =>
    rw [visits_cons]
    exact ih _ (by rw [TourNode.visited_pings]; exact h.insert)

theorem mem_visits_pings (ip : InAddr) : ip ∈ (visits cfg port node srcs).pings ↔
    ip ∈ node.pings ∨ ∃ src ∈ srcs, cfg.hostip src = ip := by
  induction srcs generalizing node with
  | nil => simp [visits]
  | cons src srcs ih =>
    rw [visits_cons, ih, TourNode.visited_pings, List.mem_insert_iff, List.exists_mem_cons_iff,
      eq_comm (a := ip), or_comm (b := ip ∈ node.pings), or_assoc]

end Visits

section Hops

variable {source a : InAddr} {ips : List InAddr} {k : Nat}

/-- The nodes that have sent the tour to a node are those before it on the route. -/
theorem mem_senders {src : InAddr} : src ∈ senders ((hops source ips).take k) a ↔
    ∃ j < k, (source :: ips)[j]? = some src ∧ ips[j]? = some a := by
  have hmem : src ∈ senders ((hops source ips).take k) a ↔ (src, a) ∈ (hops source ips).take k := by
    simp [senders]
  rw [hmem, List.mem_iff_getElem?]
  constructor
  · rintro ⟨j, hj⟩
    rw [List.getElem?_take] at hj
    split at hj
    · rename_i hlt
      exact ⟨j, hlt, List.getElem?_zip_eq_some.1 hj⟩
    · cases hj
  · rintro ⟨j, hlt, hj⟩
    exact ⟨j, by rw [List.getElem?_take_of_lt hlt]; exact List.getElem?_zip_eq_some.2 hj⟩

theorem senders_ne_nil : senders ((hops source ips).take k) a ≠ [] ↔ a ∈ ips.take k := by
  have hsnd : ((hops source ips).take k).map Prod.snd = ips.take k := by
    rw [List.map_take, hops, List.map_snd_zip]
    rw [List.length_cons]
    omega
  rw [← hsnd, List.mem_map]
  simp [senders, List.filter_eq_nil_iff]

end Hops

/-- **Group agreement and ping targets.** After any number `k` of deliveries the nodes that are
bound are the source and the first `k` hosts; all of them are bound to the port that the source
chose, connected to the group on that port and joined to it; and a node pings the nodes that precede
it on the route so far, each with one thread. -/
theorem group_agrees {cfg : TourConfig} {source : InAddr} {hosts : List String} {ips : List InAddr}
    {env : TourEnv} {es : List TourEvent} (hne : hosts ≠ []) (hvalid : validArgs hosts = true)
    (hres : hosts.map cfg.resolve = ips.map some)
    (hhostip : ∀ a ∈ source :: ips, cfg.resolve (cfg.hostOf a) = some a) (henv : env.Succeeds)
    (hes : ∀ e ∈ es, e.Delivers) (hlen : es.length ≤ hosts.length) :
    ∃ net, (tourNet cfg).run (.boot cfg) (.start source hosts env :: es) = some net ∧
      (∀ a, (net.nodes a).port.isSome ↔ a ∈ source :: ips.take es.length) ∧
      (∀ a ∈ source :: ips.take es.length,
        (net.nodes a).port = some env.bind.ephemeral ∧
        (net.nodes a).peer = some (mcastAddr, env.bind.ephemeral) ∧
        (net.nodes a).group = some mcastAddr) ∧
      ∀ a, (net.nodes a).pings.Nodup ∧ ∀ ip, ip ∈ (net.nodes a).pings ↔
        ∃ j < es.length, (source :: ips)[j]? = some ip ∧ (source :: ips)[j + 1]? = some a := by
  have hmax : hosts.length ≤ tourMaxips := by
    simp only [validArgs, Bool.and_eq_true, decide_eq_true_eq] at hvalid
    exact hvalid.1
  obtain ⟨net, hrun, -, -, hfit, hnodes⟩ :=
    tour_run source (List.length_pos_of_ne_nil hne) hmax hres henv hes hlen
  have hbinded : ∀ a, (net.nodes a).binded = true ↔ a ∈ source :: ips.take es.length := by
    intro a
    rw [hnodes a, visits_binded, senders_ne_nil, List.mem_cons]
    refine or_congr ?_ Iff.rfl
    split
    · rename_i ha
      exact ⟨fun _ => ha, fun _ => rfl⟩
    · rename_i ha
      exact ⟨fun hb => (by cases hb), fun h => absurd h ha⟩
  refine ⟨net, hrun, fun a => ?_, fun a ha => ?_, fun a => ?_⟩
  · rw [← hbinded a, (hfit a).bound]
    cases (net.nodes a).binded <;> simp
  · have hb := (hbinded a).2 ha
    rw [(hfit a).bound, (hfit a).peer, (hfit a).group, hb]
    exact ⟨rfl, rfl, rfl⟩
  · -- both a source and a booted node ping nobody yet
    have hpings : (if a = source then sourceNode cfg env.bind.ephemeral source
        else bootNode cfg a).pings = [] := by split <;> rfl
    rw [hnodes a]
    refine ⟨visits_nodup _ _ (by rw [hpings]; exact List.nodup_nil), fun ip => ?_⟩
    rw [mem_visits_pings, hpings]
    constructor
    · rintro (hmem | ⟨src, hsrc, rfl⟩)
      · cases hmem
      · obtain ⟨j, hj, hsrc, ha⟩ := mem_senders.1 hsrc
        refine ⟨j, hj, ?_, ha⟩
        rw [TourConfig.hostip, hhostip src (List.mem_of_getElem? hsrc)]
        exact hsrc
    · rintro ⟨j, hj, hsrc, ha⟩
      refine Or.inr ⟨ip, mem_senders.2 ⟨j, hj, hsrc, ha⟩, ?_⟩
      rw [TourConfig.hostip, hhostip ip (List.mem_of_getElem? hsrc)]
      rfl

/-- After three of the four deliveries vm2 was visited from vm1 and from vm3. -/
theorem group_agrees_four : ∃ net,
    (tourNet threeHosts).run (.boot threeHosts)
      (.start (vm 1) ["vm2", "vm3", "vm2", "vm1"] smooth :: List.replicate 3 (.deliver 0 smooth)) =
        some net ∧
    (net.nodes (vm 3)).port = some 0xE6A9 ∧
    ∀ ip, ip ∈ (net.nodes (vm 2)).pings ↔ ∃ j < 3, [vm 1, vm 2, vm 3, vm 2, vm 1][j]? = some ip ∧
      [vm 1, vm 2, vm 3, vm 2, vm 1][j + 1]? = some (vm 2) := by
  obtain ⟨net, hrun, -, hbound, hpings⟩ := @group_agrees threeHosts (vm 1)
    ["vm2", "vm3", "vm2", "vm1"] [vm 2, vm 3, vm 2, vm 1] smooth
    (List.replicate 3 (.deliver 0 smooth)) (List.cons_ne_nil _ _) (by decide) rfl (by decide)
    smooth_succeeds (fun e he => ⟨smooth, smooth_succeeds, List.eq_of_mem_replicate he⟩) (by decide)
  exact ⟨net, hrun, (hbound _ (by decide)).1, (hpings _).2⟩

end Tour
