import Tour.Route.Itineraries

/-!
# Tours that pass each other

A packet does not say which tour it belongs to, a node keeps one group for all of them, and nothing
orders the deliveries; a node may fail or leave at any time. The tours of a network keep apart all
the same: each is carried out in order, and at most one packet of it is in flight
(`tours_keep_apart`). A tour is completed when nothing fails on its way (`tours_complete`), no node
is ever led outside an object (`tours_stay_inside`), and the packets are delivered after a bounded
number of steps (`deliveries_bounded`).
-/

namespace Tour

open Lib Machine

/-! ## What the nodes read and write -/

section Total

variable {cfg : TourConfig}

/-- The slots of the hosts are inside the message. -/
theorem storeHosts_total (resolve : String → Option InAddr) {hosts : List String} (tour : Tourhdr)
    (hfits : 4 * hosts.length ≤ tourIpsSize) : ∃ r, storeHosts resolve hosts tour = some r := by
  induction hosts generalizing tour with
  | nil => exact ⟨_, rfl⟩
  | cons host hosts ih =>
    rw [List.length_cons] at hfits
    rw [storeHosts]
    cases resolve host with
    | none => exact ⟨_, rfl⟩
    | some ip =>
      have hslot : 4 * hosts.length + ip.bytes.length ≤ tourIpsSize := by
        rw [ip.length_eq]
        omega
      have hset : ∃ tour', tour.setIp hosts.length ip = some tour' := by
        simp only [Tourhdr.setIp, Buf.write, dif_pos hslot, bind, Option.bind_some]
        exact ⟨_, rfl⟩
      obtain ⟨tour', hset⟩ := hset
      dsimp only
      rw [hset]
      exact ih tour' (by omega)

theorem startTour_total (resolve : String → Option InAddr) (node : TourNode) {hosts : List String}
    (env : TourEnv) (hne : hosts ≠ []) (hmax : hosts.length ≤ tourMaxips) :
    ∃ r, startTour resolve node hosts env = some r := by
  have hfits : 4 * hosts.length ≤ tourIpsSize := by
    have := Nat.div_mul_le_self tourIpsSize 4
    rw [tourMaxips] at hmax
    omega
  obtain ⟨stored, hstored⟩ := storeHosts_total resolve ⟨mcastAddr,
    Int16.ofInt (bindPort 0 env.bind).2, Int16.ofInt hosts.length, .zero tourIpsSize⟩ hfits
  simp only [startTour, hstored, bind, Option.bind_some]
  split
  · exact ⟨_, rfl⟩
  split
  · exact ⟨_, rfl⟩
  split
  · exact ⟨_, rfl⟩
  cases stored with
  | none => exact ⟨_, rfl⟩
  | some tour =>
    obtain ⟨ips, b, rest, hres, hb, rfl⟩ := storeHosts_spec rfl hmax hstored
    have hlength : hosts.length = ips.length := by simpa using congrArg List.length hres
    cases ips with
    | nil => exact absurd (List.eq_nil_of_length_eq_zero hlength) hne
    | cons first todo =>
      rw [List.length_cons] at hlength
      dsimp only
      rw [forwardTour_cons node.hostip _ hb (by rw [hlength]; exact Int16.ofInt_eq_ofNat)
        (by omega)]
      exact ⟨_, rfl⟩

theorem recvTour_total (node : TourNode) (src dst sender mcastip : InAddr) (mcastport : Int16)
    {todo : List InAddr} (env : TourEnv) (hmax : todo.length ≤ tourMaxips) :
    ∃ r, recvTour node (tourPacket src dst mcastip mcastport todo) sender env = some r := by
  obtain ⟨ips, rest, hips, htour⟩ := hostTour_tourPacket src dst mcastip mcastport hmax
  rw [recvTour_eq node (tourPacket_le src dst mcastip mcastport hmax)]
  by_cases hchecks : PassesChecks (tourPacket src dst mcastip mcastport todo)
  · rcases outcomeOf_cases node sender env hchecks with
      ⟨node', hout⟩ | ⟨node', hout, hpos⟩ | ⟨node', hout, -⟩
    · rw [hout]
      exact ⟨_, rfl⟩
    · rw [hout, TourOutcome.run, htour]
      rw [htour, toInt_len hmax] at hpos
      cases todo with
      | nil => cases hpos
      | cons next todo =>
        rw [forwardTour_cons _ _ hips rfl hmax]
        exact ⟨_, rfl⟩
    · rw [hout, TourOutcome.run]
      split
      · split
        · exact ⟨_, rfl⟩
        · exact ⟨_, rfl⟩
      · exact ⟨_, rfl⟩
  · rw [outcomeOf, if_neg hchecks]
    exact ⟨_, rfl⟩

/-- A process can be started with any arguments. -/
theorem mainTour_total (resolve : String → Option InAddr) (p : TourProc) (hosts : List String)
    (menv : MainEnv) (env : TourEnv) : ∃ r, mainTour resolve p hosts menv env = some r := by
  unfold mainTour
  split
  · exact ⟨_, rfl⟩
  rename_i hvalid
  split
  · exact ⟨_, rfl⟩
  split
  · exact ⟨_, rfl⟩
  split
  · exact ⟨_, rfl⟩
  split
  · exact ⟨_, rfl⟩
  dsimp only
  split
  · exact ⟨_, rfl⟩
  have hstart : ∃ r, startHosts resolve p.node hosts env = some r := by
    unfold startHosts
    split
    · exact ⟨_, rfl⟩
    rename_i hne
    refine startTour_total resolve p.node env (by simpa using hne) ?_
    exact validArgs_le (by simpa using hvalid)
  obtain ⟨⟨node, effects⟩, hstart⟩ := hstart
  rw [hstart]
  simp only [bind, Option.bind_some]
  split
  · exact ⟨_, rfl⟩
  split
  · exact ⟨_, rfl⟩
  · exact ⟨_, rfl⟩

theorem rawTour_total (p : TourProc) {packet : List UInt8} {src dst mcastip : InAddr}
    {mcastport : Int16} {todo : List InAddr} (hmax : todo.length ≤ tourMaxips)
    (hpacket : packet = tourPacket src dst mcastip mcastport todo) (sender : InAddr) (env : TourEnv)
    (elem : Addr) (tid : UInt64) (tenv : ThreadEnv) :
    ∃ r, rawTour p packet sender env elem tid tenv = some r := by
  obtain ⟨⟨node, effects⟩, hrecv⟩ := recvTour_total p.node src dst sender mcastip mcastport env hmax
  rw [← hpacket] at hrecv
  rw [rawTour, hrecv]
  exact ⟨_, rfl⟩

end Total

/-! ## Two tours that cross -/

/-- Every call succeeds. -/
def openAll : MainEnv := ⟨true, true, true, true, true, true⟩

theorem openAll_succeeds : openAll.Succeeds := ⟨rfl, rfl, rfl, rfl, rfl⟩

/-- No call on a thread fails. -/
def joinAll : ThreadEnv := ⟨0, 0, fun _ => 0, fun _ => 0⟩

/-- The start of a process at a node, with one host. -/
theorem main_one {cfg : TourConfig} {sys : TourSystem} {a dst : InAddr} {host : String}
    (hboot : sys.procs a = bootProc cfg a) (hres : cfg.resolve host = some dst) :
    ∃ sys', (tourSystem cfg).step sys (.main a [host] openAll smooth) = some sys' ∧
      SystemEvent.Smooth cfg sys (.main a [host] openAll smooth) ∧
      sys'.tours = sys.tours ++ [⟨a, [host], 0xE6A9⟩] ∧
      sys'.flight = sys.flight ++
        [(dst, tourPacket (cfg.hostip a) dst mcastAddr (0xE6A9 : UInt16).toInt16 [])] ∧
      (sys'.procs a).phase = .touring ∧ ∀ b, b ≠ a → sys'.procs b = sys.procs b := by
  have hvalid : validArgs [host] = true := by
    simp [validArgs, noRepeat, tourMaxips_eq]
  obtain ⟨p', hmain, hphase⟩ := @mainTour_ok cfg (bootProc cfg a) [host] dst [] openAll smooth hvalid
    (by rw [List.map_singleton, hres]; rfl) openAll_succeeds smooth_succeeds
  have hproc : stepProc cfg.resolve (sys.procs a) (.main [host] openAll smooth) =
      some (p', [.packet dst (tourPacket (cfg.hostip a) dst mcastAddr (0xE6A9 : UInt16).toInt16 [])]) := by
    rw [hboot]
    exact hmain
  refine ⟨(sys.record a [host] smooth).apply a _, congrArg (Option.map _) hproc, fun _ => ?_, rfl, rfl,
    ?_, fun b hb => if_neg hb⟩
  · refine ⟨hvalid, fun h hh => ?_, openAll_succeeds, smooth_succeeds⟩
    rw [List.mem_singleton.1 hh, hres]
    exact Option.some_ne_none dst
  · simp only [TourSystem.apply, if_true]
    exact (hphase rfl rfl).1

/-- The first packet in flight arrives at its last host, which waits in the loop. -/
theorem deliver_last {cfg : TourConfig} {sys : TourSystem} {src dst : InAddr} {mcastport : Int16}
    {rest : List (InAddr × List UInt8)}
    (hflight : sys.flight = (dst, tourPacket src dst mcastAddr mcastport []) :: rest)
    (hphase : (sys.procs dst).phase = .touring) :
    ∃ sys', (tourSystem cfg).step sys (.deliver 0 smooth 0 0 joinAll) = some sys' ∧
      SystemEvent.Smooth cfg sys (.deliver 0 smooth 0 0 joinAll) ∧ sys'.tours = sys.tours ∧
      sys'.flight = rest ∧ ∀ b, b ≠ dst → sys'.procs b = sys.procs b := by
  have hmax : ([] : List InAddr).length ≤ tourMaxips := Nat.zero_le _
  have hpacket : tourPacket src dst mcastAddr mcastport [] =
    tourPacket src dst mcastAddr mcastport [] := rfl
  obtain ⟨r, hr⟩ := rawTour_total (sys.procs dst) hmax hpacket src smooth 0 0 joinAll
  obtain ⟨node, hout, -⟩ := rawTour_cases hmax hpacket hr
  have hsent : r.2.filterMap TourEffect.sent = [] := by
    obtain ⟨p, effects⟩ := r
    cases hout with
    | failed => rfl
    | forwarded next todo' left => cases left
    | ended peer last connected => rfl
  have hproc : stepProc cfg.resolve (sys.procs dst) (.raw (tourPacket src dst mcastAddr mcastport [])
      src smooth 0 0 joinAll) = some r := by
    simp only [stepProc, hphase]
    exact hr
  refine ⟨(sys.drop 0).apply dst r, ?_, ⟨smooth_succeeds, fun packet hpacket => ?_⟩, rfl, ?_,
    fun b hb => if_neg hb⟩
  · change stepSystem cfg sys (.deliver 0 smooth 0 0 joinAll) = _
    simp only [stepSystem, hflight, List.getElem?_cons_zero, bind, Option.bind_some, hphase, if_true,
      ipSrc_tourPacket, TourSystem.act]
    rw [show (sys.drop 0).procs dst = sys.procs dst from rfl, hproc]
    rfl
  · rw [hflight] at hpacket
    cases hpacket
    exact hphase
  · simp only [TourSystem.apply, TourSystem.drop, hflight, List.eraseIdx_cons_zero, hsent,
      List.append_nil]

/-- Two nodes send a tour to each other. -/
def crossing : List SystemEvent :=
  [.main (vm 1) ["vm2"] openAll smooth, .main (vm 2) ["vm1"] openAll smooth]

theorem crossing_run : ∃ sys, (tourSystem threeHosts).run (.boot threeHosts) crossing = some sys ∧
    (tourSystem threeHosts).Reachable (fun sys e => e.Smooth threeHosts sys) sys ∧
    sys.tours = [⟨vm 1, ["vm2"], 0xE6A9⟩, ⟨vm 2, ["vm1"], 0xE6A9⟩] ∧
    sys.flight = [(vm 2, tourPacket (vm 1) (vm 2) mcastAddr (0xE6A9 : UInt16).toInt16 []),
      (vm 1, tourPacket (vm 2) (vm 1) mcastAddr (0xE6A9 : UInt16).toInt16 [])] ∧
    (sys.procs (vm 1)).phase = .touring ∧ (sys.procs (vm 2)).phase = .touring := by
  have hne : vm 1 ≠ vm 2 := by decide
  obtain ⟨sys₁, hstep₁, hsmooth₁, htours₁, hflight₁, hphase₁, hrest₁⟩ :=
    @main_one threeHosts (.boot threeHosts) (vm 1) (vm 2) "vm2" rfl rfl
  obtain ⟨sys₂, hstep₂, hsmooth₂, htours₂, hflight₂, hphase₂, hrest₂⟩ :=
    @main_one threeHosts sys₁ (vm 2) (vm 1) "vm1" (hrest₁ _ (Ne.symm hne)) rfl
  have hreach₁ : (tourSystem threeHosts).Reachable (fun sys e => e.Smooth threeHosts sys) sys₁ :=
    (Steps.refl _).tail hsmooth₁ hstep₁
  refine ⟨sys₂, ?_, hreach₁.step hsmooth₂ hstep₂, ?_, ?_, ?_, hphase₂⟩
  · rw [crossing, (tourSystem threeHosts).run_cons_some hstep₁,
      (tourSystem threeHosts).run_cons_some hstep₂]
    rfl
  · rw [htours₂, htours₁]
    rfl
  · rw [hflight₂, hflight₁]
    rfl
  · rw [hrest₂ _ hne]
    exact hphase₁

theorem crossed_run : ∃ sys, (tourSystem threeHosts).run (.boot threeHosts)
      (crossing ++ List.replicate 2 (.deliver 0 smooth 0 0 joinAll)) = some sys ∧
    (tourSystem threeHosts).Reachable (fun sys e => e.Smooth threeHosts sys) sys ∧
    sys.tours = [⟨vm 1, ["vm2"], 0xE6A9⟩, ⟨vm 2, ["vm1"], 0xE6A9⟩] ∧ sys.flight = [] := by
  obtain ⟨sys₂, hrun₂, hreach₂, htours₂, hflight₂, hphase₁, hphase₂⟩ := crossing_run
  obtain ⟨sys₃, hstep₃, hsmooth₃, htours₃, hflight₃, hrest₃⟩ :=
    @deliver_last threeHosts sys₂ _ _ _ _ hflight₂ hphase₂
  rw [← hrest₃ (vm 1) (by decide)] at hphase₁
  obtain ⟨sys₄, hstep₄, hsmooth₄, htours₄, hflight₄, -⟩ :=
    @deliver_last threeHosts sys₃ _ _ _ _ hflight₃ hphase₁
  refine ⟨sys₄, ?_, (hreach₂.step hsmooth₃ hstep₃).step hsmooth₄ hstep₄, ?_, hflight₄⟩
  · rw [Machine.run_append, hrun₂]
    change (tourSystem threeHosts).run sys₂ _ = _
    rw [List.replicate_succ, (tourSystem threeHosts).run_cons_some hstep₃, List.replicate_one,
      (tourSystem threeHosts).run_cons_some hstep₄]
    rfl
  · rw [htours₄, htours₃, htours₂]

/-! ## Results -/

/-- A log tells the tours apart: it gives for each thing that was done for a tour, in order, which
tour that is, and what was done for a tour is a part of its itinerary from the start of it. -/
structure TellsApart (cfg : TourConfig) (sys : TourSystem) (log : List (Nat × TourHop)) : Prop where
  all : log.map Prod.snd = sys.log.filterMap (TourHop.of cfg)
  known : ∀ e ∈ log, e.1 < sys.tours.length
  ordered : ∀ t tour, sys.tours[t]? = some tour → Scripts.itemsOf log t <+: tour.itinerary cfg

theorem Simulates.tellsApart {cfg : TourConfig} {s : Scripts TourHop} {sys : TourSystem}
    (h : Simulates cfg s sys) (hinv : s.Inv) : TellsApart cfg sys s.log := by
  have hlength : s.begun.length = sys.tours.length := by rw [h.begun, List.length_map]
  refine ⟨h.log, fun e he => hlength ▸ hinv.known e he, fun t tour htour => hinv.done t _ ?_⟩
  rw [h.begun, List.getElem?_map, htour]
  rfl

/-- **Tours keep apart.** Whatever tours are started, in whatever order their packets are delivered
and whatever fails, all that the nodes send for tours can be told apart into the tours, each of which
is carried out hop by hop from its start; and each packet in flight was the last thing done for its
tour, of which no other packet is in flight. -/
theorem tours_keep_apart {cfg : TourConfig} {sys : TourSystem}
    (h : (tourSystem cfg).Reachable (fun _ _ => True) sys) :
    ∃ (log : List (Nat × TourHop)) (flying : List Nat), TellsApart cfg sys log ∧ flying.Nodup ∧
      List.Forall₂ (fun packet t => ∃ sender,
        (Scripts.itemsOf log t).getLast? = some (.send sender packet.1 packet.2))
        sys.flight flying := by
  obtain ⟨s, hinv, hs⟩ := tours_simulated h
  refine ⟨s.log, s.waiting.map Prod.fst, hs.tellsApart hinv, hinv.once, ?_⟩
  rw [List.forall₂_map_right_iff]
  refine hs.flight.imp ?_
  rintro packet w ⟨tour, sender, todo, -, -, -, hlast, -⟩
  exact ⟨sender, hlast⟩

/-- Two tours of which both packets are in flight. -/
theorem tours_keep_apart_crossing : ∃ sys : TourSystem, sys.tours.length = 2 ∧
    sys.flight.length = 2 ∧ ∃ (log : List (Nat × TourHop)) (flying : List Nat),
      TellsApart threeHosts sys log ∧ flying.Nodup ∧ List.Forall₂ (fun packet t => ∃ sender,
        (Scripts.itemsOf log t).getLast? = some (.send sender packet.1 packet.2))
        sys.flight flying := by
  obtain ⟨sys, -, hreach, htours, hflight, -⟩ := crossing_run
  exact ⟨sys, by rw [htours]; rfl, by rw [hflight]; rfl,
    tours_keep_apart (hreach.mono fun _ _ _ => trivial)⟩

/-- **Tours are completed.** When nothing fails on the way of the tours and no packet is in flight
any more, each of them was carried out to the announcement of its end. -/
theorem tours_complete {cfg : TourConfig} {sys : TourSystem}
    (h : (tourSystem cfg).Reachable (fun sys e => e.Smooth cfg sys) sys) (hflight : sys.flight = []) :
    ∃ log, TellsApart cfg sys log ∧ ∀ t tour, sys.tours[t]? = some tour →
      Scripts.itemsOf log t = tour.itinerary cfg := by
  obtain ⟨s, hinv, hkept, hs⟩ := tours_kept h
  refine ⟨s.log, hs.tellsApart hinv, fun t tour htour => hkept.all_done ?_ ?_⟩
  · have hnone := hs.flight
    rw [hflight] at hnone
    exact List.forall₂_nil_left_iff.1 hnone
  · rw [hs.begun, List.getElem?_map, htour]
    rfl

/-- Both tours have been announced. -/
theorem tours_complete_crossed : ∃ sys : TourSystem,
    sys.tours = [⟨vm 1, ["vm2"], 0xE6A9⟩, ⟨vm 2, ["vm1"], 0xE6A9⟩] ∧
    ∃ log, TellsApart threeHosts sys log ∧ ∀ t tour, sys.tours[t]? = some tour →
      Scripts.itemsOf log t = tour.itinerary threeHosts := by
  obtain ⟨sys, -, hreach, htours, hflight⟩ := crossed_run
  exact ⟨sys, htours, tours_complete hreach hflight⟩

/-- **No object is left.** In no state of the network does the start of a process, with whatever
arguments, or the delivery of a packet in flight take a node outside an object, whatever the calls
return. -/
theorem tours_stay_inside {cfg : TourConfig} {sys : TourSystem}
    (h : (tourSystem cfg).Reachable (fun _ _ => True) sys) :
    (∀ a hosts menv env, (sys.procs a).phase = .idle →
      (stepSystem cfg sys (.main a hosts menv env)).isSome) ∧
    ∀ i < sys.flight.length, ∀ env elem tid tenv,
      (stepSystem cfg sys (.deliver i env elem tid tenv)).isSome := by
  obtain ⟨s, hinv, hs⟩ := tours_simulated h
  constructor
  · intro a hosts menv env hidle
    obtain ⟨r, hr⟩ := mainTour_total cfg.resolve (sys.procs a) hosts menv env
    have hproc : stepProc cfg.resolve (sys.procs a) (.main hosts menv env) = some r := by
      simp only [stepProc, hidle, hr]
    simp only [stepSystem, TourSystem.act, TourSystem.record, hproc, Option.map_some,
      Option.isSome_some]
  · intro i hi env elem tid tenv
    have hw : i < s.waiting.length := hs.flight.length_eq ▸ hi
    obtain ⟨tour, sender, todo, -, hmax, hbytes, -⟩ := (List.forall₂_iff_get.1 hs.flight).2 i hi hw
    simp only [stepSystem, List.getElem?_eq_getElem hi, bind, Option.bind_some]
    split
    · rename_i htouring
      obtain ⟨r, hr⟩ := rawTour_total (sys.procs sys.flight[i].1) hmax hbytes
        (ipSrc sys.flight[i].2) env elem tid tenv
      have hproc : stepProc cfg.resolve (sys.procs sys.flight[i].1)
          (.raw sys.flight[i].2 (ipSrc sys.flight[i].2) env elem tid tenv) = some r := by
        simp only [stepProc, htouring]
        exact hr
      simp only [TourSystem.act, TourSystem.drop, hproc, Option.map_some, Option.isSome_some]
    · rfl

theorem tours_stay_inside_crossing : ∃ sys : TourSystem, sys.flight.length = 2 ∧
    ∀ i < sys.flight.length, ∀ env elem tid tenv,
      (stepSystem threeHosts sys (.deliver i env elem tid tenv)).isSome := by
  obtain ⟨sys, -, hreach, -, hflight, -⟩ := crossing_run
  exact ⟨sys, by rw [hflight]; rfl, (tours_stay_inside (hreach.mono fun _ _ _ => trivial)).2⟩

/-- **Deliveries are bounded.** In a run no more packets are delivered or in flight than the tours
started in it have hosts, whatever fails. -/
theorem deliveries_bounded {cfg : TourConfig} {sys : TourSystem} {es : List SystemEvent}
    (h : (tourSystem cfg).run (.boot cfg) es = some sys) :
    es.countP SystemEvent.delivers + sys.flight.length ≤ sys.hosts.length := by
  obtain ⟨ms, s, hms, hs, hgoes, hadds⟩ := (simulates_boot cfg).run Scripts.inv_empty h
  have hinv := Scripts.inv_empty.run hms
  have hmoves := Scripts.moves_le Scripts.inv_empty hms
  have hwaiting := hinv.length_le_remaining
  have hempty : (Scripts.empty : Scripts TourHop).remaining.length = 0 := rfl
  rw [hs.flight.length_eq]
  omega

/-- Two hosts, and two packets delivered to them. -/
theorem deliveries_bounded_crossed : ∃ sys,
    (tourSystem threeHosts).run (.boot threeHosts)
      (crossing ++ List.replicate 2 (.deliver 0 smooth 0 0 joinAll)) = some sys ∧
    sys.hosts = ["vm2", "vm1"] ∧ 2 + sys.flight.length ≤ sys.hosts.length := by
  obtain ⟨sys, hrun, -, htours, -⟩ := crossed_run
  exact ⟨sys, hrun, by rw [TourSystem.hosts, htours]; rfl, deliveries_bounded hrun⟩

end Tour
