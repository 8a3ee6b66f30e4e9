import Mathlib.Data.Fintype.Basic
import Tour.Arp.Ether
import Tour.Arp.Answers

/-!
# Many hosts

Any number of hosts, each running the daemon, on a network that delays, reorders, loses and
duplicates frames: a frame can be delivered whenever it is in the log of some host. `Genuine` says
what the fields of a frame in flight mean, and `Correct` what a complete entry means. Every step of
every host keeps both (`Advance.genuine`, `Advance.correct`), so resolution is correct
(`resolution_correct`).
-/

namespace Tour

open Lib Machine

variable {H : Type} (cfgs : H → Config)

/-- The hosts of a network; each event is an event of one of them. -/
def network [DecidableEq H] : Machine (H → World) (H × Event) where
  init := fun _ => .init
  step ws e := (step (cfgs e.1) (ws e.1) e.2).map fun w => fun h => if h = e.1 then w else ws h

/-- What the network does with frames: it delivers one that a daemon emitted, on a listed interface
of the receiver, and tells its Ethernet source. -/
def Delivers (ws : H → World) : H × Event → Prop
  | (h, .packet (some frame) env) =>
    (∃ s, .emitted frame ∈ (ws s).log) ∧
      (∃ d ∈ (cfgs h).devices, d.ifIndex = env.src.sllIfindex) ∧
      env.src.sllHalen = 6 ∧ env.src.sllAddr.bytes.take ethAlen = (frame.drop ethAlen).take ethAlen
  | _ => True

instance [Fintype H] (ws : H → World) : (e : H × Event) → Decidable (Delivers cfgs ws e)
  | (_, .packet (some _) _) => instDecidableAnd
  | (_, .packet none _) | (_, .select _) | (_, .tick) | (_, .areq _) | (_, .accept _ _) =>
    .isTrue trivial

/-! ## What a frame in flight means -/

/-- A request carries the addresses of the interface it left, as its Ethernet source and in the
sender fields. A reply carries the addresses of the interface that was asked for in the target
fields. -/
inductive Genuine : List UInt8 → Prop
  | request {s : H} {d : HwaInfo} (hd : d ∈ (cfgs s).devices) (tgt : InAddr) :
    Genuine (requestFrame d tgt)
  | reply {s : H} {d this : HwaInfo} (hthis : this ∈ (cfgs s).devices) (asker : Buf 6) :
    Genuine (replyFrameOf asker d this this.ipAddr.sinAddr)

/-- What a complete entry on host `i` means: its hardware address is that of the interface with its
IP address, and it names an interface of the host. -/
structure Correct (i : H) (c : Cache) : Prop where
  owner : ∃ s, ∃ d ∈ (cfgs s).devices, d.ipAddr.sinAddr = c.ipaddress.sinAddr ∧
    c.hw.sllAddr.bytes.take ethAlen = d.ifHaddr.bytes
  halen : c.hw.sllHalen = 6
  interface : ∃ d ∈ (cfgs i).devices, d.ifIndex = c.hw.sllIfindex ∧
    c.hw.sllIfaddr.bytes.take ethAlen = d.ifHaddr.bytes

variable {cfgs}

theorem fill_take (mac : Buf 6) : (Buf.fill 8 mac.bytes).bytes.take ethAlen = mac.bytes := by
  rw [Buf.fill_bytes_of_le (by simp)]
  exact List.take_left' mac.length_eq

theorem arpFrame_source (dst src : Buf 6) (op : UInt16) (data : List UInt8) :
    ((arpFrame dst src op data).drop ethAlen).take ethAlen = src.bytes := by
  simp only [arpFrame, ethHeader, List.append_assoc]
  rw [List.drop_left' (i := ethAlen) dst.length_eq, List.take_left' (i := ethAlen) src.length_eq]

/-- The reverse entry of a request means what a complete entry should. -/
theorem correct_reverse {i s : H} {d this : HwaInfo} {src : SockaddrLl}
    (hd : d ∈ (cfgs s).devices) (hthis : this ∈ (cfgs i).devices)
    (hindex : this.ifIndex = src.sllIfindex) (hhalen : src.sllHalen = 6)
    (haddr : src.sllAddr.bytes.take ethAlen = d.ifHaddr.bytes) :
    Correct cfgs i ⟨etherIp d.ipAddr.sinAddr, 0, .complete,
      reverseHw this src (.fill 8 (src.sllAddr.bytes.take src.sllHalen.toNat))⟩ where
  owner := by
    have htake : src.sllAddr.bytes.take src.sllHalen.toNat = d.ifHaddr.bytes := by
      rw [hhalen]; exact haddr
    refine ⟨s, d, hd, (sinAddr_etherIp _).symm, ?_⟩
    rw [htake]
    exact fill_take _
  halen := hhalen
  interface := ⟨this, hthis, hindex, fill_take _⟩

/-- So does an entry completed by a reply. -/
theorem correct_reply {i s : H} {d this : HwaInfo} {src : SockaddrLl} {c : Cache}
    (hthis : this ∈ (cfgs s).devices) (hd : d ∈ (cfgs i).devices)
    (hindex : d.ifIndex = src.sllIfindex)
    (hip : c.ipaddress = etherIp this.ipAddr.sinAddr) :
    Correct cfgs i (c.answer (replyHw d src this.ifHaddr)) where
  owner := ⟨s, this, hthis, by rw [Cache.answer, hip, sinAddr_etherIp], fill_take _⟩
  halen := rfl
  interface := ⟨d, hd, hindex, fill_take _⟩

/-! ## What reaches the wire -/

theorem emitted_perform {w : World} {e : Effect} {frame : List UInt8}
    (h : .emitted frame ∈ (w.perform e).log) :
    .emitted frame ∈ w.log ∨ ∃ i, e = .frame i frame := by
  cases e with
  | frame i bytes =>
    rcases List.mem_cons.1 h with heq | h
    · cases heq; exact Or.inr ⟨i, rfl⟩
    · exact Or.inl h
  | _ =>
    simp only [World.perform] at h
    split at h
    · rcases List.mem_cons.1 h with heq | h
      · cases heq
      · exact Or.inl h
    · exact Or.inl h

theorem emitted_performAll {w : World} {effects : List Effect} {frame : List UInt8}
    (h : .emitted frame ∈ (w.performAll effects).log) :
    .emitted frame ∈ w.log ∨ ∃ i, .frame i frame ∈ effects := by
  induction effects generalizing w with
  | nil => exact Or.inl h
  | cons e effects ih =>
    rcases ih h with h | ⟨i, hi⟩
    · exact (emitted_perform h).imp_right fun ⟨i, hi⟩ => ⟨i, hi ▸ List.mem_cons_self⟩
    · exact Or.inr ⟨i, List.mem_cons_of_mem _ hi⟩

theorem replyLoop_quiet {ip : Sockaddr} {new : Hwaddr} {sendOk : Addr → Bool} {ns : List Node}
    (i : Int) (bytes : List UInt8) : .frame i bytes ∉ (replyLoop ip new sendOk ns).2 := by
  induction ns with
  | nil => exact List.not_mem_nil
  | cons n ns ih =>
    unfold replyLoop
    dsimp only
    split
    · simpa using ih
    · exact ih

/-- What a delivered frame does to the receiver: every frame it emits in turn is genuine, and every
complete entry that was not there before is correct. -/
theorem deliver_genuine {i : H} {cache cache' : List Node} {frame : List UInt8} {env : PacketEnv}
    {effects : List Effect} (hgenuine : Genuine cfgs frame)
    (hlisted : ∃ d ∈ (cfgs i).devices, d.ifIndex = env.src.sllIfindex)
    (hhalen : env.src.sllHalen = 6)
    (hsource : env.src.sllAddr.bytes.take ethAlen = (frame.drop ethAlen).take ethAlen)
    (h : handleFrame (cfgs i) cache frame env = some (cache', effects)) :
    (∀ j bytes, .frame j bytes ∈ effects → Genuine cfgs bytes) ∧
      ∀ n ∈ cache', n.2.state = .complete → n ∈ cache ∨ Correct cfgs i n.2 := by
  obtain ⟨d, hd, hindex, hmac⟩ := macByIfindex_listed hlisted
  cases hgenuine with
  | @request s asker hasker tgt =>
    obtain ⟨eh, heh, hframe⟩ := handleFrame_arpFrame (cfgs i) cache env broadhwa asker.ifHaddr
      (Or.inl rfl) asker.ifHaddr asker.ipAddr.sinAddr (.zero 6) tgt
    rw [requestFrame, arpFrame_source] at hsource
    rw [requestFrame, hframe, dispatch_request] at h
    split at h
    · cases h
    cases hdest : isDestination (cfgs i).devices tgt with
    | none =>
      rw [handleReq_ether_none _ _ _ _ _ hdest] at h
      cases h
      exact ⟨fun _ _ => List.not_mem_nil.elim, fun n hn _ => Or.inl hn⟩
    | some this =>
      obtain ⟨hthis, hip⟩ := isDestination_some hdest
      rw [handleReq_ether _ _ _ _ _ heh hdest hmac (by rw [hhalen]; decide)] at h
      cases h
      constructor
      · intro j bytes hmem
        split at hmem
        · cases List.mem_singleton.1 hmem
          rw [← hip]
          exact .reply hthis _
        · cases hmem
      · intro n hn hstate
        split at hn
        · exact Or.inl hn
        · rcases List.mem_cons.1 hn with rfl | hn
          · exact Or.inr (correct_reverse hasker hd hindex hhalen hsource)
          · exact Or.inl hn
  | @reply s d' this hthis asker =>
    obtain ⟨eh, -, hframe⟩ := handleFrame_arpFrame (cfgs i) cache env asker d'.ifHaddr
      (Or.inr rfl) asker this.ipAddr.sinAddr this.ifHaddr this.ipAddr.sinAddr
    rw [replyFrameOf, hframe, dispatch_reply] at h
    simp only [handleReply, replyRecord_ether _ _ _ _ _ hmac, bind, Option.bind,
      Option.some.injEq] at h
    obtain rfl : _ = cache' := congrArg Prod.fst h
    obtain rfl : _ = effects := congrArg Prod.snd h
    refine ⟨fun j bytes hmem => absurd hmem (replyLoop_quiet j bytes), ?_⟩
    intro n hn hstate
    rw [replyLoop_fst, List.mem_map] at hn
    obtain ⟨m, hm, rfl⟩ := hn
    unfold completeNode
    split
    · rename_i hmatch
      exact Or.inr (correct_reply hthis hd hindex hmatch.1)
    · exact Or.inl hm

/-! ## One step of one host -/

/-- What the network guarantees of one step of host `i`. -/
def DeliversTo (cfgs : H → Config) (i : H) : Event → Prop
  | .packet (some frame) env =>
    Genuine cfgs frame ∧ (∃ d ∈ (cfgs i).devices, d.ifIndex = env.src.sllIfindex) ∧
      env.src.sllHalen = 6 ∧ env.src.sllAddr.bytes.take ethAlen = (frame.drop ethAlen).take ethAlen
  | _ => True

theorem Advance.genuine {i : H} {w w' : World} {e : Event} (h : Advance (cfgs i) w e w')
    (hdeliver : DeliversTo cfgs i e) {frame : List UInt8} (hf : .emitted frame ∈ w'.log) :
    .emitted frame ∈ w.log ∨ Genuine cfgs frame := by
  cases h with
  | moved => exact Or.inl hf
  | dropped => exact Or.inl hf
  | accepted => exact Or.inl hf
  | refused => exact Or.inl (by simpa using hf)
  | cached => exact Or.inl (by simpa using hf)
  | asked hpc hto hc hstate hk hrecv hmsg hmiss hobs =>
    rcases List.mem_append.1 hf with hf | hf
    · obtain ⟨d, hd, heq⟩ := hobs _ hf
      cases heq
      exact Or.inr (.request hd _)
    · exact Or.inl (by simpa using hf)
  | removed =>
    rcases emitted_perform hf with hf | ⟨j, hj⟩
    · exact Or.inl hf
    · cases hj
  | @packet _ _ _ cache _ hpc hframe =>
    obtain ⟨hgenuine, hlisted, hhalen, hsource⟩ := hdeliver
    rcases emitted_performAll (w := { w with cache := cache }) hf with hf | ⟨j, hj⟩
    · exact Or.inl hf
    · exact Or.inr ((deliver_genuine hgenuine hlisted hhalen hsource hframe).1 j frame hj)

theorem Advance.correct {i : H} {w w' : World} {e : Event} (h : Advance (cfgs i) w e w')
    (hdeliver : DeliversTo cfgs i e)
    (hw : ∀ n ∈ w.cache, n.2.state = .complete → Correct cfgs i n.2) :
    ∀ n ∈ w'.cache, n.2.state = .complete → Correct cfgs i n.2 := by
  cases h with
  | moved => exact hw
  | dropped => exact hw
  | refused => exact hw
  | cached => exact hw
  | asked => exact fun n hn hstate => hw n (mem_of_asked hn hstate) hstate
  | removed =>
    intro n hn hstate
    rcases mem_updateAt.1 (mem_of_mem_removeFromCache hn) with ⟨hn, -⟩ | ⟨c, hc, rfl⟩
    · exact hw n hn hstate
    · -- the descriptor is not part of what an entry means
      obtain ⟨howner, hhalen, hinterface⟩ := hw _ hc hstate
      exact ⟨howner, hhalen, hinterface⟩
  | accepted =>
    refine List.forall_mem_cons.2 ⟨fun hstate => ?_, hw⟩
    cases hstate
  | packet hpc hframe =>
    obtain ⟨hgenuine, hlisted, hhalen, hsource⟩ := hdeliver
    intro n hn hstate
    rw [World.performAll_cache] at hn
    rcases (deliver_genuine hgenuine hlisted hhalen hsource hframe).2 n hn hstate with hn | hcorrect
    · exact hw n hn hstate
    · exact hcorrect

/-! ## Runs -/

/-- The invariant of a network. -/
structure NetInv (cfgs : H → Config) (ws : H → World) : Prop where
  genuine : ∀ s frame, .emitted frame ∈ (ws s).log → Genuine cfgs frame
  correct : ∀ i, ∀ n ∈ (ws i).cache, n.2.state = .complete → Correct cfgs i n.2

variable [DecidableEq H]

theorem netInv_step {ws ws' : H → World} {e : H × Event} (hinv : NetInv cfgs ws)
    (hg : Delivers cfgs ws e) (h : (network cfgs).step ws e = some ws') : NetInv cfgs ws' := by
  obtain ⟨i, e⟩ := e
  obtain ⟨w, hw, rfl⟩ := Option.map_eq_some_iff.1 h
  have hadv := step_cases (cfgs i) hw
  have hdeliver : DeliversTo cfgs i e := by
    cases e with
    | packet frame env =>
      cases frame with
      | none => trivial
      | some frame =>
        obtain ⟨⟨s, hs⟩, hrest⟩ := hg
        exact ⟨hinv.genuine s frame hs, hrest⟩
    | _ => trivial
  constructor
  · intro s frame hf
    dsimp only at hf
    split at hf
    · rcases hadv.genuine hdeliver hf with hf | hf
      · exact hinv.genuine _ _ hf
      · exact hf
    · exact hinv.genuine _ _ hf
  · intro j n hn
    dsimp only at hn
    split at hn
    · rename_i hj
      subst hj
      exact hadv.correct hdeliver (hinv.correct _) n hn
    · exact hinv.correct j n hn

/-- **Resolution is correct.** Every complete entry, completed by a reply or learnt from a request,
gives for its IP address the hardware address of the interface that owns it, of length 6, and the
interface of this host through which it was learnt. -/
theorem resolution_correct
    (hdistinct : ∀ s t d d', d ∈ (cfgs s).devices → d' ∈ (cfgs t).devices →
      d.ipAddr.sinAddr = d'.ipAddr.sinAddr → d = d')
    {ws : H → World} (h : (network cfgs).Reachable (Delivers cfgs) ws) (i : H) :
    ∀ n ∈ (ws i).cache, n.2.state = .complete →
      (∃ s, ∃ d ∈ (cfgs s).devices, d.ipAddr.sinAddr = n.2.ipaddress.sinAddr) ∧
      (∀ s, ∀ d ∈ (cfgs s).devices, d.ipAddr.sinAddr = n.2.ipaddress.sinAddr →
        n.2.hw.sllAddr.bytes.take ethAlen = d.ifHaddr.bytes) ∧
      n.2.hw.sllHalen = 6 ∧
      ∃ d ∈ (cfgs i).devices, d.ifIndex = n.2.hw.sllIfindex ∧
        n.2.hw.sllIfaddr.bytes.take ethAlen = d.ifHaddr.bytes := by
  have hinv : NetInv cfgs ws := by
    refine h.invariant (I := NetInv cfgs) ⟨?_, ?_⟩ fun _ _ _ hinv hg hs => netInv_step hinv hg hs
    · intro s frame hf; cases hf
    · intro j n hn; cases hn
  intro n hn hstate
  obtain ⟨⟨s, d, hd, hip, hmac⟩, hhalen, hinterface⟩ := hinv.correct i n hn hstate
  refine ⟨⟨s, d, hd, hip⟩, ?_, hhalen, hinterface⟩
  intro t d' hd' hip'
  rw [hmac, hdistinct s t d d' hd hd' (hip.trans hip'.symm)]

/-- The hosts 10.0.0.1 and 10.0.0.2 on one wire. -/
def twoHosts : Bool → Config
  | false => loneHost
  | true =>
    { loneHost with
      devices := [{
        ifHaddr := hostMac 2
        ifIndex := 2
        ipAddr := ⟨afInet, ⟨[0, 0, 10, 0, 0, 2, 0, 0, 0, 0, 0, 0, 0, 0], rfl⟩⟩ }]
      devices_ne := List.cons_ne_nil _ _ }

theorem twoHosts_distinct : ∀ s t d d', d ∈ (twoHosts s).devices → d' ∈ (twoHosts t).devices →
    d.ipAddr.sinAddr = d'.ipAddr.sinAddr → d = d' := by
  intro s t d d' hd hd' hip
  cases s <;> cases t <;> cases List.mem_singleton.1 hd <;> cases List.mem_singleton.1 hd' <;>
    first | rfl | exact absurd hip (by decide)

/-- How a frame of 10.0.0.1 arrives. -/
def fromOne : PacketEnv where
  src := ⟨2, 1, 6, ⟨[2, 0, 0, 0, 0, 1, 0, 0], rfl⟩⟩
  req := ⟨.zero 4, true, 300⟩
  sendOk := fun _ => true

/-- The request for 10.0.0.2. -/
def requestFromOne : List UInt8 :=
  arpFrame broadhwa (hostMac 1) arpopRequest
    (arpData (hostMac 1) (hostIp 1) (.zero 6) (hostIp 2))

/-- A client of the first host asks for the second, which hears the request and replies. -/
def resolving : List (Bool × Event) :=
  [(false, readable [3]), (false, .tick), (false, .accept 5 100), (false, .tick),
    (false, readable [5]), (false, .areq question), (false, .tick), (false, .tick), (false, .tick),
    (true, readable [4]), (true, .tick), (true, .tick),
    (true, .packet (some requestFromOne) fromOne),
    (false, readable [4]), (false, .tick), (false, .tick), (false, .tick),
    (false, .packet (some replyFrame) fromTwo)]

theorem resolution_correct_twoHosts : ∃ ws,
    (network twoHosts).guardedRun (Delivers twoHosts) (network twoHosts).init resolving = some ws ∧
    (∀ i, ((ws i).cache.map fun n => n.2.state) = [.complete]) ∧
    ∀ i, ∀ n ∈ (ws i).cache, n.2.state = .complete → n.2.hw.sllHalen = 6 := by
  have hdistinct : ∀ s t d d', d ∈ (twoHosts s).devices → d' ∈ (twoHosts t).devices →
      d.ipAddr.sinAddr = d'.ipAddr.sinAddr → d = d' := by
    intro s t d d' hd hd' hip
    cases s <;> cases t <;> cases List.mem_singleton.1 hd <;> cases List.mem_singleton.1 hd' <;>
      first | rfl | exact absurd hip (by decide)
  refine ⟨_, rfl, fun i => by cases i <;> rfl, fun i n hn hstate => ?_⟩
  exact (resolution_correct hdistinct (.of_guardedRun resolving rfl) i n hn hstate).2.2.1

end Tour
