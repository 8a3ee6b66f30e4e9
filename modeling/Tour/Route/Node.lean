import Tour.Route.Message

/-!
# A node of the tour

`valid_args`, `start_tour`, `bind_port`, `create_pingt` and the branch of `run_tour` on the raw
socket. The state of a node is what its process and the kernel hold for it. What the kernel answers
is an argument; when a call fails, the process cleans up and exits. A function is `none` when it
would leave an object.
-/

namespace Tour

open Lib

/-- What the kernel answers to `bind_port`; `ephemeral` is the port it would choose. Ports are as
`sin_port` holds them. -/
structure BindEnv where
  bindOk : Bool
  getsocknameOk : Bool
  ephemeral : UInt16

/-- What the kernel and the library answer in one step of a node. -/
structure TourEnv where
  bind : BindEnv
  connectOk : Bool
  joinOk : Bool
  callocOk : Bool
  createOk : Bool
  sendtoOk : Bool
  sendOk : Bool

structure TourNode where
  host : String
  hostip : InAddr
  binded : Bool
  /-- The port that `udp_recv` is bound to. -/
  port : Option UInt16
  /-- What `udp_send` is connected to. -/
  peer : Option (InAddr × UInt16)
  /-- The multicast group that `udp_recv` joined. -/
  group : Option InAddr
  /-- The targets of the ping threads, in the order of the list. -/
  pings : List InAddr
  running : Bool

/-- The process has cleaned up and is gone. -/
def TourNode.exit (node : TourNode) : TourNode :=
  { node with
    binded := false, port := none, peer := none, group := none, pings := [], running := false }

/-- The loop of `valid_args`: no hostname follows itself. -/
def noRepeat : List String → Bool
  | h₁ :: h₂ :: hosts => h₁ != h₂ && noRepeat (h₂ :: hosts)
  | _ => true

/-- `valid_args`. -/
def validArgs (hosts : List String) : Bool := decide (hosts.length ≤ tourMaxips) && noRepeat hosts

/-- `bind_port(sockfd, port)`: the port that the socket is bound to afterwards, and the returned
`int`. Port 0 lets the kernel choose. -/
def bindPort (port : Int) (env : BindEnv) : Option UInt16 × Int :=
  let sinPort := UInt16.ofInt port
  if env.bindOk then
    let bound := if sinPort = 0 then env.ephemeral else sinPort
    if env.getsocknameOk then (some bound, (bound.toNat &&& 0xFFFF : Nat)) else (some bound, -1)
  else (none, -1)

/-- `create_pingt(head, tgtip)`: whether it succeeds, and the list afterwards. -/
def createPingt (pings : List InAddr) (tgtip : InAddr) (env : TourEnv) : Bool × List InAddr :=
  if pings.any (fun cur => cur == tgtip) then (true, pings)
  else if env.callocOk && env.createOk then (true, tgtip :: pings)
  else (false, pings)

/-! ## The source -/

/-- The loop of `start_tour` over the hosts that are left: the index `j` is the number of hosts
behind the first of them. `some none` when a host does not resolve. -/
def storeHosts (resolve : String → Option InAddr) :
    List String → Tourhdr → Option (Option Tourhdr)
  | [], tour => some (some tour)
  | host :: hosts, tour =>
    match resolve host with
    | none => some none
    | some ip => do
      let tour ← tour.setIp hosts.length ip
      storeHosts resolve hosts tour

/-- `start_tour(rt, udp_recv, udp_send, numhosts, hosts)`, and what `main` makes of its result. -/
def startTour (resolve : String → Option InAddr) (node : TourNode) (hosts : List String)
    (env : TourEnv) : Option (TourNode × List TourEffect) :=
  let (bound, port) := bindPort 0 env.bind
  if port < 0 then some (node.exit, [])
  else if !env.joinOk then some (node.exit, [])
  else if !env.connectOk then some (node.exit, [])
  else do
    let stored ← storeHosts resolve hosts
      ⟨mcastAddr, Int16.ofInt port, Int16.ofInt hosts.length, .zero tourIpsSize⟩
    match stored with
    | none => some (node.exit, [])
    | some tour => do
      let (sent, effects) ← forwardTour node.hostip tour env.sendtoOk
      let node := { node with
        binded := true
        port := bound
        peer := some (mcastAddr, UInt16.ofInt port)
        group := some mcastAddr }
      some (if sent then node else node.exit, effects)

/-! ## Receiving -/

/-- The block `if(!binded)` of `run_tour`; `none` when it goes to the cleanup. -/
def joinTour (node : TourNode) (tour : Tourhdr) (env : TourEnv) : Option TourNode :=
  if node.binded then some node
  else
    let (bound, port) := bindPort tour.mcastport.toInt env.bind
    if port < 0 then none
    else if !env.connectOk then none
    else if !env.joinOk then none
    else some { node with
      binded := true
      port := bound
      peer := some (tour.mcastip, UInt16.ofInt port)
      group := some tour.mcastip }

/-- What the last host multicasts. -/
def tourEnded (host : String) : String :=
  "<<<<< This is node " ++ host ++
    ". Tour has ended. Group members please identify yourselves. >>>>>"

/-- The step of `run_tour` for the packet `packet`, received from `src`. -/
def recvTour (node : TourNode) (packet : List UInt8) (src : InAddr) (env : TourEnv) :
    Option (TourNode × List TourEffect) :=
  let buf := Buf.fill ipMaxpacket packet
  let ipLen := ntohs (ofLe16 (buf.bytes.getD 2 0) (buf.bytes.getD 3 0))
  let ipId := ofLe16 (buf.bytes.getD 4 0) (buf.bytes.getD 5 0)
  if packet.length < sizeofIp + sizeofTourhdr then some (node, [])
  else if ipLen.toNat < sizeofIp + sizeofTourhdr then some (node, [])
  else if ipId ≠ htons ipidTour then some (node, [])
  else
    let tour := Tourhdr.ofBuf (buf.slice sizeofIp tourMaxpacket (by decide))
    let tour := { tour with len := htonsShort tour.len }
    match joinTour node tour env with
    | none => some (node.exit, [])
    | some node =>
      let (pinging, pings) := createPingt node.pings src env
      let node := { node with pings := pings }
      if !pinging then some (node.exit, [])
      else if 0 < tour.len.toInt then do
        let (sent, effects) ← forwardTour node.hostip tour env.sendtoOk
        some (if sent then node else node.exit, effects)
      else
        match node.peer with
        | some peer =>
          if env.sendOk then some (node, [.multicast peer (tourEnded node.host)])
          else some (node.exit, [])
        | none => some (node.exit, [])

/-! ## When every call succeeds -/

/-- Every call of the step succeeds, and a port that the kernel chooses is one. -/
structure TourEnv.Succeeds (env : TourEnv) : Prop where
  bind : env.bind.bindOk = true
  ephemeral : env.bind.ephemeral ≠ 0
  getsockname : env.bind.getsocknameOk = true
  connect : env.connectOk = true
  join : env.joinOk = true
  calloc : env.callocOk = true
  create : env.createOk = true
  sendto : env.sendtoOk = true
  send : env.sendOk = true

/-- The port that a socket is bound to when the port `port` is asked for. -/
def chosenPort (port : UInt16) (env : TourEnv) : UInt16 :=
  if port = 0 then env.bind.ephemeral else port

theorem bindPort_ok {port : Int} {env : TourEnv} (henv : env.Succeeds) :
    bindPort port env.bind = (some (chosenPort (UInt16.ofInt port) env),
      ((chosenPort (UInt16.ofInt port) env).toNat : Int)) := by
  have hmask : ∀ p : UInt16, p.toNat &&& 0xFFFF = p.toNat := by
    intro p
    rw [show 0xFFFF = 2 ^ 16 - 1 from rfl, Nat.and_two_pow_sub_one_eq_mod]
    exact Nat.mod_eq_of_lt p.toNat_lt
  simp only [bindPort, henv.bind, henv.getsockname, if_true, hmask, chosenPort]

/-- A `short` passed as an `int` and stored into a `uint16_t`: the sign is lost, the bits are not. -/
theorem ofInt_toInt (x : Int16) : UInt16.ofInt x.toInt = x.toUInt16 := by
  apply UInt16.toNat_inj.1
  have hlt := x.toInt_lt
  have hle := x.le_toInt
  have hmod : (x.toUInt16.toNat : Int) = x.toInt % 2 ^ 16 := by
    rw [← Int16.toNat_toBitVec, ← Int16.toInt_toBitVec, BitVec.toInt_eq_toNat_bmod]
    have hbits := x.toBitVec.isLt
    simp only [Int.bmod]
    omega
  rw [UInt16.ofInt, UInt16.toNat_ofNat']
  omega

theorem ofInt_toNat (x : UInt16) : UInt16.ofInt (x.toNat : Int) = x := by
  have hx := x.toNat_lt
  have hmod : ((x.toNat : Int) % 2 ^ 16).toNat = x.toNat := by omega
  rw [UInt16.ofInt, hmod, UInt16.ofNat_toNat]

theorem toInt16_ofInt (x : UInt16) : Int16.ofInt (x.toNat : Int) = x.toInt16 := by
  rw [Int16.ofInt_eq_ofNat, ← UInt16.toInt16_ofNat', UInt16.ofNat_toNat]

/-- A node that is not bound joins the group on a port. -/
def TourNode.join (node : TourNode) (mcastip : InAddr) (port : UInt16) : TourNode :=
  if node.binded then node
  else { node with
    binded := true, port := some port, peer := some (mcastip, port), group := some mcastip }

theorem joinTour_ok {env : TourEnv} (henv : env.Succeeds) (node : TourNode) (tour : Tourhdr) :
    joinTour node tour env =
      some (node.join tour.mcastip (chosenPort tour.mcastport.toUInt16 env)) := by
  have hpos : ¬(((chosenPort tour.mcastport.toUInt16 env).toNat : Int) < 0) := by omega
  simp only [joinTour, bindPort_ok henv, ofInt_toInt, if_neg hpos, henv.connect, henv.join,
    Bool.not_true, Bool.false_eq_true, if_false, ofInt_toNat, TourNode.join]
  split <;> rfl

theorem createPingt_ok {env : TourEnv} (henv : env.Succeeds) (pings : List InAddr) (ip : InAddr) :
    createPingt pings ip env = (true, pings.insert ip) := by
  have hany : (pings.any fun cur => cur == ip) = decide (ip ∈ pings) := by
    rw [Bool.eq_iff_iff]
    simp
  rw [createPingt, hany, henv.calloc, henv.create]
  by_cases hmem : ip ∈ pings
  · rw [List.insert_of_mem hmem, decide_eq_true hmem]; rfl
  · rw [List.insert_of_not_mem hmem, decide_eq_false hmem]; rfl

/-- The loop of `start_tour` stores the addresses in reverse. -/
theorem storeHosts_ok {resolve : String → Option InAddr} {hosts : List String} {ips : List InAddr}
    (hres : hosts.map resolve = ips.map some) (tour : Tourhdr) {pre post : List UInt8}
    (hbytes : tour.ips.bytes = pre ++ post) (hpre : pre.length = 4 * hosts.length) :
    ∃ b : Buf tourIpsSize, b.bytes = ipList ips.reverse ++ post ∧
      storeHosts resolve hosts tour = some (some { tour with ips := b }) := by
  induction hosts generalizing ips tour pre post with
  | nil =>
    cases ips with
    | nil =>
      refine ⟨tour.ips, ?_, rfl⟩
      rw [hbytes, List.eq_nil_of_length_eq_zero hpre]
      rfl
    | cons ip ips => cases hres
  | cons host hosts ih =>
    cases ips with
    | nil => cases hres
    | cons ip ips =>
      rw [List.map_cons, List.map_cons, List.cons.injEq] at hres
      obtain ⟨hhost, hres⟩ := hres
      -- the slot behind those of the hosts that are left
      have hsplit : tour.ips.bytes = pre.take (4 * hosts.length) ++
          (pre.drop (4 * hosts.length) ++ post) := by
        rw [hbytes, ← List.append_assoc, List.take_append_drop]
      rw [List.length_cons] at hpre
      have hlen : (pre.take (4 * hosts.length)).length = 4 * hosts.length := by
        rw [List.length_take]; omega
      have hslot : (pre.drop (4 * hosts.length)).length = 4 := by
        rw [List.length_drop]; omega
      obtain ⟨c, hc, hcbytes⟩ := Buf.write_at hsplit ip.bytes
        (by rw [List.length_append, hslot, ip.length_eq]; omega)
      rw [hlen] at hc
      rw [ip.length_eq, List.append_assoc, List.drop_left' hslot] at hcbytes
      obtain ⟨b, hb, hstore⟩ := ih hres { tour with ips := c } hcbytes hlen
      refine ⟨b, ?_, ?_⟩
      · rw [hb, List.reverse_cons, ipList_append, List.append_assoc]
        simp [ipList]
      · simp only [storeHosts, hhost, Tourhdr.setIp, hc, bind, Option.bind, hstore]

/-- The source builds its message and sends it to the first host. -/
theorem startTour_ok {resolve : String → Option InAddr} (node : TourNode) {hosts : List String}
    {first : InAddr} {todo : List InAddr} {env : TourEnv} (henv : env.Succeeds)
    (hres : hosts.map resolve = (first :: todo).map some) (hmax : hosts.length ≤ tourMaxips) :
    startTour resolve node hosts env = some ({ node with
        binded := true
        port := some env.bind.ephemeral
        peer := some (mcastAddr, env.bind.ephemeral)
        group := some mcastAddr },
      [.packet first (tourPacket node.hostip first mcastAddr env.bind.ephemeral.toInt16 todo)]) := by
  have hlength : hosts.length = todo.length + 1 := by
    have := congrArg List.length hres
    simpa using this
  have hpos : ¬((env.bind.ephemeral.toNat : Int) < 0) := by omega
  have hport : chosenPort (UInt16.ofInt 0) env = env.bind.ephemeral := if_pos rfl
  have hfits : 4 * hosts.length ≤ tourIpsSize := by
    have := Nat.div_mul_le_self tourIpsSize 4
    rw [tourMaxips] at hmax
    omega
  -- the slots of the hosts, and the rest of the array
  have hzero : (Buf.zero tourIpsSize).bytes = List.replicate (4 * hosts.length) 0 ++
      List.replicate (tourIpsSize - 4 * hosts.length) 0 := by
    rw [Buf.zero_bytes, ← List.replicate_add, Nat.add_sub_cancel' hfits]
  obtain ⟨b, hb, hstore⟩ := storeHosts_ok hres
    ⟨mcastAddr, env.bind.ephemeral.toInt16, Int16.ofInt hosts.length, .zero tourIpsSize⟩ hzero
    List.length_replicate
  have hsend := forwardTour_cons node.hostip
    ⟨mcastAddr, env.bind.ephemeral.toInt16, Int16.ofInt hosts.length, b⟩ hb
    (by rw [hlength]; exact Int16.ofInt_eq_ofNat) (by omega) true
  simp only [startTour, bindPort_ok henv, hport, if_neg hpos, henv.join, henv.connect,
    Bool.not_true, Bool.false_eq_true, if_false, toInt16_ofInt, hstore, bind, Option.bind,
    henv.sendto, hsend, if_true, ofInt_toNat]

/-! ## A tour packet arrives -/

theorem Tourhdr.ofBuf_eq {b : Buf tourMaxpacket} {mcastip : InAddr} {mcastport len : UInt16}
    {rest : List UInt8} (h : b.bytes = mcastip.bytes ++ le16 mcastport ++ le16 len ++ rest) :
    ∃ ips : Buf tourIpsSize, ips.bytes = rest ∧
      Tourhdr.ofBuf b = ⟨mcastip, mcastport.toInt16, len.toInt16, ips⟩ := by
  have hrest : rest.length = tourIpsSize := by
    have hlen := congrArg List.length h
    simp only [b.length_eq, List.length_append, mcastip.length_eq, le16_length] at hlen
    rw [tourIpsSize, sizeofTourhdr]
    omega
  have hdrop : b.bytes.drop sizeofTourhdr = rest := by
    rw [h]
    exact List.drop_left' (by simp [sizeofTourhdr])
  have hip : b.bytes.take 4 = mcastip.bytes := by
    rw [h, List.append_assoc, List.append_assoc]
    exact List.take_left' mcastip.length_eq
  have hwords : b.bytes.drop 4 = le16 mcastport ++ (le16 len ++ rest) := by
    rw [h, List.append_assoc, List.append_assoc]
    exact List.drop_left' mcastip.length_eq
  -- the bytes of the two words
  have hget : ∀ i, b.bytes.getD (4 + i) 0 = (le16 mcastport ++ (le16 len ++ rest)).getD i 0 := by
    intro i
    rw [← hwords, List.getD_eq_getElem?_getD, List.getD_eq_getElem?_getD, List.getElem?_drop]
  refine ⟨⟨rest, hrest⟩, rfl, ?_⟩
  simp only [Tourhdr.ofBuf, hget 0, hget 1, hget 2, hget 3]
  simp only [Tourhdr.mk.injEq]
  refine ⟨Buf.ext hip, ?_, ?_, Buf.ext ?_⟩
  · exact congrArg _ (ofLe16_le16 mcastport)
  · exact congrArg _ (ofLe16_le16 len)
  · rw [Buf.slice_bytes, hdrop, List.take_of_length_le (Nat.le_of_eq hrest)]

theorem ipHeader_length (src dst : InAddr) (len : Nat) : (ipHeader src dst len).length = sizeofIp := by
  simp [ipHeader, sizeofIp]

theorem tourPacket_length (src dst mcastip : InAddr) (mcastport : Int16) (todo : List InAddr) :
    (tourPacket src dst mcastip mcastport todo).length =
      sizeofIp + sizeofTourhdr + 4 * todo.length := by
  simp only [tourPacket, List.length_append, ipHeader_length, mcastip.length_eq, le16_length,
    ipList_length, List.length_reverse, sizeofTourhdr]
  omega

/-- A tour packet is an IP packet. -/
theorem tourPacket_le (src dst mcastip : InAddr) (mcastport : Int16) {todo : List InAddr}
    (hmax : todo.length ≤ tourMaxips) :
    (tourPacket src dst mcastip mcastport todo).length ≤ ipMaxpacket := by
  rw [tourPacket_length]
  rw [tourMaxips_eq] at hmax
  simp only [sizeofIp, sizeofTourhdr, ipMaxpacket]
  omega

/-- A node that received a tour packet from `src`, with the port it joined on. -/
def TourNode.visited (node : TourNode) (src mcastip : InAddr) (port : UInt16) : TourNode :=
  { node.join mcastip port with pings := node.pings.insert src }

@[simp] theorem htonsShort_htonsShort (x : Int16) : htonsShort (htonsShort x) = x := by
  simp [htonsShort]

section Receive

variable {node : TourNode} {src dst mcastip : InAddr} {mcastport : Int16} {todo : List InAddr}
  {env : TourEnv}

/-- The words of the IP header that `run_tour` checks. -/
theorem ipHeader_words (src dst : InAddr) (len : Nat) (rest : List UInt8) :
    let l := ipHeader src dst len ++ rest
    ntohs (ofLe16 (l.getD 2 0) (l.getD 3 0)) = UInt16.ofNat len ∧
      ofLe16 (l.getD 4 0) (l.getD 5 0) = htons ipidTour := by
  simp only [ipHeader, le16, List.cons_append, List.nil_append, List.getD_cons_zero,
    List.getD_cons_succ, ofLe16_le16, ntohs_htons, and_self]

theorem ofBuf_tourPacket {buf : Buf ipMaxpacket} {rest : List UInt8}
    (h : buf.bytes = tourPacket src dst mcastip mcastport todo ++ rest) :
    ∃ ips : Buf tourIpsSize, ips.bytes = ipList todo.reverse ++ rest ∧
      Tourhdr.ofBuf (buf.slice sizeofIp tourMaxpacket (by decide)) =
        ⟨mcastip, mcastport, htonsShort (Int16.ofNat todo.length), ips⟩ := by
  have hslice : (buf.slice sizeofIp tourMaxpacket (by decide)).bytes =
      mcastip.bytes ++ le16 mcastport.toUInt16 ++ le16 (htons (UInt16.ofNat todo.length)) ++
        (ipList todo.reverse ++ rest) := by
    have hdrop : buf.bytes.drop sizeofIp = mcastip.bytes ++ le16 mcastport.toUInt16 ++
        le16 (htons (UInt16.ofNat todo.length)) ++ (ipList todo.reverse ++ rest) := by
      rw [h, tourPacket, List.append_assoc, List.drop_left' (ipHeader_length ..), List.append_assoc]
    rw [Buf.slice_bytes, List.take_of_length_le, hdrop]
    rw [List.length_drop, buf.length_eq]
    exact Nat.le_refl _
  exact Tourhdr.ofBuf_eq hslice

theorem joinTour_pings (node : TourNode) (ip : InAddr) (port : UInt16) :
    (node.join ip port).pings = node.pings := by
  unfold TourNode.join
  split <;> rfl

/-- `run_tour` takes a tour packet as one: it joins the group and pings the sender, and what it
does then depends on the number of hosts left. -/
theorem recvTour_packet (node : TourNode) (src dst mcastip : InAddr) (mcastport : Int16)
    (todo : List InAddr) (henv : env.Succeeds) (hmax : todo.length ≤ tourMaxips) :
    ∃ tour : Tourhdr, tour.mcastip = mcastip ∧ tour.mcastport = mcastport ∧
      tour.len = Int16.ofNat todo.length ∧
      (∃ rest, tour.ips.bytes = ipList todo.reverse ++ rest) ∧
      recvTour node (tourPacket src dst mcastip mcastport todo) src env =
        let node := node.visited src mcastip (chosenPort mcastport.toUInt16 env)
        if 0 < tour.len.toInt then
          (forwardTour node.hostip tour true).map fun r => (if r.1 then node else node.exit, r.2)
        else
          match node.peer with
          | some peer => some (node, [.multicast peer (tourEnded node.host)])
          | none => some (node.exit, []) := by
  have hlen := tourPacket_length src dst mcastip mcastport todo
  have hle := tourPacket_le src dst mcastip mcastport hmax
  have hbytes := Buf.fill_bytes_of_le hle
  obtain ⟨ips, hips, hbuf⟩ := ofBuf_tourPacket hbytes
  obtain ⟨rest, hrest⟩ : ∃ rest,
      (Buf.fill ipMaxpacket (tourPacket src dst mcastip mcastport todo)).bytes =
        ipHeader src dst (sizeofIp + sizeofTourhdr + 4 * todo.length) ++ rest :=
    ⟨_, hbytes.trans (List.append_assoc ..)⟩
  obtain ⟨hiplen, hipid⟩ := ipHeader_words src dst (sizeofIp + sizeofTourhdr + 4 * todo.length) rest
  rw [← hrest] at hiplen hipid
  have hwhole : (UInt16.ofNat (sizeofIp + sizeofTourhdr + 4 * todo.length)).toNat =
      sizeofIp + sizeofTourhdr + 4 * todo.length := by
    rw [UInt16.toNat_ofNat']
    rw [hlen, ipMaxpacket] at hle
    exact Nat.mod_eq_of_lt (by omega)
  refine ⟨⟨mcastip, mcastport, Int16.ofNat todo.length, ips⟩, rfl, rfl, rfl, ⟨_, hips⟩, ?_⟩
  have hlong : ¬(tourPacket src dst mcastip mcastport todo).length < sizeofIp + sizeofTourhdr := by
    rw [hlen]; omega
  have hiplong : ¬sizeofIp + sizeofTourhdr + 4 * todo.length < sizeofIp + sizeofTourhdr := by omega
  have hid : ¬htons ipidTour ≠ htons ipidTour := not_not.2 rfl
  simp only [recvTour, if_neg hlong, hiplen, hwhole, if_neg hiplong, hipid, if_neg hid, hbuf,
    htonsShort_htonsShort, joinTour_ok henv, createPingt_ok henv, henv.sendto, henv.send,
    Bool.not_true, Bool.false_eq_true, if_false, if_true, joinTour_pings, bind,
    Option.map_eq_bind]
  rfl

/-- A host that is not the last sends the tour on. -/
theorem recvTour_cons {next : InAddr} (henv : env.Succeeds) (hmax : todo.length < tourMaxips) :
    recvTour node (tourPacket src dst mcastip mcastport (next :: todo)) src env =
      some (node.visited src mcastip (chosenPort mcastport.toUInt16 env),
        [.packet next (tourPacket (node.visited src mcastip
          (chosenPort mcastport.toUInt16 env)).hostip next mcastip mcastport todo)]) := by
  obtain ⟨tour, rfl, rfl, hlen, ⟨rest, hips⟩, hrecv⟩ :=
    recvTour_packet node src dst mcastip mcastport (next :: todo) henv hmax
  have hpos : 0 < tour.len.toInt := by
    rw [hlen, List.length_cons, toInt_len hmax]
    omega
  rw [hrecv]
  dsimp only
  rw [if_pos hpos, forwardTour_cons _ tour hips hlen hmax]
  rfl

/-- The last host ends the tour. -/
theorem recvTour_nil {peer : InAddr × UInt16} (henv : env.Succeeds)
    (hpeer : (node.visited src mcastip (chosenPort mcastport.toUInt16 env)).peer = some peer) :
    recvTour node (tourPacket src dst mcastip mcastport []) src env =
      some (node.visited src mcastip (chosenPort mcastport.toUInt16 env),
        [.multicast peer (tourEnded node.host)]) := by
  obtain ⟨tour, rfl, rfl, hlen, -, hrecv⟩ :=
    recvTour_packet node src dst mcastip mcastport [] henv (Nat.zero_le _)
  have hzero : ¬0 < tour.len.toInt := by
    rw [hlen, List.length_nil, toInt_len (Nat.zero_le _)]
    omega
  have hhost : (node.visited src tour.mcastip (chosenPort tour.mcastport.toUInt16 env)).host =
      node.host := by
    unfold TourNode.visited TourNode.join
    split <;> rfl
  rw [hrecv]
  dsimp only
  rw [if_neg hzero, hpeer, hhost]

end Receive

end Tour
