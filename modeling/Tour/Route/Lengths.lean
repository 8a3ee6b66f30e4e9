import Tour.Route.Walk

/-!
# The length of a tour datagram

`run_tour` compares the `len` field of a datagram neither with the number of bytes received nor with
0 before it becomes a `short`. What it does with a datagram is one of four outcomes (`outcomeOf`,
`recvTour_eq`). Forwarding stays inside the datagram, and the end of the tour is the sender's word,
exactly when the addresses that `len` counts were received (`forwards_inside_iff`,
`ends_zero_iff`); a datagram that passes the tests is never ignored.
-/

namespace Tour

open Lib

/-! ## What is done with a datagram -/

/-- The tests of `run_tour` on a datagram. -/
structure PassesChecks (packet : List UInt8) : Prop where
  nread : sizeofIp + sizeofTourhdr ≤ packet.length
  ipLen : sizeofIp + sizeofTourhdr ≤ (ntohs (ofLe16 (packet.getD 2 0) (packet.getD 3 0))).toNat
  ipId : ofLe16 (packet.getD 4 0) (packet.getD 5 0) = htons ipidTour

instance (packet : List UInt8) : Decidable (PassesChecks packet) :=
  decidable_of_iff (_ ∧ _ ∧ _) ⟨fun h => ⟨h.1, h.2.1, h.2.2⟩, fun h => ⟨h.1, h.2, h.3⟩⟩

theorem tourMaxpacket_fits : sizeofIp + tourMaxpacket ≤ ipMaxpacket := by decide

/-- The message that `run_tour` finds in a datagram, with `len` in host order. -/
def hostTour (packet : List UInt8) : Tourhdr :=
  let buf := Buf.fill ipMaxpacket packet
  let tour := Tourhdr.ofBuf (buf.slice sizeofIp tourMaxpacket tourMaxpacket_fits)
  { tour with len := htonsShort tour.len }

inductive TourOutcome
  | ignored
  /-- A call failed, and the process `node` cleans up. -/
  | aborted (node : TourNode)
  /-- `forward_tour` is called for `tour`. -/
  | forwards (node : TourNode) (tour : Tourhdr)
  /-- The branch of the last host. -/
  | ends (node : TourNode)

/-- What `run_tour` does with a datagram. -/
def outcomeOf (node : TourNode) (packet : List UInt8) (src : InAddr) (env : TourEnv) :
    TourOutcome :=
  if PassesChecks packet then
    match joinTour node (hostTour packet) env with
    | none => .aborted node
    | some node =>
      let (pinging, pings) := createPingt node.pings src env
      let node := { node with pings := pings }
      if !pinging then .aborted node
      else if 0 < (hostTour packet).len.toInt then .forwards node (hostTour packet)
      else .ends node
  else .ignored

/-- The rest of the step. -/
def TourOutcome.run (node : TourNode) (env : TourEnv) :
    TourOutcome → Option (TourNode × List TourEffect)
  | .ignored => some (node, [])
  | .aborted node => some (node.exit, [])
  | .forwards node tour => do
    let (sent, effects) ← forwardTour node.hostip tour env.sendtoOk
    some (if sent then node else node.exit, effects)
  | .ends node =>
    match node.peer with
    | some peer =>
      if env.sendOk then some (node, [.multicast peer (tourEnded node.host)])
      else some (node.exit, [])
    | none => some (node.exit, [])

/-! ## The bytes of a datagram -/

/-- `len` as it stands in the datagram. -/
def wireLen (packet : List UInt8) : UInt16 :=
  ntohs (ofLe16 (packet.getD 26 0) (packet.getD 27 0))

/-- The addresses that `len` counts were received. -/
def LenFits (packet : List UInt8) : Prop :=
  sizeofIp + sizeofTourhdr + 4 * (wireLen packet).toNat ≤ packet.length

theorem hostTour_len {packet : List UInt8} (h : packet.length ≤ ipMaxpacket) :
    (hostTour packet).len = (wireLen packet).toInt16 := by
  have hget : ∀ i < tourMaxpacket, ((Buf.fill ipMaxpacket packet).slice sizeofIp tourMaxpacket
      tourMaxpacket_fits).bytes.getD i 0 = packet.getD (sizeofIp + i) 0 := by
    intro i hi
    rw [← Buf.fill_getD h, Buf.slice_bytes, List.getD_eq_getElem?_getD, List.getElem?_take_of_lt hi,
      List.getElem?_drop, ← List.getD_eq_getElem?_getD]
  simp only [hostTour, Tourhdr.ofBuf, hget 6 (by decide), hget 7 (by decide), htonsShort]
  rfl

/-- A 16-bit word read as a `short`. -/
theorem toInt_toInt16 (x : UInt16) :
    x.toInt16.toInt = if x.toNat < 2 ^ 15 then (x.toNat : Int) else x.toNat - 2 ^ 16 := by
  have hx := x.toNat_lt
  have hbits : x.toInt16.toInt = (x.toNat : Int).bmod (2 ^ 16) := by
    rw [← Int16.toInt_toBitVec, BitVec.toInt_eq_toNat_bmod]
    rfl
  rw [hbits]
  simp only [Int.bmod]
  split <;> split <;> omega

theorem recvTour_eq (node : TourNode) {packet : List UInt8} (h : packet.length ≤ ipMaxpacket)
    (src : InAddr) (env : TourEnv) :
    recvTour node packet src env = (outcomeOf node packet src env).run node env := by
  have hget := Buf.fill_getD h
  by_cases hchecks : PassesChecks packet
  · obtain ⟨hnread, hlen, hid⟩ := hchecks
    rw [outcomeOf, if_pos ⟨hnread, hlen, hid⟩]
    simp only [recvTour, hget, if_neg (Nat.not_lt.2 hnread), if_neg (Nat.not_lt.2 hlen),
      if_neg (not_not.2 hid)]
    rw [show (Tourhdr.ofBuf ((Buf.fill ipMaxpacket packet).slice sizeofIp tourMaxpacket
      tourMaxpacket_fits)) = { hostTour packet with len := htonsShort (hostTour packet).len } from by
        simp only [hostTour, htonsShort_htonsShort]]
    simp only [htonsShort_htonsShort]
    cases joinTour node (hostTour packet) env with
    | none => rfl
    | some node' =>
      cases hping : createPingt node'.pings src env with
      | mk pinging pings =>
        simp only [hping]
        cases pinging with
        | false => rfl
        | true =>
          by_cases hpos : 0 < (hostTour packet).len.toInt
          · simp only [if_pos hpos]
            rfl
          · simp only [if_neg hpos]
            rfl
  · rw [outcomeOf, if_neg hchecks]
    simp only [recvTour, hget]
    split
    · rfl
    rename_i hnread
    split
    · rfl
    rename_i hlen
    split
    · rfl
    rename_i hid
    exact absurd ⟨Nat.not_lt.1 hnread, Nat.not_lt.1 hlen, not_not.1 hid⟩ hchecks

/-- What decides between the outcomes of a datagram that passes the tests. -/
theorem outcomeOf_cases (node : TourNode) {packet : List UInt8} (src : InAddr) (env : TourEnv)
    (hchecks : PassesChecks packet) :
    (∃ node', outcomeOf node packet src env = .aborted node') ∨
    (∃ node', outcomeOf node packet src env = .forwards node' (hostTour packet) ∧
      0 < (hostTour packet).len.toInt) ∨
    ∃ node', outcomeOf node packet src env = .ends node' ∧ ¬0 < (hostTour packet).len.toInt := by
  rw [outcomeOf, if_pos hchecks]
  cases joinTour node (hostTour packet) env with
  | none => exact .inl ⟨node, rfl⟩
  | some node' =>
    cases hping : createPingt node'.pings src env with
    | mk pinging pings =>
      simp only [hping]
      cases pinging with
      | false => exact .inl ⟨_, rfl⟩
      | true =>
        by_cases hpos : 0 < (hostTour packet).len.toInt
        · exact .inr (.inl ⟨_, if_pos hpos, hpos⟩)
        · exact .inr (.inr ⟨_, if_neg hpos, hpos⟩)

theorem outcomeOf_ne_ignored (node : TourNode) {packet : List UInt8} (src : InAddr) (env : TourEnv)
    (hchecks : PassesChecks packet) : outcomeOf node packet src env ≠ .ignored := by
  intro h
  have hcases := outcomeOf_cases node src env hchecks
  rw [h] at hcases
  obtain ⟨_, h⟩ | ⟨_, h, -⟩ | ⟨_, h, -⟩ := hcases <;> cases h

/-! ## The real length -/

/-- The slot `ips[len - 1]` of a message at the end of a datagram of `nread` bytes was received. -/
def SlotInside (nread : Nat) (tour : Tourhdr) : Prop :=
  ∃ j : Nat, tour.len.toInt - 1 = j ∧ sizeofIp + sizeofTourhdr + 4 * j + 4 ≤ nread

/-- The bytes that `forward_tour` hands to `send_ip` were received. -/
def SentInside (nread : Nat) (tour : Tourhdr) : Prop :=
  sizeofIp + ({ tour with len := tour.len - 1 } : Tourhdr).size ≤ nread

/-- The datagram is treated by its real length. -/
structure TreatedByLength (node : TourNode) (packet : List UInt8) (src : InAddr) (env : TourEnv) :
    Prop where
  forwards : ∀ node' tour, outcomeOf node packet src env = .forwards node' tour →
    SlotInside packet.length tour ∧ SentInside packet.length tour
  ends : ∀ node', outcomeOf node packet src env = .ends node' → wireLen packet = 0
  unfit : ¬LenFits packet → outcomeOf node packet src env = .ignored

section Length

variable {packet : List UInt8} (hmax : packet.length ≤ ipMaxpacket)

include hmax

/-- A message that is sent on was received as far as it is read exactly when its length fits. -/
theorem forwards_inside_iff (hpos : 0 < (hostTour packet).len.toInt) :
    SlotInside packet.length (hostTour packet) ∧ SentInside packet.length (hostTour packet) ↔
      LenFits packet := by
  have hx := (wireLen packet).toNat_lt
  have hshort := toInt_toInt16 (wireLen packet)
  rw [hostTour_len hmax] at hpos
  have hlt : (wireLen packet).toNat < 2 ^ 15 := by
    by_contra hge
    rw [hshort, if_neg hge] at hpos
    omega
  rw [if_pos hlt] at hshort
  rw [hshort] at hpos
  have hlen : (hostTour packet).len.toInt = (wireLen packet).toNat := by
    rw [hostTour_len hmax, hshort]
  have hless : ((hostTour packet).len - 1).toInt = (wireLen packet).toNat - 1 := by
    rw [Int16.toInt_sub, Int16.toInt_one, hlen]
    exact Int.bmod_eq_of_le (by omega) (by omega)
  have hsize : ({ hostTour packet with len := (hostTour packet).len - 1 } : Tourhdr).size =
      sizeofTourhdr + 4 * ((wireLen packet).toNat - 1) := by
    rw [Tourhdr.size, hless]
    change ((8 + ((wireLen packet).toNat - 1 : Int) * 4) % 2 ^ 64).toNat = 8 + 4 * _
    omega
  rw [SlotInside, SentInside, LenFits, hsize, hlen]
  constructor
  · rintro ⟨⟨j, hj, hslot⟩, -⟩
    omega
  · intro hfits
    exact ⟨⟨(wireLen packet).toNat - 1, by omega, by omega⟩, by omega⟩

/-- The sender said that the tour is over exactly when the length of the last message fits. -/
theorem ends_zero_iff (hnread : sizeofIp + sizeofTourhdr ≤ packet.length)
    (hend : ¬0 < (hostTour packet).len.toInt) : wireLen packet = 0 ↔ LenFits packet := by
  rw [hostTour_len hmax, toInt_toInt16] at hend
  rw [LenFits, ← UInt16.toNat_inj, UInt16.toNat_zero]
  simp only [ipMaxpacket] at hmax
  split at hend
  · omega
  · omega

/-- **The length of a datagram** that passes the tests is respected exactly when the addresses that
its `len` counts were received. -/
theorem treatedByLength_iff (hchecks : PassesChecks packet) (node : TourNode) (src : InAddr)
    (env : TourEnv) :
    recvTour node packet src env = (outcomeOf node packet src env).run node env ∧
      (TreatedByLength node packet src env ↔ LenFits packet) := by
  have hcases := outcomeOf_cases node src env hchecks
  refine ⟨recvTour_eq node hmax src env, ?_⟩
  constructor
  · rintro ⟨-, -, hunfit⟩
    by_contra hfits
    exact outcomeOf_ne_ignored node src env hchecks (hunfit hfits)
  · intro hfits
    refine ⟨fun node' tour hout => ?_, fun node' hout => ?_, fun h => absurd hfits h⟩
    · rw [hout] at hcases
      obtain ⟨_, h⟩ | ⟨_, h, hpos⟩ | ⟨_, h, -⟩ := hcases <;> cases h
      exact (forwards_inside_iff hmax hpos).2 hfits
    · rw [hout] at hcases
      obtain ⟨_, h⟩ | ⟨_, h, -⟩ | ⟨_, h, hend⟩ := hcases <;> cases h
      exact (ends_zero_iff hmax hchecks.nread hend).2 hfits

end Length

/-- A datagram that holds the headers and nothing else. -/
def headersOnly (len : UInt16) : List UInt8 :=
  ipHeader (vm 1) (vm 2) (sizeofIp + sizeofTourhdr) ++
    (mcastAddr.bytes ++ le16 0 ++ le16 (htons len))

theorem headersOnly_checks (len : UInt16) : PassesChecks (headersOnly len) := by
  obtain ⟨hlen, hid⟩ := ipHeader_words (vm 1) (vm 2) (sizeofIp + sizeofTourhdr)
    (mcastAddr.bytes ++ le16 0 ++ le16 (htons len))
  refine ⟨Nat.le_refl _, ?_, hid⟩
  rw [headersOnly, hlen]
  decide

/-- A datagram with one stop left is forwarded. -/
theorem treatedByLength_forwarded :
    TreatedByLength (bootNode threeHosts (vm 2)) (tourPacket (vm 1) (vm 2) mcastAddr 0 [vm 3]) (vm 1)
      smooth ∧
    ∃ node tour, outcomeOf (bootNode threeHosts (vm 2)) (tourPacket (vm 1) (vm 2) mcastAddr 0 [vm 3])
      (vm 1) smooth = .forwards node tour :=
  ⟨(treatedByLength_iff (by decide) (by decide) _ _ _).2.2 (by unfold LenFits; decide), _, _, rfl⟩

/-- A datagram of 28 bytes that counts one address is acted on. -/
theorem treatedByLength_fails :
    ¬∀ (node : TourNode) (packet : List UInt8) (src : InAddr) (env : TourEnv),
      packet.length ≤ ipMaxpacket → PassesChecks packet → TreatedByLength node packet src env := by
  intro h
  have htreated := h (bootNode threeHosts (vm 2)) (headersOnly 1) (vm 1) smooth (by decide)
    (headersOnly_checks 1)
  exact outcomeOf_ne_ignored _ _ _ (headersOnly_checks 1)
    (htreated.unfit (by unfold LenFits; decide))

end Tour
