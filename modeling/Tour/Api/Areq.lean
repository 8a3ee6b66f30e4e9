import Tour.Lib.Machine
import Tour.Arp.Handlers

/-!
# A call of `areq`

The two structures that a client and the daemon exchange, byte by byte, and `areq` of `api.c` as a
machine: one step is one system call, and the answer of the kernel is the event. A step is `none`
when the answer is that of another call, or when the code left an object. What the caller's object
holds in the end is `AreqCall.Result`.
-/

namespace Tour

open Lib

/-! ## The structures on the wire -/

/-- The arguments `ipa` and `len`. -/
structure AreqArgs where
  ipa : Sockaddr
  len : UInt32

/-- The `struct areq` that `areq` makes of its arguments. -/
def AreqArgs.bytes (args : AreqArgs) : List UInt8 := args.ipa.bytes ++ le32 args.len

/-- `sizeof(struct hwaddr)`: a byte of padding stands before `sll_hatype` and one at the end. -/
def sizeofHwaddr : Nat := 28

/-- The bytes of a `struct hwaddr` before `sll_hatype`; the padding was zeroed. -/
def Hwaddr.outgoing (hw : Hwaddr) : List UInt8 :=
  le32 (Int32.ofInt hw.sllIfindex).toUInt32 ++ (le16 hw.sllIfhatype ++
    ([hw.sllIfhalen] ++ (hw.sllIfaddr.bytes ++ [0])))

def Hwaddr.bytes (hw : Hwaddr) : List UInt8 :=
  hw.outgoing ++ (le16 hw.sllHatype ++ ([hw.sllHalen] ++ (hw.sllAddr.bytes ++ [0])))

/-- The `struct hwaddr` in the first bytes of an object. -/
def Hwaddr.ofBytes (l : List UInt8) : Hwaddr where
  sllIfindex := (ofLe32 l).toInt32.toInt
  sllIfhatype := ofLe16 (l.getD 4 0) (l.getD 5 0)
  sllIfhalen := l.getD 6 0
  sllIfaddr := .fill 8 (l.drop 7)
  sllHatype := ofLe16 (l.getD 16 0) (l.getD 17 0)
  sllHalen := l.getD 18 0
  sllAddr := .fill 8 (l.drop 19)

/-! ## The code -/

/-- What `print_hwa` reads of `sll_addr`; it reads one byte even when `sll_halen` is 0. -/
def printHwa (hwa : Hwaddr) : Option (List UInt8) :=
  hwa.sllAddr.read 0 (max hwa.sllHalen.toNat 1)

/-- The next system call of `areq`. -/
inductive AreqPc
  | socket
  | connect
  | send
  | select
  | recv
  | returned (rv : Bool)
deriving DecidableEq

structure AreqCall where
  args : AreqArgs
  pc : AreqPc
  /-- Whether `sock` is open. -/
  sock : Bool
  /-- The caller's object behind `hwa`. -/
  hwa : Buf sizeofHwaddr

/-- What the kernel answers to a system call. -/
inductive AreqAnswer
  | socket (ok : Bool)
  | connect (ok : Bool)
  /-- The number of bytes that `send` took, unless it failed. -/
  | send (nsent : Option Nat)
  | select (rv : Int)
  /-- What `recv` returned, unless it failed. -/
  | recv (bytes : Option (List UInt8))

/-- A call of `areq` that has not begun. -/
def AreqCall.start (args : AreqArgs) (hwa : Buf sizeofHwaddr) : AreqCall :=
  ⟨args, .socket, false, hwa⟩

/-- `close(sock); return rv;` -/
def AreqCall.close (call : AreqCall) (rv : Bool) : AreqCall :=
  { call with pc := .returned rv, sock := false }

/-- The branch of `areq` on a readable socket, when `recv` does not fail. -/
def AreqCall.received (call : AreqCall) (bytes : List UInt8) : Option AreqCall := do
  let hwa ← call.hwa.write 0 bytes
  let call := { call with hwa := hwa }
  if bytes.length < sizeofHwaddr then some (call.close false)
  else do
    let _ ← printHwa (.ofBytes hwa.bytes)
    some (call.close true)

/-- One step of `areq`. -/
def stepAreq (call : AreqCall) (answer : AreqAnswer) : Option AreqCall :=
  match call.pc, answer with
  | .socket, .socket ok =>
    some (if ok then { call with pc := .connect, sock := true }
      else { call with pc := .returned false })
  | .connect, .connect ok => some (if ok then { call with pc := .send } else call.close false)
  | .send, .send nsent =>
    some (if nsent.isSome then { call with pc := .select } else call.close false)
  | .select, .select rv =>
    some (if rv < 0 then call.close false
      else if rv = 0 then call.close false
      else { call with pc := .recv })
  | .recv, .recv none => some (call.close false)
  | .recv, .recv (some bytes) => call.received bytes
  | _, _ => none

/-! ## Round trips -/

theorem AreqArgs.bytes_length (args : AreqArgs) : args.bytes.length = sizeofAreq := by
  simp [AreqArgs.bytes, Sockaddr.bytes, sizeofAreq]

/-- The daemon reads the address that was asked for. -/
theorem AreqArgs.ofBytes_bytes (args : AreqArgs) : Sockaddr.ofBytes args.bytes = args.ipa := by
  have hdata : args.bytes.drop 2 = args.ipa.saData.bytes ++ le32 args.len := rfl
  have hfill : Buf.fill 14 (args.ipa.saData.bytes ++ le32 args.len) = args.ipa.saData := by
    apply Buf.ext
    rw [Buf.fill_bytes_of_ge (by simp)]
    exact List.take_left' args.ipa.saData.length_eq
  rw [Sockaddr.ofBytes, hdata, hfill]
  exact congrArg (fun family => (⟨family, args.ipa.saData⟩ : Sockaddr)) (ofLe16_le16 _)

theorem Hwaddr.outgoing_length (hw : Hwaddr) : hw.outgoing.length = 16 := by
  simp [Hwaddr.outgoing]

theorem Hwaddr.bytes_length (hw : Hwaddr) : hw.bytes.length = sizeofHwaddr := by
  simp [Hwaddr.bytes, Hwaddr.outgoing_length, sizeofHwaddr]

/-- An address of eight bytes, followed by anything. -/
theorem fill_append {n : Nat} (b : Buf n) (rest : List UInt8) : Buf.fill n (b.bytes ++ rest) = b := by
  apply Buf.ext
  rw [Buf.fill_bytes_of_ge (by simp)]
  exact List.take_left' b.length_eq

/-- The value fits a C `int`. -/
def IsInt (i : Int) : Prop := -2147483648 ≤ i ∧ i < 2147483648

/-- **A `struct hwaddr` arrives as it was sent.** -/
theorem Hwaddr.ofBytes_bytes {hw : Hwaddr} (h : IsInt hw.sllIfindex) :
    Hwaddr.ofBytes hw.bytes = hw := by
  have hlen := hw.outgoing_length
  have hindex : (ofLe32 hw.bytes).toInt32.toInt = hw.sllIfindex := by
    have hle : ofLe32 hw.bytes = (Int32.ofInt hw.sllIfindex).toUInt32 := ofLe32_le32 _ _
    rw [hle]
    exact Int32.toInt_ofInt_of_le h.1 h.2
  have hifhatype : ofLe16 (hw.bytes.getD 4 0) (hw.bytes.getD 5 0) = hw.sllIfhatype :=
    ofLe16_le16 _
  have hifaddr : Buf.fill 8 (hw.bytes.drop 7) = hw.sllIfaddr := by
    have hdrop : hw.bytes.drop 7 = hw.sllIfaddr.bytes ++ [0] ++
      (le16 hw.sllHatype ++ ([hw.sllHalen] ++ (hw.sllAddr.bytes ++ [0]))) := rfl
    rw [hdrop, List.append_assoc]
    exact fill_append _ _
  -- the rest stands after the first sixteen bytes
  have hget : ∀ i, hw.bytes.getD (16 + i) 0 =
      (le16 hw.sllHatype ++ ([hw.sllHalen] ++ (hw.sllAddr.bytes ++ [0]))).getD i 0 := by
    intro i
    rw [Hwaddr.bytes, List.getD_append_right _ _ _ _ (by omega), hlen, Nat.add_sub_cancel_left]
  have hhatype : ofLe16 (hw.bytes.getD 16 0) (hw.bytes.getD 17 0) = hw.sllHatype := by
    rw [hget 0, hget 1]
    exact ofLe16_le16 _
  have hhalen : hw.bytes.getD 18 0 = hw.sllHalen := by
    rw [hget 2]
    rfl
  have haddr : Buf.fill 8 (hw.bytes.drop 19) = hw.sllAddr := by
    rw [Hwaddr.bytes, List.drop_append, hlen, List.drop_of_length_le (by omega)]
    exact fill_append _ _
  simp only [Hwaddr.ofBytes, hindex, hifhatype, hifaddr, hhatype, hhalen, haddr]
  rfl

/-! ## What a step can do -/

/-- Everything a step of `areq` can do. -/
inductive AreqStep (call : AreqCall) : AreqAnswer → AreqCall → Prop
  | noSocket (hpc : call.pc = .socket) :
    AreqStep call (.socket false) { call with pc := .returned false }
  | opened (hpc : call.pc = .socket) :
    AreqStep call (.socket true) { call with pc := .connect, sock := true }
  | connected (hpc : call.pc = .connect) : AreqStep call (.connect true) { call with pc := .send }
  | sent (n : Nat) (hpc : call.pc = .send) : AreqStep call (.send (some n)) { call with pc := .select }
  | readable (rv : Int) (hpc : call.pc = .select) : AreqStep call (.select rv) { call with pc := .recv }
  /-- A call on the socket failed, or the two seconds have passed. -/
  | failed (answer : AreqAnswer) (hpc : ∀ rv, call.pc ≠ .returned rv) :
    AreqStep call answer (call.close false)
  | short (bytes : List UInt8) (hwa : Buf sizeofHwaddr) (hpc : call.pc = .recv)
    (hwrite : call.hwa.write 0 bytes = some hwa) (hlen : bytes.length < sizeofHwaddr) :
    AreqStep call (.recv (some bytes)) ({ call with hwa := hwa }.close false)
  | answered (hwa : Buf sizeofHwaddr) (hpc : call.pc = .recv)
    (hprint : (printHwa (.ofBytes hwa.bytes)).isSome) :
    AreqStep call (.recv (some hwa.bytes)) ({ call with hwa := hwa }.close true)

/-- A buffer that is written whole holds what was written. -/
theorem write_all {n : Nat} {b c : Buf n} {src : List UInt8} (h : b.write 0 src = some c)
    (hlen : n ≤ src.length) : src = c.bytes := by
  obtain ⟨hle, hbytes⟩ := Buf.write_eq_some.1 h
  rw [hbytes, List.take_zero, List.nil_append, List.drop_of_length_le (by simp; omega),
    List.append_nil]

theorem received_short {call : AreqCall} {bytes : List UInt8} (h : bytes.length < sizeofHwaddr) :
    (call.received bytes).isSome := by
  obtain ⟨hwa, hwrite⟩ := Option.isSome_iff_exists.1
    ((call.hwa.write_isSome 0 bytes).2 (by omega))
  simp only [AreqCall.received, hwrite, h, bind, Option.bind_some, if_true, Option.isSome_some]

/-- A whole record is printed, unless it declares more than eight address bytes. -/
theorem received_whole {call : AreqCall} {hw : Hwaddr} (hindex : IsInt hw.sllIfindex)
    (hhalen : hw.sllHalen ≤ 8) : (call.received hw.bytes).isSome := by
  have hlen := hw.bytes_length
  obtain ⟨hwa, hwrite⟩ := Option.isSome_iff_exists.1
    ((call.hwa.write_isSome 0 hw.bytes).2 (by omega))
  have hprint : (printHwa (.ofBytes hwa.bytes)).isSome := by
    rw [← write_all hwrite (Nat.le_of_eq hlen.symm), Hwaddr.ofBytes_bytes hindex]
    have hle : hw.sllHalen.toNat ≤ 8 := hhalen
    exact (Buf.read_isSome _ _ _).2 (by omega)
  obtain ⟨printed, hprinted⟩ := Option.isSome_iff_exists.1 hprint
  have hwhole : ¬hw.bytes.length < sizeofHwaddr := Nat.not_lt.2 (Nat.le_of_eq hlen.symm)
  simp only [AreqCall.received, hwrite, hwhole, hprinted, bind, Option.bind_some, if_false,
    Option.isSome_some]

theorem received_cases {call call' : AreqCall} {bytes : List UInt8} (hpc : call.pc = .recv)
    (h : call.received bytes = some call') : AreqStep call (.recv (some bytes)) call' := by
  simp only [AreqCall.received, bind, Option.bind_eq_some_iff] at h
  obtain ⟨hwa, hwrite, h⟩ := h
  split at h
  · rename_i hlen
    cases h
    exact .short bytes hwa hpc hwrite hlen
  · rename_i hlen
    obtain ⟨printed, hprint, hrest⟩ := Option.bind_eq_some_iff.1 h
    cases hrest
    cases write_all hwrite (Nat.le_of_not_lt hlen)
    exact .answered hwa hpc (Option.isSome_of_mem hprint)

theorem stepAreq_cases {call call' : AreqCall} {answer : AreqAnswer}
    (h : stepAreq call answer = some call') : AreqStep call answer call' := by
  unfold stepAreq at h
  split at h
  · rename_i ok hpc
    cases ok with
    | false => cases h; exact .noSocket hpc
    | true => cases h; exact .opened hpc
  · rename_i ok hpc
    cases ok with
    | false => cases h; exact .failed _ (by simp [hpc])
    | true => cases h; exact .connected hpc
  · rename_i nsent hpc
    cases nsent with
    | none => cases h; exact .failed _ (by simp [hpc])
    | some n => cases h; exact .sent n hpc
  · rename_i rv hpc
    split at h
    · cases h; exact .failed _ (by simp [hpc])
    split at h
    · cases h; exact .failed _ (by simp [hpc])
    · cases h; exact .readable rv hpc
  · rename_i hpc
    cases h
    exact .failed _ (by simp [hpc])
  · rename_i hpc
    exact received_cases hpc h
  · cases h

/-- `areq` returns 1 only from a `recv` that filled the caller's object. -/
theorem AreqStep.returns {call call' : AreqCall} {answer : AreqAnswer}
    (h : AreqStep call answer call') (hpc : call'.pc = .returned true) :
    answer = .recv (some call'.hwa.bytes) ∧ (printHwa (.ofBytes call'.hwa.bytes)).isSome := by
  cases h with
  | answered hwa _ hprint => exact ⟨rfl, hprint⟩
  | _ => cases hpc

/-- What a step that returns 0 has written over the caller's object: less than the whole of it, and
only what a `recv` yielded. -/
theorem AreqStep.fails {call call' : AreqCall} {answer : AreqAnswer}
    (h : AreqStep call answer call') (hpc : call'.pc = .returned false) :
    (∀ rv, call.pc ≠ .returned rv) ∧ ∃ got : List UInt8, (got = [] ∨ answer = .recv (some got)) ∧
      got.length < sizeofHwaddr ∧ call'.hwa.bytes = got ++ call.hwa.bytes.drop got.length := by
  cases h with
  | noSocket hfrom => exact ⟨by simp [hfrom], [], Or.inl rfl, by decide, rfl⟩
  | failed _ hfrom => exact ⟨hfrom, [], Or.inl rfl, by decide, rfl⟩
  | short bytes hwa hfrom hwrite hlen =>
    refine ⟨by simp [hfrom], bytes, Or.inr rfl, hlen, ?_⟩
    have hbytes := (Buf.write_eq_some.1 hwrite).2
    rwa [List.take_zero, List.nil_append, Nat.zero_add] at hbytes
  | _ => cases hpc

/-- The socket is open before this call. -/
def AreqPc.isOpen : AreqPc → Bool
  | .socket => false
  | .returned _ => false
  | _ => true

/-- What holds in every state of a call with these arguments, whose object behind `hwa` held `hwa`
before. -/
structure CallInv (args : AreqArgs) (hwa : Buf sizeofHwaddr) (call : AreqCall) : Prop where
  args : call.args = args
  sock : call.sock = call.pc.isOpen
  kept : (∀ rv, call.pc ≠ .returned rv) → call.hwa = hwa

theorem callInv_start (args : AreqArgs) (hwa : Buf sizeofHwaddr) :
    CallInv args hwa (.start args hwa) :=
  ⟨rfl, rfl, fun _ => rfl⟩

theorem CallInv.step {args : AreqArgs} {hwa : Buf sizeofHwaddr} {call call' : AreqCall}
    {answer : AreqAnswer} (hinv : CallInv args hwa call) (h : AreqStep call answer call') :
    CallInv args hwa call' := by
  obtain ⟨hargs, hsock, hkept⟩ := hinv
  -- from one system call on the open socket to the next
  have hnext : ∀ pc : AreqPc, call.pc.isOpen = true → pc.isOpen = true →
      CallInv args hwa { call with pc := pc } := by
    intro pc hfrom hto
    refine ⟨hargs, ?_, fun _ => hkept fun rv hpc => ?_⟩
    · rw [hsock, hfrom, hto]
    · rw [hpc] at hfrom
      cases hfrom
  cases h with
  | noSocket hpc => exact ⟨hargs, hsock.trans (by rw [hpc]; rfl), fun h => absurd rfl (h false)⟩
  | opened hpc => exact ⟨hargs, rfl, fun _ => hkept (by simp [hpc])⟩
  | connected hpc => exact hnext _ (by rw [hpc]; rfl) rfl
  | sent n hpc => exact hnext _ (by rw [hpc]; rfl) rfl
  | readable rv hpc => exact hnext _ (by rw [hpc]; rfl) rfl
  | failed => exact ⟨hargs, rfl, fun h => absurd rfl (h false)⟩
  | short => exact ⟨hargs, rfl, fun h => absurd rfl (h false)⟩
  | answered => exact ⟨hargs, rfl, fun h => absurd rfl (h true)⟩

end Tour
