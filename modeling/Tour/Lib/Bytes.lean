import Mathlib.Data.List.GetD

/-!
# Objects in memory, checked copies, and byte order

`Buf n` is an object of `n` bytes. `Buf.read` and `Buf.write` are the two halves of a `memcpy`:
each is `none` when it would leave the object. `Buf.fill` is what a receiving call leaves in a
zeroed buffer. A `uint16_t` is laid out in memory by a little-endian host (`le16`, `ofLe16`), and
`htons` is the swap between that layout and the order on the wire.
-/

namespace Tour.Lib

/-- An object of `n` bytes. -/
structure Buf (n : Nat) where
  bytes : List UInt8
  length_eq : bytes.length = n
deriving DecidableEq

namespace Buf

variable {n : Nat}

attribute [simp] length_eq

@[ext] theorem ext {b c : Buf n} (h : b.bytes = c.bytes) : b = c := by
  cases b; cases c; cases h; rfl

/-- `memset(b, 0, n)`. -/
def zero (n : Nat) : Buf n := ⟨List.replicate n 0, by simp⟩

@[simp] theorem zero_bytes (n : Nat) : (zero n).bytes = List.replicate n 0 := rfl

/-- The `len` bytes from `off` on, when they lie inside the object. -/
def read (b : Buf n) (off len : Nat) : Option (List UInt8) :=
  if off + len ≤ n then some ((b.bytes.drop off).take len) else none

/-- Copy `src` to offset `off`, when it fits. -/
def write (b : Buf n) (off : Nat) (src : List UInt8) : Option (Buf n) :=
  if h : off + src.length ≤ n then
    some ⟨b.bytes.take off ++ src ++ b.bytes.drop (off + src.length), by
      simp only [List.length_append, List.length_take, List.length_drop, length_eq]; omega⟩
  else none

/-- A zeroed buffer after at most `n` bytes of `l` were received into it. -/
def fill (n : Nat) (l : List UInt8) : Buf n :=
  ⟨l.take n ++ List.replicate (n - l.length) 0, by
    simp only [List.length_append, List.length_take, List.length_replicate]; omega⟩

/-- The part of an object at a fixed place inside it (a member of a structure). -/
def slice (b : Buf n) (off len : Nat) (h : off + len ≤ n) : Buf len :=
  ⟨(b.bytes.drop off).take len, by
    simp only [List.length_take, List.length_drop, length_eq]; omega⟩

@[simp] theorem slice_bytes (b : Buf n) (off len : Nat) (h : off + len ≤ n) :
    (b.slice off len h).bytes = (b.bytes.drop off).take len := rfl

/-! ## Checked copies -/

theorem read_isSome (b : Buf n) (off len : Nat) : (b.read off len).isSome ↔ off + len ≤ n := by
  unfold read; split <;> simp [*]

theorem read_eq_some {b : Buf n} {off len : Nat} {l : List UInt8} :
    b.read off len = some l ↔ off + len ≤ n ∧ (b.bytes.drop off).take len = l := by
  unfold read; split <;> simp [*]

theorem read_length {b : Buf n} {off len : Nat} {l : List UInt8} (h : b.read off len = some l) :
    l.length = len := by
  obtain ⟨hle, rfl⟩ := read_eq_some.1 h
  simp only [List.length_take, List.length_drop, length_eq]; omega

theorem write_isSome (b : Buf n) (off : Nat) (src : List UInt8) :
    (b.write off src).isSome ↔ off + src.length ≤ n := by
  unfold write; split <;> simp [*]

theorem write_eq_some {b c : Buf n} {off : Nat} {src : List UInt8} :
    b.write off src = some c ↔ off + src.length ≤ n ∧
      c.bytes = b.bytes.take off ++ src ++ b.bytes.drop (off + src.length) := by
  unfold write
  split
  · rename_i h
    simp only [Option.some.injEq, h, true_and]
    exact ⟨fun e => e ▸ rfl, fun e => ext e.symm⟩
  · rename_i h
    simp [h]

/-- A copy behind the first bytes `pre` of an object, when the rest is long enough. -/
theorem write_at {b : Buf n} {pre post : List UInt8} (hb : b.bytes = pre ++ post)
    (src : List UInt8) (hlen : src.length ≤ post.length) :
    ∃ c, b.write pre.length src = some c ∧ c.bytes = pre ++ src ++ post.drop src.length := by
  have hn : pre.length + post.length = n := by
    rw [← b.length_eq, hb, List.length_append]
  have hs : (b.write pre.length src).isSome := (write_isSome b _ src).2 (by omega)
  obtain ⟨c, hc⟩ := Option.isSome_iff_exists.1 hs
  refine ⟨c, hc, ?_⟩
  rw [(write_eq_some.1 hc).2, hb, List.take_left, ← List.drop_drop, List.drop_left]

theorem fill_bytes_of_le {n : Nat} {l : List UInt8} (h : l.length ≤ n) :
    (fill n l).bytes = l ++ List.replicate (n - l.length) 0 := by
  simp only [fill, List.take_of_length_le h]

theorem fill_bytes_of_ge {n : Nat} {l : List UInt8} (h : n ≤ l.length) :
    (fill n l).bytes = l.take n := by
  simp only [fill, Nat.sub_eq_zero_of_le h, List.replicate_zero, List.append_nil]

/-- Behind what was received the buffer still holds zeros. -/
theorem fill_getD {n : Nat} {l : List UInt8} (h : l.length ≤ n) (i : Nat) :
    (fill n l).bytes.getD i 0 = l.getD i 0 := by
  rw [fill_bytes_of_le h]
  rcases Nat.lt_or_ge i l.length with hi | hi
  · exact List.getD_append _ _ _ _ hi
  · rw [List.getD_append_right _ _ _ _ hi, List.getD_eq_default _ _ hi, List.getD_eq_getElem?_getD,
      List.getElem?_getD_replicate_default_eq]

theorem write_zero {n : Nat} {src : List UInt8} (h : src.length ≤ n) :
    (zero n).write 0 src = some (fill n src) := by
  rw [write_eq_some, fill_bytes_of_le h, zero_bytes, List.take_zero, List.nil_append,
    List.drop_replicate, Nat.zero_add]
  exact ⟨h, rfl⟩

theorem read_fill {n off len : Nat} {l : List UInt8} (h : off + len ≤ l.length)
    (hn : l.length ≤ n) : (fill n l).read off len = some ((l.drop off).take len) := by
  rw [read_eq_some, fill_bytes_of_le hn, List.drop_append_of_le_length (by omega),
    List.take_append_of_le_length (by rw [List.length_drop]; omega)]
  exact ⟨by omega, rfl⟩

/-- Reading back a part of what was received. -/
theorem read_segment {n : Nat} (pre seg post : List UInt8)
    (h : (pre ++ (seg ++ post)).length ≤ n) :
    (fill n (pre ++ (seg ++ post))).read pre.length seg.length = some seg := by
  have hle : pre.length + seg.length ≤ (pre ++ (seg ++ post)).length := by
    simp only [List.length_append]
    omega
  rw [read_fill hle h, List.drop_left, List.take_left]

end Buf

/-! ## 16-bit words -/

/-- The two bytes of a `uint16_t` in the memory of a little-endian host. -/
def le16 (x : UInt16) : List UInt8 :=
  [UInt8.ofNat (x.toNat % 256), UInt8.ofNat (x.toNat / 256)]

/-- The `uint16_t` stored as the bytes `lo, hi` in the memory of a little-endian host. -/
def ofLe16 (lo hi : UInt8) : UInt16 := UInt16.ofNat (lo.toNat + 256 * hi.toNat)

/-- The byte swap of a little-endian host; `ntohs` is the same function. -/
def htons (x : UInt16) : UInt16 := UInt16.ofNat (x.toNat / 256 + 256 * (x.toNat % 256))

/-- Network to host order. -/
def ntohs (x : UInt16) : UInt16 := htons x

@[simp] theorem le16_length (x : UInt16) : (le16 x).length = 2 := rfl

/-- Storing a word and loading it again. -/
theorem ofLe16_le16 (x : UInt16) :
    ofLe16 (UInt8.ofNat (x.toNat % 256)) (UInt8.ofNat (x.toNat / 256)) = x := by
  have hx := x.toNat_lt
  have hlo : (UInt8.ofNat (x.toNat % 256)).toNat = x.toNat % 256 := by
    rw [UInt8.toNat_ofNat']; exact Nat.mod_eq_of_lt (by omega)
  have hhi : (UInt8.ofNat (x.toNat / 256)).toNat = x.toNat / 256 := by
    rw [UInt8.toNat_ofNat']; exact Nat.mod_eq_of_lt (by omega)
  have hsum : x.toNat % 256 + 256 * (x.toNat / 256) = x.toNat := by omega
  rw [ofLe16, hlo, hhi, hsum, UInt16.ofNat_toNat]

theorem htons_toNat (x : UInt16) : (htons x).toNat = x.toNat / 256 + 256 * (x.toNat % 256) := by
  have hx := x.toNat_lt
  rw [htons, UInt16.toNat_ofNat']
  exact Nat.mod_eq_of_lt (by omega)

@[simp] theorem htons_htons (x : UInt16) : htons (htons x) = x := by
  have hx := x.toNat_lt
  apply UInt16.toNat_inj.1
  rw [htons_toNat, htons_toNat]
  omega

@[simp] theorem ntohs_htons (x : UInt16) : ntohs (htons x) = x := htons_htons x

/-! ## 32-bit words -/

/-- The four bytes of a `uint32_t` in the memory of a little-endian host. -/
def le32 (x : UInt32) : List UInt8 :=
  [UInt8.ofNat (x.toNat % 256), UInt8.ofNat (x.toNat / 256 % 256),
    UInt8.ofNat (x.toNat / 65536 % 256), UInt8.ofNat (x.toNat / 16777216)]

/-- The `uint32_t` stored as the first four bytes of `l` in the memory of a little-endian host. -/
def ofLe32 (l : List UInt8) : UInt32 :=
  UInt32.ofNat ((l.getD 0 0).toNat + 256 * (l.getD 1 0).toNat + 65536 * (l.getD 2 0).toNat +
    16777216 * (l.getD 3 0).toNat)

@[simp] theorem le32_length (x : UInt32) : (le32 x).length = 4 := rfl

/-- Storing a word and loading it again. -/
theorem ofLe32_le32 (x : UInt32) (rest : List UInt8) : ofLe32 (le32 x ++ rest) = x := by
  have hx := x.toNat_lt
  have hbyte : ∀ n < 256, (UInt8.ofNat n).toNat = n := by
    intro n hn
    rw [UInt8.toNat_ofNat']
    exact Nat.mod_eq_of_lt hn
  apply UInt32.toNat_inj.1
  simp only [ofLe32, le32, List.cons_append, List.getD_cons_zero, List.getD_cons_succ]
  rw [hbyte _ (by omega), hbyte _ (by omega), hbyte _ (by omega), hbyte _ (by omega),
    UInt32.toNat_ofNat']
  omega

end Tour.Lib
