import Tour.Lib.Bytes
import Tour.Lib.OnesComplement

/-!
# The Internet checksum

`in_cksum` of `ping.c`, with its 32-bit accumulator. The code adds the words as a little-endian host
loads them; the checksum is defined on big-endian words. The two totals differ by a factor of 256
modulo `2 ^ 16 - 1`, and so does a word from its byte swap, so that the stored bytes are the same
(`inCksum_rfc`). A buffer verifies when its total is a positive multiple of `2 ^ 16 - 1`
(`inCksum_eq_zero`), which is what filling in the checksum brings about (`inCksum_fill`) and what no
change of one word keeps, up to the two zeros (`inCksum_detects`).
-/

namespace Tour

open Lib

/-! ## The code -/

/-- `while (nleft > 1)`: the accumulator and the bytes that are left. -/
def cksumLoop : UInt32 → List UInt8 → UInt32 × List UInt8
  | sum, lo :: hi :: w => cksumLoop (sum + (ofLe16 lo hi).toUInt32) w
  | sum, w => (sum, w)

/-- `if (nleft == 1)`: an odd byte is the low byte of a word. -/
def addTail : UInt32 × List UInt8 → UInt32
  | (sum, [b]) => sum + (ofLe16 b 0).toUInt32
  | (sum, _) => sum

/-- The accumulator before its carries are folded. -/
def accumulate (addr : List UInt8) : UInt32 := addTail (cksumLoop 0 addr)

/-- The two folding steps. -/
def foldSum (sum : UInt32) : UInt32 :=
  let sum := (sum >>> 16) + (sum &&& 0xffff)
  sum + (sum >>> 16)

/-- `in_cksum(addr, len)`, for the `len` bytes at `addr`. -/
def inCksum (addr : List UInt8) : UInt16 := (~~~ foldSum (accumulate addr)).toUInt16

/-! ## Words -/

/-- The words of a buffer, the first byte of each the low one. -/
def leWords : List UInt8 → List Nat
  | lo :: hi :: l => (lo.toNat + 256 * hi.toNat) :: leWords l
  | [b] => [b.toNat]
  | [] => []

/-- The words of a buffer, the first byte of each the high one. An odd byte is followed by zero. -/
def beWords : List UInt8 → List Nat
  | hi :: lo :: l => (256 * hi.toNat + lo.toNat) :: beWords l
  | [b] => [256 * b.toNat]
  | [] => []

/-- The big-endian bytes of a word. -/
def be16 (x : Nat) : List UInt8 := [UInt8.ofNat (x / 256), UInt8.ofNat (x % 256)]

/-- The longest buffer whose words cannot overflow the accumulator. -/
def cksumMaxlen : Nat := 131074

theorem leWords_le {l : List UInt8} : ∀ w ∈ leWords l, w ≤ 65535 := by
  fun_induction leWords l with
  | case1 lo hi l ih =>
    have hlo := lo.toNat_lt
    have hhi := hi.toNat_lt
    exact List.forall_mem_cons.2 ⟨by omega, ih⟩
  | case2 b =>
    have hb := b.toNat_lt
    exact List.forall_mem_singleton.2 (by omega)
  | case3 => exact List.forall_mem_nil _

theorem beWords_le {l : List UInt8} : ∀ w ∈ beWords l, w ≤ 65535 := by
  fun_induction beWords l with
  | case1 hi lo l ih =>
    have hlo := lo.toNat_lt
    have hhi := hi.toNat_lt
    exact List.forall_mem_cons.2 ⟨by omega, ih⟩
  | case2 b =>
    have hb := b.toNat_lt
    exact List.forall_mem_singleton.2 (by omega)
  | case3 => exact List.forall_mem_nil _

theorem leWords_sum_le (l : List UInt8) : (leWords l).sum ≤ 65535 * ((l.length + 1) / 2) := by
  fun_induction leWords l with
  | case1 lo hi l ih =>
    have hlo := lo.toNat_lt
    have hhi := hi.toNat_lt
    rw [List.sum_cons, List.length_cons, List.length_cons]
    omega
  | case2 b =>
    have hb := b.toNat_lt
    rw [List.sum_singleton, List.length_singleton]
    omega
  | case3 => exact Nat.zero_le _

theorem leWords_append {l₁ : List UInt8} (h : l₁.length % 2 = 0) (l₂ : List UInt8) :
    leWords (l₁ ++ l₂) = leWords l₁ ++ leWords l₂ := by
  fun_induction leWords l₁ with
  | case1 lo hi l ih =>
    simp only [List.length_cons] at h
    rw [List.cons_append, List.cons_append, leWords, ih (by omega), List.cons_append]
  | case2 b => cases h
  | case3 => rfl

/-- The total of a buffer that fits the accumulator. -/
theorem leWords_sum_lt {l : List UInt8} (h : l.length ≤ cksumMaxlen) :
    (leWords l).sum < 65536 * 65536 := by
  have hsum := leWords_sum_le l
  rw [cksumMaxlen] at h
  omega

/-! ## The accumulator -/

theorem ofLe16_toNat (lo hi : UInt8) : (ofLe16 lo hi).toNat = lo.toNat + 256 * hi.toNat := by
  have hlo := lo.toNat_lt
  have hhi := hi.toNat_lt
  rw [ofLe16, UInt16.toNat_ofNat']
  exact Nat.mod_eq_of_lt (by omega)

/-- The loop can be stopped after any number of its iterations. -/
theorem cksumLoop_append {l₁ : List UInt8} (h : l₁.length % 2 = 0) (sum : UInt32)
    (l₂ : List UInt8) :
    cksumLoop sum (l₁ ++ l₂) = cksumLoop (cksumLoop sum l₁).1 l₂ := by
  fun_induction cksumLoop sum l₁ with
  | case1 sum lo hi l ih =>
    simp only [List.length_cons] at h
    rw [List.cons_append, List.cons_append, cksumLoop, ih (by omega)]
  | case2 sum l hl =>
    match l, hl with
    | [], _ => rfl
    | [_], _ => cases h
    | _ :: _ :: _, hl => exact absurd rfl (hl _ _ _)

/-- An even number of bytes leaves none. -/
theorem addTail_even {l : List UInt8} (h : l.length % 2 = 0) (sum : UInt32) :
    addTail (cksumLoop sum l) = (cksumLoop sum l).1 := by
  fun_induction cksumLoop sum l with
  | case1 sum lo hi l ih =>
    simp only [List.length_cons] at h
    exact ih (by omega)
  | case2 sum l hl =>
    match l, hl with
    | [], _ => rfl
    | [_], _ => cases h
    | _ :: _ :: _, hl => exact absurd rfl (hl _ _ _)

theorem toNat_add_of_lt {a b : UInt32} (h : a.toNat + b.toNat < 65536 * 65536) :
    (a + b).toNat = a.toNat + b.toNat := by
  rw [UInt32.toNat_add]
  exact Nat.mod_eq_of_lt h

/-- No addition of `in_cksum` wraps when the total fits: the accumulator is the total. -/
theorem addTail_cksumLoop {l : List UInt8} {sum : UInt32}
    (h : sum.toNat + (leWords l).sum < 65536 * 65536) :
    (addTail (cksumLoop sum l)).toNat = sum.toNat + (leWords l).sum := by
  fun_induction cksumLoop sum l with
  | case1 sum lo hi l ih =>
    rw [leWords, List.sum_cons] at h ⊢
    have hword : (ofLe16 lo hi).toUInt32.toNat = lo.toNat + 256 * hi.toNat := by
      rw [UInt16.toNat_toUInt32, ofLe16_toNat]
    have hadd : (sum + (ofLe16 lo hi).toUInt32).toNat =
        sum.toNat + (lo.toNat + 256 * hi.toNat) := by
      rw [toNat_add_of_lt (by rw [hword]; omega), hword]
    rw [ih (by rw [hadd]; omega), hadd, Nat.add_assoc]
  | case2 sum l hl =>
    match l, hl with
    | [], _ => rfl
    | [b], _ =>
      have hword : (ofLe16 b 0).toUInt32.toNat = b.toNat := by
        rw [UInt16.toNat_toUInt32, ofLe16_toNat]
        rfl
      simp only [leWords, List.sum_singleton] at h ⊢
      rw [addTail, toNat_add_of_lt (by rw [hword]; exact h), hword]
    | _ :: _ :: _, hl => exact absurd rfl (hl _ _ _)

theorem accumulate_toNat {l : List UInt8} (h : l.length ≤ cksumMaxlen) :
    (accumulate l).toNat = (leWords l).sum := by
  have := @addTail_cksumLoop l 0 (by rw [UInt32.toNat_zero, Nat.zero_add]; exact leWords_sum_lt h)
  rwa [UInt32.toNat_zero, Nat.zero_add] at this

theorem foldSum_toNat (sum : UInt32) :
    (foldSum sum).toNat % 65536 = reduce 65535 sum.toNat := by
  have hlt := sum.toNat_lt
  have hhi : (sum >>> 16).toNat = sum.toNat / 65536 := by
    rw [UInt32.toNat_shiftRight]
    exact Nat.shiftRight_eq_div_pow _ 16
  have hlo : (sum &&& 0xffff).toNat = sum.toNat % 65536 := by
    rw [UInt32.toNat_and]
    exact Nat.and_two_pow_sub_one_eq_mod _ 16
  have hfirst : ((sum >>> 16) + (sum &&& 0xffff)).toNat = foldCarry 65535 sum.toNat := by
    rw [toNat_add_of_lt (by rw [hhi, hlo]; omega), hhi, hlo]
    rfl
  rw [← fold_fold (by decide) hlt, ← hfirst, foldSum]
  generalize hs : (sum >>> 16) + (sum &&& 0xffff) = s at hfirst ⊢
  have hcarry : (s >>> 16).toNat = s.toNat / 65536 := by
    rw [UInt32.toNat_shiftRight]
    exact Nat.shiftRight_eq_div_pow _ 16
  have hsmall : s.toNat ≤ 131070 := by
    rw [hfirst, foldCarry]
    omega
  rw [toNat_add_of_lt (by rw [hcarry]; omega), hcarry]

/-- The checksum is the complement of the sum of the words. -/
theorem inCksum_toNat {l : List UInt8} (h : l.length ≤ cksumMaxlen) :
    (inCksum l).toNat = 65535 - reduce 65535 (leWords l).sum := by
  have hfold := foldSum_toNat (accumulate l)
  rw [accumulate_toNat h] at hfold
  have hlt := (foldSum (accumulate l)).toNat_lt
  rw [inCksum, UInt32.toNat_toUInt16, UInt32.toNat_not, ← hfold]
  simp only [UInt32.size]
  omega

/-! ## Byte order -/

theorem leWords_modEq (l : List UInt8) : (leWords l).sum ≡ 256 * (beWords l).sum [MOD 65535] := by
  unfold Nat.ModEq
  fun_induction leWords l with
  | case1 lo hi l ih =>
    rw [beWords, List.sum_cons, List.sum_cons]
    omega
  | case2 b =>
    rw [beWords, List.sum_singleton, List.sum_singleton]
    omega
  | case3 => rfl

theorem leWords_eq_zero (l : List UInt8) : (leWords l).sum = 0 ↔ (beWords l).sum = 0 := by
  fun_induction leWords l with
  | case1 lo hi l ih =>
    rw [beWords, List.sum_cons, List.sum_cons]
    omega
  | case2 b =>
    rw [beWords, List.sum_singleton, List.sum_singleton]
    omega
  | case3 => rfl

/-- The sum of the little-endian words is the byte swap of the sum of the big-endian ones. -/
theorem reduce_leWords (l : List UInt8) :
    reduce 65535 (leWords l).sum =
      reduce 65535 (beWords l).sum / 256 + 256 * (reduce 65535 (beWords l).sum % 256) := by
  have hle := reduce_le (m := 65535) (by decide) (beWords l).sum
  have hbe := @reduce_modEq 65535 (beWords l).sum
  have hmod := leWords_modEq l
  have hzero := leWords_eq_zero l
  have hred := @reduce_eq_zero 65535 (beWords l).sum
  symm
  refine eq_reduce (by omega) ?_ (by omega)
  unfold Nat.ModEq at *
  omega

theorem mul_add_div_256 {a b : Nat} (h : b < 256) : (256 * a + b) / 256 = a := by omega

theorem mul_add_mod_256 {a b : Nat} (h : b < 256) : (256 * a + b) % 256 = b := by omega

/-- **The checksum of RFC 1071.** No addition wraps, after any number of iterations of the loop; the
two folding steps leave, in the low 16 bits, the one's complement sum of the words that were added;
and the bytes of the result are the big-endian bytes of the complement of the one's complement sum
of the big-endian words. -/
theorem inCksum_rfc {addr : List UInt8} (h : addr.length ≤ cksumMaxlen) :
    (∀ k, 2 * k ≤ addr.length →
      cksumLoop 0 addr = cksumLoop (cksumLoop 0 (addr.take (2 * k))).1 (addr.drop (2 * k)) ∧
      (cksumLoop 0 (addr.take (2 * k))).1.toNat = (leWords (addr.take (2 * k))).sum) ∧
    (accumulate addr).toNat = (leWords addr).sum ∧
    (foldSum (accumulate addr)).toNat % 65536 = onesSum 65535 (leWords addr) ∧
    le16 (inCksum addr) = be16 (65535 - onesSum 65535 (beWords addr)) := by
  refine ⟨fun k hk => ?_, accumulate_toNat h, ?_, ?_⟩
  · have heven : (addr.take (2 * k)).length % 2 = 0 := by
      rw [List.length_take, Nat.min_eq_left hk]
      omega
    have hsplit := cksumLoop_append heven 0 (addr.drop (2 * k))
    rw [List.take_append_drop] at hsplit
    have hlen : (addr.take (2 * k)).length ≤ cksumMaxlen :=
      Nat.le_trans (List.length_take_le' _ _) h
    refine ⟨hsplit, ?_⟩
    rw [← accumulate_toNat hlen, accumulate, addTail_even heven]
  · rw [foldSum_toNat, accumulate_toNat h, onesSum_eq (by decide) leWords_le]
  · have hcode := inCksum_toNat h
    have hle := reduce_le (m := 65535) (by decide) (beWords addr).sum
    rw [reduce_leWords] at hcode
    rw [onesSum_eq (by decide) beWords_le]
    generalize reduce 65535 (beWords addr).sum = r at hcode hle ⊢
    -- the digits of the complement are the complements of the digits
    have hlo : r % 256 ≤ 255 := Nat.le_of_lt_succ (Nat.mod_lt r (by decide))
    have hhi : r / 256 ≤ 255 := by omega
    have hbe : 65535 - r = 256 * (255 - r / 256) + (255 - r % 256) := by omega
    have hle : (inCksum addr).toNat = 256 * (255 - r % 256) + (255 - r / 256) := by omega
    rw [le16, be16, hbe, hle, mul_add_div_256 (by omega), mul_add_mod_256 (by omega),
      mul_add_div_256 (by omega), mul_add_mod_256 (by omega)]

/-- Three bytes: the last is the high byte of a word. -/
theorem inCksum_rfc_odd : ([0x45, 0, 1] : List UInt8).length ≤ cksumMaxlen ∧
    le16 (inCksum [0x45, 0, 1]) = be16 (65535 - onesSum 65535 (beWords [0x45, 0, 1])) ∧
    be16 (65535 - onesSum 65535 (beWords [0x45, 0, 1])) = [0xB9, 0xFF] :=
  ⟨by decide, (inCksum_rfc (by decide)).2.2.2, by decide⟩

/-! ## Buffers that verify -/

theorem inCksum_eq_zero {l : List UInt8} (h : l.length ≤ cksumMaxlen) :
    inCksum l = 0 ↔ 0 < (leWords l).sum ∧ 65535 ∣ (leWords l).sum := by
  have hle := reduce_le (m := 65535) (by decide) (leWords l).sum
  rw [← reduce_eq_self (by decide), ← UInt16.toNat_inj, inCksum_toNat h, UInt16.toNat_zero]
  omega

theorem leWords_le16 (x : UInt16) (l : List UInt8) : leWords (le16 x ++ l) = x.toNat :: leWords l := by
  have hx := x.toNat_lt
  have hlo : (UInt8.ofNat (x.toNat % 256)).toNat = x.toNat % 256 := by
    rw [UInt8.toNat_ofNat']
    omega
  have hhi : (UInt8.ofNat (x.toNat / 256)).toNat = x.toNat / 256 := by
    rw [UInt8.toNat_ofNat']
    omega
  rw [le16, List.cons_append, List.cons_append, List.nil_append, leWords, hlo, hhi,
    Nat.mod_add_div]

/-- The total of a buffer around one of its words. -/
theorem leWords_sum_word {pre : List UInt8} (hpre : pre.length % 2 = 0) (x : UInt16)
    (post : List UInt8) : (leWords (pre ++ (le16 x ++ post))).sum =
      (leWords pre).sum + (leWords post).sum + x.toNat := by
  rw [leWords_append hpre, List.sum_append, leWords_le16, List.sum_cons]
  omega

/-- Filling in the checksum of a buffer whose field is zero makes the buffer verify. -/
theorem inCksum_fill_list {pre post : List UInt8} (hpre : pre.length % 2 = 0)
    (hlen : (pre ++ (le16 0 ++ post)).length ≤ cksumMaxlen) :
    inCksum (pre ++ (le16 (inCksum (pre ++ (le16 0 ++ post))) ++ post)) = 0 := by
  have hzero := inCksum_toNat hlen
  have hsum₀ := leWords_sum_word hpre 0 post
  rw [UInt16.toNat_zero, Nat.add_zero] at hsum₀
  rw [hsum₀] at hzero
  have hsum := leWords_sum_word hpre (inCksum (pre ++ (le16 0 ++ post))) post
  rw [inCksum_eq_zero (by simpa using hlen), hsum, hzero]
  -- the total is that of the zeroed buffer and its complement
  generalize (leWords pre).sum + (leWords post).sum = s
  have hle := reduce_le (m := 65535) (by decide) s
  have hred := @reduce_eq_zero 65535 s
  have hmod := @reduce_modEq 65535 s
  unfold Nat.ModEq at hmod
  constructor
  · omega
  · apply Nat.dvd_of_mod_eq_zero
    omega

/-- The same in place: the field at an even offset is cleared, and then filled in. -/
theorem inCksum_fill {n : Nat} (buf : Buf n) {off : Nat} (hn : n ≤ cksumMaxlen)
    (heven : off % 2 = 0) (hoff : off + 2 ≤ n) :
    ∃ zeroed filled : Buf n, buf.write off (le16 0) = some zeroed ∧
      zeroed.write off (le16 (inCksum zeroed.bytes)) = some filled ∧ inCksum filled.bytes = 0 := by
  have hpre : (buf.bytes.take off).length = off := by
    rw [List.length_take, buf.length_eq]
    omega
  have hpost : (buf.bytes.drop off).length = n - off := by
    rw [List.length_drop, buf.length_eq]
  have hsplit : buf.bytes = buf.bytes.take off ++ buf.bytes.drop off :=
    (List.take_append_drop off buf.bytes).symm
  obtain ⟨zeroed, hz, hzb⟩ := Buf.write_at hsplit (le16 0) (by rw [le16_length, hpost]; omega)
  rw [hpre] at hz
  rw [List.append_assoc, le16_length] at hzb
  obtain ⟨filled, hf, hfb⟩ := Buf.write_at hzb (le16 (inCksum zeroed.bytes))
    (by rw [le16_length, List.length_append, le16_length]; omega)
  rw [hpre] at hf
  refine ⟨zeroed, filled, hz, hf, ?_⟩
  have hlen := zeroed.length_eq
  rw [hzb] at hlen
  rw [hfb, List.append_assoc, le16_length, List.drop_left' (le16_length 0), hzb]
  exact inCksum_fill_list (by rw [hpre]; exact heven) (by rw [hlen]; exact hn)

/-- Changing one word of a buffer that verifies makes it fail, unless the change is from one zero to
the other. -/
theorem inCksum_word {pre post : List UInt8} {x y : UInt16} (hpre : pre.length % 2 = 0)
    (hlen : (pre ++ (le16 x ++ post)).length ≤ cksumMaxlen)
    (hok : inCksum (pre ++ (le16 x ++ post)) = 0) (hne : x ≠ y)
    (hzeros : ¬(x = 0 ∧ y = 0xFFFF) ∧ ¬(x = 0xFFFF ∧ y = 0)) :
    inCksum (pre ++ (le16 y ++ post)) ≠ 0 := by
  have hx := x.toNat_lt
  have hy := y.toNat_lt
  rw [inCksum_eq_zero hlen, leWords_sum_word hpre] at hok
  rw [ne_eq, inCksum_eq_zero (by simpa using hlen), leWords_sum_word hpre]
  rintro ⟨-, hdvd⟩
  rw [ne_eq, ← UInt16.toNat_inj] at hne
  simp only [← UInt16.toNat_inj, UInt16.toNat_zero, UInt16.reduceToNat] at hzeros
  obtain ⟨-, hdvd'⟩ := hok
  omega

/-- A byte counts once at an even offset and 256 times at an odd one. -/
theorem leWords_sum_byte (pre : List UInt8) (b : UInt8) (post : List UInt8) :
    (leWords (pre ++ b :: post)).sum =
      (leWords (pre ++ 0 :: post)).sum + (if pre.length % 2 = 0 then 1 else 256) * b.toNat := by
  fun_induction leWords pre with
  | case1 lo hi l ih =>
    have hparity : (lo :: hi :: l).length % 2 = l.length % 2 := by
      rw [List.length_cons, List.length_cons]
      omega
    simp only [List.cons_append, leWords, List.sum_cons, hparity, ih]
    omega
  | case2 x =>
    have hodd : ¬[x].length % 2 = 0 := by rw [List.length_singleton]; decide
    simp only [List.singleton_append, leWords, List.sum_cons, if_neg hodd, UInt8.toNat_zero]
    omega
  | case3 =>
    cases post with
    | nil => simp [leWords]
    | cons y post =>
      have heven : ([] : List UInt8).length % 2 = 0 := rfl
      simp only [List.nil_append, leWords, List.sum_cons, if_pos heven, UInt8.toNat_zero]
      omega

/-- Changing one byte of a buffer that verifies makes it fail. -/
theorem inCksum_byte {pre post : List UInt8} {b c : UInt8}
    (hlen : (pre ++ b :: post).length ≤ cksumMaxlen) (hok : inCksum (pre ++ b :: post) = 0)
    (hne : b ≠ c) : inCksum (pre ++ c :: post) ≠ 0 := by
  have hb := b.toNat_lt
  have hc := c.toNat_lt
  rw [inCksum_eq_zero hlen, leWords_sum_byte] at hok
  rw [ne_eq, inCksum_eq_zero (by simpa using hlen), leWords_sum_byte]
  rintro ⟨-, hdvd⟩
  rw [ne_eq, ← UInt8.toNat_inj] at hne
  obtain ⟨-, hdvd'⟩ := hok
  rcases Nat.mod_two_eq_zero_or_one pre.length with h | h
  · rw [if_pos h] at hdvd hdvd'
    omega
  · rw [if_neg (by omega)] at hdvd hdvd'
    omega

end Tour
