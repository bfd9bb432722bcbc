import Plc4go.Net.IP

namespace Plc4go.Net

/-- `net.IPMask`. -/
abbrev IPMask := List UInt8

def v4InV6Prefix : IP := [0,0,0,0,0,0,0,0,0,0,0xff,0xff]

def IPv6loopback : IP := [0,0,0,0,0,0,0,0,0,0,0,0,0,0,0,1]

/-- `IP.To4`: the 4-byte form of an IPv4 address, nil for any other slice. -/
def IP.To4 (ip : IP) : IP :=
  if ip.length = 4 then ip
  else if ip.length = 16 ∧ ip.take 12 = v4InV6Prefix then ip.drop 12
  else []

def allFF (b : List UInt8) : Bool := b.all (· == 0xff)

/-- `IP.Mask`: the address with `mask` applied, nil when their lengths do not fit. -/
def IP.Mask (ip : IP) (mask : IPMask) : IP :=
  let mask := if mask.length = 16 ∧ ip.length = 4 ∧ allFF (mask.take 12) then mask.drop 12 else mask
  let ip := if mask.length = 4 ∧ ip.length = 16 ∧ ip.take 12 = v4InV6Prefix then ip.drop 12 else ip
  if ip.length ≠ mask.length then [] else List.zipWith (· &&& ·) ip mask

/-- `IP.Equal`: equal addresses, an IPv4 address also equal to its IPv4-mapped form. -/
def IP.Equal (ip x : IP) : Bool :=
  if ip.length = x.length then ip == x
  else if ip.length = 4 ∧ x.length = 16 then x.take 12 == v4InV6Prefix && ip == x.drop 12
  else if ip.length = 16 ∧ x.length = 4 then ip.take 12 == v4InV6Prefix && ip.drop 12 == x
  else false

def IP.IsLoopback (ip : IP) : Bool :=
  if IP.To4 ip ≠ [] then (IP.To4 ip).getD 0 0 == 127 else IP.Equal ip IPv6loopback

def classAMask : IPMask := [0xff,0,0,0]
def classBMask : IPMask := [0xff,0xff,0,0]
def classCMask : IPMask := [0xff,0xff,0xff,0]

/-- `IP.DefaultMask`: the classful mask of an IPv4 address, nil for IPv6. -/
def IP.DefaultMask (ip : IP) : IPMask :=
  if IP.To4 ip = [] then []
  else if (IP.To4 ip).getD 0 0 < 0x80 then classAMask
  else if (IP.To4 ip).getD 0 0 < 0xC0 then classBMask
  else classCMask

/-- The bytes of `CIDRMask`'s loop over `l` bytes with `n` one bits still to place. -/
def cidrBytes : Nat → Nat → List UInt8
  | 0,_ => []
  | l+1,n => if 8 ≤ n then 0xff :: cidrBytes l (n-8)
    else ~~~((0xff : UInt8) >>> UInt8.ofNat n) :: cidrBytes l 0

/-- `CIDRMask(ones, bits)`; a negative `ones` is not representable here. -/
def CIDRMask (ones bits : Nat) : IPMask :=
  if bits ≠ 32 ∧ bits ≠ 128 then [] else if bits < ones then [] else cidrBytes (bits/8) ones

/-- `net.IPNet`. -/
structure IPNet where
  IP : IP
  Mask : IPMask
  deriving DecidableEq, Repr

/-- `networkNumberAndMask`: the network and its mask at one common length. -/
def networkNumberAndMask (n : IPNet) : Option (IP × IPMask) := do
  let ip ← if IP.To4 n.IP = [] then (if n.IP.length = 16 then some n.IP else none)
    else some (IP.To4 n.IP)
  if n.Mask.length = 4 then (if ip.length = 4 then some (ip, n.Mask) else none)
  else if n.Mask.length = 16 then some (ip, if ip.length = 4 then n.Mask.drop 12 else n.Mask)
  else none

/-- The byte loop of `IPNet.Contains`: `nn[i]&m[i] == ip[i]&m[i]` for every `i`. -/
def maskedEqual : List UInt8 → List UInt8 → List UInt8 → Bool
  | n::nn,m::ms,x::xs => (n &&& m == x &&& m) && maskedEqual nn ms xs
  | _,_,_ => true

def IPNet.Contains (n : IPNet) (ip : Net.IP) : Bool :=
  let nm := (networkNumberAndMask n).getD ([],[])
  let ip := if IP.To4 ip ≠ [] then IP.To4 ip else ip
  ip.length == nm.1.length && maskedEqual nm.1 nm.2 ip

/-- A 4-byte address, or the 16-byte IPv4-mapped form interfaces report. -/
def IsIPv4 (a : IP) : Prop := a.length = 4 ∨ (a.length = 16 ∧ a.take 12 = v4InV6Prefix)

instance (a : IP) : Decidable (IsIPv4 a) := inferInstanceAs (Decidable (_ ∨ _))

theorem To4_of_IsIPv4 {a : IP} (h : IsIPv4 a) : (IP.To4 a).length = 4 := by
  rcases h with h | ⟨h, hp⟩
  · simp [IP.To4, h]
  · simp [IP.To4, h, hp]

theorem IsIPv4_of_To4 {a : IP} (h : IP.To4 a ≠ []) : IsIPv4 a := by
  unfold IP.To4 at h
  split_ifs at h with h1 h2
  · exact .inl h1
  · exact .inr h2
  · exact absurd rfl h

theorem To4_of_length {x : IP} (h : x.length = 4) : IP.To4 x = x := by simp [IP.To4, h]

theorem and_mul_add {i a b c d : Nat} (hb : b < 2^i) (hd : d < 2^i) :
    (2^i*a+b) &&& (2^i*c+d) = 2^i*(a &&& c)+(b &&& d) := by
  apply Nat.eq_of_testBit_eq; intro j
  rw [Nat.testBit_and, Nat.testBit_mul_pow_two_add _ hb, Nat.testBit_mul_pow_two_add _ hd,
    Nat.testBit_mul_pow_two_add _ (Nat.and_lt_two_pow _ hd), Nat.testBit_and, Nat.testBit_and]
  split <;> rfl

theorem ipValue_zipWith_and {xs ys : List UInt8} (hl : xs.length = ys.length) :
    ipValue (List.zipWith (· &&& ·) xs ys) = ipValue xs &&& ipValue ys := by
  induction xs generalizing ys with
  | nil => simp [ipValue]
  | cons x xs ih =>
    cases ys with
    | nil => simp at hl
    | cons y ys =>
      simp only [List.length_cons, Nat.add_right_cancel_iff] at hl
      have e : 256^ys.length = 2^(8*ys.length) := by rw [Nat.pow_mul]
      have hx := ipValue_lt xs
      have hy := ipValue_lt ys
      rw [hl, e] at hx; rw [e] at hy
      simp only [List.zipWith_cons_cons, ipValue, List.length_zipWith, hl, min_self, ih hl,
        UInt8.and_toNat, e, Nat.mul_comm _ (2^(8*ys.length))]
      exact (and_mul_add hx hy).symm

@[simp] theorem cidrBytes_length (l n : Nat) : (cidrBytes l n).length = l := by
  induction l generalizing n with
  | zero => rfl
  | succ l ih => simp only [cidrBytes]; split <;> simp [ih]

/-- The byte `CIDRMask` writes when fewer than 8 one bits are left. -/
theorem partial_byte {n : Nat} (h : n < 8) : (~~~((0xff : UInt8) >>> UInt8.ofNat n)).toNat = 256-2^(8-n) := by
  have : ∀ n, n < 8 → (~~~((0xff : UInt8) >>> UInt8.ofNat n)).toNat = 256-2^(8-n) := by decide
  exact this n h

/-- The value of `CIDRMask`'s bytes: `n` one bits followed by zeros. -/
theorem ipValue_cidrBytes (l n : Nat) (h : n ≤ 8*l) :
    ipValue (cidrBytes l n) = 2^(8*l)-2^(8*l-n) := by
  induction l generalizing n with
  | zero => simp [cidrBytes, ipValue]
  | succ l ih =>
    have e : 256^l = 2^(8*l) := by rw [Nat.pow_mul]
    have hm : 2^(8*(l+1)) = 256*2^(8*l) := by rw [Nat.mul_succ, Nat.pow_add]; ring
    rw [cidrBytes]
    split
    · rename_i h8
      have hq : 2^(8*l-(n-8)) ≤ 2^(8*l) := Nat.pow_le_pow_right (by decide) (Nat.sub_le _ _)
      rw [ipValue, cidrBytes_length, ih _ (by omega), e, hm, show 8*(l+1)-n = 8*l-(n-8) by omega]
      change 255*2^(8*l)+(2^(8*l)-2^(8*l-(n-8))) = _
      omega
    · rename_i h8
      have hz := ih 0 (Nat.zero_le _)
      rw [Nat.sub_zero, Nat.sub_self] at hz
      rw [ipValue, cidrBytes_length, hz, partial_byte (by omega), e, hm,
        show 8*(l+1)-n = (8-n)+8*l by omega, Nat.pow_add]
      have : 2^(8-n) ≤ 256 := by
        calc 2^(8-n) ≤ 2^8 := Nat.pow_le_pow_right (by decide) (Nat.sub_le _ _)
          _ = 256 := rfl
      rw [Nat.add_zero, Nat.sub_mul]

/-- Masking with `n-h` one bits clears the `h` low bits. -/
theorem and_prefix_mask {n h x : Nat} (hx : x < 2^n) (hh : h ≤ n) :
    x &&& (2^n-2^h) = x/2^h*2^h := by
  have e : 2^n-2^h = 2^h*(2^(n-h)-1) := by
    rw [Nat.mul_sub, ← Nat.pow_add, Nat.add_sub_cancel' hh, Nat.mul_one]
  apply Nat.eq_of_testBit_eq; intro i
  rw [e, Nat.mul_comm _ (2^h), ← Nat.shiftRight_eq_div_pow, Nat.testBit_and,
    Nat.testBit_mul_pow_two, Nat.testBit_mul_pow_two, Nat.testBit_two_pow_sub_one,
    Nat.testBit_shiftRight]
  by_cases hi : h ≤ i
  · rw [Nat.add_sub_cancel' hi]
    by_cases hn : i < n
    · simp [hi, show i-h < n-h by omega]
    · have : x.testBit i = false :=
        Nat.testBit_lt_two_pow (Nat.lt_of_lt_of_le hx (Nat.pow_le_pow_right (by decide) (by omega)))
      simp [this]
  · simp [hi]

theorem CIDRMask_v4 {p : Nat} (hp : p ≤ 32) : CIDRMask p 32 = cidrBytes 4 p := by
  simp [CIDRMask, show ¬ 32 < p by omega]

theorem ipValue_CIDRMask {p : Nat} (hp : p ≤ 32) : ipValue (CIDRMask p 32) = 2^32-2^(32-p) := by
  rw [CIDRMask_v4 hp, ipValue_cidrBytes 4 p (by omega)]

theorem networkNumberAndMask_v4 {a : IP} {p : Nat} (ha : IsIPv4 a) (hp : p ≤ 32) :
    networkNumberAndMask ⟨a, CIDRMask p 32⟩=some (IP.To4 a, CIDRMask p 32) := by
  have h4 := To4_of_IsIPv4 ha
  have hne : IP.To4 a ≠ [] := fun h => by simp [h] at h4
  simp [networkNumberAndMask, hne, h4, CIDRMask_v4 hp]

theorem maskedEqual_iff {nn m x : List UInt8} (h1 : nn.length = m.length) (h2 : x.length = m.length) :
    maskedEqual nn m x = true ↔ List.zipWith (· &&& ·) nn m = List.zipWith (· &&& ·) x m := by
  induction m generalizing nn x with
  | nil => simp_all [maskedEqual]
  | cons b m ih =>
    cases nn with
    | nil => simp at h1
    | cons n nn =>
      cases x with
      | nil => simp at h2
      | cons y x =>
        simp only [List.length_cons, Nat.add_right_cancel_iff] at h1 h2
        simp [maskedEqual, ih h1 h2]

/-- The masked value of an IPv4 address: its network number. -/
theorem ipValue_mask_v4 {x : IP} {p : Nat} (hx : x.length = 4) (hp : p ≤ 32) :
    ipValue (List.zipWith (· &&& ·) x (CIDRMask p 32)) = ipValue x/2^(32-p)*2^(32-p) := by
  rw [ipValue_zipWith_and (by simp [CIDRMask_v4 hp, hx]), ipValue_CIDRMask hp]
  exact and_prefix_mask (by simpa [hx] using ipValue_lt x) (Nat.sub_le _ _)

/-- An IPv4 subnet of prefix `p` contains exactly the 4-byte addresses that agree with its
address above the `32-p` host bits. -/
theorem Contains_v4 {a x : IP} {p : Nat} (ha : IsIPv4 a) (hp : p ≤ 32) (hx : x.length = 4) :
    (IPNet.mk a (CIDRMask p 32)).Contains x = decide (ipValue x/2^(32-p) = ipValue (IP.To4 a)/2^(32-p)) := by
  have h4 := To4_of_IsIPv4 ha
  have hm : (CIDRMask p 32).length = 4 := by simp [CIDRMask_v4 hp]
  have hpos : 0 < 2^(32-p) := Nat.pow_pos (by decide)
  simp only [IPNet.Contains, networkNumberAndMask_v4 ha hp, Option.getD_some, ite_self,
    To4_of_length hx, hx, h4, beq_self_eq_true, Bool.true_and]
  rw [Bool.eq_iff_iff, maskedEqual_iff (h4.trans hm.symm) (hx.trans hm.symm), decide_eq_true_iff]
  constructor
  · intro h
    have := congrArg ipValue h
    rw [ipValue_mask_v4 h4 hp, ipValue_mask_v4 hx hp] at this
    exact (Nat.eq_of_mul_eq_mul_right hpos this).symm
  · intro h
    apply ipValue_injective (by simp [h4, hx])
    rw [ipValue_mask_v4 h4 hp, ipValue_mask_v4 hx hp, h]

/-- Masking an IPv4 address with a prefix mask gives its network address. -/
theorem Mask_v4 {a : IP} {p : Nat} (ha : IsIPv4 a) (hp : p ≤ 32) :
    IP.Mask a (CIDRMask p 32) = ipBytes 4 (ipValue (IP.To4 a)/2^(32-p)*2^(32-p)) := by
  have hm : (CIDRMask p 32).length = 4 := by simp [CIDRMask_v4 hp]
  have hz : IP.Mask a (CIDRMask p 32) = List.zipWith (· &&& ·) (IP.To4 a) (CIDRMask p 32) := by
    rcases ha with h | ⟨h, hpre⟩
    · simp [IP.Mask, hm, h, To4_of_length h]
    · simp [IP.Mask, hm, h, hpre, IP.To4]
  rw [hz, ← ipValue_mask_v4 (To4_of_IsIPv4 ha) hp]
  simpa [hm, To4_of_IsIPv4 ha] using (ipBytes_ipValue (List.zipWith (· &&& ·) (IP.To4 a) (CIDRMask p 32))).symm

/-- The classful masks are the prefix masks `/8`, `/16` and `/24`. -/
theorem DefaultMask_v4 {ip : IP} (h : IsIPv4 ip) :
    ∃ p, 1 ≤ p ∧ p ≤ 32 ∧ IP.DefaultMask ip = CIDRMask p 32 := by
  have hne : IP.To4 ip ≠ [] := fun e => by simpa [e] using To4_of_IsIPv4 h
  unfold IP.DefaultMask
  rw [if_neg hne]
  split_ifs
  · exact ⟨8, by decide, by decide, by decide⟩
  · exact ⟨16, by decide, by decide, by decide⟩
  · exact ⟨24, by decide, by decide, by decide⟩

end Plc4go.Net
