import Mathlib.Data.List.Basic
import Mathlib.Tactic.Ring

namespace Plc4go.Net

/-- `net.IP`: the bytes of an address, big-endian; a nil slice is `[]`. -/
abbrev IP := List UInt8

/-- Big-endian value of a byte slice. -/
def ipValue : List UInt8 → Nat
  | [] => 0
  | b::bs => b.toNat*256^bs.length+ipValue bs

/-- The `n`-byte big-endian slice of `v mod 256^n`. -/
def ipBytes : Nat → Nat → IP
  | 0,_ => []
  | n+1,v => UInt8.ofNat (v/256^n) :: ipBytes n v

/-- One pass of `IncrementIP`'s loop at index `j-1`: `ip[j]++`, and stop unless it wrapped. -/
def incrementFrom (ip : IP) : Nat → IP
  | 0 => ip
  | j+1 =>
    let ip := ip.set j (ip.getD j 0+1)
    if 0 < ip.getD j 0 then ip else incrementFrom ip j

def IncrementIP (ip : IP) : IP := incrementFrom ip ip.length

/-- `make` and `copy`: a fresh slice holding the same bytes. -/
def DuplicateIP (ip : IP) : IP := ip

theorem ipValue_lt (l : List UInt8) : ipValue l < 256^l.length := by
  induction l with
  | nil => simp [ipValue]
  | cons b bs ih =>
    have hb : b.toNat < 256 := b.toNat_lt_size
    calc ipValue (b::bs) = b.toNat*256^bs.length+ipValue bs := rfl
      _ < b.toNat*256^bs.length+256^bs.length := Nat.add_lt_add_left ih _
      _ = (b.toNat+1)*256^bs.length := (Nat.succ_mul _ _).symm
      _ ≤ 256*256^bs.length := Nat.mul_le_mul_right _ hb
      _ = 256^(b::bs).length := Nat.pow_succ'.symm

theorem ipValue_append (xs ys : List UInt8) :
    ipValue (xs++ys) = ipValue xs*256^ys.length+ipValue ys := by
  induction xs with
  | nil => simp [ipValue]
  | cons b bs ih =>
    rw [List.cons_append, ipValue, ipValue, ih, List.length_append, Nat.pow_add]; ring

@[simp] theorem ipValue_replicate_zero (m : Nat) : ipValue (List.replicate m 0) = 0 := by
  induction m with
  | zero => rfl
  | succ m ih => simp [List.replicate_succ, ipValue, ih]

theorem ipValue_replicate_ff (m : Nat) : ipValue (List.replicate m 255)+1 = 256^m := by
  induction m with
  | zero => rfl
  | succ m ih =>
    rw [List.replicate_succ, ipValue, List.length_replicate, Nat.pow_succ']
    change 255*256^m+ipValue (List.replicate m 255)+1 = _
    omega

@[simp] theorem ipBytes_length (n v : Nat) : (ipBytes n v).length = n := by
  induction n <;> simp [ipBytes, *]

theorem ipValue_ipBytes (n v : Nat) : ipValue (ipBytes n v) = v%256^n := by
  induction n with
  | zero => simp [ipBytes, ipValue, Nat.mod_one]
  | succ n ih =>
    rw [ipBytes, ipValue, ipBytes_length, ih]
    change (v/256^n)%256*_+_ = _
    rw [Nat.mod_pow_succ]
    ring

theorem ipValue_injective {xs ys : List UInt8} (hl : xs.length = ys.length)
    (hv : ipValue xs = ipValue ys) : xs = ys := by
  induction xs generalizing ys with
  | nil => exact (List.length_eq_zero.mp hl.symm).symm
  | cons x xs ih =>
    cases ys with
    | nil => simp at hl
    | cons y ys =>
      simp only [List.length_cons, Nat.add_right_cancel_iff] at hl
      simp only [ipValue, hl] at hv
      have hP : 0 < 256^ys.length := Nat.pow_pos (by decide)
      have key : ∀ {u a : Nat}, a < 256^ys.length → (u*256^ys.length+a)/256^ys.length = u :=
        fun h => by rw [Nat.add_comm, Nat.add_mul_div_right _ _ hP, Nat.div_eq_of_lt h, Nat.zero_add]
      have hq : x.toNat = y.toNat := by
        have h := key (u := x.toNat) (hl ▸ ipValue_lt xs)
        rwa [hv, key (ipValue_lt ys), eq_comm] at h
      rw [UInt8.toNat.inj hq, ih hl (by rw [hq] at hv; omega)]

theorem ipBytes_ipValue (l : List UInt8) : ipBytes l.length (ipValue l) = l :=
  ipValue_injective (by simp) (by rw [ipValue_ipBytes, Nat.mod_eq_of_lt (ipValue_lt l)])

private theorem getD_append_cons {α : Type} (xs zs : List α) (b d : α) :
    (xs++b::zs).getD xs.length d = b := by
  induction xs <;> simp_all

private theorem set_append_cons {α : Type} (xs zs : List α) (b c : α) :
    (xs++b::zs).set xs.length c = xs++c::zs := by
  induction xs <;> simp_all

theorem incrementFrom_length (ip : IP) (j : Nat) : (incrementFrom ip j).length = ip.length := by
  induction j generalizing ip with
  | zero => rfl
  | succ j ih => simp only [incrementFrom]; split <;> simp [ih]

/-- A run of `0xff` bytes wraps to zeros and passes the carry on. -/
theorem incrementFrom_ff (xs zs : IP) (m : Nat) :
    incrementFrom (xs++List.replicate m 255++zs) (xs.length+m)=
      incrementFrom (xs++List.replicate m 0++zs) xs.length := by
  induction m generalizing zs with
  | zero => simp
  | succ m ih =>
    have e : ∀ c : UInt8, xs++List.replicate (m+1) c++zs = (xs++List.replicate m c)++c::zs := by
      intro c; simp [List.replicate_succ']
    have hl : (xs++List.replicate m (255 : UInt8)).length = xs.length+m := by simp
    rw [e, e, ← Nat.add_assoc, incrementFrom, ← hl]
    simp only [getD_append_cons, set_append_cons, show (255 : UInt8)+1 = 0 from rfl,
      UInt8.lt_irrefl, if_false]
    rw [hl]; exact ih (0::zs)

/-- The carry stops at a byte that does not wrap. -/
theorem incrementFrom_stop (xs zs : IP) {b : UInt8} (hb : b ≠ 255) :
    incrementFrom (xs++b::zs) (xs.length+1) = xs++(b+1)::zs := by
  have h0 : 0 < b+1 := by
    have hb' : b.toNat ≠ 255 := fun e => hb (UInt8.toNat.inj e)
    have : b.toNat < 256 := b.toNat_lt_size
    show 0 < (b.toBitVec+1).toNat
    rw [BitVec.toNat_add]; change 0 < (b.toNat+1)%256; omega
  rw [incrementFrom]
  simp only [getD_append_cons, set_append_cons, if_pos h0]

theorem IncrementIP_ff (n : Nat) : IncrementIP (List.replicate n 255) = List.replicate n 0 := by
  have h := incrementFrom_ff [] [] n
  simp only [List.nil_append, List.append_nil, List.length_nil, Nat.zero_add] at h
  rw [IncrementIP, List.length_replicate, h]; rfl

theorem IncrementIP_suffix (pre : IP) {b : UInt8} (m : Nat) (hb : b ≠ 255) :
    IncrementIP (pre++b::List.replicate m 255) = pre++(b+1)::List.replicate m 0 := by
  have h := incrementFrom_ff (pre++[b]) [] m
  simp only [List.append_nil, List.length_append, List.length_singleton,
    List.append_assoc, List.singleton_append] at h
  rw [IncrementIP, show (pre++b::List.replicate m 255).length = pre.length+1+m by simp; omega, h,
    incrementFrom_stop _ _ hb]

/-- Every slice is all `0xff`, or ends in a byte below `0xff` followed by `0xff`s. -/
theorem ff_or_suffix (ip : IP) :
    ip = List.replicate ip.length 255 ∨ ∃ pre b m, b ≠ 255 ∧ ip = pre++b::List.replicate m 255 := by
  induction ip with
  | nil => exact .inl rfl
  | cons a t ih =>
    rcases ih with h | ⟨pre, b, m, hb, rfl⟩
    · by_cases ha : a = 255
      · exact .inl (by rw [ha, h]; simp [List.replicate_succ])
      · exact .inr ⟨[], a, t.length, ha, by rw [← h]; rfl⟩
    · exact .inr ⟨a::pre, b, m, hb, rfl⟩

theorem IncrementIP_value (ip : IP) : ipValue (IncrementIP ip) = (ipValue ip+1)%256^ip.length := by
  rcases ff_or_suffix ip with h | ⟨pre, b, m, hb, rfl⟩
  · rw [h, IncrementIP_ff, ipValue_replicate_zero, List.length_replicate, ipValue_replicate_ff,
      Nat.mod_self]
  · have hb1 : (b+1).toNat = b.toNat+1 := by
      have hb' : b.toNat ≠ 255 := fun e => hb (UInt8.toNat.inj e)
      have : b.toNat < 256 := b.toNat_lt_size
      show (b.toBitVec+1).toNat = _
      rw [BitVec.toNat_add]; change (b.toNat+1)%256 = _; omega
    have e : ipValue (pre++(b+1)::List.replicate m 0) = ipValue (pre++b::List.replicate m 255)+1 := by
      simp only [ipValue_append, ipValue, ipValue_replicate_zero, List.length_cons,
        List.length_replicate, hb1]
      rw [← ipValue_replicate_ff m]; ring
    rw [IncrementIP_suffix pre m hb, ← e, Nat.mod_eq_of_lt]
    simpa using ipValue_lt (pre++(b+1)::List.replicate m 0)

theorem IncrementIP_length (ip : IP) : (IncrementIP ip).length = ip.length :=
  incrementFrom_length ip _

/-- `IncrementIP` adds one modulo `256^n` to a slice of any length `n`, keeping the length; its
loop stops at the last byte that does not wrap, so only that byte and the `0xff`s after it
change, and a slice of `0xff`s wraps to zeros. -/
theorem IncrementIP_spec (ip : IP) :
    (IncrementIP ip).length = ip.length ∧
    ipValue (IncrementIP ip) = (ipValue ip+1)%256^ip.length ∧
    (∀ pre b m, b ≠ 255 → ip = pre++b::List.replicate m 255 →
      IncrementIP ip = pre++(b+1)::List.replicate m 0) ∧
    (ip = List.replicate ip.length 255 → IncrementIP ip = List.replicate ip.length 0) :=
  ⟨IncrementIP_length ip, IncrementIP_value ip,
    fun pre _ m hb h => h ▸ IncrementIP_suffix pre m hb,
    fun h => by rw [h, IncrementIP_ff, List.length_replicate]⟩

theorem IncrementIP_ipBytes (n v : Nat) : IncrementIP (ipBytes n v) = ipBytes n (v+1) :=
  ipValue_injective (by simp [IncrementIP_length])
    (by rw [IncrementIP_value, ipValue_ipBytes, ipValue_ipBytes, ipBytes_length, Nat.mod_add_mod])

end Plc4go.Net
