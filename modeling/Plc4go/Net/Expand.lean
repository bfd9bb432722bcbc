import Plc4go.Net.IPNet

namespace Plc4go.Net

/-- The condition of the candidate loop of `lookupIps` and `writeArp`. -/
def candidateCond (ipnet : IPNet) (ip : IP) : Bool :=
  ipnet.Contains ip && ipnet.Contains (IncrementIP (DuplicateIP ip))

/-- The candidate loop of `lookupIps` and `writeArp`, for at most `fuel` checks of its
condition: the addresses its body sees, and whether the condition failed. -/
def candidateLoop (ipnet : IPNet) : Nat → IP → List IP × Bool
  | 0,_ => ([],false)
  | fuel+1,ip =>
    if candidateCond ipnet ip then
      let r := candidateLoop ipnet fuel (IncrementIP ip)
      (ip::r.1,r.2)
    else ([],true)

/-- A candidate that passes the condition is visited, and the loop goes on from the next. -/
theorem candidateLoop_cons {ipnet : IPNet} {F : Nat} {ip : IP} {l : List IP}
    (hc : candidateCond ipnet ip = true) (h : candidateLoop ipnet F ip = (l,true)) :
    ∃ F' l', l = ip::l' ∧ candidateLoop ipnet F' (IncrementIP ip) = (l',true) := by
  cases F with
  | zero => cases h
  | succ F =>
    rw [candidateLoop, if_pos hc, Prod.mk.injEq] at h
    exact ⟨F, _, h.1.symm, Prod.ext rfl h.2⟩

/-- A candidate that fails the condition ends the loop. -/
theorem candidateLoop_stop {ipnet : IPNet} {F : Nat} {ip : IP} {l : List IP}
    (hc : candidateCond ipnet ip = false) (h : candidateLoop ipnet F ip = (l,true)) : l = [] := by
  cases F with
  | zero => cases h
  | succ F => rw [candidateLoop, hc] at h; cases h; rfl

/-- The loop's first candidate, `IncrementIP(ipnet.IP.Mask(ipnet.Mask))`. -/
def firstCandidate (ipnet : IPNet) : IP := IncrementIP (IP.Mask ipnet.IP ipnet.Mask)

/-- The value of the network address of `a/p`. -/
def network (a : IP) (p : Nat) : Nat := ipValue (IP.To4 a)/2^(32-p)*2^(32-p)

/-- The value of the broadcast address of `a/p`. -/
def broadcast (a : IP) (p : Nat) : Nat := network a p+2^(32-p)-1

/-- The leading one bits of a byte. -/
def byteOnes (b : UInt8) : Nat :=
  ((List.range 8).takeWhile fun k => (b >>> UInt8.ofNat (7-k)) &&& 1 == 1).length

/-- The leading one bits of a mask: the `ones` of `IPMask.Size` for a canonical mask. -/
def maskOnes : List UInt8 → Nat
  | [] => 0
  | b::bs => if b = 0xff then 8+maskOnes bs else byteOnes b

/-- The 4-byte addresses `lo, lo+1, ..., hi-1`. -/
def hostRange (lo hi : Nat) : List IP := (List.range (hi-lo)).map fun k => ipBytes 4 (lo+k)

theorem hostRange_of_le {lo hi : Nat} (h : hi ≤ lo) : hostRange lo hi = [] := by
  simp [hostRange, Nat.sub_eq_zero_of_le h]

theorem hostRange_of_lt {lo hi : Nat} (h : lo < hi) :
    hostRange lo hi = ipBytes 4 lo::hostRange (lo+1) hi := by
  rw [hostRange, show hi-lo = (hi-(lo+1))+1 by omega, List.range_succ_eq_map]
  simp [hostRange, Nat.add_assoc, Nat.add_comm 1]

/-- The values of a range below `2^32` are the range itself, in ascending order. -/
theorem hostRange_values {lo hi : Nat} (h : hi ≤ 2^32) :
    (hostRange lo hi).map ipValue = List.range' lo (hi-lo) := by
  rw [hostRange, List.map_map, List.range'_eq_map_range]
  refine List.map_congr_left fun k hk => ?_
  have := List.mem_range.mp hk
  simp only [Function.comp, ipValue_ipBytes]
  exact Nat.mod_eq_of_lt (by simp; omega)

/-- The hosts `network+1, ..., broadcast-1` of an IPv4 subnet. -/
def subnetHosts (n : IPNet) : List IP :=
  hostRange (network n.IP (maskOnes n.Mask)+1) (broadcast n.IP (maskOnes n.Mask))

theorem maskOnes_cidrBytes (l n : Nat) (h : n ≤ 8*l) : maskOnes (cidrBytes l n) = n := by
  induction l generalizing n with
  | zero => simp [cidrBytes, maskOnes]; omega
  | succ l ih =>
    have hb : ∀ n, n < 8 → ~~~((0xff : UInt8) >>> UInt8.ofNat n) ≠ 0xff ∧
        byteOnes (~~~((0xff : UInt8) >>> UInt8.ofNat n)) = n := by decide
    rw [cidrBytes]
    split
    · rw [maskOnes, if_pos rfl, ih _ (by omega)]; omega
    · rename_i h8
      rw [maskOnes, if_neg (hb n (by omega)).1, (hb n (by omega)).2]

theorem maskOnes_CIDRMask {p : Nat} (hp : p ≤ 32) : maskOnes (CIDRMask p 32) = p := by
  rw [CIDRMask_v4 hp, maskOnes_cidrBytes 4 p (by omega)]

private theorem div_eq_iff' {u c P : Nat} (hP : 0 < P) : u/P = c ↔ c*P ≤ u ∧ u < c*P+P := by
  rw [show u/P = c ↔ c ≤ u/P ∧ u/P < c+1 by omega, Nat.le_div_iff_mul_le hP,
    Nat.div_lt_iff_lt_mul hP, Nat.succ_mul]

section Subnet

variable {a : IP} {p : Nat}

theorem Contains_ipBytes (ha : IsIPv4 a) (hp : p ≤ 32) (v : Nat) :
    (IPNet.mk a (CIDRMask p 32)).Contains (ipBytes 4 v)=
      decide (network a p ≤ v%2^32 ∧ v%2^32 < network a p+2^(32-p)) := by
  rw [Contains_v4 ha hp (ipBytes_length 4 v), ipValue_ipBytes, network, decide_eq_decide]
  exact div_eq_iff' (Nat.pow_pos (by decide))

/-- The subnet ends at or below `2^32`. -/
theorem network_add_le (ha : IsIPv4 a) (hp : p ≤ 32) : network a p+2^(32-p) ≤ 2^32 := by
  have hP : 0 < 2^(32-p) := Nat.pow_pos (by decide)
  have e : 2^p*2^(32-p) = 2^32 := by rw [← Nat.pow_add, Nat.add_sub_cancel' hp]
  have hc : ipValue (IP.To4 a)/2^(32-p) < 2^p := by
    rw [Nat.div_lt_iff_lt_mul hP, e]
    simpa [To4_of_IsIPv4 ha] using ipValue_lt (IP.To4 a)
  rw [network, ← e, ← Nat.succ_mul]
  exact Nat.mul_le_mul_right _ hc

/-- With at least one network bit, a subnet that ends at `2^32` does not start at zero. -/
theorem network_pos_of_top (hp1 : 1 ≤ p) (hp : p ≤ 32) (h : network a p+2^(32-p) = 2^32) :
    0 < network a p := by
  have hP : 0 < 2^(32-p) := Nat.pow_pos (by decide)
  rw [network, ← Nat.succ_mul,
    show 2^32 = 2^p*2^(32-p) by rw [← Nat.pow_add, Nat.add_sub_cancel' hp]] at h
  have h2 := Nat.eq_of_mul_eq_mul_right hP h
  have : 2 ≤ 2^p := by
    calc 2 = 2^1 := rfl
      _ ≤ 2^p := Nat.pow_le_pow_right (by decide) hp1
  rw [network]; exact Nat.mul_pos (by omega) hP

theorem firstCandidate_v4 (ha : IsIPv4 a) (hp : p ≤ 32) :
    firstCandidate ⟨a, CIDRMask p 32⟩=ipBytes 4 (network a p+1) := by
  rw [firstCandidate, Mask_v4 ha hp, IncrementIP_ipBytes, network]

/-- One check of the loop condition at `v`, for `network < v ≤ broadcast+1`. -/
theorem candidateLoop_step (ha : IsIPv4 a) (hp1 : 1 ≤ p) (hp : p ≤ 32) {v fuel : Nat}
    (hv1 : network a p < v) (hv2 : v ≤ broadcast a p+1) :
    candidateLoop ⟨a, CIDRMask p 32⟩ (fuel+1) (ipBytes 4 v)=
      if v < broadcast a p then
        let r := candidateLoop ⟨a, CIDRMask p 32⟩ fuel (ipBytes 4 (v+1))
        (ipBytes 4 v::r.1,r.2)
      else ([],true) := by
  have hN := network_add_le ha hp
  have htop := network_pos_of_top (a := a) hp1 hp
  have hP : 0 < 2^(32-p) := Nat.pow_pos (by decide)
  simp only [broadcast] at hv2 ⊢
  rw [candidateLoop, candidateCond, DuplicateIP, IncrementIP_ipBytes, Contains_ipBytes ha hp,
    Contains_ipBytes ha hp]
  congr 1
  simp only [Nat.reducePow, Bool.and_eq_true, decide_eq_true_eq, eq_iff_iff] at hN htop ⊢
  omega

/-- From any candidate after the network address, the loop visits the rest of the hosts and
exits, given one more check than there are hosts left. -/
theorem candidateLoop_from (ha : IsIPv4 a) (hp1 : 1 ≤ p) (hp : p ≤ 32) {v fuel : Nat}
    (hv1 : network a p < v) (hv2 : v ≤ broadcast a p+1) (hf : broadcast a p-v < fuel) :
    candidateLoop ⟨a, CIDRMask p 32⟩ fuel (ipBytes 4 v) = (hostRange v (broadcast a p),true) := by
  induction fuel generalizing v with
  | zero => omega
  | succ fuel ih =>
    rw [candidateLoop_step ha hp1 hp hv1 hv2]
    split
    · rename_i hv
      rw [ih (by omega) (by omega) (by omega), hostRange_of_lt hv]
    · rw [hostRange_of_le (by omega)]

/-- From the first candidate the loop visits the hosts of `a/p` and exits. -/
theorem candidateLoop_first (ha : IsIPv4 a) (hp1 : 1 ≤ p) (hp : p ≤ 32) {fuel : Nat} (hf : 2^(32-p) ≤ fuel) :
    candidateLoop ⟨a, CIDRMask p 32⟩ fuel (firstCandidate ⟨a, CIDRMask p 32⟩)=
      (hostRange (network a p+1) (broadcast a p),true) := by
  have hN := network_add_le ha hp
  have hP : 0 < 2^(32-p) := Nat.pow_pos (by decide)
  have hb : broadcast a p = network a p+2^(32-p)-1 := rfl
  rw [firstCandidate_v4 ha hp]
  exact candidateLoop_from ha hp1 hp (by omega) (by rw [hb]; omega) (by rw [hb]; omega)

/-- For an IPv4 address `a` and a prefix `1 ≤ p ≤ 32`, the candidate loop visits exactly the
hosts `network+1, ..., broadcast-1` of `a/p`, in ascending order, and then exits: `2^(32-p)-2`
addresses, none for `/31` and `/32`, and never the network or the broadcast address. -/
theorem candidateLoop_hosts (a : IP) (p fuel : Nat) (ha : IsIPv4 a) (hp1 : 1 ≤ p) (hp : p ≤ 32)
    (hf : 2^(32-p) ≤ fuel) :
    candidateLoop ⟨a, CIDRMask p 32⟩ fuel (firstCandidate ⟨a, CIDRMask p 32⟩)=
      (hostRange (network a p+1) (broadcast a p),true) ∧
    (hostRange (network a p+1) (broadcast a p)).map ipValue=
      List.range' (network a p+1) (2^(32-p)-2) := by
  have hN := network_add_le ha hp
  have hP : 0 < 2^(32-p) := Nat.pow_pos (by decide)
  have hb : broadcast a p = network a p+2^(32-p)-1 := rfl
  refine ⟨candidateLoop_first ha hp1 hp hf, ?_⟩
  rw [hostRange_values (by rw [hb]; omega), hb]
  congr 1; omega

theorem candidateLoop_hosts_192_168_1_0_30 :
    candidateLoop ⟨[192,168,1,0], CIDRMask 30 32⟩ 4 (firstCandidate ⟨[192,168,1,0], CIDRMask 30 32⟩)=
      (hostRange (network [192,168,1,0] 30+1) (broadcast [192,168,1,0] 30),true) ∧
    (hostRange (network [192,168,1,0] 30+1) (broadcast [192,168,1,0] 30)).map ipValue=
      List.range' (network [192,168,1,0] 30+1) (2^(32-30)-2) :=
  candidateLoop_hosts [192,168,1,0] 30 4 (by decide) (by decide) (by decide) (by decide)

example : candidateLoop ⟨[192,168,1,0], CIDRMask 30 32⟩ 3 (firstCandidate ⟨[192,168,1,0], CIDRMask 30 32⟩)=
    ([[192,168,1,1],[192,168,1,2]],true) := by decide

/-- The loop of a subnet of prefix `1 ≤ p ≤ 32` ends with the subnet's hosts. -/
theorem candidateLoop_subnetHosts (ha : IsIPv4 a) (hp1 : 1 ≤ p) (hp : p ≤ 32) :
    ∃ F, candidateLoop ⟨a, CIDRMask p 32⟩ F (firstCandidate ⟨a, CIDRMask p 32⟩) =
      (subnetHosts ⟨a, CIDRMask p 32⟩,true) :=
  ⟨2^(32-p), by rw [subnetHosts, maskOnes_CIDRMask hp]; exact candidateLoop_first ha hp1 hp le_rfl⟩

/-- A `/0` subnet contains every 4-byte address, so the loop condition never fails. -/
theorem candidateLoop_slash0 (ha : IsIPv4 a) (fuel v : Nat) :
    candidateLoop ⟨a, CIDRMask 0 32⟩ fuel (ipBytes 4 v)=
      ((List.range fuel).map fun k => ipBytes 4 (v+k),false) := by
  have h0 : network a 0 = 0 := by
    rw [network, Nat.div_eq_of_lt (by simpa [To4_of_IsIPv4 ha] using ipValue_lt (IP.To4 a)),
      Nat.zero_mul]
  have hc : ∀ w, (IPNet.mk a (CIDRMask 0 32)).Contains (ipBytes 4 w) = true := by
    intro w; rw [Contains_ipBytes ha (by decide), h0]; simp; omega
  induction fuel generalizing v with
  | zero => rfl
  | succ fuel ih =>
    rw [candidateLoop, candidateCond, DuplicateIP, IncrementIP_ipBytes, hc, hc, Bool.and_self,
      if_pos rfl, ih, List.range_succ_eq_map]
    simp [Nat.add_assoc, Nat.add_comm 1]

end Subnet

/-- At the interface address `10.0.0.1/0` the loop never exits, and it visits the broadcast
address `255.255.255.255` and then the network address `0.0.0.0`. -/
theorem candidateLoop_slash0_never_exits :
    (∀ fuel, (candidateLoop ⟨[10,0,0,1], CIDRMask 0 32⟩ fuel
      (firstCandidate ⟨[10,0,0,1], CIDRMask 0 32⟩)).2 = false) ∧
    [255,255,255,255] ∈ (candidateLoop ⟨[10,0,0,1], CIDRMask 0 32⟩ (2^32)
      (firstCandidate ⟨[10,0,0,1], CIDRMask 0 32⟩)).1 ∧
    [0,0,0,0] ∈ (candidateLoop ⟨[10,0,0,1], CIDRMask 0 32⟩ (2^32)
      (firstCandidate ⟨[10,0,0,1], CIDRMask 0 32⟩)).1 := by
  have ha : IsIPv4 [10,0,0,1] := by decide
  have hf : firstCandidate ⟨[10,0,0,1], CIDRMask 0 32⟩=ipBytes 4 1 := by
    rw [firstCandidate_v4 ha (by decide)]; rfl
  simp only [hf, candidateLoop_slash0 ha, List.mem_map, List.mem_range]
  exact ⟨fun _ => trivial, ⟨2^32-2, by decide, by decide⟩, ⟨2^32-1, by decide, by decide⟩⟩

end Plc4go.Net
