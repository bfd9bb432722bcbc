import Plc4go.Bacnetip.Driver
import Mathlib.Data.Nat.Digits
import Mathlib.Tactic.IntervalCases

namespace Plc4go.Bacnetip

open Net

/-- The value of a string of decimal digits, most significant first. -/
def decimalValue : List Char → Nat
  | [] => 0
  | c::cs => (c.toNat-48)*10^cs.length+decimalValue cs

section Digits

theorem digitChar_spec {m : Nat} (h : m < 10) : (Nat.digitChar m).toNat = 48+m ∧ (Nat.digitChar m).isDigit := by
  interval_cases m <;> decide

theorem hexDigit_spec {m : Nat} (h : m < 10) : (hexDigit m).toNat = 48+m ∧ (hexDigit m).isDigit := by
  interval_cases m <;> decide

theorem toDigitsCore_spec (fuel n : Nat) (ds : List Char) (hf : n < fuel) :
    decimalValue (Nat.toDigitsCore 10 fuel n ds) = n*10^ds.length+decimalValue ds ∧
    ∀ c ∈ Nat.toDigitsCore 10 fuel n ds, c ∈ ds ∨ c.isDigit := by
  induction fuel generalizing n ds with
  | zero => omega
  | succ fuel ih =>
    obtain ⟨hd, hdd⟩ := digitChar_spec (Nat.mod_lt n (by decide : 10 > 0))
    have hmem : ∀ c ∈ Nat.digitChar (n%10) :: ds, c ∈ ds ∨ c.isDigit := by
      intro c hc; rcases List.mem_cons.1 hc with rfl | hc
      exacts [.inr hdd, .inl hc]
    simp only [Nat.toDigitsCore]
    split_ifs with h0
    · refine ⟨?_, hmem⟩
      simp only [decimalValue, hd, Nat.add_sub_cancel_left]
      rw [Nat.mod_eq_of_lt (by omega)]
    · obtain ⟨h1, h2⟩ := ih (n/10) (Nat.digitChar (n%10) :: ds) (by omega)
      refine ⟨?_, fun c hc => (h2 c hc).elim (hmem c) .inr⟩
      rw [h1]
      simp only [decimalValue, List.length_cons, hd, Nat.add_sub_cancel_left]
      conv_rhs => rw [← Nat.div_add_mod n 10]
      ring

theorem toDigits_spec (n : Nat) :
    decimalValue (Nat.toDigits 10 n) = n ∧ ∀ c ∈ Nat.toDigits 10 n, c.isDigit := by
  obtain ⟨h1, h2⟩ := toDigitsCore_spec (n+1) n [] (by omega)
  exact ⟨by simpa [decimalValue] using h1, fun c hc => (h2 c hc).resolve_left (by simp)⟩

theorem not_mem_toDigits {c : Char} (hc : c.isDigit = false) (n : Nat) : c ∉ Nat.toDigits 10 n :=
  fun h => by simp [(toDigits_spec n).2 c h] at hc

theorem itoa_injective : Function.Injective itoa := fun a b h => by
  unfold itoa at h
  split_ifs at h with ha hb hb
  · have := congrArg decimalValue (List.cons.inj h).2
    rw [(toDigits_spec _).1, (toDigits_spec _).1] at this; omega
  · exact absurd (h ▸ List.mem_cons_self _ _) (not_mem_toDigits (by decide : ('-').isDigit = false) _)
  · exact absurd (h.symm ▸ List.mem_cons_self _ _) (not_mem_toDigits (by decide : ('-').isDigit = false) _)
  · have := congrArg decimalValue h
    rw [(toDigits_spec _).1, (toDigits_spec _).1] at this; omega

theorem appendDecimal_spec {x : Nat} (h : x < 1000) :
    decimalValue (appendDecimal x) = x ∧ ∀ c ∈ appendDecimal x, c.isDigit := by
  obtain ⟨h1, d1⟩ := hexDigit_spec (show x/100 < 10 by omega)
  obtain ⟨h2, d2⟩ := hexDigit_spec (show x/10%10 < 10 by omega)
  obtain ⟨h3, d3⟩ := hexDigit_spec (show x%10 < 10 by omega)
  unfold appendDecimal
  split_ifs <;>
    simp only [decimalValue, List.append_eq, List.singleton_append, List.cons_append, List.nil_append,
      List.length_cons, List.length_nil, h1, h2, h3, Nat.add_sub_cancel_left, List.mem_cons,
      List.mem_singleton, List.not_mem_nil, forall_eq_or_imp, forall_eq, d1, d2, d3, and_true,
      true_and, false_implies, implies_true, Nat.zero_add, Nat.reducePow, Nat.reduceAdd] <;> omega

end Digits

theorem string4_injective {a b : IP} (ha : a ≠ []) (hb : b ≠ []) (h : string4 a = string4 b) : a = b := by
  have hx : ∀ ip : IP, ∀ l ∈ ip.map (fun b => appendDecimal b.toNat), '.' ∉ l := by
    intro ip l hl hm
    obtain ⟨b, -, rfl⟩ := List.mem_map.1 hl
    have := (appendDecimal_spec (by have : b.toNat < 256 := b.toNat_lt_size; omega)).2 _ hm
    exact absurd this (by decide)
  have hs := (List.splitOn_intercalate _ '.' (hx a) (by simpa using ha)).symm.trans
    ((congrArg _ h).trans (List.splitOn_intercalate _ '.' (hx b) (by simpa using hb)))
  refine List.map_injective_iff.2 (fun x y hxy => ?_) hs
  have := congrArg decimalValue hxy
  rw [(appendDecimal_spec (by have : x.toNat < 256 := x.toNat_lt_size; omega)).1,
    (appendDecimal_spec (by have : y.toNat < 256 := y.toNat_lt_size; omega)).1] at this
  exact UInt8.toNat.inj this

theorem firstIndex_append_cons {a b : List Char} {c : Char} (ha : c ∉ a) :
    firstIndex (a ++ c :: b) c = some a.length := by
  induction a with
  | nil => simp [firstIndex]
  | cons x xs ih =>
    simp only [List.mem_cons, not_or] at ha
    simp [firstIndex, Ne.symm ha.1, ih ha.2]

/-- A host without a colon and its port are read back from `host:port`. -/
theorem append_colon_inj {a b c d : List Char} (ha : ':' ∉ a) (hc : ':' ∉ c)
    (h : a ++ ':' :: b = c ++ ':' :: d) : a = c ∧ b = d := by
  have hl : a.length = c.length := by
    simpa [firstIndex_append_cons ha, firstIndex_append_cons hc] using congrArg (firstIndex · ':') h
  obtain ⟨h1, h2⟩ := List.append_inj h hl
  exact ⟨h1, (List.cons.inj h2).2⟩

theorem mem_intersperse_of {α} {sep l : α} : ∀ {xs : List α}, l ∈ xs.intersperse sep → l = sep ∨ l ∈ xs
  | [], h => by simp at h
  | [x], h => by simp_all
  | x::y::ys, h => by
    simp only [List.intersperse_cons₂, List.mem_cons] at h
    rcases h with rfl | rfl | h
    · simp
    · exact .inl rfl
    · exact (mem_intersperse_of h).imp_right (List.mem_cons_of_mem _)

/-- A dotted quad is made of digits and dots. -/
theorem mem_string4 {ip : IP} {c : Char} (h : c ∈ string4 ip) : c.isDigit ∨ c = '.' := by
  obtain ⟨l, hl, hc⟩ := List.mem_flatten.1 h
  rcases mem_intersperse_of hl with rfl | hl
  · exact .inr (List.mem_singleton.1 hc)
  · obtain ⟨b, -, rfl⟩ := List.mem_map.1 hl
    exact .inl ((appendDecimal_spec (by have : b.toNat < 256 := b.toNat_lt_size; omega)).2 c hc)

theorem colon_not_mem_string4 (ip : IP) : ':' ∉ string4 ip := fun h => by
  rcases mem_string4 h with h | h <;> revert h <;> decide

/-- For IPv4 local addresses without a zone, the cache key `UDPAddr.String` tells the address
and the port apart. -/
theorem String_eq_iff_v4 {x y : UDPAddr} (hx : x.IP.length = 4) (hy : y.IP.length = 4)
    (hzx : x.Zone = []) (hzy : y.Zone = []) : x.String = y.String ↔ x.IP = y.IP ∧ x.Port = y.Port := by
  have hs : ∀ z : UDPAddr, z.IP.length = 4 → z.Zone = [] → z.String = string4 z.IP ++ ':' :: itoa z.Port :=
    fun z hl hz => by
      simp [UDPAddr.String, hz, ipEmptyString, hl, IP.String, IP.To4, JoinHostPort,
        colon_not_mem_string4]
  rw [hs x hx hzx, hs y hy hzy]
  constructor
  · intro h
    obtain ⟨h1, h2⟩ := append_colon_inj (colon_not_mem_string4 _) (colon_not_mem_string4 _) h
    exact ⟨string4_injective (by rintro h; simp [h] at hx) (by rintro h; simp [h] at hy) h1,
      itoa_injective h2⟩
  · rintro ⟨h1, h2⟩; rw [h1, h2]

section Driver

variable {env : Env} {u : URL} {o : Options} {l r : UDPAddr}

/-- A call with the options of `GetConnectionWithContext` dials only for a URL without a port;
its local address is the dialed one with the default port. -/
theorem dialEndpoints_ok {d : Nat} (h : dialEndpoints env u (withDefaults d o) = .ok (l, r)) :
    u.Port = [] ∧ ResolveUDPAddr env.lookup (u.Host ++ ':' :: itoa d) = .ok r ∧
    ∃ a, env.dial r = some a ∧ l = { a with Port := (Atoi (itoa d)).1 } := by
  by_cases hp : u.Port = []
  · simp only [dialEndpoints, effectivePort_withDefaults, hp, if_true] at h
    generalize ResolveUDPAddr env.lookup (u.Host ++ ':' :: itoa d) = x at h
    rcases x with e | r' <;> simp only [reduceCtorEq] at h
    generalize hd : env.dial r' = y at h
    rcases y with _ | a <;> simp only [reduceCtorEq, Except.ok.injEq, Prod.mk.injEq] at h
    obtain ⟨rfl, rfl⟩ := h
    exact ⟨hp, rfl, a, hd, rfl⟩
  · obtain ⟨e, he⟩ := dialEndpoints_url_port env u (withDefaults d o) hp
    simp [he] at h

/-- Through `GetConnectionWithContext`, two calls that dial IPv4 local addresses without a zone
share a cache key exactly when the dialed addresses are equal: both keys carry the default port. -/
theorem key_eq_iff_v4 {d : Nat} {env' : Env} {u' : URL} {o' : Options} {l' r' : UDPAddr}
    (h : dialEndpoints env u (withDefaults d o) = .ok (l, r))
    (h' : dialEndpoints env' u' (withDefaults d o') = .ok (l', r'))
    (hl : l.IP.length = 4) (hl' : l'.IP.length = 4) (hz : l.Zone = []) (hz' : l'.Zone = []) :
    l.String = l'.String ↔ l.IP = l'.IP := by
  obtain ⟨-, -, a, -, rfl⟩ := dialEndpoints_ok h
  obtain ⟨-, -, a', -, rfl⟩ := dialEndpoints_ok h'
  rw [String_eq_iff_v4 hl hl' hz hz']
  simp

/-- Two hosts of one LAN reached from two local addresses get two keys. -/
theorem lan_two_locals_two_keys :
    dialEndpoints lan ⟨"udp".toList, "192.0.2.5".toList⟩ (withDefaults 47808 fun _ => none) =
      .ok (⟨[192,0,2,7], 47808, []⟩, ⟨[192,0,2,5], 47808, []⟩) ∧
    dialEndpoints { lan with dial := fun _ => some ⟨[192,0,2,8], 50000, []⟩ } ⟨"udp".toList, "192.0.2.6".toList⟩
      (withDefaults 47808 fun _ => none) = .ok (⟨[192,0,2,8], 47808, []⟩, ⟨[192,0,2,5], 47808, []⟩) ∧
    ((⟨[192,0,2,7], 47808, []⟩ : UDPAddr).String = (⟨[192,0,2,8], 47808, []⟩ : UDPAddr).String ↔
      [192,0,2,7] = ([192,0,2,8] : Net.IP)) :=
  have h : dialEndpoints lan ⟨"udp".toList, "192.0.2.5".toList⟩ (withDefaults 47808 fun _ => none) =
      .ok (⟨[192,0,2,7], 47808, []⟩, ⟨[192,0,2,5], 47808, []⟩) := rfl
  have h' : dialEndpoints { lan with dial := fun _ => some ⟨[192,0,2,8], 50000, []⟩ } ⟨"udp".toList, "192.0.2.6".toList⟩
      (withDefaults 47808 fun _ => none) = .ok (⟨[192,0,2,8], 47808, []⟩, ⟨[192,0,2,5], 47808, []⟩) := rfl
  ⟨h, h', key_eq_iff_v4 h h' rfl rfl rfl rfl⟩

end Driver

end Plc4go.Bacnetip
