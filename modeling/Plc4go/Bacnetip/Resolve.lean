import Plc4go.Bacnetip.Key

namespace Plc4go.Bacnetip

/-- `URL.Hostname()` of `net/url`: the host without the port and without brackets. -/
def URL.Hostname (u : URL) : List Char := (urlSplitHostPort u.Host).1

/-- A host that is a name or an IPv4 address: no colon, no bracket. -/
def PlainHost (h : List Char) : Prop := ':' ∉ h ∧ '[' ∉ h ∧ ']' ∉ h

instance (h : List Char) : Decidable (PlainHost h) := inferInstanceAs (Decidable (_ ∧ _ ∧ _))

/-- An IPv6 address in brackets, with no bracket inside. -/
def BracketHost (h : List Char) : Prop := ∃ x, h = '[' :: x ++ [']'] ∧ '[' ∉ x ∧ ']' ∉ x

section Split

variable {h p : List Char}

theorem SplitHostPort_plain (hh : PlainHost h) (hp : PlainHost p) :
    SplitHostPort (h ++ ':' :: p) = .ok (h, p) := by
  obtain ⟨h1, h2, h3⟩ := hh
  obtain ⟨p1, p2, p3⟩ := hp
  have hhead : h.head? ≠ some '[' := fun e => h2 (List.mem_of_mem_head? e)
  simp [SplitHostPort, lastIndex_append_cons p1, splitHost, hhead, h1, h2, h3, p2, p3]

theorem SplitHostPort_bracket {x : List Char} (hx : '[' ∉ x ∧ ']' ∉ x) (hp : PlainHost p) :
    SplitHostPort (('[' :: x ++ [']']) ++ ':' :: p) = .ok (x, p) := by
  obtain ⟨x2, x3⟩ := hx
  obtain ⟨p1, p2, p3⟩ := hp
  have hl : lastIndex ('[' :: (x ++ ']' :: ':' :: p)) ':' = some (x.length+2) := by
    simpa using lastIndex_append_cons (a := '[' :: x ++ [']']) p1
  have he : firstIndex ('[' :: (x ++ ']' :: ':' :: p)) ']' = some (x.length+1) := by
    simpa using firstIndex_append_cons (a := '[' :: x) (b := ':' :: p) (by simp [x3])
  simp [SplitHostPort, hl, splitHost, he, x2, x3, p2, p3]

theorem urlSplitHostPort_plain (hh : PlainHost h) : urlSplitHostPort h = (h, []) := by
  have hhead : h.head? ≠ some '[' := fun e => hh.2.1 (List.mem_of_mem_head? e)
  simp [urlSplitHostPort, lastIndex_eq_none.2 hh.1, hhead]

/-- The last colon of a bracketed address is inside the brackets, so what follows it is no port. -/
theorem urlSplitHostPort_bracket (x : List Char) :
    urlSplitHostPort ('[' :: x ++ [']']) = (x, []) := by
  have hv : ∀ colon, lastIndex ('[' :: (x ++ [']'])) ':' = some colon →
      validOptionalPort (('[' :: (x ++ [']'])).drop colon) = false := by
    intro colon hc
    obtain ⟨a, b, hab, -, rfl⟩ := lastIndex_eq_some hc
    have hb : ']' ∈ b := by
      have := congrArg List.getLast? hab
      simp [List.getLast?_cons] at this
      cases h : b.getLast? with
      | none => simp [h] at this
      | some c => simp [h] at this; subst this; exact List.mem_of_getLast?_eq_some h
    rw [hab, List.drop_left]
    simpa [validOptionalPort] using ⟨']', hb, by decide⟩
  have hlast : ('[' :: (x ++ [']'])).getLast? = some ']' := by simp [List.getLast?_cons]
  simp only [urlSplitHostPort, List.cons_append]
  cases hc : lastIndex ('[' :: (x ++ [']'])) ':' with
  | none => simp [hlast]
  | some colon => simp [hv colon hc, hlast]

end Split

section Atoi

theorem le_toNat_of_isDigit {c : Char} (h : c.isDigit) : 48 ≤ c.toNat := by
  simp only [Char.isDigit, Bool.and_eq_true, decide_eq_true_eq] at h; exact h.1

/-- The digit loop of `strconv.Atoi`'s fast path reads a string of digits. -/
theorem foldl_decimal (acc : Int) {ds : List Char} (hd : ∀ c ∈ ds, c.isDigit) :
    ds.foldl (fun (n : Int) c => n*10+((c.toNat : Int)-48)) acc = acc*10^ds.length+decimalValue ds := by
  induction ds generalizing acc with
  | nil => simp [decimalValue]
  | cons c cs ih =>
    have h48 := le_toNat_of_isDigit (hd c (List.mem_cons_self c cs))
    rw [List.foldl_cons, ih _ fun c hc => hd c (List.mem_cons_of_mem _ hc)]
    simp only [decimalValue, List.length_cons, pow_succ]
    push_cast [h48]
    ring

theorem splitSign_digits {ds : List Char} (hd : ∀ c ∈ ds, c.isDigit) : splitSign ds = (false, ds) := by
  match ds, hd with
  | [], _ => rfl
  | c::cs, hd =>
    have hc := hd c (List.mem_cons_self c cs)
    have h1 : c ≠ '-' := by rintro rfl; exact absurd hc (by decide)
    have h2 : c ≠ '+' := by rintro rfl; exact absurd hc (by decide)
    simp [splitSign, h1, h2]

/-- `strconv.Atoi(strconv.Itoa(n))` gives `n` back for every `n` below `10^18`: the fast path
reads the digits. -/
theorem Atoi_itoa {n : Nat} (hn : n < 10^18) : Atoi (itoa n) = ((n : Int), none) := by
  obtain ⟨hv, hd⟩ := toDigits_spec n
  have hit : itoa n = Nat.toDigits 10 n := by simp [itoa]
  have hlen : (Nat.toDigits 10 n).length ≤ 18 := Nat.repr_length n 18 (by decide) hn
  have hne : Nat.toDigits 10 n ≠ [] := by
    intro h0
    have : n = 0 := by rw [← hv, h0]; rfl
    subst this; exact absurd h0 (by decide)
  have hpos : 0 < (Nat.toDigits 10 n).length := List.length_pos.2 hne
  rw [hit]
  simp only [Atoi, hpos, true_and, show (Nat.toDigits 10 n).length < 19 by omega, if_true,
    splitSign_digits hd, hne, false_or, List.all_eq_true.2 hd, not_true, if_false,
    foldl_decimal 0 hd, hv]
  simp

end Atoi

theorem itoa_plain (n : Int) : PlainHost (itoa n) := by
  have h : ∀ c, c.isDigit = false → c ≠ '-' → c ∉ itoa n := fun c hc hne hm => by
    unfold itoa at hm
    split_ifs at hm
    · exact (List.mem_cons.1 hm).elim hne (not_mem_toDigits hc _)
    · exact not_mem_toDigits hc _ hm
  exact ⟨h ':' rfl (by decide), h '[' rfl (by decide), h ']' rfl (by decide)⟩

/-- For a URL host of either shape, the port is empty, and the resolved address splits back
into the hostname and the port. -/
theorem hostname_split {u : URL} (hh : PlainHost u.Host ∨ BracketHost u.Host) (port : List Char)
    (hp : PlainHost port) : u.Port = [] ∧ SplitHostPort (u.Host ++ ':' :: port) = .ok (u.Hostname, port) := by
  rcases hh with hh | ⟨x, hx, x2, x3⟩
  · simp [URL.Port, URL.Hostname, urlSplitHostPort_plain hh, SplitHostPort_plain hh hp]
  · simp only [URL.Port, URL.Hostname, hx, urlSplitHostPort_bracket, SplitHostPort_bracket ⟨x2, x3⟩ hp,
      and_self]

/-- Through `GetConnectionWithContext`, a URL without a port whose host is a name, an IPv4
address or an IPv6 address in brackets is resolved as its hostname at the default port; the
call dials the address the resolver answers and looks its codec up under the dialed local
address with the default port. -/
theorem getApplicationLayerMessageCodec_hostname {env : Env} {m : Manager} {u : URL} {o : Options}
    {d : Nat} (hd : d < 10^18) (hh : PlainHost u.Host ∨ BracketHost u.Host) :
    getApplicationLayerMessageCodec env m u (withDefaults d o) =
      match env.lookup u.Hostname (itoa d) with
      | none => (.panic (.resolve (.lookup u.Hostname (itoa d))), m)
      | some r =>
        match env.dial r with
        | none => (.error (.dial u.Host), m)
        | some l => lookupOrCreate m { l with Port := d }.String (env.create u (withDefaults d o) { l with Port := d } r) := by
  obtain ⟨hport, hsplit⟩ := hostname_split hh (itoa d) (itoa_plain d)
  simp only [getApplicationLayerMessageCodec, dialEndpoints, effectivePort_withDefaults, hport, if_true,
    ResolveUDPAddr, hsplit, Atoi_itoa hd]
  rcases env.lookup u.Hostname (itoa d) with _ | r
  · rfl
  · simp only
    rcases env.dial r with _ | l <;> rfl

/-- `udp://[2001:db8::5]` is resolved as `2001:db8::5` at port 47808. -/
theorem bracketHost_hostname :
    getApplicationLayerMessageCodec lan .empty ⟨"udp".toList, "[2001:db8::5]".toList⟩ (withDefaults 47808 fun _ => none) =
      match lan.lookup (URL.Hostname ⟨"udp".toList, "[2001:db8::5]".toList⟩) (itoa 47808) with
      | none => (.panic (.resolve (.lookup (URL.Hostname ⟨"udp".toList, "[2001:db8::5]".toList⟩) (itoa 47808))), .empty)
      | some r =>
        match lan.dial r with
        | none => (.error (.dial "[2001:db8::5]".toList), .empty)
        | some l => lookupOrCreate .empty { l with Port := 47808 }.String
            (lan.create ⟨"udp".toList, "[2001:db8::5]".toList⟩ (withDefaults 47808 fun _ => none) { l with Port := 47808 } r) :=
  getApplicationLayerMessageCodec_hostname (by decide) (.inr ⟨"2001:db8::5".toList, rfl, by decide, by decide⟩)

end Plc4go.Bacnetip
