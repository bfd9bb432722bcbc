import Plc4go.Net.IPNet

namespace Plc4go.Bacnetip

open Net

/-- The index of the first `c` in `s`, `strings.IndexByte`. -/
def firstIndex : List Char → Char → Option Nat
  | [], _ => none
  | x::xs, c => if x = c then some 0 else (firstIndex xs c).map (·+1)

/-- The index of the last `c` in `s`, `strings.LastIndexByte`. -/
def lastIndex : List Char → Char → Option Nat
  | [], _ => none
  | x::xs, c => match lastIndex xs c with
    | some i => some (i+1)
    | none => if x = c then some 0 else none

theorem firstIndex_eq_some {s : List Char} {c : Char} {e : Nat} (h : firstIndex s c = some e) :
    ∃ a b, s = a ++ c :: b ∧ a.length = e := by
  induction s generalizing e with
  | nil => cases h
  | cons x xs ih =>
    simp only [firstIndex] at h
    split_ifs at h with hx
    · cases h; exact ⟨[], xs, by simp [hx]⟩
    · obtain ⟨e, he, rfl⟩ := Option.map_eq_some'.1 h
      obtain ⟨a, b, rfl, rfl⟩ := ih he
      exact ⟨x :: a, b, rfl, rfl⟩

theorem lastIndex_eq_none {s : List Char} {c : Char} : lastIndex s c = none ↔ c ∉ s := by
  induction s with
  | nil => simp [lastIndex]
  | cons x xs ih =>
    simp only [lastIndex, List.mem_cons, not_or]
    cases h : lastIndex xs c with
    | some i => simp_all
    | none =>
      by_cases hx : x = c
      · simp [hx]
      · simp [ih.1 h, hx, Ne.symm hx]

theorem lastIndex_eq_some {s : List Char} {c : Char} {i : Nat} (h : lastIndex s c = some i) :
    ∃ a b, s = a ++ c :: b ∧ c ∉ b ∧ a.length = i := by
  induction s generalizing i with
  | nil => cases h
  | cons x xs ih =>
    simp only [lastIndex] at h
    split at h <;> rename_i h'
    · cases h; obtain ⟨a, b, rfl, hb, rfl⟩ := ih h'
      exact ⟨x :: a, b, rfl, hb, rfl⟩
    · split_ifs at h with hx
      cases h
      exact ⟨[], xs, by simp [hx], lastIndex_eq_none.1 h', rfl⟩

theorem lastIndex_append_cons {a b : List Char} {c : Char} (hb : c ∉ b) :
    lastIndex (a ++ c :: b) c = some a.length := by
  induction a with
  | nil => simp [lastIndex, lastIndex_eq_none.2 hb]
  | cons x xs ih => simp [lastIndex, ih]

/-- `url.URL`, with the fields the driver reads. -/
structure URL where
  Scheme : List Char
  Host : List Char
  deriving DecidableEq, Repr

/-- `validOptionalPort` of `net/url`: empty, or a colon followed by digits only. -/
def validOptionalPort : List Char → Bool
  | [] => true
  | c::ds => c == ':' && ds.all Char.isDigit

/-- `splitHostPort` of `net/url`: the port after the last colon when it is all digits. -/
def urlSplitHostPort (hostPort : List Char) : List Char × List Char :=
  let hp := match lastIndex hostPort ':' with
    | some colon =>
      if validOptionalPort (hostPort.drop colon) then (hostPort.take colon, hostPort.drop (colon+1))
      else (hostPort, [])
    | none => (hostPort, [])
  if hp.1.head? = some '[' ∧ hp.1.getLast? = some ']' then ((hp.1.drop 1).dropLast, hp.2) else hp

/-- `URL.Port()`. -/
def URL.Port (u : URL) : List Char := (urlSplitHostPort u.Host).2

/-- A non-empty port is the digits after the host's last colon. -/
theorem Port_ne_nil {u : URL} (h : u.Port ≠ []) :
    ∃ pre, u.Host = pre ++ ':' :: u.Port ∧ u.Port.all Char.isDigit := by
  have hsnd : ∀ hp : List Char × List Char,
      (if hp.1.head? = some '[' ∧ hp.1.getLast? = some ']' then ((hp.1.drop 1).dropLast, hp.2)
        else hp).2 = hp.2 := fun hp => by split_ifs <;> rfl
  unfold URL.Port urlSplitHostPort at h ⊢
  rw [hsnd] at h ⊢
  cases hc : lastIndex u.Host ':' with
  | none => simp [hc] at h
  | some colon =>
    obtain ⟨a, b, hab, -, rfl⟩ := lastIndex_eq_some hc
    simp only [hc] at h ⊢
    rw [hab] at h ⊢
    simp only [List.drop_left, List.drop_append, List.take_left, validOptionalPort] at h ⊢
    by_cases hd : b.all Char.isDigit <;> simp_all

/-- `net.AddrError`: the reason and the address. -/
structure AddrError where
  Err : List Char
  Addr : List Char
  deriving DecidableEq, Repr

/-- `addrErr` of `net/ipsock.go`. -/
def addrErr {β} (addr : List Char) (why : String) : Except AddrError β := .error ⟨why.toList, addr⟩

/-- The host part of `net.SplitHostPort` for the last colon at `i`: the host and the offsets
`j`, `k` from which no `[` and no `]` may follow. -/
def splitHost (hostport : List Char) (i : Nat) : Except AddrError (List Char × Nat × Nat) :=
  if hostport.head? = some '[' then
    match firstIndex hostport ']' with
    | none => addrErr hostport "missing ']' in address"
    | some e =>
      if e+1 = hostport.length then addrErr hostport "missing port in address"
      else if e+1 = i then .ok ((hostport.take e).drop 1, 1, e+1)
      else if hostport.getD (e+1) ' ' = ':' then addrErr hostport "too many colons in address"
      else addrErr hostport "missing port in address"
  else if ':' ∈ hostport.take i then addrErr hostport "too many colons in address"
  else .ok (hostport.take i, 0, 0)

/-- `net.SplitHostPort`. -/
def SplitHostPort (hostport : List Char) : Except AddrError (List Char × List Char) :=
  match lastIndex hostport ':' with
  | none => addrErr hostport "missing port in address"
  | some i =>
    match splitHost hostport i with
    | .error e => .error e
    | .ok (host, j, k) =>
      if '[' ∈ hostport.drop j then addrErr hostport "unexpected '[' in address"
      else if ']' ∈ hostport.drop k then addrErr hostport "unexpected ']' in address"
      else .ok (host, hostport.drop (i+1))

/-- An address whose host part holds a colon, not closed by a bracket right before the last
colon, is refused. -/
theorem SplitHostPort_error {t : List Char} {i : Nat} (hi : lastIndex t ':' = some i)
    (hc : ':' ∈ t.take i) (hb : ∀ a b, t = a ++ ']' :: b → a.length+1 ≠ i) :
    ∃ e, SplitHostPort t = .error e := by
  suffices ∃ e, splitHost t i = .error e by
    obtain ⟨e, he⟩ := this
    exact ⟨e, by simp [SplitHostPort, hi, he]⟩
  unfold splitHost
  split_ifs
  · split
    · exact ⟨_, rfl⟩
    · rename_i e he
      obtain ⟨a, b, hab, rfl⟩ := firstIndex_eq_some he
      simp only [hb a b hab, if_false]
      split_ifs <;> exact ⟨_, rfl⟩
  · exact ⟨_, rfl⟩

/-- `host:port` where the host already ends in a colon and digits is refused. -/
theorem SplitHostPort_port_twice (pre : List Char) {p : List Char} (hp : p ≠ []) (hd : p.all Char.isDigit) :
    ∃ e, SplitHostPort ((pre ++ ':' :: p) ++ ':' :: p) = .error e := by
  have hnd : ∀ c, c.isDigit = false → c ∉ p := fun c hc hm => by
    simp only [List.all_eq_true] at hd; simp_all
  refine SplitHostPort_error (lastIndex_append_cons (hnd ':' rfl))
    (by rw [List.take_left]; simp) fun a b hab hl => ?_
  obtain ⟨d, q, rfl⟩ : ∃ d q, p = q ++ [d] := ⟨_, _, (List.dropLast_append_getLast hp).symm⟩
  have : a ++ [']'] = pre ++ ':' :: q ++ [d] ∧ b = ':' :: (q ++ [d]) :=
    List.append_inj (by simpa using hab.symm) (by simpa using hl)
  have hd' : d = ']' := by simpa using (List.append_inj' this.1 rfl).2.symm
  exact hnd d (by subst hd'; rfl) (by simp)

/-- The errors of `strconv`: `ErrSyntax` (`invalid`) and `ErrRange` (`outOfRange`). -/
inductive NumError
  | invalid
  | outOfRange
  deriving DecidableEq, Repr

/-- The digit loop of `strconv.ParseUint` in base 10 and 64 bits. -/
def parseUintLoop : List Char → Nat → Except NumError Nat
  | [], n => .ok n
  | c::cs, n =>
    if ¬c.isDigit then .error .invalid
    else if (2^64-1)/10+1 ≤ n then .error .outOfRange
    else if 2^64-1 < n*10+(c.toNat-48) then .error .outOfRange
    else parseUintLoop cs (n*10+(c.toNat-48))

/-- `strconv.ParseUint(s, 10, 64)`: on a range error its value is the largest `uint64`. -/
def ParseUint (s : List Char) : Nat × Option NumError :=
  if s = [] then (0, some .invalid)
  else match parseUintLoop s 0 with
    | .ok n => (n, none)
    | .error .outOfRange => (2^64-1, some .outOfRange)
    | .error .invalid => (0, some .invalid)

/-- The sign of a decimal, `+` or `-`, and the digits after it. -/
def splitSign : List Char → Bool × List Char
  | '-'::r => (true, r)
  | '+'::r => (false, r)
  | r => (false, r)

/-- `strconv.ParseInt(s, 10, 64)`: clamped to `int64` on a range error. -/
def ParseInt (s : List Char) : Int × Option NumError :=
  if s = [] then (0, some .invalid) else
  let (neg, ds) := splitSign s
  match ParseUint ds with
  | (_, some .invalid) => (0, some .invalid)
  | (un, _) =>
    if !neg ∧ 2^63 ≤ un then (2^63-1, some .outOfRange)
    else if neg ∧ 2^63 < un then (-2^63, some .outOfRange)
    else (if neg then -un else un, none)

/-- `strconv.Atoi` on a 64-bit platform: a fast path for fewer than 19 characters. -/
def Atoi (s : List Char) : Int × Option NumError :=
  if 0 < s.length ∧ s.length < 19 then
    let (neg, ds) := splitSign s
    if ds = [] ∨ ¬ds.all Char.isDigit then (0, some .invalid)
    else
      let n : Int := ds.foldl (fun n c => n*10+(c.toNat-48)) 0
      (if neg then -n else n, none)
  else ParseInt s

/-- `"0123456789abcdef"`, the digit table of `net` and `net/netip`. -/
def hexDigit (d : Nat) : Char := "0123456789abcdef".toList.getD d '?'

/-- `appendDecimal` of `net/netip`: a byte in decimal without leading zeros. -/
def appendDecimal (x : Nat) : List Char :=
  (if 100 ≤ x then [hexDigit (x/100)] else []) ++ (if 10 ≤ x then [hexDigit (x/10%10)] else []) ++
    [hexDigit (x%10)]

/-- `appendHex` of `net/netip`: a 16-bit group in hex without leading zeros. -/
def appendHex (x : Nat) : List Char :=
  (if 0x1000 ≤ x then [hexDigit (x/0x1000)] else []) ++
    (if 0x100 ≤ x then [hexDigit (x/0x100%16)] else []) ++
    (if 0x10 ≤ x then [hexDigit (x/0x10%16)] else []) ++ [hexDigit (x%16)]

/-- `Addr.string4` of `net/netip`: dotted decimal. -/
def string4 (ip : IP) : List Char := ['.'].intercalate (ip.map fun b => appendDecimal b.toNat)

/-- `Addr.v6u16` of `net/netip`: the `i`th 16-bit group. -/
def v6u16 (ip : IP) (i : Nat) : Nat := (ip.getD (2*i) 0).toNat*256+(ip.getD (2*i+1) 0).toNat

/-- The first search loop of `appendTo6`: the longest run of two or more zero groups, the
first of equal runs, as `(zeroStart, zeroEnd)`; `(255, 255)` when there is none. -/
def zeroRun (ip : IP) : Nat × Nat :=
  (List.range 8).foldl (fun z i =>
    let j := i+((List.range' i (8-i)).takeWhile fun j => v6u16 ip j == 0).length
    if 2 ≤ j-i ∧ z.2-z.1 < j-i then (i, j) else z) (255, 255)

/-- The output loop of `appendTo6` from group `i`, with `::` for the run `[zs, ze)`. -/
def appendGroups (ip : IP) (zs ze : Nat) : Nat → Nat → List Char
  | 0, _ => []
  | fuel+1, i =>
    if i < 8 then
      if i = zs then
        if ze < 8 then ':' :: ':' :: appendHex (v6u16 ip ze) ++ appendGroups ip zs ze fuel (ze+1)
        else [':', ':']
      else (if 0 < i then [':'] else []) ++ appendHex (v6u16 ip i) ++ appendGroups ip zs ze fuel (i+1)
    else []

/-- `Addr.string6` of `net/netip`, for an address without a zone. -/
def string6 (ip : IP) : List Char := appendGroups ip (zeroRun ip).1 (zeroRun ip).2 8 0

/-- `hexString` of `net`. -/
def hexString (b : IP) : List Char := b.flatMap fun t => [hexDigit (t.toNat/16), hexDigit (t.toNat%16)]

/-- `IP.String`. -/
def IP.String (ip : IP) : List Char :=
  if ip.length = 0 then "<nil>".toList
  else if ip.length ≠ 4 ∧ ip.length ≠ 16 then '?' :: hexString ip
  else if (IP.To4 ip).length = 4 then string4 (IP.To4 ip)
  else string6 ip

example : IP.String [0x20,1,0xd,0xb8,0,0,0,0,0,0,0,0,0,0,0,1] = "2001:db8::1".toList := by decide

/-- `net.UDPAddr`. -/
structure UDPAddr where
  IP : Net.IP
  Port : Int
  Zone : List Char
  deriving DecidableEq, Repr

/-- `ipEmptyString` of `net`. -/
def ipEmptyString (ip : Net.IP) : List Char := if ip.length = 0 then [] else IP.String ip

/-- `net.JoinHostPort`: a host with a colon is put in brackets. -/
def JoinHostPort (host port : List Char) : List Char :=
  if ':' ∈ host then '[' :: host ++ ']' :: ':' :: port else host ++ ':' :: port

/-- `itoa.Itoa` of the Go runtime. -/
def itoa (n : Int) : List Char :=
  if n < 0 then '-' :: Nat.toDigits 10 n.natAbs else Nat.toDigits 10 n.toNat

/-- `UDPAddr.String`. -/
def UDPAddr.String (a : UDPAddr) : List Char :=
  let ip := ipEmptyString a.IP
  if a.Zone ≠ [] then JoinHostPort (ip ++ '%' :: a.Zone) (itoa a.Port) else JoinHostPort ip (itoa a.Port)

/-- The error of `net.ResolveUDPAddr`: the address did not split, or the lookup of its host
and port failed. -/
inductive ResolveError
  | addr (e : AddrError)
  | lookup (host port : List Char)
  deriving DecidableEq, Repr

/-- `net.ResolveUDPAddr("udp", address)`; `lookup` is the resolver's answer for a host and a
port that `SplitHostPort` accepted. -/
def ResolveUDPAddr (lookup : List Char → List Char → Option UDPAddr) (address : List Char) :
    Except ResolveError UDPAddr :=
  match SplitHostPort address with
  | .error e => .error (.addr e)
  | .ok (host, port) =>
    match lookup host port with
    | some a => .ok a
    | none => .error (.lookup host port)

end Plc4go.Bacnetip
