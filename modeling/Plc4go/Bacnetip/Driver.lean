import Plc4go.Bacnetip.Address

namespace Plc4go.Bacnetip

/-- A non-nil driver-option map, `map[string][]string` (a nil map panics at its first write). -/
abbrev Options := List Char → Option (List (List Char))

/-- A codec, `*ApplicationLayerMessageCodec`, by its pointer. -/
abbrev Codec := Nat

/-- The map `m` with `v` stored under `k`. -/
def setKey {β} (m : List Char → Option β) (k : List Char) (v : β) : List Char → Option β :=
  fun k' => if k' = k then some v else m k'

@[simp] theorem setKey_self {β} (m : List Char → Option β) (k : List Char) (v : β) :
    setKey m k v k = some v := if_pos rfl

theorem setKey_of_ne {β} {m : List Char → Option β} {k k' : List Char} (v : β) (h : k' ≠ k) :
    setKey m k v k' = m k' := if_neg h

/-- What the network and the codec constructor answer one call: the resolver's lookup of a host
and a port, the local address of the socket `net.DialUDP` opens to a remote address (none when
the dial fails), and whether `NewApplicationLayerMessageCodec` succeeds. -/
structure Env where
  lookup : List Char → List Char → Option UDPAddr
  dial : UDPAddr → Option UDPAddr
  create : URL → Options → UDPAddr → UDPAddr → Bool

/-- Why `getApplicationLayerMessageCodec` panics. -/
inductive Panic
  /-- `options["defaultUdpPort"][0]` on a missing or empty entry. -/
  | index
  /-- `panic(err)` after `net.ResolveUDPAddr` failed. -/
  | resolve (e : ResolveError)
  deriving DecidableEq, Repr

/-- The errors `getApplicationLayerMessageCodec` returns. -/
inductive CodecError
  | dial (host : List Char)
  | create
  deriving DecidableEq, Repr

/-- How a call of `getApplicationLayerMessageCodec` ends. -/
inductive Got
  | codec (c : Codec)
  | error (e : CodecError)
  | panic (p : Panic)
  deriving DecidableEq, Repr

/-- The port `getApplicationLayerMessageCodec` resolves with: the URL's, else the first
`defaultUdpPort` option. -/
def effectivePort (u : URL) (options : Options) : Option (List Char) :=
  if u.Port = [] then (options "defaultUdpPort".toList).bind List.head? else some u.Port

/-- The part of `getApplicationLayerMessageCodec` before `a.Lock()`: the dialed local address
with its port set from the effective port, and the remote address; or how the call ends. -/
def dialEndpoints (env : Env) (u : URL) (options : Options) : Except Got (UDPAddr × UDPAddr) :=
  match effectivePort u options with
  | none => .error (.panic .index)
  | some port =>
    match ResolveUDPAddr env.lookup (u.Host ++ ':' :: port) with
    | .error e => .error (.panic (.resolve e))
    | .ok remoteAddr =>
      match env.dial remoteAddr with
      | none => .error (.error (.dial u.Host))
      | some localAddress => .ok ({ localAddress with Port := (Atoi port).1 }, remoteAddr)

/-- `ApplicationManager`: the `applications` map, and the pointer the next codec gets. -/
structure Manager where
  applications : List Char → Option Codec
  next : Codec

/-- The section under `a.Lock()`: look `key` up; on a miss construct (`ok` says whether
`NewApplicationLayerMessageCodec` succeeds) and insert. -/
def lookupOrCreate (m : Manager) (key : List Char) (ok : Bool) : Got × Manager :=
  match m.applications key with
  | some c => (.codec c, m)
  | none =>
    if ok then (.codec m.next, ⟨setKey m.applications key m.next, m.next+1⟩) else (.error .create, m)

/-- `ApplicationManager.getApplicationLayerMessageCodec`. -/
def getApplicationLayerMessageCodec (env : Env) (m : Manager) (u : URL) (options : Options) :
    Got × Manager :=
  match dialEndpoints env u options with
  | .error g => (g, m)
  | .ok (localAddress, remoteAddr) =>
    lookupOrCreate m localAddress.String (env.create u options localAddress remoteAddr)

/-- The transports of the map, as the type switch sees them. -/
inductive Transport
  | udp
  | other
  deriving DecidableEq, Repr

/-- Why `GetConnectionWithContext` answers with an error result. -/
inductive ConnectError
  | noTransport (u : URL)
  | notUdp (u : URL)
  | codec (e : CodecError)
  deriving DecidableEq, Repr

/-- What `GetConnectionWithContext` gives back: a channel holding one result with a nil
connection and an error, the hand-off to `ConnectWithContext` of a new connection, or a panic. -/
inductive Connect
  | result (e : ConnectError)
  | connect (c : Codec) (options : Options)
  | panic (p : Panic)

/-- The options `GetConnectionWithContext` writes into the caller's map. -/
def withDefaults (BACNETUDPDEFAULTPORT : Nat) (o : Options) : Options :=
  let o := setKey o "defaultUdpPort".toList [itoa BACNETUDPDEFAULTPORT]
  if o "so-reuse".toList = none then setKey o "so-reuse".toList ["true".toList] else o

/-- `Driver.GetConnectionWithContext`, with the manager and the caller's option map after it.
`BACNETUDPDEFAULTPORT` is the constant of the generated BACnet model. -/
def GetConnectionWithContext (BACNETUDPDEFAULTPORT : Nat) (env : Env) (m : Manager) (u : URL)
    (transports : List Char → Option Transport) (driverOptions : Options) :
    Connect × Manager × Options :=
  match transports u.Scheme with
  | none => (.result (.noTransport u), m, driverOptions)
  | some t =>
    let o := withDefaults BACNETUDPDEFAULTPORT driverOptions
    match t with
    | .other => (.result (.notUdp u), m, o)
    | .udp =>
      let r := getApplicationLayerMessageCodec env m u o
      (match r.1 with
        | .codec c => .connect c o
        | .error e => .result (.codec e)
        | .panic p => .panic p, r.2, o)

section Driver

variable (d : Nat) (env : Env) (m : Manager) (u : URL) (ts : List Char → Option Transport)
  (o : Options)

theorem effectivePort_withDefaults :
    effectivePort u (withDefaults d o) = some (if u.Port = [] then itoa d else u.Port) := by
  unfold effectivePort withDefaults
  split_ifs <;> simp_all [setKey_of_ne]

/-- A call that ends before the lock leaves the manager as it was. -/
theorem getApplicationLayerMessageCodec_early {g : Got} (h : dialEndpoints env u o = .error g) :
    getApplicationLayerMessageCodec env m u o = (g, m) := by
  simp [getApplicationLayerMessageCodec, h]

theorem lookupOrCreate_cases (k : List Char) (ok : Bool) :
    (∃ c, m.applications k = some c ∧ lookupOrCreate m k ok = (.codec c, m)) ∨
    (m.applications k = none ∧ ok ∧
      lookupOrCreate m k ok = (.codec m.next, ⟨setKey m.applications k m.next, m.next+1⟩)) ∨
    (m.applications k = none ∧ ¬ok ∧ lookupOrCreate m k ok = (.error .create, m)) := by
  unfold lookupOrCreate
  rcases ha : m.applications k with _ | c
  · cases ok <;> simp
  · simp

theorem lookupOrCreate_not_panic (k : List Char) (ok : Bool) (p : Panic) :
    (lookupOrCreate m k ok).1 ≠ .panic p := by
  rcases lookupOrCreate_cases m k ok with ⟨c, -, he⟩ | ⟨-, -, he⟩ | ⟨-, -, he⟩ <;> simp [he]

/-- A call that returns no codec leaves the manager as it was. -/
theorem getApplicationLayerMessageCodec_keeps
    (h : ∀ c, (getApplicationLayerMessageCodec env m u o).1 ≠ .codec c) :
    (getApplicationLayerMessageCodec env m u o).2 = m := by
  unfold getApplicationLayerMessageCodec at *
  generalize dialEndpoints env u o = x at h ⊢
  rcases x with g | ⟨l, r⟩
  · rfl
  · rcases lookupOrCreate_cases m l.String (env.create u o l r) with
      ⟨c, -, he⟩ | ⟨-, -, he⟩ | ⟨-, -, he⟩ <;> simp_all

/-- `getApplicationLayerMessageCodec` panics on an index only without an effective port. -/
theorem getApplicationLayerMessageCodec_index
    (h : (getApplicationLayerMessageCodec env m u o).1 = .panic .index) : effectivePort u o = none := by
  unfold getApplicationLayerMessageCodec dialEndpoints at h
  rcases hp : effectivePort u o with _ | port
  · rfl
  simp only [hp] at h
  generalize ResolveUDPAddr env.lookup (u.Host ++ ':' :: port) = x at h
  rcases x with e | r <;> simp only [Got.panic.injEq, reduceCtorEq] at h
  generalize env.dial r = y at h
  rcases y with _ | l <;> simp only [reduceCtorEq] at h
  exact absurd h (lookupOrCreate_not_panic _ _ _ _)

/-- An error result of `GetConnectionWithContext` leaves the codec cache as it was. -/
theorem GetConnectionWithContext_result_keeps {e : ConnectError}
    (h : (GetConnectionWithContext d env m u ts o).1 = .result e) :
    (GetConnectionWithContext d env m u ts o).2.1 = m := by
  unfold GetConnectionWithContext at *
  rcases hts : ts u.Scheme with _ | _ | _ <;> simp only [hts] at h ⊢
  exact getApplicationLayerMessageCodec_keeps _ _ _ _ fun c hc => by simp [hc] at h

/-- On a non-nil option map, the only panic of `GetConnectionWithContext` is a failed resolution:
the read of `defaultUdpPort` finds the entry the call wrote. -/
theorem GetConnectionWithContext_panic {p : Panic}
    (h : (GetConnectionWithContext d env m u ts o).1 = .panic p) : ∃ e, p = .resolve e := by
  unfold GetConnectionWithContext at h
  rcases hts : ts u.Scheme with _ | _ | _ <;> simp only [hts, reduceCtorEq] at h
  rcases hg : (getApplicationLayerMessageCodec env m u (withDefaults d o)).1 with c | e | q <;>
    simp only [hg, Connect.panic.injEq, reduceCtorEq] at h
  subst h
  cases q with
  | index =>
    have := getApplicationLayerMessageCodec_index _ _ _ _ hg
    simp [effectivePort_withDefaults] at this
  | resolve e => exact ⟨e, rfl⟩

/-- A panic before the lock ends `GetConnectionWithContext` over a UDP transport, the cache and
the caller's options as the call left them. -/
theorem GetConnectionWithContext_of_panic {p : Panic} (ht : ts u.Scheme = some .udp)
    (h : dialEndpoints env u (withDefaults d o) = .error (.panic p)) :
    GetConnectionWithContext d env m u ts o = (.panic p, m, withDefaults d o) := by
  simp [GetConnectionWithContext, ht, getApplicationLayerMessageCodec_early _ _ _ _ h]

/-- When `host:port` does not resolve, `GetConnectionWithContext` over a UDP transport panics. -/
theorem GetConnectionWithContext_unresolved_panics (ht : ts u.Scheme = some .udp)
    (hr : ∃ e, ResolveUDPAddr env.lookup
      (u.Host ++ ':' :: if u.Port = [] then itoa d else u.Port) = .error e) :
    ∃ e, GetConnectionWithContext d env m u ts o = (.panic (.resolve e), m, withDefaults d o) := by
  obtain ⟨e, he⟩ := hr
  exact ⟨e, GetConnectionWithContext_of_panic _ _ _ _ _ _ ht
    (by simp [dialEndpoints, effectivePort_withDefaults, he])⟩

/-- A URL with a port is resolved as `Host:Port` where `Host` already ends in the port: the
address has two colons, and `net.SplitHostPort` refuses it for every network. -/
theorem dialEndpoints_url_port (hp : u.Port ≠ []) :
    ∃ e, dialEndpoints env u o = .error (.panic (.resolve (.addr e))) := by
  obtain ⟨pre, hh, hd⟩ := Port_ne_nil hp
  obtain ⟨e, he⟩ := SplitHostPort_port_twice pre hp hd
  refine ⟨e, ?_⟩
  rw [← hh] at he
  simp [dialEndpoints, effectivePort, hp, ResolveUDPAddr, he]

/-- Every call of `GetConnectionWithContext` over a UDP transport with a URL that has a port
panics, whatever the network answers. -/
theorem GetConnectionWithContext_url_port_panics (ht : ts u.Scheme = some .udp) (hp : u.Port ≠ []) :
    ∃ e, GetConnectionWithContext d env m u ts o = (.panic (.resolve (.addr e)), m, withDefaults d o) := by
  obtain ⟨e, he⟩ := dialEndpoints_url_port env u (withDefaults d o) hp
  exact ⟨e, GetConnectionWithContext_of_panic _ _ _ _ _ _ ht he⟩

end Driver

/-- The manager `NewDriver` makes: no codec yet. -/
def Manager.empty : Manager := ⟨fun _ => none, 0⟩

/-- A transport map with a `*udp.Transport` under `udp`. -/
def udpTransports (scheme : List Char) : Option Transport :=
  if scheme = "udp".toList then some .udp else none

/-- A network where every lookup succeeds and every dial gets the local address 192.0.2.7. -/
def lan : Env := ⟨fun _ _ => some ⟨[192,0,2,5], 47808, []⟩, fun _ => some ⟨[192,0,2,7], 50000, []⟩,
  fun _ _ _ _ => true⟩

/-- A network where no host resolves. -/
def unreachable : Env := ⟨fun _ _ => none, fun _ => none, fun _ _ _ _ => false⟩

theorem noSuchHost_panics :
    udpTransports "udp".toList = some .udp ∧
    (∃ e, ResolveUDPAddr unreachable.lookup
      ("no-such-host.invalid".toList ++ ':' :: if URL.Port ⟨"udp".toList, "no-such-host.invalid".toList⟩ = []
        then itoa 47808 else URL.Port ⟨"udp".toList, "no-such-host.invalid".toList⟩) = .error e) ∧
    ∃ e, GetConnectionWithContext 47808 unreachable .empty ⟨"udp".toList, "no-such-host.invalid".toList⟩
      udpTransports (fun _ => none) = (.panic (.resolve e), .empty, withDefaults 47808 (fun _ => none)) :=
  have ht : udpTransports "udp".toList = some .udp := by decide
  have hr : ∃ e, ResolveUDPAddr unreachable.lookup
      ("no-such-host.invalid".toList ++ ':' :: if URL.Port ⟨"udp".toList, "no-such-host.invalid".toList⟩ = []
        then itoa 47808 else URL.Port ⟨"udp".toList, "no-such-host.invalid".toList⟩) = .error e :=
    ⟨_, rfl⟩
  ⟨ht, hr, GetConnectionWithContext_unresolved_panics 47808 unreachable .empty _ _ _ ht hr⟩

theorem lan_port_47808_panics :
    udpTransports "udp".toList = some .udp ∧ URL.Port ⟨"udp".toList, "192.0.2.5:47808".toList⟩ ≠ [] ∧
    ∃ e, GetConnectionWithContext 47808 lan .empty ⟨"udp".toList, "192.0.2.5:47808".toList⟩
      udpTransports (fun _ => none) =
        (.panic (.resolve (.addr e)), .empty, withDefaults 47808 (fun _ => none)) :=
  have ht : udpTransports "udp".toList = some .udp := by decide
  have hp : URL.Port ⟨"udp".toList, "192.0.2.5:47808".toList⟩ ≠ [] := by decide
  ⟨ht, hp, GetConnectionWithContext_url_port_panics 47808 lan .empty _ _ _ ht hp⟩

/-- Without a port the same host gets a codec, cached under the dialed local address with the
default port. -/
example : (GetConnectionWithContext 47808 lan .empty ⟨"udp".toList, "192.0.2.5".toList⟩ udpTransports
    (fun _ => none)).2.1.applications "192.0.2.7:47808".toList = some 0 := by decide

end Plc4go.Bacnetip
