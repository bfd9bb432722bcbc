import Plc4go.Framework.Run
import Plc4go.Net.Expand

namespace Plc4go.Discovery

open Net

/-- An address of `netInterface.Addrs()`: an `*net.IPAddr`, an `*net.IPNet`, or any other. -/
inductive Addr
  | ipAddr (ip : IP)
  | ipNet (n : IPNet)
  | other
  deriving DecidableEq, Repr

/-- A `pcap.Interface`: its name and the IPs of its addresses. -/
structure Dev where
  Name : String
  Addresses : List IP
  deriving DecidableEq, Repr

/-- A packet the capture hands the decode loop: nil, one without an ARP layer, or an ARP
frame with its operation, source hardware address and source protocol address. -/
inductive Frame
  | nil
  | noArp
  | arp (reply : Bool) (srcHw : List UInt8) (srcProt : IP)
  deriving DecidableEq, Repr

/-- The goroutines started besides the orchestrator. -/
inductive G
  /-- A sender of `lookupIps` (`tracked` by the wait group) or a delivery goroutine of the ARP
  decode loop (not tracked), in its select; `fired` once its 2-second timer has. -/
  | send (ip : IP) (fired tracked : Bool)
  /-- The ARP decode loop of capture `h`. -/
  | decode (h : Nat)
  /-- The cleanup task of capture `h`, asleep for its 10 seconds. -/
  | cleanup (h : Nat)
  | exited
  deriving DecidableEq, Repr

/-- Where the orchestrator goroutine of `GetIPAddresses` is; `rest` are the addresses after
the current one. -/
inductive Orch
  /-- At the top of the loop over the addresses. -/
  | addrs (rest : List Addr)
  /-- In `lockupIpsUsingArp`, at `pcap.FindAllDevs`. -/
  | arpDevs (ipnet : IPNet) (rest : List Addr)
  /-- In `lockupIpsUsingArp`, at `pcap.OpenLive` of the device found. -/
  | arpOpen (ipnet : IPNet) (devName : String) (rest : List Addr)
  /-- In `writeArp` over capture `h`, at candidate `ip`. -/
  | arpWrite (ipnet : IPNet) (h : Nat) (ip : IP) (rest : List Addr)
  /-- In `lookupIps`, at candidate `ip`. -/
  | lookup (ipnet : IPNet) (ip : IP) (rest : List Addr)
  /-- At `addressWg.Wait()`. -/
  | wait
  /-- After `close(foundIps)`. -/
  | done
  deriving DecidableEq, Repr

/-- The state of one `GetIPAddresses` run and its consumer. `spawned`, `dropped`, `timedOut` and
`lostOnClosed` are ghost: every address handed to a sender, and those a sender gave up at
`ctx.Done()`, at its timer, or by its send on the closed channel, which panics. -/
structure St where
  hw : List UInt8
  orch : Orch
  useArp : Bool
  gs : List G
  wg : Nat
  /-- Per capture: its `stop` channel closed. -/
  caps : List Bool
  buf : List IP
  closed : Bool
  cancelled : Bool
  received : List IP
  drained : Bool
  closes : Nat
  sendOnClosed : Bool
  spawned : List IP
  dropped : List IP
  timedOut : List IP
  lostOnClosed : List IP
  deriving DecidableEq, Repr

/-- The buffer of `foundIps`, `make(chan net.IP, 65536)`. -/
def foundIpsCap : Nat := 65536

/-- A select case of a goroutine. -/
inductive Case
  | ctx
  | send
  | timeout
  | stop
  deriving DecidableEq, Repr

/-- The labels of a run: the scheduler's choice of who moves and how, and the environment's
outcomes. -/
inductive Act
  /-- The orchestrator's next step that reads no outcome. -/
  | orch
  /-- `pcap.FindAllDevs()`: the devices, or none for an error. -/
  | devs (r : Option (List Dev))
  /-- `pcap.OpenLive`: whether the handle opens. -/
  | openLive (ok : Bool)
  /-- `SerializeLayers` and `WritePacketData` in `writeArp`: whether they succeed. -/
  | write (ok : Bool)
  /-- Goroutine `i` leaves its select by case `c`. -/
  | go (i : Nat) (c : Case)
  /-- Decode loop `i` reads frame `f` from its capture. -/
  | frame (i : Nat) (f : Frame)
  /-- Cleanup task `i` wakes after its 10 seconds. -/
  | wake (i : Nat)
  /-- The 2-second timer of goroutine `i` fires. -/
  | fire (i : Nat)
  | cancel
  /-- The consumer receives from `foundIps`. -/
  | recv
  deriving DecidableEq, Repr

/-- A label of a run where the context is never cancelled, no capture handle opens and no
select takes its timeout. -/
def Quiet : Act → Prop
  | .cancel => False
  | .openLive true => False
  | .go _ .timeout => False
  | _ => True

instance : DecidablePred Quiet
  | .cancel | .openLive true | .go _ .timeout => isFalse id
  | .orch | .devs _ | .openLive false | .write _ | .go _ .ctx | .go _ .send | .go _ .stop | .frame .. | .wake _
  | .fire _ | .recv => isTrue trivial

theorem quiet_iff {a : Act} : Quiet a ↔ a ≠ .cancel ∧ a ≠ .openLive true ∧ ∀ i, a ≠ .go i .timeout := by
  cases a with
  | openLive ok => cases ok <;> simp [Quiet]
  | go i c => cases c <;> simp [Quiet]
  | _ => simp [Quiet]

/-- The subnet `GetIPAddresses` scans for an address: an `*net.IPAddr` with its default mask
or an `*net.IPNet`, unless loopback or not IPv4. -/
def scanNet (a : Addr) : Option IPNet :=
  let ipnet : Option IPNet := match a with
    | .ipAddr ip => some ⟨ip, IP.DefaultMask ip⟩
    | .ipNet n => some n
    | .other => none
  ipnet.bind fun n => if IP.IsLoopback n.IP || IP.To4 n.IP = [] then none else some n

/-- The device search of `lockupIpsUsingArp`: the name of the last device with an address
equal to the interface's (the `break` leaves only the inner loop), `""` for none. -/
def findDevName (devs : List Dev) (ip : IP) : String :=
  devs.foldl (fun devName dev => if dev.Addresses.any (IP.Equal · ip) then dev.Name else devName) ""

/-- The wait-group count of a goroutine. -/
def G.weight : G → Nat
  | .send _ _ tracked => if tracked then 1 else 0
  | .decode _ => 1
  | .cleanup _ => 1
  | .exited => 0

/-- The address a goroutine still holds. -/
def G.pending : G → List IP
  | .send ip _ _ => [ip]
  | _ => []

namespace St

/-- Goroutine `i` exits, with `wg.Done()` if it is tracked. -/
def exit (s : St) (i : Nat) (g : G) : St :=
  { s with gs := s.gs.set i .exited, wg := s.wg-g.weight }

/-- The start of a goroutine. -/
def spawn (s : St) (g : G) : St := { s with gs := s.gs++[g], wg := s.wg+g.weight }

/-- `lockupIpsUsingArp` fails before its handle is open: `wg.Done()`, then the fallback of
`GetIPAddresses` to `lookupIps` for the same subnet. -/
def arpFail (s : St) (ipnet : IPNet) (rest : List Addr) : St :=
  { s with wg := s.wg-1, useArp := false, orch := .lookup ipnet (firstCandidate ipnet) rest }

/-- `lockupIpsUsingArp` returns after its handle opened: the deferred cleanup task starts,
`wg.Done()`, and on an error the fallback to `lookupIps`. -/
def arpReturn (s : St) (ipnet : IPNet) (h : Nat) (rest : List Addr) (err : Bool) : St :=
  let s := { s.spawn (.cleanup h) with wg := (s.spawn (.cleanup h)).wg-1 }
  if err then { s with useArp := false, orch := .lookup ipnet (firstCandidate ipnet) rest }
  else { s with orch := .addrs rest }

end St

open St

/-- The orchestrator's steps that read no outcome. -/
def orchStep (s : St) : Option St :=
  match s.orch with
  | .addrs [] => some { s with orch := .wait }
  | .addrs (a::rest) =>
    if s.cancelled then some { s with orch := .wait }
    else match scanNet a with
      | none => some { s with orch := .addrs rest }
      | some ipnet =>
        if s.useArp then some { s with orch := .arpDevs ipnet rest, wg := s.wg+1 }
        else some { s with orch := .lookup ipnet (firstCandidate ipnet) rest }
  | .lookup ipnet ip rest =>
    if candidateCond ipnet ip then
      if s.cancelled then some { s with orch := .addrs rest }
      else some { s.spawn (.send (DuplicateIP ip) false true) with
        orch := .lookup ipnet (IncrementIP ip) rest, spawned := s.spawned++[DuplicateIP ip] }
    else some { s with orch := .addrs rest }
  | .arpWrite ipnet h ip rest =>
    if candidateCond ipnet ip then
      if s.cancelled then some (s.arpReturn ipnet h rest true) else none
    else some (s.arpReturn ipnet h rest false)
  | .wait =>
    if s.wg=0 then some { s with orch := .done, closed := true, closes := s.closes+1 } else none
  | _ => none

/-- The moves of the orchestrator, one per branch of `orchStep`. -/
inductive OrchMove (s : St) : St → Prop
  | finish (ho : s.orch = .addrs []) : OrchMove s { s with orch := .wait }
  | cancelled {a rest} (ho : s.orch = .addrs (a::rest)) (hc : s.cancelled = true) :
      OrchMove s { s with orch := .wait }
  | skip {a rest} (ho : s.orch = .addrs (a::rest)) (hc : s.cancelled = false) (hn : scanNet a = none) :
      OrchMove s { s with orch := .addrs rest }
  | arp {a rest n} (ho : s.orch = .addrs (a::rest)) (hc : s.cancelled = false) (hn : scanNet a = some n)
      (hu : s.useArp = true) : OrchMove s { s with orch := .arpDevs n rest, wg := s.wg+1 }
  | scan {a rest n} (ho : s.orch = .addrs (a::rest)) (hc : s.cancelled = false) (hn : scanNet a = some n)
      (hu : s.useArp = false) : OrchMove s { s with orch := .lookup n (firstCandidate n) rest }
  | lookupCancelled {n ip rest} (ho : s.orch = .lookup n ip rest) (hcond : candidateCond n ip = true)
      (hc : s.cancelled = true) : OrchMove s { s with orch := .addrs rest }
  | send {n ip rest} (ho : s.orch = .lookup n ip rest) (hcond : candidateCond n ip = true)
      (hc : s.cancelled = false) :
      OrchMove s { s.spawn (.send (DuplicateIP ip) false true) with
        orch := .lookup n (IncrementIP ip) rest, spawned := s.spawned++[DuplicateIP ip] }
  | lookupDone {n ip rest} (ho : s.orch = .lookup n ip rest) (hcond : candidateCond n ip = false) :
      OrchMove s { s with orch := .addrs rest }
  | arpCancelled {n h ip rest} (ho : s.orch = .arpWrite n h ip rest) (hcond : candidateCond n ip = true)
      (hc : s.cancelled = true) : OrchMove s (s.arpReturn n h rest true)
  | arpDone {n h ip rest} (ho : s.orch = .arpWrite n h ip rest) (hcond : candidateCond n ip = false) :
      OrchMove s (s.arpReturn n h rest false)
  | close (ho : s.orch = .wait) (hw : s.wg = 0) :
      OrchMove s { s with orch := .done, closed := true, closes := s.closes+1 }

theorem orchStep_move {s s' : St} (h : orchStep s = some s') : OrchMove s s' := by
  unfold orchStep at h
  split at h
  · cases h; exact .finish ‹_›
  · rename_i a rest ho
    split at h
    · cases h; exact .cancelled ho ‹_›
    · rename_i hc
      simp only [Bool.not_eq_true] at hc
      split at h
      · cases h; exact .skip ho hc ‹_›
      · split at h <;> cases h
        · exact .arp ho hc ‹_› ‹_›
        · exact .scan ho hc ‹_› (Bool.eq_false_iff.2 ‹_›)
  · rename_i ho
    split at h
    · split at h <;> cases h
      · exact .lookupCancelled ho ‹_› ‹_›
      · exact .send ho ‹_› (Bool.eq_false_iff.2 ‹_›)
    · cases h; exact .lookupDone ho (Bool.eq_false_iff.2 ‹_›)
  · rename_i ho
    split at h
    · split at h <;> cases h; exact .arpCancelled ho ‹_› ‹_›
    · cases h; exact .arpDone ho (Bool.eq_false_iff.2 ‹_›)
  · split at h <;> cases h; exact .close ‹_› ‹_›
  · cases h

def devsStep (s : St) (r : Option (List Dev)) : Option St :=
  match s.orch with
  | .arpDevs ipnet rest =>
    match r with
    | none => some (s.arpFail ipnet rest)
    | some devs =>
      if findDevName devs ipnet.IP="" then some (s.arpFail ipnet rest)
      else some { s with orch := .arpOpen ipnet (findDevName devs ipnet.IP) rest }
  | _ => none

def openStep (s : St) (ok : Bool) : Option St :=
  match s.orch with
  | .arpOpen ipnet _ rest =>
    if ok then some { s.spawn (.decode s.caps.length) with
      caps := s.caps++[false],
      orch := .arpWrite ipnet s.caps.length (firstCandidate ipnet) rest }
    else some (s.arpFail ipnet rest)
  | _ => none

def writeStep (s : St) (ok : Bool) : Option St :=
  match s.orch with
  | .arpWrite ipnet h ip rest =>
    if candidateCond ipnet ip && !s.cancelled then
      if ok then some { s with orch := .arpWrite ipnet h (IncrementIP ip) rest }
      else some (s.arpReturn ipnet h rest true)
    else none
  | _ => none

/-- A goroutine leaves its select. A send on the closed `foundIps` panics. -/
def goStep (s : St) (i : Nat) (c : Case) : Option St :=
  match s.gs[i]?, c with
  | some (.send ip f t), .ctx =>
    if s.cancelled then some { s.exit i (.send ip f t) with dropped := s.dropped++[ip] } else none
  | some (.send ip f t), .send =>
    if s.closed then
      some { s.exit i (.send ip f t) with sendOnClosed := true, lostOnClosed := s.lostOnClosed++[ip] }
    else if s.buf.length<foundIpsCap then some { s.exit i (.send ip f t) with buf := s.buf++[ip] }
    else none
  | some (.send ip true t), .timeout =>
    some { s.exit i (.send ip true t) with timedOut := s.timedOut++[ip] }
  | some (.decode h), .ctx => if s.cancelled then some (s.exit i (.decode h)) else none
  | some (.decode h), .stop =>
    if s.caps.getD h false then some (s.exit i (.decode h)) else none
  | _,_ => none

/-- The decode loop reads a frame. The `Packets()` channel still holds the frames captured
before `handle.Close()`, so any frame can come until the loop leaves its select. An ARP reply
from another host starts an untracked delivery goroutine. -/
def frameStep (s : St) (i : Nat) (f : Frame) : Option St :=
  match s.gs[i]?, f with
  | some (.decode _), .arp true hw prot =>
    if s.hw=hw then some s
    else some { s.spawn (.send (DuplicateIP prot) false false) with
      spawned := s.spawned++[DuplicateIP prot] }
  | some (.decode _), _ => some s
  | _, _ => none

/-- The cleanup task wakes: `handle.Close()`, which leaves the frames already buffered, then
`close(stop)` and `wg.Done()`. -/
def wakeStep (s : St) (i : Nat) : Option St :=
  match s.gs[i]? with
  | some (.cleanup h) => some { s.exit i (.cleanup h) with caps := s.caps.set h true }
  | _ => none

def fireStep (s : St) (i : Nat) : Option St :=
  match s.gs[i]? with
  | some (.send ip false t) => some { s with gs := s.gs.set i (.send ip true t) }
  | _ => none

/-- The consumer's `range foundIps`: the next buffered address, or the end once closed. -/
def recvStep (s : St) : Option St :=
  match s.buf with
  | ip::rest => some { s with buf := rest, received := s.received++[ip] }
  | [] => if s.closed then some { s with drained := true } else none

def step (s : St) : Act → Option St
  | .orch => orchStep s
  | .devs r => devsStep s r
  | .openLive ok => openStep s ok
  | .write ok => writeStep s ok
  | .go i c => goStep s i c
  | .frame i f => frameStep s i f
  | .wake i => wakeStep s i
  | .fire i => fireStep s i
  | .cancel => some { s with cancelled := true }
  | .recv => recvStep s

/-- The state `GetIPAddresses` leaves behind when `netInterface.Addrs()` succeeds. -/
def init (hw : List UInt8) (addrs : List Addr) (useArpBasedScan : Bool) : St :=
  { hw, orch := .addrs addrs, useArp := useArpBasedScan, gs := [], wg := 0, caps := [], buf := [],
    closed := false, cancelled := false, received := [], drained := false, closes := 0,
    sendOnClosed := false, spawned := [], dropped := [], timedOut := [], lostOnClosed := [] }

/-- `GetIPAddresses`: the error of `netInterface.Addrs()`, or the running scan. -/
def GetIPAddresses (hw : List UInt8) (addrs : Except String (List Addr)) (useArpBasedScan : Bool) :
    Except String St :=
  match addrs with
  | .error e => .error ("Error getting addresses: "++e)
  | .ok addrs => .ok (init hw addrs useArpBasedScan)

end Plc4go.Discovery
