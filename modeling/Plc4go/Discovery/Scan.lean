import Plc4go.Discovery.Delivery
import Plc4go.Discovery.Shutdown

namespace Plc4go.Discovery

open Net St

section Steps

variable {s : St} {n : IPNet} {ip : IP} {a : Addr} {rest : List Addr}

theorem addrs_finish (ho : s.orch = .addrs []) : step s .orch = some { s with orch := .wait } := by
  simp [step, orchStep, ho]

theorem addrs_skip (hc : s.cancelled = false) (ho : s.orch = .addrs (a::rest)) (hn : scanNet a = none) :
    step s .orch = some { s with orch := .addrs rest } := by
  simp [step, orchStep, ho, hc, hn]

theorem addrs_scan (hc : s.cancelled = false) (ho : s.orch = .addrs (a::rest)) (hn : scanNet a = some n)
    (hu : s.useArp = false) : step s .orch = some { s with orch := .lookup n (firstCandidate n) rest } := by
  simp [step, orchStep, ho, hc, hn, hu]

theorem addrs_arp (hc : s.cancelled = false) (ho : s.orch = .addrs (a::rest)) (hn : scanNet a = some n)
    (hu : s.useArp = true) : step s .orch = some { s with orch := .arpDevs n rest, wg := s.wg+1 } := by
  simp [step, orchStep, ho, hc, hn, hu]

theorem lookup_send (hc : s.cancelled = false) (ho : s.orch = .lookup n ip rest)
    (hcond : candidateCond n ip = true) :
    step s .orch = some { s.spawn (.send (DuplicateIP ip) false true) with
      orch := .lookup n (IncrementIP ip) rest, spawned := s.spawned++[DuplicateIP ip] } := by
  simp [step, orchStep, ho, hcond, hc]

theorem lookup_done (ho : s.orch = .lookup n ip rest) (hcond : candidateCond n ip = false) :
    step s .orch = some { s with orch := .addrs rest } := by
  simp [step, orchStep, ho, hcond]

theorem send_step {i : Nat} {f t : Bool} (hg : s.gs[i]? = some (.send ip f t)) (hcl : s.closed = false)
    (hb : s.buf = []) : step s (.go i .send) = some { s.exit i (.send ip f t) with buf := [ip] } := by
  simp [step, goStep, hg, hcl, hb, foundIpsCap]

end Steps

/-- `lookupIps` hands out each candidate of its loop, then returns. -/
theorem lookup_reaches_addrs {n : IPNet} {rest : List Addr} :
    ∀ {F : Nat} {s : St} {ip : IP} {l : List IP}, s.cancelled = false → s.orch = .lookup n ip rest →
      candidateLoop n F ip = (l, true) →
      Reaches (restrict Quiet step) s fun s' => s'.orch = .addrs rest ∧ s'.cancelled = false
  | 0, _, _, _, _, _, hF => by cases hF
  | F+1, s, ip, l, hc, ho, hF => by
    cases hcond : candidateCond n ip
    · exact .restrict_cons (lookup_done ho hcond) trivial (.of ⟨rfl, hc⟩)
    · rw [candidateLoop, if_pos hcond, Prod.mk.injEq] at hF
      exact .restrict_cons (lookup_send hc ho hcond) trivial
        (lookup_reaches_addrs (F := F) hc rfl (Prod.ext rfl hF.2))

/-- The loop over the addresses, where an ARP attempt fails at `pcap.FindAllDevs` and falls
back to `lookupIps`. -/
theorem addrs_reaches_wait :
    ∀ {rest : List Addr} {s : St}, s.cancelled = false → s.orch = .addrs rest → AllScan rest →
      Reaches (restrict Quiet step) s fun s' => s'.orch = .wait
  | [], _, _, ho, _ => .restrict_cons (addrs_finish ho) trivial (.of rfl)
  | a::rest, s, hc, ho, hall => by
    have hall' : AllScan rest := fun b hb => hall b (.tail a hb)
    cases hn : scanNet a with
    | none => exact .restrict_cons (addrs_skip hc ho hn) trivial (addrs_reaches_wait hc rfl hall')
    | some n =>
      obtain ⟨F, hF⟩ := hall a (.head rest) n hn
      have hlook : ∀ t : St, t.cancelled = false → t.orch = .lookup n (firstCandidate n) rest →
          Reaches (restrict Quiet step) t fun s' => s'.orch = .wait := fun t htc hto =>
        (lookup_reaches_addrs htc hto hF).trans fun _ ⟨ho', hc'⟩ => addrs_reaches_wait hc' ho' hall'
      cases hu : s.useArp
      · exact .restrict_cons (addrs_scan hc ho hn hu) trivial (hlook _ hc rfl)
      · exact .restrict_cons (addrs_arp hc ho hn hu) trivial
          (.restrict_cons (devs_failed rfl) trivial (hlook _ hc rfl))

theorem lookup_reaches_wait {n : IPNet} {ip : IP} {rest : List Addr} {F : Nat} {l : List IP} {s : St}
    (hc : s.cancelled = false) (ho : s.orch = .lookup n ip rest) (hF : candidateLoop n F ip = (l, true))
    (hall : AllScan rest) : Reaches (restrict Quiet step) s fun s' => s'.orch = .wait :=
  (lookup_reaches_addrs hc ho hF).trans fun _ ⟨ho', hc'⟩ => addrs_reaches_wait hc' ho' hall

section Quiet

variable {addrs : List Addr} {s : St}

theorem scanInv_restrict_inv {P : St → Prop} (hi : ScanInv addrs s) (h : Reaches (restrict Quiet step) s P) :
    Reaches (restrict Quiet step) s fun s' => P s' ∧ ScanInv addrs s' :=
  h.restrict_inv (ScanInv addrs) (fun _ _ _ hs hq h => scanInv_step hs hq h) hi

/-- From a quiet state whose orchestrator is not done, it reaches `addressWg.Wait()`: a failed
`FindAllDevs` or `OpenLive` falls back to `lookupIps`. -/
theorem scan_reaches_wait (hi : ScanInv addrs s) (hd : s.orch ≠ .done) :
    Reaches (restrict Quiet step) s fun s' => s'.orch = .wait := by
  have hp := hi.progress
  rcases e : s.orch with rest | ⟨n, rest⟩ | ⟨n, d, rest⟩ | ⟨n, h, ip, rest⟩ | ⟨n, ip, rest⟩ | _ | _
  · simp only [Progress, e] at hp
    exact addrs_reaches_wait hi.live e hp.1
  · simp only [Progress, e] at hp
    obtain ⟨hall, ⟨F, hF⟩, -⟩ := hp
    exact .restrict_cons (devs_failed e) trivial (lookup_reaches_wait hi.live rfl hF hall)
  · simp only [Progress, e] at hp
    obtain ⟨hall, ⟨F, hF⟩, -⟩ := hp
    exact .restrict_cons (open_failed e) trivial (lookup_reaches_wait hi.live rfl hF hall)
  · simp [Progress, e] at hp
  · simp only [Progress, e] at hp
    obtain ⟨hall, F, l, hF, -⟩ := hp
    exact lookup_reaches_wait hi.live e hF hall
  · exact .of e
  · exact absurd e hd

theorem reaches_empty_buf :
    Reaches (restrict Quiet step) s fun s' => s'.buf = [] ∧ s'.gs = s.gs ∧ s'.orch = s.orch := by
  generalize hb : s.buf = b
  induction b generalizing s with
  | nil => exact .of ⟨hb, rfl, rfl⟩
  | cons ip rest ih =>
    exact .restrict_cons (recv_buffered hb) trivial (ih (s := { s with buf := rest, received := s.received++[ip] }) rfl)

theorem reaches_sent (hi : ScanInv addrs s) (hw : s.orch = .wait) :
    Reaches (restrict Quiet step) s fun s' => (∀ g ∈ s'.gs, g = .exited) ∧ s'.orch = .wait := by
  suffices ∀ n (t : St), t.gs.countP (· != .exited) = n → ScanInv addrs t → t.orch = .wait →
      Reaches (restrict Quiet step) t fun s' => (∀ g ∈ s'.gs, g = .exited) ∧ s'.orch = .wait from
    this _ s rfl hi hw
  intro n
  induction n with
  | zero => exact fun t hn _ hw => .of ⟨fun g hg => by simpa using List.countP_eq_zero.mp hn g hg, hw⟩
  | succ n ih =>
    intro t hn ht hw
    obtain ⟨g, hg, hne⟩ := List.countP_pos_iff.mp (by rw [hn]; omega)
    obtain ⟨i, hgi⟩ := List.mem_iff_getElem?.mp hg
    obtain ⟨ip, f, rfl⟩ : ∃ ip f, g = .send ip f true := (ht.tracked _ hg).resolve_left (by simpa using hne)
    refine (scanInv_restrict_inv ht reaches_empty_buf).trans fun u ⟨⟨hb, hgs, ho⟩, hu⟩ => ?_
    have hiu : u.gs[i]? = some (.send ip f true) := hgs ▸ hgi
    have hcl : u.closed = false := by simpa [ho, hw] using hu.closing.1
    have hs := send_step hiu hcl hb
    have hn' : (u.gs.set i .exited).countP (· != .exited) = n := by
      rw [List.countP_set _ _ _ _ (List.getElem?_eq_some_iff.mp hiu).1, (List.getElem?_eq_some_iff.mp hiu).2,
        hgs, hn]
      simp
    exact .restrict_cons hs trivial (ih _ hn' (scanInv_step hu (by trivial) hs) (ho.trans hw))

/-- From every state of a quiet run, a quiet schedule closes `foundIps` and ends the consumer's
`range`. -/
theorem scan_reaches_drained (hi : ScanInv addrs s) :
    Reaches (restrict Quiet step) s fun s' => s'.drained = true := by
  by_cases hd : s.orch = .done
  · exact (reaches_drained (hi.closing.1.mpr hd)).trans fun _ h => .of h.1
  · refine (scanInv_restrict_inv hi (scan_reaches_wait hi hd)).trans fun t ⟨hw, ht⟩ => ?_
    refine (scanInv_restrict_inv ht (reaches_sent ht hw)).trans fun u ⟨⟨hall, hw'⟩, hu⟩ => ?_
    exact (reaches_end_of_exited hu.balanced hall (.inl hw')).trans fun _ he => .of he.2.2.1

/-- A consumer of a quiet run that has drained `foundIps` up to its close has received exactly
the hosts of the scanned subnets. -/
theorem received_of_drained (hi : ScanInv addrs s) (hd : s.drained = true) :
    s.received.Perm (expected addrs) := by
  obtain ⟨hcl, hbuf⟩ := hi.drained hd
  have hdone : s.orch = .done := hi.closing.1.mp hcl
  have hsp : s.spawned = expected addrs := by simpa [Progress, hdone] using hi.progress
  have hp : pendingOf s.gs = [] := pendingOf_eq_nil hi.tracked (hi.closing.2.2 hcl)
  obtain ⟨h1, h2, h3⟩ := hi.noDrops
  rw [← hsp]
  simpa [Conserved, hbuf, hp, h1, h2, h3] using hi.conserved.symm

end Quiet

/-- In a run where the context is never cancelled, no capture handle opens (the scan is by IP,
or each ARP attempt fails before `pcap.OpenLive` succeeds) and no select takes its timeout, a
consumer that has drained `foundIps` up to its close has received exactly the hosts of the
scanned subnets, one copy per address entry, in some order; and from every state of such a run,
such a schedule goes on to the close and the end of the consumer's `range`. -/
theorem scan_delivers_hosts (hw : List UInt8) (addrs : List Addr) (useArpBasedScan : Bool)
    (hm : PrefixMasks addrs) (ls : List Act)
    (hq : ∀ a ∈ ls, a ≠ .cancel ∧ a ≠ .openLive true ∧ ∀ i, a ≠ .go i .timeout) {s : St}
    (hs : run step (init hw addrs useArpBasedScan) ls = some s) :
    (s.drained = true → s.received.Perm (expected addrs)) ∧
    ∃ ls' s', (∀ a ∈ ls', a ≠ .cancel ∧ a ≠ .openLive true ∧ ∀ i, a ≠ .go i .timeout) ∧
      run step s ls' = some s' ∧ s'.drained = true ∧ s'.received.Perm (expected addrs) := by
  have hi := run_invariant (ScanInv addrs) Quiet (fun _ _ _ ha hi h => scanInv_step hi ha h)
    (fun a ha => quiet_iff.mpr (hq a ha)) (scanInv_init hw hm useArpBasedScan) hs
  obtain ⟨ls', s', hr, hd, hi'⟩ := scanInv_restrict_inv hi (scan_reaches_drained hi)
  obtain ⟨hq', hr'⟩ := run_restrict hr
  exact ⟨received_of_drained hi, ls', s', fun a ha => quiet_iff.mp (hq' a ha), hr', hd,
    received_of_drained hi' hd⟩

/-- ARP on for `192.168.1.10/30`: the device is found and `pcap.OpenLive` fails, so the scan
falls back to `lookupIps`. -/
def arpFallback : List Act := [.orch, .devs (some [⟨"eth0", [[192,168,1,10]]⟩]), .openLive false]

theorem scan_delivers_hosts_arpFallback :
    ∃ s, run step (init [2,0,0,0,0,1] [.ipNet ⟨[192,168,1,10], CIDRMask 30 32⟩] true) arpFallback = some s ∧
      (s.drained = true → s.received.Perm (expected [.ipNet ⟨[192,168,1,10], CIDRMask 30 32⟩])) ∧
      ∃ ls' s', (∀ a ∈ ls', a ≠ .cancel ∧ a ≠ .openLive true ∧ ∀ i, a ≠ .go i .timeout) ∧
        run step s ls' = some s' ∧ s'.drained = true ∧
        s'.received.Perm (expected [.ipNet ⟨[192,168,1,10], CIDRMask 30 32⟩]) :=
  have ⟨s, h⟩ : ∃ s, run step (init [2,0,0,0,0,1] [.ipNet ⟨[192,168,1,10], CIDRMask 30 32⟩] true)
      arpFallback = some s := ⟨_, rfl⟩
  ⟨s, h, scan_delivers_hosts _ _ true
    (fun n hn _ => by simp at hn; subst hn; exact ⟨30, by decide, by decide, rfl⟩) arpFallback
    (by simp [arpFallback]) h⟩

example : expected [.ipNet ⟨[192,168,1,10], CIDRMask 30 32⟩] = [[192,168,1,9], [192,168,1,10]] := by decide

end Plc4go.Discovery
