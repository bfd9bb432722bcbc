import Plc4go.Discovery.WaitGroup

namespace Plc4go.Discovery

open Net St

/-- The addresses the goroutines still hold. -/
def pendingOf : List G → List IP
  | [] => []
  | g::gs => g.pending++pendingOf gs

@[simp] theorem pendingOf_append (gs : List G) (g : G) :
    pendingOf (gs++[g]) = pendingOf gs++g.pending := by
  induction gs <;> simp [pendingOf, *]

theorem pendingOf_set {gs : List G} {i : Nat} {g : G} (h : gs[i]? = some g) (g' : G) :
    (pendingOf (gs.set i g')++g.pending).Perm (pendingOf gs++g'.pending) := by
  induction gs generalizing i with
  | nil => simp at h
  | cons a gs ih =>
    cases i with
    | zero =>
      simp at h; subst h
      exact List.perm_iff_count.mpr fun x => by simp [pendingOf, List.count_append]; omega
    | succ i =>
      simp only [List.getElem?_cons_succ] at h
      simpa only [List.set_cons_succ, pendingOf, List.append_assoc] using (ih h).append_left a.pending

/-- No address is lost or duplicated: each one handed to a goroutine is received, buffered,
still held by a goroutine, or given up at `ctx.Done()`, at its timer or on the closed channel. -/
def Conserved (s : St) : Prop :=
  s.spawned.Perm (s.received++s.buf++pendingOf s.gs++s.dropped++s.timedOut++s.lostOnClosed)

section Conserved

variable {s s' : St}

/-- A step that hands out `new` and moves the other addresses between their places. -/
theorem Conserved.of_perm (hc : Conserved s) {new : List IP} (hs : s'.spawned=s.spawned++new)
    (hp : (s'.received++s'.buf++pendingOf s'.gs++s'.dropped++s'.timedOut++s'.lostOnClosed).Perm
      (s.received++s.buf++pendingOf s.gs++s.dropped++s.timedOut++s.lostOnClosed++new)) : Conserved s' :=
  by unfold Conserved; rw [hs]; exact (hc.append_right new).trans hp.symm

/-- A goroutine that exits gives up what it holds: into the buffer, to one of the losses, or
nothing at all. -/
theorem Conserved.exit (hc : Conserved s) {i : Nat} {g : G} (hg : s.gs[i]? = some g)
    (hsp : s'.spawned=s.spawned) (hr : s'.received=s.received) (hgs : s'.gs=s.gs.set i .exited)
    (hm : (s'.buf++s'.dropped++s'.timedOut++s'.lostOnClosed).Perm
      (s.buf++s.dropped++s.timedOut++s.lostOnClosed++g.pending)) : Conserved s' :=
  hc.of_perm (hsp.trans (List.append_nil _).symm) <| List.perm_iff_count.mpr fun x => by
    have h1 := List.perm_iff_count.mp (pendingOf_set hg .exited) x
    have h2 := List.perm_iff_count.mp hm x
    simp only [hr, hgs, G.pending, List.count_append, List.append_nil, List.count_nil] at h1 h2 ⊢
    omega

/-- An address handed to a new goroutine is one the goroutines hold. -/
theorem perm_hand_out (r b p d t l : List IP) (ip : IP) :
    (r++b++(p++[ip])++d++t++l).Perm (r++b++p++d++t++l++[ip]) :=
  List.perm_iff_count.mpr fun x => by simp only [List.count_append]; omega

theorem orchStep_conserved (hc : Conserved s) (h : orchStep s = some s') : Conserved s' := by
  cases orchStep_move h with
  | send => exact hc.of_perm rfl (by simpa only [spawn, pendingOf_append, G.pending] using perm_hand_out ..)
  | arpCancelled | arpDone => simpa [Conserved, arpReturn, spawn, G.pending] using hc
  | _ => exact hc

theorem goStep_conserved (hc : Conserved s) {i : Nat} {c : Case} (h : goStep s i c = some s') :
    Conserved s' := by
  unfold goStep at h
  split at h <;> (try split at h) <;> (try split at h) <;> cases h <;>
    exact hc.exit (by assumption) rfl rfl rfl
      (List.perm_iff_count.mpr fun x => by
        simp only [St.exit, G.pending, List.count_append, List.append_nil] <;> omega)

theorem frameStep_conserved (hc : Conserved s) {i : Nat} {f : Frame} (h : frameStep s i f = some s') :
    Conserved s' := by
  unfold frameStep at h
  split at h
  · split at h <;> cases h
    · exact hc
    · exact hc.of_perm rfl (by simpa only [spawn, pendingOf_append, G.pending] using perm_hand_out ..)
  · cases h; exact hc
  · cases h

theorem wakeStep_conserved (hc : Conserved s) {i : Nat} (h : wakeStep s i = some s') : Conserved s' := by
  unfold wakeStep at h
  split at h <;> cases h
  exact hc.exit (by assumption) rfl rfl rfl (by simp [St.exit, G.pending])

theorem fireStep_conserved (hc : Conserved s) {i : Nat} (h : fireStep s i = some s') : Conserved s' := by
  unfold fireStep at h
  split at h <;> cases h
  rename_i ip t hg
  have hpe := (List.perm_append_right_iff _).mp (pendingOf_set hg (.send ip true t))
  exact hc.trans ((((hpe.symm.append_left _).append_right _).append_right _).append_right _)

theorem recvStep_conserved (hc : Conserved s) (h : recvStep s = some s') : Conserved s' := by
  unfold recvStep at h
  split at h
  · cases h; simpa [Conserved, *] using hc
  · split at h <;> cases h; exact hc

theorem step_conserved (hc : Conserved s) {a : Act} (h : step s a = some s') : Conserved s' := by
  cases a with
  | orch => exact orchStep_conserved hc h
  | devs r =>
    simp only [step] at h; unfold devsStep at h
    split at h <;> (try split at h) <;> (try split at h) <;> cases h <;> exact hc
  | openLive ok =>
    simp only [step] at h; unfold openStep at h
    split at h <;> (try split at h) <;> cases h <;> simpa [Conserved, spawn, arpFail, G.pending] using hc
  | write ok =>
    simp only [step] at h; unfold writeStep at h
    split at h <;> (try split at h) <;> (try split at h) <;> cases h <;>
      simpa [Conserved, arpReturn, spawn, G.pending] using hc
  | go i c => exact goStep_conserved hc h
  | frame i f => exact frameStep_conserved hc h
  | wake i => exact wakeStep_conserved hc h
  | fire i => exact fireStep_conserved hc h
  | cancel => cases h; exact hc
  | recv => exact recvStep_conserved hc h

/-- What a step does to the losses and to the flags they go with: it drops an address only once
cancelled, books a timeout only under its timer's label, and loses an address only by a send on
the closed channel, which it flags; no flag is ever cleared. -/
theorem step_books {a : Act} (h : step s a = some s') :
    (s'.dropped = s.dropped ∨ s.cancelled = true) ∧ (s'.timedOut = s.timedOut ∨ ∃ i, a = .go i .timeout) ∧
    (s'.lostOnClosed = s.lostOnClosed ∨ s.closed = true ∧ s'.sendOnClosed = true) ∧
    (s.cancelled = true → s'.cancelled = true) ∧ (s.closed = true → s'.closed = true) ∧
    (s.sendOnClosed = true → s'.sendOnClosed = true) := by
  cases a with
  | orch => cases orchStep_move h <;> simp [spawn, arpReturn]
  | cancel => cases h; simp
  | go i c =>
    simp only [step] at h; unfold goStep at h
    split at h <;> (try split at h) <;> (try split at h) <;> cases h <;> simp [St.exit, *]
  | _ =>
    simp only [step, devsStep, openStep, writeStep, frameStep, wakeStep, fireStep, recvStep] at h
    repeat' split at h
    all_goals cases h <;> exact ⟨.inl rfl, .inl rfl, .inl rfl, id, id, id⟩

end Conserved

/-- The losses agree with the flags: addresses are dropped only once the context is cancelled,
and lost only on the closed channel. -/
structure Booked (s : St) : Prop where
  dropped : s.dropped = [] ∨ s.cancelled = true
  lost : s.lostOnClosed = [] ∨ s.closed = true ∧ s.sendOnClosed = true

theorem step_booked {s s' : St} {a : Act} (hb : Booked s) (h : step s a = some s') : Booked s' := by
  obtain ⟨hd, -, hl, hc, hcl, hs⟩ := step_books h
  constructor
  · rcases hd with hd | hd
    · rw [hd]; exact hb.dropped.imp_right hc
    · exact .inr (hc hd)
  · rcases hl with hl | ⟨h1, h2⟩
    · rw [hl]; exact hb.lost.imp_right fun ⟨h1, h2⟩ => ⟨hcl h1, hs h2⟩
    · exact .inr ⟨hcl h1, h2⟩

/-- The hosts of the subnets `GetIPAddresses` scans for `addrs`, address by address. -/
def expected (addrs : List Addr) : List IP :=
  addrs.flatMap fun a => ((scanNet a).map subnetHosts).getD []

/-- The candidate loop of `n` ends, with the subnet's hosts. -/
def Scans (n : IPNet) : Prop := ∃ F, candidateLoop n F (firstCandidate n) = (subnetHosts n,true)

/-- Every subnet still to scan ends its loop with its hosts. -/
def AllScan (rest : List Addr) : Prop := ∀ a ∈ rest, ∀ n, scanNet a = some n → Scans n

/-- The addresses handed to senders so far, followed by those the orchestrator will still hand
out, are the hosts of all the subnets. -/
def Progress (addrs : List Addr) (s : St) : Prop :=
  match s.orch with
  | .addrs rest => AllScan rest ∧ s.spawned++expected rest = expected addrs
  | .arpDevs n rest | .arpOpen n _ rest =>
    AllScan rest ∧ Scans n ∧ s.spawned++subnetHosts n++expected rest = expected addrs
  | .lookup n ip rest =>
    AllScan rest ∧ ∃ F l, candidateLoop n F ip = (l,true) ∧ s.spawned++l++expected rest = expected addrs
  | .arpWrite .. => False
  | .wait | .done => s.spawned = expected addrs

/-- The invariant of a quiet run from the addresses `addrs`. -/
structure ScanInv (addrs : List Addr) (s : St) : Prop where
  balanced : WgBalanced s
  closing : Closing s
  conserved : Conserved s
  drained : s.drained = true → s.closed = true ∧ s.buf = []
  live : s.cancelled = false
  noCaps : s.caps = []
  noDrops : s.dropped = [] ∧ s.timedOut = [] ∧ s.lostOnClosed = []
  tracked : ∀ g ∈ s.gs, g = .exited ∨ ∃ ip f, g = .send ip f true
  progress : Progress addrs s

section Quiet

variable {addrs : List Addr} {s s' : St}

theorem tracked_set {gs : List G} (ht : ∀ g ∈ gs, g = .exited ∨ ∃ ip f, g = .send ip f true)
    (i : Nat) {g' : G} (hg : g' = .exited ∨ ∃ ip f, g' = .send ip f true) :
    ∀ g ∈ gs.set i g', g = .exited ∨ ∃ ip f, g = .send ip f true := fun g hm =>
  (List.mem_or_eq_of_mem_set hm).elim (ht g) (fun e => e ▸ hg)

theorem orchStep_scan (hi : ScanInv addrs s) (h : orchStep s = some s') : ScanInv addrs s' := by
  have hcons := orchStep_conserved hi.conserved h
  have hb := orchStep_balanced hi.balanced h
  have hc := orchStep_closing hi.balanced hi.closing h
  have hp := hi.progress
  cases orchStep_move h with
  | finish ho =>
    simp only [Progress, ho] at hp
    exact { hi with balanced := hb, closing := hc, progress := by simpa [Progress, expected] using hp.2 }
  | cancelled _ hc' | lookupCancelled _ _ hc' | arpCancelled _ _ hc' => simp [hi.live] at hc'
  | @skip a rest ho _ hn =>
    simp only [Progress, ho] at hp
    refine { hi with balanced := hb, closing := hc, progress := ⟨fun b hb => hp.1 b (.tail a hb), ?_⟩ }
    simpa [expected, hn] using hp.2
  | @arp a rest n ho _ hn _ =>
    simp only [Progress, ho] at hp
    have he : s.spawned++subnetHosts n++expected rest = expected addrs := by simpa [expected, hn] using hp.2
    have hall : AllScan rest := fun b hb => hp.1 b (.tail a hb)
    exact { hi with balanced := hb, closing := hc, progress := ⟨hall, hp.1 a (.head rest) n hn, he⟩ }
  | @scan a rest n ho _ hn _ =>
    simp only [Progress, ho] at hp
    obtain ⟨F, hF⟩ := hp.1 a (.head rest) n hn
    have he : s.spawned++subnetHosts n++expected rest = expected addrs := by simpa [expected, hn] using hp.2
    have hall : AllScan rest := fun b hb => hp.1 b (.tail a hb)
    exact { hi with balanced := hb, closing := hc, progress := ⟨hall, F, _, hF, he⟩ }
  | send ho hcond _ =>
    simp only [Progress, ho] at hp
    obtain ⟨hall, F, l, hF, he⟩ := hp
    obtain ⟨F', l', rfl, hF'⟩ := candidateLoop_cons hcond hF
    refine { hi with balanced := hb, closing := hc, conserved := hcons, tracked := ?_, progress := ?_ }
    · intro g hg
      simp only [spawn, List.mem_append, List.mem_singleton] at hg
      exact hg.elim (hi.tracked g) fun e => .inr ⟨_, _, e⟩
    · exact ⟨hall, F', l', hF', by simpa [DuplicateIP] using he⟩
  | lookupDone ho hcond =>
    simp only [Progress, ho] at hp
    obtain ⟨hall, F, l, hF, he⟩ := hp
    rw [candidateLoop_stop (by simpa using hcond) hF] at he
    exact { hi with balanced := hb, closing := hc, progress := ⟨hall, by simpa using he⟩ }
  | arpDone ho => simp [Progress, ho] at hp
  | close ho _ =>
    have hnc : s.closed = false := by simpa [ho] using hi.closing.1
    have hd : s.drained = false := by
      cases e : s.drained
      · rfl
      · simpa [hnc] using (hi.drained e).1
    refine { hi with balanced := hb, closing := hc, drained := ?_, progress := ?_ }
    · simp [hd]
    · simpa [Progress, ho] using hp

theorem devsStep_scan (hi : ScanInv addrs s) {r : Option (List Dev)} (h : devsStep s r = some s') :
    ScanInv addrs s' := by
  have hb := devsStep_balanced hi.balanced h
  have hc : Closing s' := step_closing (a := .devs r) hi.balanced hi.closing h
  have hp := hi.progress
  unfold devsStep at h
  split at h
  · rename_i n rest ho
    simp only [Progress, ho] at hp
    obtain ⟨hall, ⟨F, hF⟩, he⟩ := hp
    split at h
    · cases h; exact { hi with balanced := hb, closing := hc, progress := ⟨hall, F, _, hF, he⟩ }
    · split at h <;> cases h
      · exact { hi with balanced := hb, closing := hc, progress := ⟨hall, F, _, hF, he⟩ }
      · exact { hi with balanced := hb, closing := hc, progress := ⟨hall, ⟨F, hF⟩, he⟩ }
  · cases h

theorem openStep_scan (hi : ScanInv addrs s) (h : openStep s false = some s') : ScanInv addrs s' := by
  have hb := openStep_balanced hi.balanced h
  have hc : Closing s' := step_closing (a := .openLive false) hi.balanced hi.closing h
  have hp := hi.progress
  unfold openStep at h
  split at h
  · rename_i n _ rest ho
    simp only [Progress, ho] at hp
    obtain ⟨hall, ⟨F, hF⟩, he⟩ := hp
    simp only [Bool.false_eq_true, if_false, Option.some.injEq] at h; subst h
    exact { hi with balanced := hb, closing := hc, progress := ⟨hall, F, _, hF, he⟩ }
  · cases h

theorem writeStep_scan (hi : ScanInv addrs s) {ok : Bool} (h : writeStep s ok = some s') :
    ScanInv addrs s' := by
  have hp := hi.progress
  unfold writeStep at h
  split at h
  · rename_i ho; simp [Progress, ho] at hp
  · cases h

theorem goStep_scan (hi : ScanInv addrs s) {i : Nat} {c : Case} (hq : c ≠ .timeout)
    (h : goStep s i c = some s') : ScanInv addrs s' := by
  have hcons := goStep_conserved hi.conserved h
  have hb := goStep_balanced hi.balanced h
  have hc : Closing s' := step_closing (a := .go i c) hi.balanced hi.closing h
  cases hg : s.gs[i]? with
  | none => simp [goStep, hg] at h
  | some g =>
    rcases hi.tracked g (List.getElem?_mem hg) with rfl | ⟨ip, f, rfl⟩
    · cases c <;> simp [goStep, hg] at h
    · cases c with
      | ctx => simp [goStep, hg, hi.live] at h
      | timeout => exact absurd rfl hq
      | stop => simp [goStep, hg] at h
      | send =>
        have hnc : s.closed = false := by
          cases e : s.closed
          · rfl
          · have h0 := hi.closing.2.2 e
            have h1 := weight_le_gsWeight hg
            simp [G.weight] at h1; omega
        simp only [goStep, hg, hnc, Bool.false_eq_true, if_false] at h
        split at h <;> cases h
        refine { hi with balanced := hb, closing := hc, conserved := hcons, drained := ?_,
                         tracked := tracked_set hi.tracked i (.inl rfl) }
        intro hd; simpa [hnc] using (hi.drained hd).1

theorem frameStep_scan (hi : ScanInv addrs s) {i : Nat} {f : Frame} (h : frameStep s i f = some s') :
    ScanInv addrs s' := by
  cases hg : s.gs[i]? with
  | none => simp [frameStep, hg] at h
  | some g => rcases hi.tracked g (List.getElem?_mem hg) with rfl | ⟨_, _, rfl⟩ <;> simp [frameStep, hg] at h

theorem wakeStep_scan (hi : ScanInv addrs s) {i : Nat} (h : wakeStep s i = some s') :
    ScanInv addrs s' := by
  unfold wakeStep at h
  split at h
  · rename_i hg
    rcases hi.tracked _ (List.getElem?_mem hg) with e | ⟨_, _, e⟩ <;> cases e
  · cases h

theorem fireStep_scan (hi : ScanInv addrs s) {i : Nat} (h : fireStep s i = some s') :
    ScanInv addrs s' := by
  have hcons := fireStep_conserved hi.conserved h
  have hb := fireStep_balanced hi.balanced h
  have hc : Closing s' := step_closing (a := .fire i) hi.balanced hi.closing h
  unfold fireStep at h
  split at h
  · rename_i ip t hg
    cases h
    have ht : t = true := by
      rcases hi.tracked _ (List.getElem?_mem hg) with e | ⟨_, _, e⟩ <;> cases e; rfl
    subst ht
    exact { hi with balanced := hb, closing := hc, conserved := hcons,
                    tracked := tracked_set hi.tracked i (.inr ⟨ip, true, rfl⟩) }
  · cases h

theorem recvStep_scan (hi : ScanInv addrs s) (h : recvStep s = some s') : ScanInv addrs s' := by
  have hcons := recvStep_conserved hi.conserved h
  have hb := recvStep_balanced hi.balanced h
  have hc : Closing s' := step_closing (a := .recv) hi.balanced hi.closing h
  unfold recvStep at h
  split at h
  · rename_i ip rest hbuf
    cases h
    refine { hi with balanced := hb, closing := hc, conserved := hcons, drained := ?_ }
    intro hd; simp [(hi.drained hd).2] at hbuf
  · rename_i hbuf
    split at h <;> cases h
    exact { hi with balanced := hb, closing := hc, drained := fun _ => ⟨by assumption, hbuf⟩ }

theorem scanInv_step (hi : ScanInv addrs s) {a : Act} (hq : Quiet a) (h : step s a = some s') :
    ScanInv addrs s' := by
  cases a with
  | orch => exact orchStep_scan hi h
  | devs r => exact devsStep_scan hi h
  | openLive ok => cases ok; exacts [openStep_scan hi h, absurd hq id]
  | write ok => exact writeStep_scan hi h
  | go i c => exact goStep_scan hi (by rintro rfl; exact hq) h
  | frame i f => exact frameStep_scan hi h
  | wake i => exact wakeStep_scan hi h
  | fire i => exact fireStep_scan hi h
  | cancel => exact absurd hq id
  | recv => exact recvStep_scan hi h

end Quiet

theorem scanNet_some {a : Addr} {n : IPNet} (h : scanNet a = some n) :
    IP.To4 n.IP ≠ [] ∧ (a = .ipNet n ∨ ∃ ip, a = .ipAddr ip ∧ n = ⟨ip, IP.DefaultMask ip⟩) := by
  cases a <;> simp only [scanNet, Option.some_bind, Option.none_bind] at h <;> (try split at h) <;>
    cases h <;> simp_all

/-- Every IPv4 `*net.IPNet` among the addresses carries a prefix mask of length `1..32`. -/
def PrefixMasks (addrs : List Addr) : Prop :=
  ∀ n, Addr.ipNet n ∈ addrs → IP.To4 n.IP ≠ [] → ∃ p, 1 ≤ p ∧ p ≤ 32 ∧ n.Mask = CIDRMask p 32

theorem allScan_of_prefixMasks {addrs : List Addr} (hm : PrefixMasks addrs) : AllScan addrs := by
  intro a ha n hn
  obtain ⟨h4, rfl | ⟨ip, rfl, rfl⟩⟩ := scanNet_some hn
  · obtain ⟨p, hp1, hp, e⟩ := hm n ha h4
    cases n; subst e; exact candidateLoop_subnetHosts (IsIPv4_of_To4 h4) hp1 hp
  · obtain ⟨p, hp1, hp, e⟩ := DefaultMask_v4 (IsIPv4_of_To4 h4)
    rw [e]; exact candidateLoop_subnetHosts (IsIPv4_of_To4 h4) hp1 hp

theorem scanInv_init (hw : List UInt8) {addrs : List Addr} (hm : PrefixMasks addrs) (useArp : Bool) :
    ScanInv addrs (init hw addrs useArp) where
  balanced := rfl
  closing := by simp [Closing, init]
  conserved := by simp [Conserved, init, pendingOf]
  drained := by simp [init]
  live := rfl
  noCaps := rfl
  noDrops := ⟨rfl, rfl, rfl⟩
  tracked := by simp [init]
  progress := ⟨allScan_of_prefixMasks hm, by simp [init]⟩

theorem pendingOf_eq_nil {gs : List G} (ht : ∀ g ∈ gs, g = .exited ∨ ∃ ip f, g = .send ip f true)
    (hz : gsWeight gs = 0) : pendingOf gs = [] := by
  induction gs with
  | nil => rfl
  | cons g gs ih =>
    simp only [gsWeight] at hz
    rcases ht g (List.mem_cons_self g gs) with rfl | ⟨ip, f, rfl⟩
    · exact ih (fun g hg => ht g (List.mem_cons_of_mem _ hg)) (by simpa [G.weight] using hz)
    · simp [G.weight] at hz

/-- A scan by IP of `192.168.1.10/30` where the first sender's timer fires and its select takes
the timeout, while the second sender delivers. -/
def lookupTimeout : List Act :=
  [.orch, .orch, .orch, .orch, .orch, .fire 0, .go 0 .timeout, .go 1 .send]

example : (run step (init [] [.ipNet ⟨[192,168,1,10], CIDRMask 30 32⟩] false) lookupTimeout).map
    (fun s => (s.timedOut, s.buf)) = some ([[192,168,1,9]], [[192,168,1,10]]) := by decide

end Plc4go.Discovery
