import Plc4go.Discovery.WaitGroup

namespace Plc4go.Discovery

open Net St

/-- What the shutdown leaves alone until the close: the cancellation, the channel and what the
consumer holds and can still read, and whether a send found `foundIps` closed. -/
structure Untouched (s s' : St) : Prop where
  cancelled : s'.cancelled=s.cancelled
  closed : s'.closed=s.closed
  buf : s'.buf=s.buf
  received : s'.received=s.received
  sendOnClosed : s'.sendOnClosed=s.sendOnClosed

theorem Untouched.refl (s : St) : Untouched s s := ⟨rfl, rfl, rfl, rfl, rfl⟩

theorem Untouched.trans {s t u : St} (h : Untouched s t) (h' : Untouched t u) : Untouched s u :=
  ⟨h'.1.trans h.1, h'.2.trans h.2, h'.3.trans h.3, h'.4.trans h.4, h'.5.trans h.5⟩

section Shutdown

variable {s : St}

theorem addrs_cancelled {rest : List Addr} (hc : s.cancelled = true) (ho : s.orch = .addrs rest) :
    step s .orch = some { s with orch := .wait } := by
  cases rest <;> simp [step, orchStep, ho, hc]

theorem lookup_cancelled {n : IPNet} {ip : IP} {rest : List Addr} (hc : s.cancelled = true)
    (ho : s.orch = .lookup n ip rest) : step s .orch = some { s with orch := .addrs rest } := by
  simp [step, orchStep, ho, hc]

theorem devs_failed {n : IPNet} {rest : List Addr} (ho : s.orch = .arpDevs n rest) :
    step s (.devs none) = some (s.arpFail n rest) := by
  simp [step, devsStep, ho]

theorem open_failed {n : IPNet} {d : String} {rest : List Addr} (ho : s.orch = .arpOpen n d rest) :
    step s (.openLive false) = some (s.arpFail n rest) := by
  simp [step, openStep, ho]

/-- `writeArp` returns at its `ctx.Err()` check, or when its loop ends. -/
theorem arpWrite_cancelled {n : IPNet} {h : Nat} {ip : IP} {rest : List Addr} (hc : s.cancelled = true)
    (ho : s.orch = .arpWrite n h ip rest) : step s .orch = some (s.arpReturn n h rest (candidateCond n ip)) := by
  cases e : candidateCond n ip <;> simp [step, orchStep, ho, hc, e]

/-- A step that leaves alone what the shutdown leaves alone, on the way to `addressWg.Wait()`. -/
theorem reaches_wait_cons {a : Act} {s1 : St} (h : step s a = some s1) (hq : Quiet a) (hu : Untouched s s1)
    (h' : Reaches (restrict Quiet step) s1 fun s' => s'.orch = .wait ∧ Untouched s1 s') :
    Reaches (restrict Quiet step) s fun s' => s'.orch = .wait ∧ Untouched s s' :=
  .restrict_cons h hq (h'.trans fun _ ⟨hw, hu'⟩ => .of ⟨hw, hu.trans hu'⟩)

theorem reaches_wait_of_addrs {rest : List Addr} (hc : s.cancelled = true) (ho : s.orch = .addrs rest) :
    Reaches (restrict Quiet step) s fun s' => s'.orch = .wait ∧ Untouched s s' :=
  .restrict_cons (addrs_cancelled hc ho) trivial (.of ⟨rfl, ⟨rfl, rfl, rfl, rfl, rfl⟩⟩)

theorem reaches_wait_of_lookup {n : IPNet} {ip : IP} {rest : List Addr} (hc : s.cancelled = true)
    (ho : s.orch = .lookup n ip rest) : Reaches (restrict Quiet step) s fun s' => s'.orch = .wait ∧ Untouched s s' :=
  reaches_wait_cons (lookup_cancelled hc ho) trivial ⟨rfl, rfl, rfl, rfl, rfl⟩ (reaches_wait_of_addrs hc rfl)

/-- A failed ARP attempt falls back to `lookupIps`, which returns at its first `ctx.Err()`. -/
theorem reaches_wait_of_arpFail {n : IPNet} {rest : List Addr} (hc : s.cancelled = true) :
    Reaches (restrict Quiet step) (s.arpFail n rest) fun s' => s'.orch = .wait ∧ Untouched (s.arpFail n rest) s' :=
  reaches_wait_of_lookup hc rfl

theorem reaches_wait (hc : s.cancelled = true) (ho : s.orch ≠ .done) :
    Reaches (restrict Quiet step) s fun s' => s'.orch = .wait ∧ Untouched s s' := by
  rcases e : s.orch with rest | ⟨n, rest⟩ | ⟨n, d, rest⟩ | ⟨n, h, ip, rest⟩ | ⟨n, ip, rest⟩ | _ | _
  · exact reaches_wait_of_addrs hc e
  · exact reaches_wait_cons (devs_failed e) trivial ⟨rfl, rfl, rfl, rfl, rfl⟩ (reaches_wait_of_arpFail hc)
  · exact reaches_wait_cons (open_failed e) trivial ⟨rfl, rfl, rfl, rfl, rfl⟩ (reaches_wait_of_arpFail hc)
  · have hs := arpWrite_cancelled hc e
    generalize candidateCond n ip = b at hs
    cases b
    · exact reaches_wait_cons hs trivial ⟨rfl, rfl, rfl, rfl, rfl⟩ (reaches_wait_of_addrs hc rfl)
    · exact reaches_wait_cons hs trivial ⟨rfl, rfl, rfl, rfl, rfl⟩ (reaches_wait_of_lookup hc rfl)
  · exact reaches_wait_of_lookup hc e
  · exact .of ⟨e, Untouched.refl s⟩
  · exact absurd e ho

theorem exit_step {i : Nat} {g : G} (hc : s.cancelled = true) (hg : s.gs[i]? = some g)
    (hne : g ≠ .exited) :
    ∃ a s', step s a = some s' ∧ Quiet a ∧ s'.gs = s.gs.set i .exited ∧ s'.orch = s.orch ∧ Untouched s s' := by
  cases g with
  | send ip f t => exact ⟨.go i .ctx, { s.exit i (.send ip f t) with dropped := s.dropped++[ip] },
      by simp [step, goStep, hg, hc], trivial, rfl, rfl, ⟨rfl, rfl, rfl, rfl, rfl⟩⟩
  | decode h => exact ⟨.go i .ctx, s.exit i (.decode h), by simp [step, goStep, hg, hc], trivial, rfl, rfl,
      ⟨rfl, rfl, rfl, rfl, rfl⟩⟩
  | cleanup h => exact ⟨.wake i, { s.exit i (.cleanup h) with caps := s.caps.set h true },
      by simp [step, wakeStep, hg], trivial, rfl, rfl, ⟨rfl, rfl, rfl, rfl, rfl⟩⟩
  | exited => exact absurd rfl hne

theorem reaches_exited (hc : s.cancelled = true) :
    Reaches (restrict Quiet step) s fun s' => (∀ g ∈ s'.gs, g = .exited) ∧ s'.orch = s.orch ∧ Untouched s s' := by
  suffices ∀ n (t : St), t.gs.countP (· != .exited) = n → t.cancelled = true →
      Reaches (restrict Quiet step) t fun s' => (∀ g ∈ s'.gs, g = .exited) ∧ s'.orch = t.orch ∧ Untouched t s' from
    this _ s rfl hc
  intro n
  induction n with
  | zero =>
    intro t hn _
    exact .of ⟨fun g hg => by simpa using List.countP_eq_zero.mp hn g hg, rfl, Untouched.refl t⟩
  | succ n ih =>
    intro t hn htc
    obtain ⟨g, hg, hne⟩ := List.countP_pos_iff.mp (by rw [hn]; omega)
    have hne' : g ≠ .exited := by simpa using hne
    obtain ⟨i, hi⟩ := List.mem_iff_getElem?.mp hg
    obtain ⟨a, t', hs, hq, hgs, ho, hu⟩ := exit_step htc hi hne'
    have hn' : t'.gs.countP (· != .exited) = n := by
      rw [hgs, List.countP_set _ _ _ _ (List.getElem?_eq_some_iff.mp hi).1,
        (List.getElem?_eq_some_iff.mp hi).2]
      simp [hne', hn]
    exact .restrict_cons hs hq ((ih t' hn' (hu.1.trans htc)).trans fun s' ⟨hall, ho', hu'⟩ =>
      .of ⟨hall, ho'.trans ho, hu.trans hu'⟩)

theorem recv_buffered {ip : IP} {rest : List IP} (h : s.buf = ip::rest) :
    step s .recv = some { s with buf := rest, received := s.received++[ip] } := by
  simp [step, recvStep, h]

theorem recv_end (h : s.buf = []) (hcl : s.closed = true) : step s .recv = some { s with drained := true } := by
  simp [step, recvStep, h, hcl]

theorem reaches_drained (hcl : s.closed = true) :
    Reaches (restrict Quiet step) s fun s' => s'.drained = true ∧ s'.received = s.received++s.buf ∧ s'.buf = [] ∧
      s'.orch = s.orch ∧ s'.gs = s.gs ∧ s'.closed = true ∧ s'.sendOnClosed = s.sendOnClosed := by
  generalize hb : s.buf = b
  induction b generalizing s with
  | nil => exact .restrict_cons (recv_end hb hcl) trivial (.of ⟨rfl, by simp, hb, rfl, rfl, hcl, rfl⟩)
  | cons ip rest ih =>
    refine .restrict_cons (recv_buffered hb) trivial
      ((ih (s := { s with buf := rest, received := s.received++[ip] }) hcl rfl).trans fun s' hs => .of ?_)
    obtain ⟨h1, h2, h3, h4, h5, h6, h7⟩ := hs
    exact ⟨h1, by simp [h2], h3, h4, h5, h6, h7⟩

theorem close_step (hw : s.orch = .wait) (hz : s.wg = 0) :
    step s .orch = some { s with orch := .done, closed := true, closes := s.closes+1 } := by
  simp [step, orchStep, hw, hz]

/-- The scan that was at `s` is over: the orchestrator closed `foundIps`, every goroutine has
exited, and the consumer's `range` ended after reading what was buffered at `s`. -/
def Ended (s s' : St) : Prop :=
  s'.orch = .done ∧ s'.closed = true ∧ s'.drained = true ∧ (∀ g ∈ s'.gs, g = .exited) ∧
    s'.received = s.received++s.buf ∧ s'.sendOnClosed = s.sendOnClosed

theorem Ended.of_untouched {t s' : St} (hu : Untouched s t) (he : Ended t s') : Ended s s' :=
  let ⟨h1, h2, h3, h4, h5, h6⟩ := he
  ⟨h1, h2, h3, h4, by rw [h5, hu.received, hu.buf], h6.trans hu.sendOnClosed⟩

/-- The end of the shutdown once no goroutine is left: the close, if the orchestrator still
waits, and the drain. -/
theorem reaches_end_of_exited (hb : WgBalanced s) (hall : ∀ g ∈ s.gs, g = .exited)
    (ho : s.orch = .wait ∨ s.orch = .done ∧ s.closed = true) : Reaches (restrict Quiet step) s (Ended s) := by
  rcases ho with hw | ⟨hd, hc⟩
  · have hz : s.wg = 0 := by
      have := gsWeight_eq_zero.mpr fun g hg => by rw [hall g hg]; rfl
      simp only [WgBalanced, hw, Orch.weight] at hb; omega
    exact .restrict_cons (close_step hw hz) trivial ((reaches_drained rfl).trans fun s' ⟨hd, hr, _, ho, hg, hc, hp⟩ =>
      .of ⟨ho, hc, hd, hg ▸ hall, hr, hp⟩)
  · exact (reaches_drained hc).trans fun s' ⟨hd', hr, _, ho, hg, hc', hp⟩ =>
      .of ⟨ho.trans hd, hc', hd', hg ▸ hall, hr, hp⟩

/-- The shutdown keeps `addressWg` balanced. -/
theorem reaches_and_balanced {P : St → Prop} (hb : WgBalanced s) (h : Reaches (restrict Quiet step) s P) :
    Reaches (restrict Quiet step) s fun s' => P s' ∧ WgBalanced s' :=
  h.restrict_inv WgBalanced (fun _ _ _ hb _ h => step_balanced hb h) hb

/-- A cancelled scan whose orchestrator waits, or is done, ends. -/
theorem reaches_end (hc : s.cancelled = true) (hb : WgBalanced s)
    (ho : s.orch = .wait ∨ s.orch = .done ∧ s.closed = true) : Reaches (restrict Quiet step) s (Ended s) :=
  (reaches_and_balanced hb (reaches_exited hc)).trans fun t ⟨⟨hall, ho', hu⟩, hbt⟩ =>
      (reaches_end_of_exited hbt hall (by rw [ho', hu.closed]; exact ho)).trans fun _ he =>
        .of (he.of_untouched hu)

end Shutdown

/-- From every state a run of `GetIPAddresses` reaches, cancelling the context lets the scan
finish: some schedule after the cancellation stops every goroutine, closes `foundIps` and ends
the consumer's `range`, which receives exactly what was buffered, and no send finds the channel
closed on the way. -/
theorem cancel_shuts_down {hw : List UInt8} {addrs : List Addr} {useArp : Bool} {ls : List Act}
    {s : St} (h : run step (init hw addrs useArp) ls = some s) :
    ∃ ls' s', run step s (.cancel::ls') = some s' ∧ s'.orch = .done ∧ s'.closed = true ∧
      s'.drained = true ∧ (∀ g ∈ s'.gs, g = .exited) ∧ s'.received = s.received++s.buf ∧
      s'.sendOnClosed = s.sendOnClosed := by
  obtain ⟨hb, hcl, -, -⟩ := balanced_closing_of_run h
  let s1 := { s with cancelled := true }
  have hb1 : WgBalanced s1 := hb
  suffices Reaches (restrict Quiet step) s1 (Ended s) from
    let ⟨ls', s', hr, hp⟩ := this; ⟨ls', s', (run_restrict hr).2, hp⟩
  by_cases hd : s.orch = .done
  · exact reaches_end rfl hb1 (.inr ⟨hd, hcl.mpr hd⟩)
  · exact (reaches_and_balanced hb1 (reaches_wait (s := s1) rfl hd)).trans fun t ⟨⟨hw, hu⟩, hbt⟩ =>
      (reaches_end hu.cancelled hbt (.inl hw)).trans fun _ he => .of (Ended.of_untouched (s := s1) hu he)

/-- Cancelling the ARP scan of `192.168.1.10/30` once a reply has come in: the reply's
delivery goroutine takes the `Done` case, and the scan ends. -/
theorem arpLateReply_cancel_shuts_down :
    ∃ s, run step (init [2,0,0,0,0,1] [.ipNet ⟨[192,168,1,10], CIDRMask 30 32⟩] true) (arpLateReply.take 8) = some s ∧
      ∃ ls' s', run step s (.cancel::ls') = some s' ∧ s'.orch = .done ∧ s'.closed = true ∧
        s'.drained = true ∧ (∀ g ∈ s'.gs, g = .exited) ∧ s'.received = s.received++s.buf ∧
        s'.sendOnClosed = s.sendOnClosed :=
  have ⟨s, h⟩ : ∃ s, run step (init [2,0,0,0,0,1] [.ipNet ⟨[192,168,1,10], CIDRMask 30 32⟩] true)
      (arpLateReply.take 8) = some s := ⟨_, rfl⟩
  ⟨s, h, cancel_shuts_down h⟩

end Plc4go.Discovery
