import Plc4go.Discovery.State

namespace Plc4go.Discovery

open Net St

/-- The wait-group count the orchestrator holds: one while inside `lockupIpsUsingArp`. -/
def Orch.weight : Orch → Nat
  | .arpDevs .. | .arpOpen .. | .arpWrite .. => 1
  | _ => 0

/-- The sum of the goroutines' wait-group counts. -/
def gsWeight : List G → Nat
  | [] => 0
  | g::gs => g.weight+gsWeight gs

theorem gsWeight_set {gs : List G} {i : Nat} {g : G} (h : gs[i]? = some g) (g' : G) :
    gsWeight (gs.set i g')+g.weight = gsWeight gs+g'.weight := by
  induction gs generalizing i with
  | nil => simp at h
  | cons a gs ih =>
    cases i with
    | zero => simp at h; subst h; simp [gsWeight]; omega
    | succ i => simp only [List.getElem?_cons_succ] at h; have := ih h; simp [gsWeight]; omega

@[simp] theorem gsWeight_append (gs : List G) (g : G) : gsWeight (gs++[g]) = gsWeight gs+g.weight := by
  induction gs <;> simp [gsWeight, *]; omega

theorem gsWeight_eq_zero {gs : List G} : gsWeight gs = 0 ↔ ∀ g ∈ gs, g.weight = 0 := by
  induction gs <;> simp [gsWeight, *]

/-- `addressWg`'s counter is the number of tracked goroutines alive, plus one while the
orchestrator is inside `lockupIpsUsingArp`. -/
def WgBalanced (s : St) : Prop := s.wg = gsWeight s.gs+s.orch.weight

theorem exit_balanced {s : St} {i : Nat} {g : G} (h : s.gs[i]? = some g) (hb : WgBalanced s) :
    (s.exit i g).wg = gsWeight (s.exit i g).gs+s.orch.weight := by
  have := gsWeight_set h .exited
  simp only [WgBalanced, exit, G.weight] at hb this ⊢
  omega

theorem orchStep_balanced {s s' : St} (hb : WgBalanced s) (h : orchStep s = some s') :
    WgBalanced s' := by
  unfold WgBalanced at hb ⊢
  cases orchStep_move h <;> simp_all [Orch.weight, spawn, arpReturn, G.weight]

theorem weight_le_gsWeight {gs : List G} {i : Nat} {g : G} (h : gs[i]? = some g) :
    g.weight ≤ gsWeight gs := by
  have := gsWeight_set h .exited
  rw [show G.exited.weight = 0 from rfl] at this; omega

theorem balanced_of_eq {s s' : St} (hb : WgBalanced s) (hw : s'.wg = s.wg) (ho : s'.orch = s.orch)
    (hg : gsWeight s'.gs = gsWeight s.gs) : WgBalanced s' := by
  simp only [WgBalanced] at hb ⊢; rw [hw, ho, hg, hb]

theorem devsStep_balanced {s s' : St} {r : Option (List Dev)} (hb : WgBalanced s)
    (h : devsStep s r = some s') : WgBalanced s' := by
  unfold WgBalanced at hb ⊢
  unfold devsStep at h
  split at h
  · rename_i ho
    split at h
    · cases h; simp [ho, arpFail, Orch.weight] at hb ⊢; omega
    · split at h <;> cases h <;> simp [ho, arpFail, Orch.weight] at hb ⊢ <;> omega
  · cases h

theorem openStep_balanced {s s' : St} {ok : Bool} (hb : WgBalanced s)
    (h : openStep s ok = some s') : WgBalanced s' := by
  unfold WgBalanced at hb ⊢
  unfold openStep at h
  split at h
  · rename_i ho
    split at h <;> cases h <;> simp [ho, arpFail, spawn, G.weight, Orch.weight] at hb ⊢ <;> omega
  · cases h

theorem writeStep_balanced {s s' : St} {ok : Bool} (hb : WgBalanced s)
    (h : writeStep s ok = some s') : WgBalanced s' := by
  unfold WgBalanced at hb ⊢
  unfold writeStep at h
  split at h
  · rename_i ho
    split at h
    · split at h <;> cases h <;> simp [ho, arpReturn, spawn, G.weight, Orch.weight] at hb ⊢ <;> omega
    · cases h
  · cases h

theorem goStep_balanced {s s' : St} {i : Nat} {c : Case} (hb : WgBalanced s)
    (h : goStep s i c = some s') : WgBalanced s' := by
  unfold goStep at h
  split at h <;> (try split at h) <;> (try split at h) <;> cases h <;>
    exact exit_balanced (by assumption) hb

theorem frameStep_balanced {s s' : St} {i : Nat} {f : Frame} (hb : WgBalanced s)
    (h : frameStep s i f = some s') : WgBalanced s' := by
  unfold frameStep at h
  split at h
  · split at h <;> cases h
    · exact hb
    · exact balanced_of_eq hb (by simp [spawn, G.weight]) rfl (by simp [spawn, G.weight])
  · cases h; exact hb
  · cases h

theorem wakeStep_balanced {s s' : St} {i : Nat} (hb : WgBalanced s)
    (h : wakeStep s i = some s') : WgBalanced s' := by
  unfold wakeStep at h
  split at h
  · cases h; exact exit_balanced (by assumption) hb
  · cases h

theorem fireStep_balanced {s s' : St} {i : Nat} (hb : WgBalanced s)
    (h : fireStep s i = some s') : WgBalanced s' := by
  unfold fireStep at h
  split at h
  · rename_i ip t hg
    cases h
    have := gsWeight_set hg (.send ip true t)
    exact balanced_of_eq hb rfl rfl (by simp only [G.weight] at this ⊢; omega)
  · cases h

theorem recvStep_balanced {s s' : St} (hb : WgBalanced s) (h : recvStep s = some s') :
    WgBalanced s' := by
  unfold recvStep at h
  split at h
  · cases h; exact hb
  · split at h
    · cases h; exact hb
    · cases h

theorem step_balanced {s s' : St} {a : Act} (hb : WgBalanced s) (h : step s a = some s') :
    WgBalanced s' := by
  cases a with
  | orch => exact orchStep_balanced hb h
  | devs r => exact devsStep_balanced hb h
  | openLive ok => exact openStep_balanced hb h
  | write ok => exact writeStep_balanced hb h
  | go i c => exact goStep_balanced hb h
  | frame i f => exact frameStep_balanced hb h
  | wake i => exact wakeStep_balanced hb h
  | fire i => exact fireStep_balanced hb h
  | cancel => cases h; exact hb
  | recv => exact recvStep_balanced hb h

/-- `foundIps` is closed exactly when the orchestrator is done, it was closed once, and by then
every goroutine the wait group tracks has exited. -/
def Closing (s : St) : Prop :=
  (s.closed = true ↔ s.orch = .done) ∧ s.closes = (if s.closed then 1 else 0) ∧
    (s.closed = true → gsWeight s.gs = 0)

theorem closing_frame {s s' : St} (hc : Closing s) (hcl : s'.closed = s.closed)
    (hcs : s'.closes = s.closes) (ho : s'.orch = .done ↔ s.orch = .done)
    (hw : gsWeight s'.gs ≤ gsWeight s.gs) : Closing s' := by
  obtain ⟨h1, h2, h3⟩ := hc
  refine ⟨by rw [hcl, ho, h1], by rw [hcs, hcl, h2], fun h => ?_⟩
  have := h3 (hcl ▸ h); omega

theorem closing_of_busy {s s' : St} (hc : Closing s) (hcl : s'.closed = s.closed)
    (hcs : s'.closes = s.closes) (ho : s.orch ≠ .done) (ho' : s'.orch ≠ .done) : Closing s' := by
  obtain ⟨h1, h2, -⟩ := hc
  have : s.closed = false := by simpa [ho] using h1
  exact ⟨by simp [hcl, this, ho'], by rw [hcs, hcl, h2], fun h => by simp [hcl, this] at h⟩

theorem gsWeight_exit {s : St} {i : Nat} {g : G} (h : s.gs[i]? = some g) :
    gsWeight (s.exit i g).gs ≤ gsWeight s.gs := by
  have := gsWeight_set h .exited
  simp only [exit]; rw [show G.exited.weight = 0 from rfl] at this; omega

theorem orchStep_closing {s s' : St} (hb : WgBalanced s) (hc : Closing s) (h : orchStep s = some s') :
    Closing s' := by
  cases orchStep_move h with
  | close ho hw =>
    have hnc : s.closed = false := by simpa [ho] using hc.1
    have hz : gsWeight s.gs = 0 := by simp [WgBalanced, ho, Orch.weight] at hb; omega
    exact ⟨by simp, by simp [hc.2.1, hnc], fun _ => hz⟩
  | _ => exact closing_of_busy hc rfl rfl (by simp [*]) (by simp [spawn, arpReturn])

theorem step_closing {s s' : St} {a : Act} (hb : WgBalanced s) (hc : Closing s)
    (h : step s a = some s') : Closing s' := by
  cases a with
  | orch => exact orchStep_closing hb hc h
  | devs r =>
    simp only [step] at h; unfold devsStep at h
    split at h <;> (try split at h) <;> (try split at h) <;> cases h <;>
      exact closing_of_busy hc rfl rfl (by simp [*]) (by simp [arpFail])
  | openLive ok =>
    simp only [step] at h; unfold openStep at h
    split at h <;> (try split at h) <;> cases h <;>
      exact closing_of_busy hc rfl rfl (by simp [*]) (by simp [arpFail, spawn])
  | write ok =>
    simp only [step] at h; unfold writeStep at h
    split at h <;> (try split at h) <;> (try split at h) <;> cases h <;>
      exact closing_of_busy hc rfl rfl (by simp [*]) (by simp [arpReturn, spawn])
  | go i c =>
    simp only [step] at h; unfold goStep at h
    split at h <;> (try split at h) <;> (try split at h) <;> cases h <;>
      exact closing_frame hc rfl rfl Iff.rfl (gsWeight_exit (by assumption))
  | frame i f =>
    simp only [step] at h; unfold frameStep at h
    split at h <;> (try split at h) <;> cases h <;>
      first
      | exact hc
      | exact closing_frame hc rfl rfl Iff.rfl (by simp [spawn, G.weight])
  | wake i =>
    simp only [step] at h; unfold wakeStep at h
    split at h <;> cases h
    exact closing_frame hc rfl rfl Iff.rfl (gsWeight_exit (by assumption))
  | fire i =>
    simp only [step] at h; unfold fireStep at h
    split at h <;> cases h
    rename_i ip t hg
    have := gsWeight_set hg (.send ip true t)
    exact closing_frame hc rfl rfl Iff.rfl (by simp only [G.weight] at this ⊢; omega)
  | cancel => cases h; exact hc
  | recv =>
    simp only [step] at h; unfold recvStep at h
    split at h <;> (try split at h) <;> cases h <;> exact closing_frame hc rfl rfl Iff.rfl le_rfl

theorem balanced_closing_of_run {hw : List UInt8} {addrs : List Addr} {useArp : Bool} {ls : List Act}
    {s : St} (h : run step (init hw addrs useArp) ls = some s) : WgBalanced s ∧ Closing s :=
  run_invariant (fun s => WgBalanced s ∧ Closing s) (fun _ => True)
    (fun _ _ _ _ hs hst => ⟨step_balanced hs.1 hst, step_closing hs.1 hs.2 hst⟩)
    (fun _ _ => trivial) ⟨by simp [WgBalanced, init, gsWeight, Orch.weight], by simp [Closing, init]⟩ h

/-- `close(foundIps)` runs at most once, and only after every goroutine the wait group tracks
(the senders of `lookupIps`, the ARP decode loops and their cleanup tasks) has exited. -/
theorem foundIps_closed_once {hw : List UInt8} {addrs : List Addr} {useArp : Bool} {ls : List Act}
    {s : St} (h : run step (init hw addrs useArp) ls = some s) :
    s.closes ≤ 1 ∧ (s.closed = true → ∀ g ∈ s.gs, g.weight = 0) := by
  obtain ⟨-, -, h2, h3⟩ := balanced_closing_of_run h
  exact ⟨by rw [h2]; split <;> omega, fun hc => gsWeight_eq_zero.mp (h3 hc)⟩

/-- A scan of `192.168.1.10/30` by ARP: the capture opens, both requests go out, and a reply from
`192.168.1.1` arrives just before the cleanup task closes the capture. -/
def arpLateReply : List Act :=
  [.orch, .devs (some [⟨"eth0", [[192,168,1,10]]⟩]), .openLive true, .write true, .write true,
    .orch, .orch, .frame 0 (.arp true [2,0,0,0,0,2] [192,168,1,1]), .wake 1, .go 0 .stop, .orch,
    .go 2 .send]

/-- The delivery goroutine of that reply is not under the wait group: the decode loop and the
cleanup task exit, the orchestrator closes `foundIps`, and the goroutine's select then takes
its send case on the closed channel. -/
theorem arpLateReply_sends_after_close :
    (run step (init [2,0,0,0,0,1] [.ipNet ⟨[192,168,1,10], CIDRMask 30 32⟩] true) arpLateReply).map
      (fun s => (s.closes, s.sendOnClosed)) = some (1, true) := by
  decide

/-- The same run closes `foundIps` once, after every tracked goroutine. -/
theorem arpLateReply_closes_once :
    ∃ s, run step (init [2,0,0,0,0,1] [.ipNet ⟨[192,168,1,10], CIDRMask 30 32⟩] true) arpLateReply = some s ∧
      s.closes ≤ 1 ∧ (s.closed = true → ∀ g ∈ s.gs, g.weight = 0) :=
  have ⟨s, h⟩ : ∃ s, run step (init [2,0,0,0,0,1] [.ipNet ⟨[192,168,1,10], CIDRMask 30 32⟩] true)
      arpLateReply = some s := ⟨_, rfl⟩
  ⟨s, h, foundIps_closed_once h⟩

end Plc4go.Discovery
