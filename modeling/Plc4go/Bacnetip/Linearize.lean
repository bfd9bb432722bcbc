import Plc4go.Bacnetip.Cache

namespace Plc4go.Bacnetip

/-- The insert a call in `.built` is about to make. -/
def Phase.insert? : Phase → Option (List Char × Codec)
  | .built k c => some (k, c)
  | _ => none

/-- The result a call has settled on: returned, or constructed and about to be inserted. -/
def Phase.outcome : Phase → Option Got
  | .returned _ r => some r
  | .built _ c => some (.codec c)
  | _ => none

/-- The manager as the sequential code has it: with the lock holder's pending insert made. -/
def Cache.view (s : Cache) : Manager :=
  match s.calls.findSome? Phase.insert? with
  | some (k, c) => ⟨setKey s.manager.applications k c, s.manager.next⟩
  | none => s.manager

/-- The sequential section a step completes, if any, with the call whose section it is: the
lookup of a key the map holds (its construction outcome is not read, `true` stands for it), or a
construction. -/
def Cache.section? (s : Cache) : CAct → Option (Nat × List Char × Bool)
  | .lookup i =>
    match s.calls[i]? with
    | some (.locked k _) => if (s.manager.applications k).isSome then some (i, k, true) else none
    | _ => none
  | .construct i ok =>
    match s.calls[i]? with
    | some (.missed k _) => some (i, k, ok)
    | _ => none
  | _ => none

/-- The sections of a run, in the order they took effect. -/
def runSections : Cache → List CAct → List (Nat × List Char × Bool)
  | _, [] => []
  | s, a::ls =>
    match cstep s a with
    | some s' => (s.section? a).toList++runSections s' ls
    | none => []

/-- The sequential calls' sections from a manager. -/
def sequential (m : Manager) (hist : List (Nat × List Char × Bool)) : Manager :=
  hist.foldl (fun m e => (lookupOrCreate m e.2.1 e.2.2).2) m

section Lists

variable {α β : Type} {f : α → Option β} {l : List α} {i : Nat} {p q : α}

theorem findSome?_set_of_none (hp : l[i]? = some p) (hfp : f p = none) (hfq : f q = none) :
    (l.set i q).findSome? f = l.findSome? f := by
  induction l generalizing i with
  | nil => simp at hp
  | cons x xs ih =>
    cases i with
    | zero => simp at hp; subst hp; simp [List.findSome?, hfp, hfq]
    | succ i => simp only [List.set_cons_succ, List.findSome?, ih (by simpa using hp)]

/-- The first hit of a list with one element that hits. -/
theorem findSome?_of_unique (hp : l[i]? = some p)
    (ho : ∀ (j : Nat) q, l[j]? = some q → (f q).isSome → j = i) : l.findSome? f = f p := by
  have hat : ∀ x ∈ l, (f x).isSome → x = p := fun x hx hs => by
    obtain ⟨j, hj⟩ := List.mem_iff_getElem?.1 hx
    rw [ho j x hj hs, hp] at hj; exact (Option.some.inj hj).symm
  cases hf : l.findSome? f with
  | none => exact ((List.findSome?_eq_none_iff.1 hf) p (List.getElem?_mem hp)).symm
  | some b =>
    obtain ⟨x, hx, hb⟩ := List.exists_of_findSome?_eq_some hf
    rw [← hat x hx (by simp [hb]), hb]

end Lists

section View

variable {s s' : Cache} {i : Nat}

theorem Phase.holds_of_insert? {p : Phase} (h : p.insert?.isSome) : p.holds := by
  cases p <;> simp_all [Phase.insert?, Phase.holds]

/-- With the lock free, no insert is pending. -/
theorem CacheInv.view_free (hi : CacheInv s) (hl : s.lock = none) : s.view = s.manager := by
  have : s.calls.findSome? Phase.insert? = none := List.findSome?_eq_none_iff.2 fun x hx => by
    obtain ⟨j, hj⟩ := List.mem_iff_getElem?.1 hx
    cases h : x.insert? with
    | none => rfl
    | some _ => simpa [hl] using (hi.phases j x hj).lock_eq (Phase.holds_of_insert? (by simp [h]))
  simp [Cache.view, this]

/-- The pending insert is the lock holder's. -/
theorem CacheInv.view_holder {p : Phase} (hi : CacheInv s) (hl : s.lock = some i) (hp : s.calls[i]? = some p) :
    s.calls.findSome? Phase.insert? = p.insert? :=
  findSome?_of_unique hp fun j q hq hs => by
    simpa [hl] using ((hi.phases j q hq).lock_eq (Phase.holds_of_insert? hs)).symm

/-- A step that moves one call between phases with no insert pending leaves the view. -/
theorem view_set {p q : Phase} (hp : s.calls[i]? = some p) (hfp : p.insert? = none) (hfq : q.insert? = none) :
    ({ s with calls := s.calls.set i q } : Cache).view = s.view := by
  simp only [Cache.view, findSome?_set_of_none hp hfp hfq]

/-- Resolving and dialing, `a.Lock()` and the lookup that misses leave the view. -/
theorem cstep_view_stutter (hi : CacheInv s) {a : CAct} (h : cstep s a = some s') (hn : s.section? a = none) :
    s'.view = s.view := by
  cases a with
  | enter u o =>
    cases h; simp [Cache.view, List.findSome?_append, Phase.insert?]
  | prepare i env =>
    obtain ⟨u, o, q, hc, hq, -, rfl⟩ := prepareStep_cases h
    exact view_set hc rfl (by cases q <;> simp_all [Phase.holds, Phase.insert?])
  | lock i =>
    obtain ⟨k, hc, hl, rfl⟩ := lockStep_cases h
    exact view_set (s := { s with lock := some i }) hc rfl rfl
  | lookup i =>
    obtain ⟨k, snap, hc, ⟨c, ha, rfl⟩ | ⟨-, rfl⟩⟩ := lookupStep_cases h
    · simp [Cache.section?, hc, ha] at hn
    · exact view_set hc rfl rfl
  | construct i ok =>
    obtain ⟨k, snap, hc, -⟩ := constructStep_cases h
    simp [Cache.section?, hc] at hn
  | insert i =>
    obtain ⟨k, c, hc, rfl⟩ := insertStep_cases h
    have hl := (hi.phases i _ hc).1
    have hi' := cstep_inv hi h
    rw [hi'.view_free rfl]
    simp [Cache.view, hi.view_holder hl hc, Phase.insert?]

/-- The step that completes a section does what the sequential `lookupOrCreate` of the call's
key does to the view, and the call's result is that section's result. -/
theorem cstep_view_section (hi : CacheInv s) {a : CAct} {i : Nat} {k : List Char} {ok : Bool}
    (h : cstep s a = some s') (hn : s.section? a = some (i, k, ok)) :
    s'.view = (lookupOrCreate s.view k ok).2 ∧
      s'.calls[i]?.bind Phase.outcome = some (lookupOrCreate s.view k ok).1 := by
  cases a with
  | lookup j =>
    obtain ⟨k', snap, hc, ⟨c, ha, rfl⟩ | ⟨ha, -⟩⟩ := lookupStep_cases h
    · simp only [Cache.section?, hc, ha, Option.isSome_some, if_true, Option.some.injEq, Prod.mk.injEq] at hn
      obtain ⟨rfl, rfl, rfl⟩ := hn
      have hv : s.view = s.manager := by
        simp [Cache.view, hi.view_holder (hi.phases j _ hc).1 hc, Phase.insert?]
      have hi' := cstep_inv hi h
      refine ⟨by rw [hi'.view_free rfl, hv]; simp [lookupOrCreate, ha], ?_⟩
      simp [hv, lookupOrCreate, ha, getElem?_set_of_some hc, Phase.outcome]
    · simp [Cache.section?, hc, ha] at hn
  | construct j ok' =>
    obtain ⟨k', snap, hc, hcase⟩ := constructStep_cases h
    simp only [Cache.section?, hc, Option.some.injEq, Prod.mk.injEq] at hn
    obtain ⟨rfl, rfl, rfl⟩ := hn
    obtain ⟨hl, hs, hk⟩ := hi.phases j _ hc
    have ha : s.manager.applications k' = none := hs ▸ hk
    have hv : s.view = s.manager := by simp [Cache.view, hi.view_holder hl hc, Phase.insert?]
    have hi' := cstep_inv hi h
    rcases hcase with ⟨rfl, rfl⟩ | ⟨hok, rfl⟩
    · refine ⟨?_, ?_⟩
      · rw [hv]; simp [Cache.view, hi'.view_holder hl (getElem?_set_of_some hc), Phase.insert?, lookupOrCreate, ha]
      · simp [getElem?_set_of_some hc, Phase.outcome, hv, lookupOrCreate, ha]
    · simp only [Bool.not_eq_true] at hok; subst hok
      refine ⟨by rw [hi'.view_free rfl, hv]; simp [lookupOrCreate, ha], ?_⟩
      simp [getElem?_set_of_some hc, Phase.outcome, hv, lookupOrCreate, ha]
  | _ => simp [Cache.section?] at hn

/-- A settled result stays: only the insert moves a call that has one, and it returns the codec
the call constructed. -/
theorem cstep_outcome {a : CAct} {r : Got} (h : cstep s a = some s')
    (ho : s.calls[i]?.bind Phase.outcome = some r) : s'.calls[i]?.bind Phase.outcome = some r := by
  obtain ⟨p, hp, hpo⟩ : ∃ p, s.calls[i]? = some p ∧ p.outcome = some r := by
    cases hp : s.calls[i]? <;> simp_all
  have hset : ∀ j q, (∀ p', s.calls[j]? = some p' → p'.outcome = none ∨ q.outcome = p'.outcome) →
      (s.calls.set j q)[i]?.bind Phase.outcome = some r := fun j q hq => by
    by_cases hij : i = j
    · subst hij
      rw [getElem?_set_of_some hp]
      rcases hq p hp with e | e <;> simp_all
    · rw [List.getElem?_set_ne (Ne.symm hij)]; simp [hp, hpo]
  have hnone : ∀ (j : Nat) (q p : Phase), s.calls[j]? = some p → p.outcome = none →
      ∀ p', s.calls[j]? = some p' → p'.outcome = none ∨ q.outcome = p'.outcome :=
    fun j q p hj hn p' hp' => .inl (by rw [hj] at hp'; cases hp'; exact hn)
  cases a with
  | enter u o => cases h; simp [getElem?_concat_of_some hp, hpo]
  | prepare j env =>
    obtain ⟨u, o, q, hc, -, -, rfl⟩ := prepareStep_cases h; exact hset j q (hnone j q _ hc rfl)
  | lock j => obtain ⟨k, hc, -, rfl⟩ := lockStep_cases h; exact hset j _ (hnone j _ _ hc rfl)
  | lookup j =>
    obtain ⟨k, snap, hc, ⟨c, -, rfl⟩ | ⟨-, rfl⟩⟩ := lookupStep_cases h <;>
      exact hset j _ (hnone j _ _ hc rfl)
  | construct j ok =>
    obtain ⟨k, snap, hc, ⟨-, rfl⟩ | ⟨-, rfl⟩⟩ := constructStep_cases h <;>
      exact hset j _ (hnone j _ _ hc rfl)
  | insert j =>
    obtain ⟨k, c, hc, rfl⟩ := insertStep_cases h
    exact hset j _ fun p' hp' => .inr (by rw [hc] at hp'; cases hp'; rfl)

theorem run_outcome {ls : List CAct} {r : Got} (h : run cstep s ls = some s')
    (ho : s.calls[i]?.bind Phase.outcome = some r) : s'.calls[i]?.bind Phase.outcome = some r :=
  run_invariant (fun t : Cache => t.calls[i]?.bind Phase.outcome = some r) (fun _ => True)
    (fun _ _ _ _ ht hs => cstep_outcome hs ht) (fun _ _ => trivial) ho h

/-- Over a run, the view moves by the run's sections, and each section's call ends with the
result the sequential section has at its place in the order. -/
theorem run_linearizes {ls : List CAct} (hi : CacheInv s) (h : run cstep s ls = some s') :
    sequential s.view (runSections s ls) = s'.view ∧
    ∀ (n i : Nat) k ok, (runSections s ls)[n]? = some (i, k, ok) →
      s'.calls[i]?.bind Phase.outcome =
        some (lookupOrCreate (sequential s.view ((runSections s ls).take n)) k ok).1 := by
  induction ls generalizing s with
  | nil => cases h; exact ⟨rfl, by simp [runSections]⟩
  | cons a ls ih =>
    rw [run_cons] at h
    cases hs : cstep s a with
    | none => rw [hs] at h; cases h
    | some s1 =>
      rw [hs, Option.some_bind] at h
      obtain ⟨ih1, ih2⟩ := ih (cstep_inv hi hs) h
      simp only [runSections, hs]
      cases hx : s.section? a with
      | none =>
        rw [cstep_view_stutter hi hs hx] at ih1 ih2
        simp only [Option.toList, List.nil_append]
        exact ⟨ih1, ih2⟩
      | some e =>
        obtain ⟨i, k, ok⟩ := e
        obtain ⟨hv, ho⟩ := cstep_view_section hi hs hx
        refine ⟨by simpa [sequential, hv] using ih1, fun n j k' ok' hn => ?_⟩
        cases n with
        | zero =>
          simp only [Option.toList, List.singleton_append, List.getElem?_cons_zero, Option.some.injEq,
            Prod.mk.injEq] at hn
          obtain ⟨rfl, rfl, rfl⟩ := hn
          simpa [sequential] using run_outcome h ho
        | succ n =>
          simp only [Option.toList, List.singleton_append, List.getElem?_cons_succ] at hn
          simpa [sequential, hv] using ih2 n j k' ok' hn

end View

/-- The concurrent calls of `getApplicationLayerMessageCodec` are linearizable: order the
lock holders' sections as they took effect in a run; the sequential `lookupOrCreate` sections in
that order, from the empty map of a new driver, build the manager the run ends with (with the
lock holder's pending insert made), and give every call whose section is in the order the result
the call ends with. -/
theorem calls_linearizable {ls : List CAct} {s : Cache} (h : run cstep Cache.init ls = some s) :
    sequential Manager.empty (runSections Cache.init ls) = s.view ∧
    ∀ (n i : Nat) k ok, (runSections Cache.init ls)[n]? = some (i, k, ok) →
      s.calls[i]?.bind Phase.outcome =
        some (lookupOrCreate (sequential Manager.empty ((runSections Cache.init ls).take n)) k ok).1 :=
  run_linearizes cacheInv_init h

/-- The two calls of `sameHost`: the first constructs, the second finds its codec, as the two
calls made one after the other do. -/
theorem sameHost_linearizable :
    sequential Manager.empty (runSections Cache.init sameHost) = sameHostEnd.view ∧
    ∀ (n i : Nat) k ok, (runSections Cache.init sameHost)[n]? = some (i, k, ok) →
      sameHostEnd.calls[i]?.bind Phase.outcome =
        some (lookupOrCreate (sequential Manager.empty ((runSections Cache.init sameHost).take n)) k ok).1 :=
  calls_linearizable rfl

end Plc4go.Bacnetip
