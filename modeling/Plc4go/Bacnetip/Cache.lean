import Plc4go.Bacnetip.Driver
import Plc4go.Framework.Run

namespace Plc4go.Bacnetip

/-- Where one call is. `snap` is the map as the call found it when it took the lock. -/
inductive Phase
  | start (u : URL) (options : Options)
  | ready (key : List Char)
  | locked (key : List Char) (snap : List Char → Option Codec)
  | missed (key : List Char) (snap : List Char → Option Codec)
  | built (key : List Char) (c : Codec)
  | returned (key : Option (List Char)) (r : Got)

/-- Whether a call in this phase holds the manager's mutex. -/
def Phase.holds : Phase → Bool
  | .locked .. | .missed .. | .built .. => true
  | _ => false

/-- How a call ended, once it has. -/
def Phase.result : Phase → Option Got
  | .returned _ r => some r
  | _ => none

/-- The manager under concurrent calls, with every codec constructed and its key (`made`). -/
structure Cache where
  manager : Manager
  lock : Option Nat
  calls : List Phase
  made : List (List Char × Codec)

/-- The manager of a new driver, with no call yet. -/
def Cache.init : Cache := ⟨.empty, none, [], []⟩

/-- The steps of concurrent `getApplicationLayerMessageCodec` calls on one `ApplicationManager`.
The labels carry the network's answers (`prepare`) and whether
`NewApplicationLayerMessageCodec` succeeds (`construct`). -/
inductive CAct
  | enter (u : URL) (options : Options)
  | prepare (i : Nat) (env : Env)
  | lock (i : Nat)
  | lookup (i : Nat)
  | construct (i : Nat) (ok : Bool)
  | insert (i : Nat)

section Steps

variable (s : Cache) (i : Nat)

/-- Resolve and dial, up to `a.Lock()`: the cache key `localAddress.String()`, or the early end. -/
def prepareStep (env : Env) : Option Cache :=
  match s.calls[i]? with
  | some (.start u o) => some { s with calls := s.calls.set i (match dialEndpoints env u o with
      | .error g => .returned none g
      | .ok (l, _) => .ready l.String) }
  | _ => none

/-- `a.Lock()`. -/
def lockStep : Option Cache :=
  match s.calls[i]?, s.lock with
  | some (.ready k), none =>
    some { s with lock := some i, calls := s.calls.set i (.locked k s.manager.applications) }
  | _, _ => none

/-- `a.applications[localAddress.String()]`; a hit returns it and unlocks. -/
def lookupStep : Option Cache :=
  match s.calls[i]? with
  | some (.locked k snap) =>
    match s.manager.applications k with
    | some c => some { s with lock := none, calls := s.calls.set i (.returned (some k) (.codec c)) }
    | none => some { s with calls := s.calls.set i (.missed k snap) }
  | _ => none

/-- `NewApplicationLayerMessageCodec`; a failure returns the error and unlocks. -/
def constructStep (ok : Bool) : Option Cache :=
  match s.calls[i]? with
  | some (.missed k _) =>
    if ok then
      some { s with manager := { s.manager with next := s.manager.next+1 },
                    calls := s.calls.set i (.built k s.manager.next),
                    made := s.made ++ [(k, s.manager.next)] }
    else some { s with lock := none, calls := s.calls.set i (.returned (some k) (.error .create)) }
  | _ => none

/-- `a.applications[localAddress.String()] = newMessageCodec`, return and unlock. -/
def insertStep : Option Cache :=
  match s.calls[i]? with
  | some (.built k c) =>
    some { s with manager := { s.manager with applications := setKey s.manager.applications k c },
                  lock := none, calls := s.calls.set i (.returned (some k) (.codec c)) }
  | _ => none

end Steps

/-- One step of one call; the steps between `a.Lock()` and the deferred `a.Unlock()` are taken
only by the call holding the mutex. -/
def cstep (s : Cache) : CAct → Option Cache
  | .enter u o => some { s with calls := s.calls ++ [.start u o] }
  | .prepare i env => prepareStep s i env
  | .lock i => lockStep s i
  | .lookup i => lookupStep s i
  | .construct i ok => constructStep s i ok
  | .insert i => insertStep s i

/-- What each phase of a call knows of the state. -/
def PhaseOk (s : Cache) (i : Nat) : Phase → Prop
  | .locked _ snap => s.lock = some i ∧ s.manager.applications = snap
  | .missed k snap => s.lock = some i ∧ s.manager.applications = snap ∧ snap k = none
  | .built k c => s.lock = some i ∧ s.manager.applications k = none ∧ (k, c) ∈ s.made
  | .returned (some k) (.codec c) => s.manager.applications k = some c
  | _ => True

/-- The invariant of the cache: what each call knows holds, every constructed codec is in the map
or about to be inserted, and no key was constructed twice. -/
structure CacheInv (s : Cache) : Prop where
  phases : ∀ i p, s.calls[i]? = some p → PhaseOk s i p
  madeIn : ∀ k c, (k, c) ∈ s.made →
    s.manager.applications k = some c ∨ ∃ i : Nat, s.calls[i]? = some (Phase.built k c)
  once : ∀ k, (s.made.map Prod.fst).count k ≤ 1

/-- Every entry of `a` is in `b`. -/
def Grows (a b : List Char → Option Codec) : Prop := ∀ k c, a k = some c → b k = some c

theorem Grows.refl (a : List Char → Option Codec) : Grows a a := fun _ _ h => h

theorem Grows.setKey {a : List Char → Option Codec} {k : List Char} (c : Codec) (h : a k = none) :
    Grows a (setKey a k c) := fun k' c' h' => by
  by_cases hk : k' = k
  · subst hk; simp_all
  · rwa [setKey_of_ne _ hk]

section Lists

variable {α : Type} {l : List α} {i j : Nat} {p q : α}

theorem getElem?_set_some (h : (l.set i q)[j]? = some p) :
    (j = i ∧ p = q) ∨ (j ≠ i ∧ l[j]? = some p) := by
  rw [List.getElem?_set] at h
  split_ifs at h with h1 h2
  · exact .inl ⟨h1.symm, (Option.some.inj h).symm⟩
  · exact .inr ⟨Ne.symm h1, h⟩

theorem getElem?_set_of_ne (h : l[j]? = some p) (hne : l[i]? ≠ some p) : (l.set i q)[j]? = some p := by
  rw [List.getElem?_set_ne fun e : i = j => hne (e ▸ h)]; exact h

theorem getElem?_set_of_some (h : l[i]? = some p) : (l.set i q)[i]? = some q :=
  List.getElem?_set_self (List.getElem?_eq_some_iff.1 h).1

theorem getElem?_concat_some (h : (l ++ [q])[j]? = some p) : l[j]? = some p ∨ p = q := by
  rcases Nat.lt_or_ge j l.length with hj | hj
  · rw [List.getElem?_append_left hj] at h; exact .inl h
  · rw [List.getElem?_append_right hj] at h
    rcases hn : j - l.length with _ | n <;> simp_all

theorem getElem?_concat_of_some (h : l[j]? = some p) : (l ++ [q])[j]? = some p := by
  rw [List.getElem?_append_left (List.getElem?_eq_some_iff.1 h).1]; exact h

end Lists

section Inv

variable {s s' : Cache} {i : Nat}

theorem PhaseOk.lock_eq {p : Phase} (h : PhaseOk s i p) (hp : p.holds) : s.lock = some i := by
  cases p <;> simp_all [Phase.holds, PhaseOk]

theorem PhaseOk.grow {p : Phase} (h : PhaseOk s i p) (hp : p.holds = false)
    (hg : Grows s.manager.applications s'.manager.applications) : PhaseOk s' i p := by
  rcases p with _ | _ | _ | _ | _ | ⟨_ | k, c | e | q⟩ <;> simp_all [Phase.holds, PhaseOk]
  exact hg _ _ h

/-- While call `i` holds the lock, or nobody does, every other call's phase stays right when the
map only grows. -/
theorem CacheInv.others (hi : CacheInv s) (hl : s.lock = some i ∨ s.lock = none)
    (hg : Grows s.manager.applications s'.manager.applications) :
    ∀ j p, j ≠ i → s.calls[j]? = some p → PhaseOk s' j p := by
  intro j p hj h
  have hp := hi.phases j p h
  cases hh : p.holds
  · exact hp.grow hh hg
  · have := hp.lock_eq hh
    rcases hl with hl | hl <;> simp_all

/-- The phases stay right when call `i`'s new phase `q` is right and every other call's is. -/
theorem phases_set {q : Phase} (hc : s'.calls = s.calls.set i q) (hq : PhaseOk s' i q)
    (ho : ∀ j p, j ≠ i → s.calls[j]? = some p → PhaseOk s' j p) :
    ∀ j p, s'.calls[j]? = some p → PhaseOk s' j p := by
  intro j p h
  rw [hc] at h
  rcases getElem?_set_some h with ⟨rfl, rfl⟩ | ⟨hj, h⟩
  · exact hq
  · exact ho j p hj h

/-- Constructed codecs stay accounted for when the map and `made` are kept and call `i`, not
about to insert, moves. -/
theorem madeIn_set {q : Phase} (hi : CacheInv s) (hc : s'.calls = s.calls.set i q)
    (ha : s'.manager.applications = s.manager.applications)
    (hb : ∀ k c, s.calls[i]? ≠ some (.built k c)) :
    ∀ k c, (k, c) ∈ s.made →
      s'.manager.applications k = some c ∨ ∃ j : Nat, s'.calls[j]? = some (Phase.built k c) := by
  intro k c h
  rcases hi.madeIn k c h with h | ⟨j, hj⟩
  · exact .inl (ha ▸ h)
  · exact .inr ⟨j, hc ▸ getElem?_set_of_ne hj (hb k c)⟩

theorem prepareStep_cases {env : Env} (h : prepareStep s i env = some s') :
    ∃ u o q, s.calls[i]? = some (.start u o) ∧ q.holds = false ∧
      (∀ k c, q ≠ .returned (some k) (.codec c)) ∧ s' = { s with calls := s.calls.set i q } := by
  unfold prepareStep at h
  split at h
  · cases h; rename_i u o hc
    refine ⟨u, o, _, hc, ?_, ?_, rfl⟩ <;> split <;> simp [Phase.holds]
  · cases h

theorem lockStep_cases (h : lockStep s i = some s') :
    ∃ k, s.calls[i]? = some (.ready k) ∧ s.lock = none ∧
      s' = { s with lock := some i, calls := s.calls.set i (.locked k s.manager.applications) } := by
  unfold lockStep at h
  split at h
  · cases h; rename_i k hc hl; exact ⟨k, hc, hl, rfl⟩
  · cases h

theorem lookupStep_cases (h : lookupStep s i = some s') :
    ∃ k snap, s.calls[i]? = some (.locked k snap) ∧
      ((∃ c, s.manager.applications k = some c ∧
        s' = { s with lock := none, calls := s.calls.set i (.returned (some k) (.codec c)) }) ∨
      (s.manager.applications k = none ∧ s' = { s with calls := s.calls.set i (.missed k snap) })) := by
  unfold lookupStep at h
  split at h
  · rename_i k snap hc
    split at h <;> cases h
    · exact ⟨k, snap, hc, .inl ⟨_, ‹_›, rfl⟩⟩
    · exact ⟨k, snap, hc, .inr ⟨‹_›, rfl⟩⟩
  · cases h

theorem constructStep_cases {ok : Bool} (h : constructStep s i ok = some s') :
    ∃ k snap, s.calls[i]? = some (.missed k snap) ∧
      ((ok ∧ s' = { s with
          manager := { s.manager with next := s.manager.next+1 },
          calls := s.calls.set i (.built k s.manager.next),
          made := s.made ++ [(k, s.manager.next)] }) ∨
      (¬ok ∧ s' = { s with lock := none,
                            calls := s.calls.set i (.returned (some k) (.error .create)) })) := by
  unfold constructStep at h
  split at h
  · rename_i k snap hc
    cases ok <;> cases h
    · exact ⟨k, snap, hc, .inr ⟨by simp, rfl⟩⟩
    · exact ⟨k, snap, hc, .inl ⟨rfl, rfl⟩⟩
  · cases h

theorem insertStep_cases (h : insertStep s i = some s') :
    ∃ k c, s.calls[i]? = some (.built k c) ∧
      s' = { s with manager := { s.manager with applications := setKey s.manager.applications k c },
                    lock := none, calls := s.calls.set i (.returned (some k) (.codec c)) } := by
  unfold insertStep at h
  split at h
  · cases h; rename_i k c hc; exact ⟨k, c, hc, rfl⟩
  · cases h

theorem PhaseOk.of_idle {p : Phase} (hp : p.holds = false)
    (hr : ∀ k c, p ≠ .returned (some k) (.codec c)) :
    PhaseOk s i p := by
  rcases p with _ | _ | _ | _ | _ | ⟨_ | k, c | e | q⟩ <;> simp_all [Phase.holds, PhaseOk]

/-- Two entries of a list with each key at most once agree on a key. -/
theorem eq_of_count_le_one {l : List (List Char × Codec)} {k : List Char} {c c' : Codec}
    (h : (l.map Prod.fst).count k ≤ 1) (h1 : (k, c) ∈ l) (h2 : (k, c') ∈ l) : c = c' := by
  induction l with
  | nil => cases h1
  | cons x xs ih =>
    have hpos : ∀ d, (k, d) ∈ xs → 0 < (xs.map Prod.fst).count k := fun d hd =>
      List.count_pos_iff.2 (List.mem_map.2 ⟨_, hd, rfl⟩)
    simp only [List.map_cons, List.count_cons] at h
    rcases List.mem_cons.1 h1 with rfl | t1 <;> rcases List.mem_cons.1 h2 with e | t2
    · cases e; rfl
    · have := hpos _ t2; simp at h; omega
    · subst e; have := hpos _ t1; simp at h; omega
    · exact ih (by split at h <;> omega) t1 t2

theorem cacheInv_init : CacheInv Cache.init :=
  ⟨by simp [Cache.init], by simp [Cache.init], by simp [Cache.init]⟩

theorem enter_inv (hi : CacheInv s) (u : URL) (o : Options) :
    CacheInv { s with calls := s.calls ++ [.start u o] } where
  phases j p h := by
    rcases getElem?_concat_some h with h | rfl
    · exact hi.phases j p h
    · trivial
  madeIn k c h := (hi.madeIn k c h).imp id fun ⟨j, hj⟩ => ⟨j, getElem?_concat_of_some hj⟩
  once := hi.once

theorem prepareStep_inv {env : Env} (hi : CacheInv s) (h : prepareStep s i env = some s') :
    CacheInv s' := by
  obtain ⟨u, o, q, hc, hq, hr, rfl⟩ := prepareStep_cases h
  exact ⟨phases_set rfl (.of_idle hq hr) fun j p _ h => hi.phases j p h,
    madeIn_set (s := s) hi rfl rfl (by simp [hc]), hi.once⟩

theorem lockStep_inv (hi : CacheInv s) (h : lockStep s i = some s') : CacheInv s' := by
  obtain ⟨k, hc, hl, rfl⟩ := lockStep_cases h
  exact ⟨phases_set rfl ⟨rfl, rfl⟩ (hi.others (.inr hl) (.refl _)),
    madeIn_set (s := s) hi rfl rfl (by simp [hc]), hi.once⟩

theorem lookupStep_inv (hi : CacheInv s) (h : lookupStep s i = some s') : CacheInv s' := by
  obtain ⟨k, snap, hc, ⟨c, ha, rfl⟩ | ⟨ha, rfl⟩⟩ := lookupStep_cases h <;>
    obtain ⟨hl, hs⟩ := hi.phases i _ hc
  · exact ⟨phases_set rfl ha (hi.others (.inl hl) (.refl _)),
      madeIn_set (s := s) hi rfl rfl (by simp [hc]), hi.once⟩
  · exact ⟨phases_set rfl ⟨hl, hs, hs ▸ ha⟩ (hi.others (.inl hl) (.refl _)),
      madeIn_set (s := s) hi rfl rfl (by simp [hc]), hi.once⟩

/-- The key of a call about to construct has no constructed codec yet. -/
theorem CacheInv.not_made {k : List Char} {snap} (hi : CacheInv s) (hc : s.calls[i]? = some (.missed k snap))
    (c : Codec) : (k, c) ∉ s.made := fun hm => by
  obtain ⟨hl, hs, hk⟩ := hi.phases i _ hc
  rcases hi.madeIn k c hm with h | ⟨j, hj⟩
  · rw [hs, hk] at h; cases h
  · have := (hi.phases j _ hj).1
    rw [hl, Option.some.injEq] at this
    subst this; rw [hc] at hj; cases hj

theorem constructStep_inv {ok : Bool} (hi : CacheInv s) (h : constructStep s i ok = some s') :
    CacheInv s' := by
  obtain ⟨k, snap, hc, ⟨-, rfl⟩ | ⟨-, rfl⟩⟩ := constructStep_cases h <;>
    obtain ⟨hl, hs, hk⟩ := hi.phases i _ hc
  · refine ⟨phases_set rfl ⟨hl, hs ▸ hk, by simp⟩ (hi.others (.inl hl) (.refl _)),
      fun k' c' h' => ?_, fun k' => ?_⟩
    · rcases List.mem_append.1 h' with h' | h'
      · rcases hi.madeIn k' c' h' with h'' | ⟨j, hj⟩
        · exact .inl h''
        · exact .inr ⟨j, getElem?_set_of_ne hj (by simp [hc])⟩
      · obtain ⟨rfl, rfl⟩ := Prod.mk.inj (List.mem_singleton.1 h')
        exact .inr ⟨i, getElem?_set_of_some hc⟩
    · have h0 : (s.made.map Prod.fst).count k = 0 := List.count_eq_zero.2 fun hk0 => by
        obtain ⟨⟨k0, c⟩, hm, rfl⟩ := List.mem_map.1 hk0
        exact hi.not_made hc c hm
      by_cases hk' : k' = k
      · subst hk'; simp [h0]
      · simpa [List.count_cons, Ne.symm hk'] using hi.once k'
  · exact ⟨phases_set rfl trivial (hi.others (.inl hl) (.refl _)),
      madeIn_set (s := s) hi rfl rfl (by simp [hc]), hi.once⟩

theorem insertStep_inv (hi : CacheInv s) (h : insertStep s i = some s') : CacheInv s' := by
  obtain ⟨k, c, hc, rfl⟩ := insertStep_cases h
  obtain ⟨hl, hk, hm⟩ := hi.phases i _ hc
  have hg := Grows.setKey c hk
  refine ⟨phases_set rfl (setKey_self _ _ _) (hi.others (.inl hl) hg), fun k' c' h' => ?_, hi.once⟩
  by_cases hkk : k' = k
  · subst hkk
    rw [eq_of_count_le_one (hi.once k') h' hm]
    exact .inl (setKey_self _ _ _)
  · rcases hi.madeIn k' c' h' with h'' | ⟨j, hj⟩
    · exact .inl (hg _ _ h'')
    · exact .inr ⟨j, getElem?_set_of_ne hj (by simp [hc, Ne.symm hkk])⟩

theorem cstep_inv (hi : CacheInv s) : ∀ {a}, cstep s a = some s' → CacheInv s'
  | .enter u o, h => by cases h; exact enter_inv hi u o
  | .prepare .., h => prepareStep_inv hi h
  | .lock _, h => lockStep_inv hi h
  | .lookup _, h => lookupStep_inv hi h
  | .construct .., h => constructStep_inv hi h
  | .insert _, h => insertStep_inv hi h

theorem cstep_grows (hi : CacheInv s) {a : CAct} (h : cstep s a = some s') :
    Grows s.manager.applications s'.manager.applications := by
  cases a with
  | enter => cases h; exact .refl _
  | prepare => obtain ⟨_, _, _, _, _, _, rfl⟩ := prepareStep_cases h; exact .refl _
  | lock => obtain ⟨_, _, _, rfl⟩ := lockStep_cases h; exact .refl _
  | lookup => obtain ⟨_, _, _, ⟨_, _, rfl⟩ | ⟨_, rfl⟩⟩ := lookupStep_cases h <;> exact .refl _
  | construct => obtain ⟨_, _, _, ⟨_, rfl⟩ | ⟨_, rfl⟩⟩ := constructStep_cases h <;> exact .refl _
  | insert => obtain ⟨k, c, hc, rfl⟩ := insertStep_cases h; exact .setKey c (hi.phases _ _ hc).2.1

/-- A failed construction returns the error and leaves the manager as the call found it when it
took the lock. -/
theorem construct_fails_unchanged (hi : CacheInv s) (h : cstep s (.construct i false) = some s') :
    ∃ k snap, s.calls[i]? = some (.missed k snap) ∧
      s'.calls[i]? = some (.returned (some k) (.error .create)) ∧
      s'.manager = s.manager ∧ s.manager.applications = snap := by
  obtain ⟨k, snap, hc, ⟨h, -⟩ | ⟨-, rfl⟩⟩ := constructStep_cases h
  · cases h
  · exact ⟨k, snap, hc, getElem?_set_of_some hc, rfl, (hi.phases i _ hc).2.1⟩

/-- At most one call is between `a.Lock()` and its return. -/
theorem CacheInv.mutex {j : Nat} {p q : Phase} (hi : CacheInv s) (hp : s.calls[i]? = some p)
    (hq : s.calls[j]? = some q) (hph : p.holds) (hqh : q.holds) : i = j := by
  have := ((hi.phases i p hp).lock_eq hph).symm.trans ((hi.phases j q hq).lock_eq hqh)
  simpa using this

theorem run_cacheInv {ls : List CAct} (h : run cstep Cache.init ls = some s) : CacheInv s :=
  run_invariant CacheInv (fun _ => True) (fun _ _ _ _ hi h => cstep_inv hi h) (fun _ _ => trivial)
    cacheInv_init h

end Inv

/-- Whatever the interleaving of the calls and the answers of the network and the constructor:
the map only grows; a call that returned a codec returned what the map holds under its key, so
calls with one key share one codec; each key's codec was constructed at most once; and a failed
construction returns an error with the map as the call found it when it took the lock. -/
theorem codec_cache_safe {ls : List CAct} {s : Cache} (h : run cstep Cache.init ls = some s) :
    (∀ a s', cstep s a = some s' → Grows s.manager.applications s'.manager.applications) ∧
    (∀ (i : Nat) k c, s.calls[i]? = some (Phase.returned (some k) (.codec c)) →
      s.manager.applications k = some c) ∧
    (∀ (i j : Nat) k c c', s.calls[i]? = some (Phase.returned (some k) (.codec c)) →
      s.calls[j]? = some (Phase.returned (some k) (.codec c')) → c = c') ∧
    (∀ k, (s.made.map Prod.fst).count k ≤ 1) ∧
    (∀ (i : Nat) s', cstep s (.construct i false) = some s' →
      ∃ k snap, s.calls[i]? = some (.missed k snap) ∧
      s'.calls[i]? = some (.returned (some k) (.error .create)) ∧
      s'.manager = s.manager ∧ s.manager.applications = snap) := by
  have hi := run_cacheInv h
  have hret : ∀ (i : Nat) k c, s.calls[i]? = some (Phase.returned (some k) (.codec c)) →
      s.manager.applications k = some c := fun i _ _ hc => hi.phases i _ hc
  refine ⟨fun _ _ => cstep_grows hi, hret, fun i j k c c' hc hc' => ?_, hi.once,
    fun _ _ => construct_fails_unchanged hi⟩
  simpa using (hret i k c hc).symm.trans (hret j k c' hc')

section Solo

variable {s : Cache} {i : Nat} {k : List Char}

/-- The section under the lock, run by one call from a free lock, does what `lookupOrCreate` does. -/
theorem solo_section (ok : Bool) (hc : s.calls[i]? = some (.ready k)) (hl : s.lock = none) :
    ∃ ls s', run cstep s ls = some s' ∧ s'.manager = (lookupOrCreate s.manager k ok).2 ∧
      s'.calls = s.calls.set i (.returned (some k) (lookupOrCreate s.manager k ok).1) ∧ s'.lock = none := by
  have hs : ∀ q, (s.calls.set i q)[i]? = some q := fun q => getElem?_set_of_some hc
  rcases lookupOrCreate_cases s.manager k ok with ⟨c, ha, he⟩ | ⟨ha, rfl, he⟩ | ⟨ha, hok, he⟩ <;>
    simp only [he]
  · exact ⟨[.lock i, .lookup i], by simp [run_cons, cstep, lockStep, lookupStep, hc, hl, hs, ha]⟩
  · exact ⟨[.lock i, .lookup i, .construct i true, .insert i],
      by simp [run_cons, cstep, lockStep, lookupStep, constructStep, insertStep, hc, hl, hs, ha]⟩
  · simp only [Bool.not_eq_true] at hok; subst hok
    exact ⟨[.lock i, .lookup i, .construct i false],
      by simp [run_cons, cstep, lockStep, lookupStep, constructStep, hc, hl, hs, ha]⟩

/-- A call that runs alone from a free lock ends as the sequential
`getApplicationLayerMessageCodec` does, and leaves the manager as it does. -/
theorem solo_call (env : Env) {u : URL} {o : Options} (hc : s.calls[i]? = some (.start u o))
    (hl : s.lock = none) :
    ∃ ls s', run cstep s ls = some s' ∧
      s'.manager = (getApplicationLayerMessageCodec env s.manager u o).2 ∧
      s'.calls[i]?.bind Phase.result = some (getApplicationLayerMessageCodec env s.manager u o).1 ∧
      s'.lock = none := by
  have hs : ∀ q, (s.calls.set i q)[i]? = some q := fun q => getElem?_set_of_some hc
  unfold getApplicationLayerMessageCodec
  rcases hd : dialEndpoints env u o with g | ⟨l, r⟩
  · exact ⟨[.prepare i env], by simp [run_cons, cstep, prepareStep, hc, hd, hs, hl, Phase.result]⟩
  · have h1 : cstep s (.prepare i env) = some { s with calls := s.calls.set i (.ready l.String) } := by
      simp [cstep, prepareStep, hc, hd]
    obtain ⟨ls, s', hr, hm, hcs, hl'⟩ :=
      solo_section (s := { s with calls := s.calls.set i (.ready l.String) }) (env.create u o l r) (hs _) hl
    exact ⟨.prepare i env :: ls, s', by rw [run_cons, h1]; exact hr, hm,
      by simp [hcs, hs, Phase.result], hl'⟩

end Solo

/-- A call to `udp://192.0.2.5` entered while no other call is in flight. -/
theorem lan_solo_call :
    ∃ ls s', run cstep ⟨.empty, none, [.start ⟨"udp".toList, "192.0.2.5".toList⟩ (withDefaults 47808 fun _ => none)], []⟩
        ls = some s' ∧
      s'.manager = (getApplicationLayerMessageCodec lan .empty ⟨"udp".toList, "192.0.2.5".toList⟩
        (withDefaults 47808 fun _ => none)).2 ∧
      s'.calls[0]?.bind Phase.result = some (getApplicationLayerMessageCodec lan .empty
        ⟨"udp".toList, "192.0.2.5".toList⟩ (withDefaults 47808 fun _ => none)).1 ∧
      s'.lock = none :=
  solo_call lan rfl rfl

/-- Two calls to the same host, interleaved up to the lock: the first constructs, the second
finds its codec. -/
def sameHost : List CAct :=
  let u : URL := ⟨"udp".toList, "192.0.2.5".toList⟩
  let o := withDefaults 47808 fun _ => none
  [.enter u o, .enter u o, .prepare 0 lan, .prepare 1 lan, .lock 0, .lookup 0, .construct 0 true,
    .insert 0, .lock 1, .lookup 1]

/-- The state after `sameHost`. -/
def sameHostEnd : Cache := (run cstep Cache.init sameHost).getD Cache.init

theorem sameHost_safe :
    run cstep Cache.init sameHost = some sameHostEnd ∧
    (∀ a s', cstep sameHostEnd a = some s' →
      Grows sameHostEnd.manager.applications s'.manager.applications) ∧
    (∀ (i : Nat) k c, sameHostEnd.calls[i]? = some (Phase.returned (some k) (.codec c)) →
      sameHostEnd.manager.applications k = some c) ∧
    (∀ (i j : Nat) k c c', sameHostEnd.calls[i]? = some (Phase.returned (some k) (.codec c)) →
      sameHostEnd.calls[j]? = some (Phase.returned (some k) (.codec c')) → c = c') ∧
    (∀ k, (sameHostEnd.made.map Prod.fst).count k ≤ 1) ∧
    (∀ (i : Nat) s', cstep sameHostEnd (.construct i false) = some s' → ∃ k snap,
      sameHostEnd.calls[i]? = some (.missed k snap) ∧
      s'.calls[i]? = some (.returned (some k) (.error .create)) ∧
      s'.manager = sameHostEnd.manager ∧ sameHostEnd.manager.applications = snap) :=
  have h : run cstep Cache.init sameHost = some sameHostEnd := rfl
  ⟨h, codec_cache_safe h⟩

example : sameHostEnd.calls.map Phase.result = [some (.codec 0), some (.codec 0)] := by decide

end Plc4go.Bacnetip
