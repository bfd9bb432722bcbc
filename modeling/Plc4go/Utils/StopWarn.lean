import Plc4go.Framework.Run

namespace Plc4go.Utils

/-- `stopWarnOptions`; `interval` is a `time.Duration` in nanoseconds. -/
structure stopWarnOptions where
  processId : List Char
  processInfo : List Char
  interval : Int
  extraSkipOffset : Int
  deriving DecidableEq, Repr

def WithStopWarnProcessId (processId : List Char) (o : stopWarnOptions) : stopWarnOptions :=
  { o with processId := processId }

def WithStopWarnProcessInfo (processInfo : List Char) (o : stopWarnOptions) : stopWarnOptions :=
  { o with processInfo := processInfo }

def WithStopWarnInterval (interval : Int) (o : stopWarnOptions) : stopWarnOptions :=
  { o with interval := interval }

def WithStopWarnExtraSkipOffset (offset : Int) (o : stopWarnOptions) : stopWarnOptions :=
  { o with extraSkipOffset := offset }

/-- A log entry of the goroutine or the completion function. -/
inductive Entry
  | trace (msg : List Char)
  | warn (msg : List Char)
  deriving DecidableEq, Repr

/-- Where the tick goroutine is. -/
inductive G
  /-- Started, before "start checking". -/
  | start
  /-- At the loop head, before "check cycle". -/
  | cycle
  /-- At the `select`. -/
  | select
  /-- Took `<-done`, before `ticker.Stop()`. -/
  | stop
  /-- Returning: the deferred `wg.Done()`. -/
  | ret
  | exited
  deriving DecidableEq, Repr

/-- Where the caller is with the completion function. -/
inductive Caller
  /-- The completion function has not been called. -/
  | body
  /-- Logged "done", before `close(done)`. -/
  | closing
  /-- At `wg.Wait()`. -/
  | waiting
  | returned
  deriving DecidableEq, Repr

/-- The state after `StopWarn` returned: the options, both parties, the ticker's channel
(capacity one) and whether it is stopped, `done`, the wait group's counter and the log. -/
structure St where
  o : stopWarnOptions
  g : G
  caller : Caller
  tickBuf : Bool
  stopped : Bool
  doneClosed : Bool
  wg : Nat
  log : List Entry
  deriving DecidableEq, Repr

/-- The steps of the caller, the tick goroutine and the ticker, which interleave freely. -/
inductive Act
  /-- The ticker sends on `ticker.C`. -/
  | tick
  /-- The goroutine's next step outside the `select`. -/
  | run
  /-- The `select` takes `<-done`. -/
  | recvDone
  /-- The `select` takes `<-ticker.C`. -/
  | recvTick
  /-- The caller calls the completion function. -/
  | call
  | close
  /-- `wg.Wait()` returns. -/
  | wait
  deriving DecidableEq, Repr

/-- The options with defaults, after `opts`, with `processInfo` from `runtime.Caller` when empty;
`caller skip` is the file and line `runtime.Caller(skip)` reports. -/
def options (caller : Int → Option (List Char × Nat)) (opts : List (stopWarnOptions → stopWarnOptions)) :
    stopWarnOptions :=
  let o := opts.foldl (fun o opt => opt o) ⟨[], [], 5000000000, 0⟩
  if o.processInfo = [] then
    match caller (1+o.extraSkipOffset) with
    | some (file, line) => { o with processInfo := file ++ ':' :: Nat.toDigits 10 line }
    | none => o
  else o

/-- `StopWarn`: the state when it returns the completion function, the goroutine started and
`wg` at one; none where `time.NewTicker` panics on a non-positive interval. -/
def StopWarn (caller : Int → Option (List Char × Nat))
    (opts : List (stopWarnOptions → stopWarnOptions)) : Option St :=
  let o := options caller opts
  if o.interval ≤ 0 then none else some ⟨o, .start, .body, false, false, false, 1, []⟩

/-- The warning: `Msgf("%sstill in progress", processId)`. -/
def warnMsg (o : stopWarnOptions) : List Char :=
  (if o.processId ≠ [] then o.processId ++ [' '] else []) ++ "still in progress".toList

/-- The goroutine's steps outside the `select`. -/
def runStep (s : St) : Option St :=
  match s.g with
  | .start => some { s with g := .cycle, log := s.log ++ [.trace "start checking".toList] }
  | .cycle => some { s with g := .select, log := s.log ++ [.trace "check cycle".toList] }
  | .stop => some { s with g := .ret, stopped := true }
  | .ret => some { s with g := .exited, wg := s.wg-1 }
  | _ => none

/-- One step; one that is not enabled is `none`. -/
def step (s : St) : Act → Option St
  | .tick => if !s.stopped && !s.tickBuf then some { s with tickBuf := true } else none
  | .run => runStep s
  | .recvDone => if s.g = .select && s.doneClosed then some { s with g := .stop } else none
  | .recvTick =>
    if s.g = .select && s.tickBuf then
      some { s with g := .cycle, tickBuf := false, log := s.log ++ [.warn (warnMsg s.o)] }
    else none
  | .call =>
    if s.caller = .body then some { s with caller := .closing, log := s.log ++ [.trace "done".toList] }
    else none
  | .close => if s.caller = .closing then some { s with caller := .waiting, doneClosed := true } else none
  | .wait => if s.caller = .waiting && s.wg = 0 then some { s with caller := .returned } else none

/-- The invariant: the wait group counts the goroutine until it exits, the ticker is stopped
before the goroutine returns, `done` is closed once the caller waits, and the caller has
returned only after the goroutine exited. -/
structure StopInv (s : St) : Prop where
  wg : s.wg = if s.g = .exited then 0 else 1
  stopped : s.g = .ret ∨ s.g = .exited → s.stopped = true
  closed : s.caller = .waiting ∨ s.caller = .returned → s.doneClosed = true
  returned : s.caller = .returned → s.g = .exited

section Inv

variable {s s' : St}

theorem stopInv_init {caller opts} (h : StopWarn caller opts = some s) : StopInv s := by
  simp only [StopWarn] at h
  split_ifs at h
  cases h
  exact ⟨rfl, by simp, by simp, by simp⟩

theorem runStep_inv (hi : StopInv s) (h : runStep s = some s') : StopInv s' := by
  obtain ⟨hw, hs, hc, hr⟩ := hi
  unfold runStep at h
  split at h <;> cases h <;> rename_i hg <;> refine ⟨?_, ?_, ?_, ?_⟩ <;> simp_all

theorem step_inv (hi : StopInv s) : ∀ {a}, step s a = some s' → StopInv s'
  | .run, h => runStep_inv hi h
  | .tick, h | .recvDone, h | .recvTick, h | .call, h | .close, h | .wait, h => by
    obtain ⟨hw, hs, hc, hr⟩ := hi
    simp only [step] at h
    split_ifs at h with hg
    cases h
    refine ⟨?_, ?_, ?_, ?_⟩ <;> simp_all

/-- A returned caller has nothing left to do, the goroutine has exited, and the stopped ticker
sends no more: no step is enabled. -/
theorem step_after_return (hi : StopInv s) (hr : s.caller = .returned) (a : Act) : step s a = none := by
  have hg := hi.returned hr
  have hs := hi.stopped (.inr hg)
  cases a <;> simp [step, runStep, hg, hs, hr]

theorem run_stopInv {caller opts} {s0 : St} {ls : List Act} (h0 : StopWarn caller opts = some s0)
    (h : run step s0 ls = some s) : StopInv s :=
  run_invariant StopInv (fun _ => True) (fun _ _ _ _ hi h => step_inv hi h) (fun _ _ => trivial)
    (stopInv_init h0) h

end Inv

/-- Once the completion function has returned, whatever the interleaving before: the goroutine
has exited, its ticker is stopped, and no step is left, so every warning was logged before the
return. -/
theorem stopWarn_quiet_after_return {caller opts} {s0 s : St} {ls : List Act}
    (h0 : StopWarn caller opts = some s0) (h : run step s0 ls = some s) (hr : s.caller = .returned) :
    s.g = .exited ∧ s.stopped = true ∧ ∀ a, step s a = none := by
  have hi := run_stopInv h0 h
  exact ⟨hi.returned hr, hi.stopped (.inr (hi.returned hr)), step_after_return hi hr⟩

section Progress

variable {s : St}

/-- The caller can always get to `wg.Wait()` with `done` closed, the goroutine not moving. -/
theorem caller_waits (hi : StopInv s) (hr : s.caller ≠ .returned) :
    ∃ ls s', run step s ls = some s' ∧ s'.caller = .waiting ∧ s'.doneClosed = true ∧ s'.g = s.g := by
  rcases s with ⟨o, g, c, tb, st, dc, w, l⟩
  cases c
  · exact ⟨[.call, .close], by simp [run_cons, step]⟩
  · exact ⟨[.close], by simp [run_cons, step]⟩
  · exact ⟨[], by simpa using hi.closed (.inl rfl)⟩
  · exact absurd rfl hr

/-- With `done` closed the goroutine can always run to its exit, the caller not moving. -/
theorem goroutine_exits (hd : s.doneClosed = true) :
    ∃ ls s', run step s ls = some s' ∧ s'.g = .exited ∧ s'.caller = s.caller := by
  rcases s with ⟨o, g, c, tb, st, dc, w, l⟩
  simp only at hd; subst hd
  cases g
  · exact ⟨[.run, .run, .recvDone, .run, .run], by simp [run_cons, step, runStep]⟩
  · exact ⟨[.run, .recvDone, .run, .run], by simp [run_cons, step, runStep]⟩
  · exact ⟨[.recvDone, .run, .run], by simp [run_cons, step, runStep]⟩
  · exact ⟨[.run, .run], by simp [run_cons, step, runStep]⟩
  · exact ⟨[.run], by simp [run_cons, step, runStep]⟩
  · exact ⟨[], by simp⟩

/-- From every state a run reaches, some schedule lets the completion function return. -/
theorem completion_can_return {caller opts} {s0 : St} {ls : List Act} (h0 : StopWarn caller opts = some s0)
    (h : run step s0 ls = some s) : ∃ ls' s', run step s ls' = some s' ∧ s'.caller = .returned := by
  have hi := run_stopInv h0 h
  by_cases hr : s.caller = .returned
  · exact ⟨[], s, rfl, hr⟩
  obtain ⟨l1, s1, h1, hc1, hd1, -⟩ := caller_waits hi hr
  obtain ⟨l2, s2, h2, hg2, hc2⟩ := goroutine_exits hd1
  have hi2 : StopInv s2 := run_invariant StopInv (fun _ => True) (fun _ _ _ _ hi h => step_inv hi h)
    (fun _ _ => trivial) hi (by rw [run_append, h1]; exact h2)
  have hw : s2.wg = 0 := by simpa [hg2] using hi2.wg
  refine ⟨l1 ++ l2 ++ [.wait], { s2 with caller := .returned }, ?_, rfl⟩
  simp [run_append, run_cons, h1, h2, step, hc2, hc1, hw]

end Progress

/-- A caller named `main.go:42`. -/
def mainCaller (_ : Int) : Option (List Char × Nat) := some ("main.go".toList, 42)

/-- A tick is pending when `done` is closed, and the `select` takes the tick first. -/
def tickRace : List Act :=
  [.run, .run, .tick, .call, .close, .recvTick, .run, .recvDone, .run, .run, .wait]

def tickRaceStart : St :=
  (StopWarn mainCaller []).getD ⟨⟨[], [], 0, 0⟩, .exited, .returned, false, true, true, 0, []⟩

def tickRaceEnd : St := (run step tickRaceStart tickRace).getD tickRaceStart

example : tickRaceEnd.log = [.trace "start checking".toList, .trace "check cycle".toList,
    .trace "done".toList, .warn "still in progress".toList, .trace "check cycle".toList] := by decide

theorem tickRace_quiet :
    StopWarn mainCaller [] = some tickRaceStart ∧ run step tickRaceStart tickRace = some tickRaceEnd ∧
    tickRaceEnd.caller = .returned ∧
    tickRaceEnd.g = .exited ∧ tickRaceEnd.stopped = true ∧ ∀ a, step tickRaceEnd a = none :=
  have h0 : StopWarn mainCaller [] = some tickRaceStart := rfl
  have h : run step tickRaceStart tickRace = some tickRaceEnd := rfl
  have hr : tickRaceEnd.caller = .returned := rfl
  ⟨h0, h, hr, stopWarn_quiet_after_return h0 h hr⟩

/-- Stopped after the caller has closed `done` and the tick is pending, the run can still reach
the return of the completion function. -/
theorem tickRace_can_return :
    ∃ s, run step tickRaceStart (tickRace.take 5) = some s ∧
      ∃ ls' s', run step s ls' = some s' ∧ s'.caller = .returned :=
  have ⟨s, h⟩ : ∃ s, run step tickRaceStart (tickRace.take 5) = some s := ⟨_, rfl⟩
  ⟨s, h, completion_can_return (rfl : StopWarn mainCaller [] = some tickRaceStart) h⟩

end Plc4go.Utils
