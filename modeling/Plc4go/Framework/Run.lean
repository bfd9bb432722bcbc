import Mathlib.Data.List.Basic

namespace Plc4go

/-- A run of a labelled step function: each label is the scheduler's or the environment's
choice, and a label whose action is blocked stops the run. -/
def run {σ α : Type} (step : σ → α → Option σ) (s : σ) (ls : List α) : Option σ :=
  ls.foldlM step s

section Run

variable {σ α : Type} {step : σ → α → Option σ}

@[simp] theorem run_nil (s : σ) : run step s []=some s := rfl

theorem run_cons (s : σ) (a : α) (ls : List α) :
    run step s (a::ls)=(step s a).bind fun s' => run step s' ls := rfl

theorem run_append (s : σ) (ls ls' : List α) :
    run step s (ls ++ ls')=(run step s ls).bind fun s' => run step s' ls' := List.foldlM_append ..

/-- A property kept by every step with an allowed label holds at the end of every run whose
labels are all allowed. -/
theorem run_invariant (I : σ → Prop) (ok : α → Prop)
    (hstep : ∀ s a s', ok a → I s → step s a=some s' → I s') :
    ∀ {s s' : σ} {ls : List α}, (∀ a ∈ ls, ok a) → I s → run step s ls=some s' → I s' := by
  intro s s' ls hls hs hr
  induction ls generalizing s with
  | nil => cases hr; exact hs
  | cons a ls ih =>
    rw [run_cons] at hr
    cases h : step s a with
    | none => rw [h] at hr; cases hr
    | some t =>
      rw [h] at hr
      exact ih (fun b hb => hls b (List.mem_cons_of_mem a hb))
        (hstep s a t (hls a (List.mem_cons_self a ls)) hs h) hr

/-- Some schedule leads from `s` to a state with `P`. -/
def Reaches (step : σ → α → Option σ) (s : σ) (P : σ → Prop) : Prop :=
  ∃ ls s', run step s ls=some s' ∧ P s'

theorem Reaches.of {P : σ → Prop} {s : σ} (h : P s) : Reaches step s P := ⟨[], s, rfl, h⟩

theorem Reaches.cons {P : σ → Prop} {s s1 : σ} {a : α} (h : step s a=some s1) (h' : Reaches step s1 P) :
    Reaches step s P :=
  let ⟨ls, s', hr, hp⟩ := h'
  ⟨a::ls, s', by rw [run_cons, h]; exact hr, hp⟩

theorem Reaches.trans {P Q : σ → Prop} {s : σ} (h : Reaches step s Q) (h' : ∀ s', Q s' → Reaches step s' P) :
    Reaches step s P :=
  let ⟨l1, s1, h1, hq⟩ := h
  let ⟨l2, s2, h2, hp⟩ := h' s1 hq
  ⟨l1++l2, s2, by rw [run_append, h1]; exact h2, hp⟩

/-- A state a schedule reaches keeps every invariant of the steps. -/
theorem Reaches.and_inv {P : σ → Prop} (I : σ → Prop) (hI : ∀ s a s', I s → step s a=some s' → I s')
    {s : σ} (hs : I s) (h : Reaches step s P) : Reaches step s fun s' => P s' ∧ I s' :=
  let ⟨ls, s', hr, hp⟩ := h
  ⟨ls, s', hr, hp, run_invariant I (fun _ => True) (fun s a s' _ => hI s a s') (fun _ _ => trivial) hs hr⟩

/-- The steps of the labels `ok` allows; the others are blocked. -/
def restrict (ok : α → Prop) [DecidablePred ok] (step : σ → α → Option σ) (s : σ) (a : α) : Option σ :=
  if ok a then step s a else none

section Restrict

variable {ok : α → Prop} [DecidablePred ok]

theorem restrict_eq {s : σ} {a : α} (ha : ok a) : restrict ok step s a = step s a := if_pos ha

theorem step_of_restrict {s s' : σ} {a : α} (h : restrict ok step s a = some s') :
    ok a ∧ step s a = some s' := by
  unfold restrict at h; split_ifs at h with ha; exact ⟨ha, h⟩

/-- A run of the allowed labels is a run whose labels are all allowed. -/
theorem run_restrict {s s' : σ} {ls : List α} (h : run (restrict ok step) s ls = some s') :
    (∀ a ∈ ls, ok a) ∧ run step s ls = some s' := by
  induction ls generalizing s with
  | nil => exact ⟨by simp, h⟩
  | cons a ls ih =>
    rw [run_cons] at h
    obtain ⟨t, hs, h⟩ := Option.bind_eq_some.mp h
    obtain ⟨ha, hst⟩ := step_of_restrict hs
    obtain ⟨hls, hr⟩ := ih h
    exact ⟨List.forall_mem_cons.mpr ⟨ha, hls⟩, by rw [run_cons, hst]; exact hr⟩

theorem Reaches.restrict_cons {P : σ → Prop} {s s1 : σ} {a : α} (h : step s a = some s1) (ha : ok a)
    (h' : Reaches (restrict ok step) s1 P) : Reaches (restrict ok step) s P :=
  .cons ((restrict_eq ha).trans h) h'

/-- An invariant of the steps is one of the allowed steps. -/
theorem Reaches.restrict_inv {P : σ → Prop} (I : σ → Prop) (hI : ∀ s a s', I s → ok a → step s a=some s' → I s')
    {s : σ} (hs : I s) (h : Reaches (restrict ok step) s P) : Reaches (restrict ok step) s fun s' => P s' ∧ I s' :=
  h.and_inv I (fun _ _ _ hi hr => let ⟨ha, hst⟩ := step_of_restrict hr; hI _ _ _ hi ha hst) hs

end Restrict

end Run

end Plc4go
