import Plc4go.Utils.Errors

namespace Plc4go.Bacnetip

open Plc4go.Utils

/-- `Driver.Close`, given what `discoverer.Close()` and `tm.Close()` return. The two wraps, the
join and the last wrap allocate the pointers `p`, `p+1`, `p+2` and `p+3`. -/
def Close (p : Nat) (discovererErr tmErr : GoError) : GoError :=
  let collectedErrors :=
    (if discovererErr != .nil then [Wrap p discovererErr "failed to close discoverer".toList] else []) ++
    (if tmErr != .nil then [Wrap (p+1) tmErr "error closing transaction manager".toList] else [])
  let err := Join (p+2) collectedErrors
  if err != .nil then Wrap (p+3) err "error closing driver".toList else .nil

section Close

variable {p : Nat} {d t : GoError}

theorem Wrap_of_ne {id : Nat} {err : GoError} (msg : List Char) (h : err ≠ .nil) :
    Wrap id err msg = .wrap id msg err := by
  simp [Wrap, h]

/-- The errors `Close` collects: one wrap for each `Close` that failed. -/
theorem Close_eq (hn : ¬(d = .nil ∧ t = .nil)) :
    Close p d t = .wrap (p+3) "error closing driver".toList (.join (p+2)
      ((if d != .nil then [.wrap p "failed to close discoverer".toList d] else []) ++
        (if t != .nil then [.wrap (p+1) "error closing transaction manager".toList t] else []))) := by
  by_cases hd : d = .nil <;> by_cases ht : t = .nil
  · exact absurd ⟨hd, ht⟩ hn
  all_goals simp [Close, Join, Wrap_of_ne, hd, ht]

/-- `Close` reports no error exactly when both `Close` calls report none. -/
theorem Close_eq_nil : Close p d t = .nil ↔ d = .nil ∧ t = .nil := by
  by_cases hn : d = .nil ∧ t = .nil
  · obtain ⟨rfl, rfl⟩ := hn; simp [Close, Join]
  · simp [Close_eq hn, hn]

/-- The errors at the ends of `Close`'s error are those of the two failures. -/
theorem exists_leaves_Close {P : GoError → Prop} (hP : ¬P .nil) :
    (∃ e ∈ (Close p d t).leaves, P e) ↔ (∃ e ∈ d.leaves, P e) ∨ ∃ e ∈ t.leaves, P e := by
  have hleaf : ∀ x : GoError, x = .nil → ¬∃ e ∈ x.leaves, P e := by
    rintro x rfl; simpa [GoError.leaves] using hP
  by_cases hn : d = .nil ∧ t = .nil
  · obtain ⟨rfl, rfl⟩ := hn; simp [Close, Join, GoError.leaves, hP]
  · rw [Close_eq hn]
    by_cases hd : d = .nil <;> by_cases ht : t = .nil <;>
      simp_all [GoError.leaves, leavesAll, or_and_right, exists_or]

/-- No failure is lost: for a target of one of the three error types of `utils`, `errors.Is`
finds it in the error `Close` returns exactly when it finds it in what the discoverer's or the
transaction manager's `Close` returned. -/
theorem Close_errorsIs {target : GoError} {ty : UtilsType} (ht : target.utilsType = some ty) :
    errorsIs (Close p d t) target = true ↔ errorsIs d target = true ∨ errorsIs t target = true := by
  simp only [errorsIs_utils ht]
  exact exists_leaves_Close (by simp)

end Close

/-- The discoverer fails with some other error and the transaction manager times out: the
timeout is still found in the driver's error. -/
theorem Close_timeout_found :
    errorsIs (Close 10 (.other 7 "busy".toList) (NewTimeoutError 5)) (NewTimeoutError 0) = true ↔
      errorsIs (.other 7 "busy".toList) (NewTimeoutError 0) = true ∨
        errorsIs (NewTimeoutError 5) (NewTimeoutError 0) = true :=
  Close_errorsIs rfl

end Plc4go.Bacnetip
