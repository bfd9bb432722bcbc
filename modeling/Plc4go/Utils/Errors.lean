import Mathlib.Data.List.Basic

namespace Plc4go.Utils

/-- An `error` value: `nil`, one of the three error types of `utils`, an `errors.Wrap` of a
cause or an `errors.Join` of errors (pointers, told apart by `id`), or any other error, by
identity and message. -/
inductive GoError
  | nil
  | ParseAssertError (Message : List Char) (Err : GoError)
  | ParseValidationError (Message : List Char)
  | TimeoutError (timeout : Int)
  | wrap (id : Nat) (message : List Char) (cause : GoError)
  | join (id : Nat) (errs : List GoError)
  | other (id : Nat) (msg : List Char)
  deriving Repr

/-- Go's `==` on two errors: the same dynamic type and equal values, where a struct compares
field by field and a pointer by address. -/
def GoError.eq : GoError → GoError → Bool
  | .nil, .nil => true
  | .ParseAssertError m e, .ParseAssertError m' e' => m == m' && e.eq e'
  | .ParseValidationError m, .ParseValidationError m' => m == m'
  | .TimeoutError t, .TimeoutError t' => t == t'
  | .wrap id .., .wrap id' .. | .join id _, .join id' _ | .other id _, .other id' _ => id == id'
  | _, _ => false

instance : BEq GoError := ⟨GoError.eq⟩

@[simp] theorem GoError.beq_nil_iff {e : GoError} : (e == .nil) = true ↔ e = .nil := by
  cases e <;> constructor <;> intro h <;> first | rfl | cases h

@[simp] theorem GoError.bne_nil_iff {e : GoError} : (e != .nil) = true ↔ e ≠ .nil := by
  simp only [bne, Bool.not_eq_true', ← Bool.not_eq_true, beq_nil_iff, ne_eq]

@[simp] theorem GoError.nil_beq_iff {e : GoError} : (.nil == e) = true ↔ e = .nil := by
  cases e <;> constructor <;> intro h <;> first | rfl | cases h

/-- `fmtFrac` of `time`, from the last digit: the fraction `v % 10^prec` as `.` and its digits
without trailing zeros (nothing when it is zero), and `v / 10^prec`. -/
def fmtFracLoop : Nat → Nat → Bool → List Char → List Char × Nat
  | 0, v, print, buf => (if print then '.' :: buf else buf, v)
  | n+1, v, print, buf =>
    let digit := v%10
    let print := print || digit != 0
    fmtFracLoop n (v/10) print (if print then Char.ofNat (48+digit) :: buf else buf)

def fmtFrac (v prec : Nat) : List Char × Nat := fmtFracLoop prec v false []

/-- `Duration.String`: hours, minutes and seconds with a fraction, or one unit below a second. -/
def Duration.String (d : Int) : List Char :=
  let u := d.natAbs
  let body :=
    if u < 1000000000 then
      if u = 0 then "0s".toList
      else
        let (unit, prec) :=
          if u < 1000 then ("ns".toList, 0) else if u < 1000000 then ("µs".toList, 3)
          else ("ms".toList, 6)
        let (frac, v) := fmtFrac u prec
        Nat.toDigits 10 v ++ frac ++ unit
    else
      let (frac, v) := fmtFrac u 9
      let secs := Nat.toDigits 10 (v%60) ++ frac ++ ['s']
      let m := v/60
      if 0 < m then
        let mins := Nat.toDigits 10 (m%60) ++ 'm' :: secs
        if 0 < m/60 then Nat.toDigits 10 (m/60) ++ 'h' :: mins else mins
      else secs
  if d < 0 then '-' :: body else body

example : Duration.String 90000000000 = "1m30s".toList := by decide

mutual
/-- `Error()`; none for `nil`, whose method call panics. -/
def GoError.Error : GoError → Option (List Char)
  | .nil => none
  | .ParseAssertError m _ | .ParseValidationError m => some m
  | .TimeoutError t => some ("got timeout after ".toList ++ Duration.String t)
  | .wrap _ msg cause => cause.Error.map fun c => msg ++ ':' :: ' ' :: c
  | .join _ errs => (errorsError errs).map (List.intercalate ['\n'])
  | .other _ msg => some msg

/-- The messages of the errors of a join, which its `Error()` puts on lines of their own. -/
def errorsError : List GoError → Option (List (List Char))
  | [] => some []
  | e :: es => e.Error.bind fun m => (errorsError es).map (m :: ·)
end

/-- `NewTimeoutError`. -/
def NewTimeoutError (timeout : Int) : GoError := .TimeoutError timeout

/-- `errors.Wrap` of `github.com/pkg/errors`, with `id` for the new pointer: `nil` stays `nil`. -/
def Wrap (id : Nat) (err : GoError) (message : List Char) : GoError :=
  if err == .nil then .nil else .wrap id message err

/-- `errors.Join`, with `id` for the new pointer: the errors that are not `nil`, or `nil` when
there are none. -/
def Join (id : Nat) (errs : List GoError) : GoError :=
  let errs := errs.filter (· != .nil)
  if errs.isEmpty then .nil else .join id errs

/-- The three error types of `utils`. -/
inductive UtilsType
  | ParseAssertError
  | ParseValidationError
  | TimeoutError
  deriving DecidableEq, Repr

/-- The dynamic type of an error, when it is one of the three of `utils`. -/
def GoError.utilsType : GoError → Option UtilsType
  | .ParseAssertError .. => some .ParseAssertError
  | .ParseValidationError _ => some .ParseValidationError
  | .TimeoutError _ => some .TimeoutError
  | _ => none

@[simp] theorem GoError.utilsType_nil : GoError.nil.utilsType = none := rfl

@[simp] theorem GoError.utilsType_wrap {id : Nat} {m : List Char} {c : GoError} :
    (GoError.wrap id m c).utilsType = none := rfl

@[simp] theorem GoError.utilsType_join {id : Nat} {es : List GoError} : (GoError.join id es).utilsType = none := rfl

/-- The `Is` method: each of the three error types is `Is` every error of its own type
(`_, ok := target.(T)`); none for a type without the method. -/
def GoError.Is (e target : GoError) : Option Bool := e.utilsType.map fun t => target.utilsType == some t

mutual
/-- The loop of `errors.is` for a comparable target: equal, or `Is` says so, or unwrap and go
on; the errors of a join are searched one by one. -/
def isLoop (target : GoError) (err : GoError) : Bool :=
  (err == target || err.Is target == some true) ||
    match err with
    | .wrap _ _ cause => cause != .nil && isLoop target cause
    | .join _ errs => isLoopAny target errs
    | _ => false

/-- `is` over the errors a join unwraps to. -/
def isLoopAny (target : GoError) : List GoError → Bool
  | [] => false
  | e :: es => isLoop target e || isLoopAny target es
end

/-- `errors.Is`. -/
def errorsIs (err target : GoError) : Bool :=
  if err == .nil || target == .nil then err == target else isLoop target err

mutual
/-- The errors at the ends of an error's wrap and join chains. -/
def GoError.leaves : GoError → List GoError
  | .wrap _ _ cause => cause.leaves
  | .join _ errs => leavesAll errs
  | err => [err]

/-- The leaves of the errors of a join. -/
def leavesAll : List GoError → List GoError
  | [] => []
  | e :: es => e.leaves ++ leavesAll es
end

@[simp] theorem leaves_Wrap (id : Nat) (err : GoError) (msg : List Char) :
    (Wrap id err msg).leaves = err.leaves := by
  unfold Wrap; split_ifs with h <;> simp_all [GoError.leaves]

theorem GoError.utilsType_of_beq {e e' : GoError} (h : (e == e') = true) : e.utilsType = e'.utilsType := by
  cases e <;> cases e' <;> first | rfl | exact absurd h Bool.false_ne_true

section Utils

variable {target : GoError} {t : UtilsType} (ht : target.utilsType = some t)
include ht

/-- Against a target of one of the three types, equality adds nothing to `Is`. -/
theorem beq_or_Is (err : GoError) :
    (err == target || err.Is target == some true) = (err.Is target == some true) := by
  cases h : err == target
  · simp
  · simp [GoError.Is, GoError.utilsType_of_beq h, ht]

/-- An error of none of the three types is never equal to such a target. -/
theorem beq_eq_false_of_utilsType {err : GoError} (h : err.utilsType = none) : (err == target) = false := by
  cases hb : err == target
  · rfl
  · have := GoError.utilsType_of_beq hb; rw [h, ht] at this; cases this

theorem Is_iff (err : GoError) : (err.Is target == some true) = true ↔ err.utilsType = some t := by
  cases h : err.utilsType with
  | none => simp [GoError.Is, h]
  | some u => simp [GoError.Is, h, ht]; exact eq_comm

end Utils

section Leaves

variable {target : GoError} {t : UtilsType}

mutual
theorem isLoop_iff (ht : target.utilsType = some t) (err : GoError) :
    isLoop target err = true ↔ ∃ e ∈ err.leaves, e.utilsType = some t := by
  cases err
  case wrap id msg cause =>
    have hb : (GoError.wrap id msg cause == target) = false := beq_eq_false_of_utilsType ht rfl
    by_cases hc : cause = .nil
    · subst hc; simp [isLoop, GoError.Is, GoError.leaves, hb]
    · simp [isLoop, GoError.Is, GoError.leaves, hb, hc, isLoop_iff ht cause]
  case join id errs =>
    have hb : (GoError.join id errs == target) = false := beq_eq_false_of_utilsType ht rfl
    simp [isLoop, GoError.Is, GoError.leaves, hb, isLoopAny_iff ht errs]
  all_goals simp only [isLoop, GoError.leaves, List.mem_singleton, exists_eq_left, Bool.or_false,
    ← Is_iff ht, beq_or_Is ht]

theorem isLoopAny_iff (ht : target.utilsType = some t) (errs : List GoError) :
    isLoopAny target errs = true ↔ ∃ e ∈ leavesAll errs, e.utilsType = some t := by
  cases errs with
  | nil => simp [isLoopAny, leavesAll]
  | cons e es => simp [isLoopAny, leavesAll, isLoop_iff ht e, isLoopAny_iff ht es, or_and_right, exists_or]
end

/-- For a target of one of the three types, `errors.Is` looks through every wrap and every join
and asks only whether one of the errors at the ends is of the target's type: messages,
durations and the `Err` of a `ParseAssertError` play no part. -/
theorem errorsIs_utils (ht : target.utilsType = some t) (err : GoError) :
    errorsIs err target = true ↔ ∃ e ∈ err.leaves, e.utilsType = some t := by
  have hn : target ≠ .nil := by rintro rfl; cases ht
  unfold errorsIs
  by_cases he : err = .nil
  · subst he; simp [hn, GoError.leaves]
  · simp [he, hn, isLoop_iff ht err]

end Leaves

/-- The timeout inside a `ParseAssertError` is not found: its `Err` is not unwrapped. -/
example :
    errorsIs (Wrap 1 (.ParseAssertError [] (NewTimeoutError 1)) "read".toList) (NewTimeoutError 0) = false :=
  by decide

end Plc4go.Utils