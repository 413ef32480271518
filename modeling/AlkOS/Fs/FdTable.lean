import AlkOS.Foundation.Occurrences
import AlkOS.Fs.FileDescriptor

/-!
# The descriptor table and its count

`FdTable` on its own, with `count_`. `DuplicateFdTo` counts one more descriptor
whatever its target held, and a descriptor that is duplicated to itself is closed.
-/

namespace AlkOS.Fs

open FdManager Occurrences Relation Function

/-- `FdTable` with `count_`. -/
structure CountedFds where
  entries : FdTable := fun _ => none
  count : ℕ := 0

namespace CountedFds

variable {t : CountedFds} {fd e : ℕ} {isPipe : ℕ → Bool}

/-- Move an entry into a slot. -/
def put (t : CountedFds) (fd e : ℕ) : CountedFds :=
  ⟨update t.entries fd (some e), (t.count + 1) % 2 ^ 64⟩

/-- Reset a slot. -/
def reset (t : CountedFds) (fd : ℕ) : CountedFds :=
  ⟨update t.entries fd none, (t.count + (2 ^ 64 - 1)) % 2 ^ 64⟩

def allocate (t : CountedFds) (e : ℕ) : Except FdError ℤ × CountedFds :=
  match freeFd t.entries with
  | none => (.error .fdTableFull, t)
  | some fd => (.ok fd, t.put fd e)

def allocateAt (t : CountedFds) (e : ℕ) (fd : ℤ) : Except FdError ℤ × CountedFds :=
  if !isValidFd fd then (.error .invalidFd, t)
  else if t.entries fd.toNat ≠ none then (.error .badFileDescriptor, t)
  else (.ok fd, t.put fd.toNat e)

/-- `FdTable::Free`, which returns no value: the descriptor stands for it. -/
def free (isPipe : ℕ → Bool) (t : CountedFds) (fd : ℤ) : Except FdError ℤ × CountedFds :=
  if !isValidFd fd then (.error .invalidFd, t)
  else match t.entries fd.toNat with
  | none => (.error .notOpen, t)
  | some e =>
    if fd ≤ kStderrFd ∧ isPipe e then (.error .permissionDenied, t)
    else (.ok fd, t.reset fd.toNat)

def duplicateFd (t : CountedFds) (fd : ℤ) : Except FdError ℤ × CountedFds :=
  if !isValidFd fd then (.error .invalidFd, t)
  else match t.entries fd.toNat with
  | none => (.error .badFileDescriptor, t)
  | some e => t.allocate e

/-- `FdTable::DuplicateFdTo`: the target is reset before the source is copied. -/
def duplicateFdTo (t : CountedFds) (oldFd newFd : ℤ) : Except FdError ℤ × CountedFds :=
  if !isValidFd oldFd || !isValidFd newFd then (.error .invalidFd, t)
  else if t.entries oldFd.toNat = none then (.error .badFileDescriptor, t)
  else
    let entries := update t.entries newFd.toNat none
    (.ok newFd, ⟨update entries newFd.toNat (entries oldFd.toNat), (t.count + 1) % 2 ^ 64⟩)

/-- A call. -/
inductive Call where
  | allocate (e : ℕ)
  | allocateAt (e : ℕ) (fd : ℤ)
  | free (fd : ℤ)
  | duplicateFd (fd : ℤ)
  | duplicateFdTo (oldFd newFd : ℤ)

namespace Call

variable {call : Call}

/-- What a call returns, and the table after it. -/
def run (isPipe : ℕ → Bool) (t : CountedFds) : Call → Except FdError ℤ × CountedFds
  | allocate e => t.allocate e
  | allocateAt e fd => t.allocateAt e fd
  | free fd => CountedFds.free isPipe t fd
  | duplicateFd fd => t.duplicateFd fd
  | duplicateFdTo oldFd newFd => t.duplicateFdTo oldFd newFd

/-- What is prescribed for a call. -/
def Follows (isPipe : ℕ → Bool) (t : CountedFds) (call : Call) : Prop :=
  (∀ error, (call.run isPipe t).1 = .error error → (call.run isPipe t).2 = t) ∧
  match call with
  | duplicateFd oldFd => ∀ e fd, isValidFd oldFd = true → t.entries oldFd.toNat = some e →
      IsLeast {fd | fd < kMaxFdsPerProcess ∧ t.entries fd = none} fd →
        (call.run isPipe t).1 = .ok ↑fd ∧
          (call.run isPipe t).2.entries = update t.entries fd (some e)
  | duplicateFdTo oldFd newFd => ∀ e, isValidFd oldFd = true → isValidFd newFd = true →
      t.entries oldFd.toNat = some e →
        (call.run isPipe t).2.entries = update t.entries newFd.toNat (some e)
  | _ => True

/-- No open descriptor is the target of `DuplicateFdTo`. -/
def Proper (t : CountedFds) : Call → Prop
  | duplicateFdTo oldFd newFd => isValidFd oldFd = true → isValidFd newFd = true →
      t.entries oldFd.toNat ≠ none → t.entries newFd.toNat = none
  | _ => True

end Call

/-- The number of open descriptors. -/
def opened (entries : FdTable) : ℕ :=
  Occurrences.count (Finset.range kMaxFdsPerProcess) (fun fd => (entries fd).isSome) true

/-- A proper call is made. -/
def Step (t t' : CountedFds) : Prop :=
  ∃ (isPipe : ℕ → Bool) (call : Call), call.Proper t ∧ t' = (call.run isPipe t).2

/-- What a proper call can do: fail, fill a free slot or reset one that is in use. -/
inductive Does (t : CountedFds) : Except FdError ℤ × CountedFds → Prop where
  | error (error : FdError) : Does t (.error error, t)
  | put {fd : ℕ} (value : ℤ) (e : ℕ) : fd < kMaxFdsPerProcess → t.entries fd = none →
      Does t (.ok value, t.put fd e)
  | reset {fd e : ℕ} (value : ℤ) : fd < kMaxFdsPerProcess → t.entries fd = some e →
      Does t (.ok value, t.reset fd)

theorem toNat_lt {fd : ℤ} (valid : ¬ (!isValidFd fd) = true) : fd.toNat < kMaxFdsPerProcess := by
  simp [isValidFd] at valid
  omega

/-- The least free descriptor. -/
theorem freeFd_eq_some_iff :
    freeFd t.entries = some fd ↔
      IsLeast {fd | fd < kMaxFdsPerProcess ∧ t.entries fd = none} fd := by
  rw [freeFd, List.find?_range_eq_some, List.mem_range]
  constructor
  · intro ⟨empty, inside, before⟩
    refine ⟨⟨inside, Option.isNone_iff_eq_none.mp empty⟩, fun lower ⟨_, free⟩ => ?_⟩
    by_contra less
    simpa [free] using before lower (not_le.mp less)
  · intro ⟨⟨inside, empty⟩, least⟩
    refine ⟨Option.isNone_iff_eq_none.mpr empty, inside, fun lower less => ?_⟩
    cases free : t.entries lower with
    | none => exact absurd (least ⟨less.trans inside, free⟩) (not_le.mpr less)
    | some e => rfl

theorem Does.allocate : Does t (t.allocate e) := by
  unfold CountedFds.allocate
  cases found : freeFd t.entries with
  | none => exact .error _
  | some fd =>
    obtain ⟨inside, empty⟩ := (freeFd_eq_some_iff.mp found).1
    exact .put _ e inside empty

/-- A proper `DuplicateFdTo` fills a free slot. -/
theorem duplicateFdTo_eq {oldFd newFd : ℤ} (oldValid : isValidFd oldFd = true)
    (newValid : isValidFd newFd = true) (source : t.entries oldFd.toNat = some e)
    (target : t.entries newFd.toNat = none) :
    t.duplicateFdTo oldFd newFd = (.ok newFd, t.put newFd.toNat e) := by
  have same : update t.entries newFd.toNat none = t.entries := by
    rw [← target, update_eq_self]
  simp [duplicateFdTo, oldValid, newValid, source, same, put]

/-- A proper call fails, fills a slot or resets one. -/
theorem Call.does (isPipe : ℕ → Bool) {call : Call} (proper : call.Proper t) :
    Does t (call.run isPipe t) := by
  cases call with
  | allocate e => exact .allocate
  | allocateAt e fd =>
    change Does t (t.allocateAt e fd)
    unfold CountedFds.allocateAt
    split_ifs with invalid taken
    · exact .error _
    · exact .error _
    · exact .put _ e (toNat_lt invalid) (not_not.mp taken)
  | free fd =>
    change Does t (CountedFds.free isPipe t fd)
    unfold CountedFds.free
    split_ifs with invalid
    · exact .error _
    · cases found : t.entries fd.toNat with
      | none => exact .error _
      | some e =>
        dsimp only
        split_ifs
        · exact .error _
        · exact .reset _ (toNat_lt invalid) found
  | duplicateFd fd =>
    change Does t (t.duplicateFd fd)
    unfold CountedFds.duplicateFd
    split_ifs
    · exact .error _
    · cases t.entries fd.toNat with
      | none => exact .error _
      | some e => exact .allocate
  | duplicateFdTo oldFd newFd =>
    change Does t (t.duplicateFdTo oldFd newFd)
    by_cases good : isValidFd oldFd = true ∧ isValidFd newFd = true ∧ t.entries oldFd.toNat ≠ none
    · obtain ⟨oldValid, newValid, source⟩ := good
      have target := proper oldValid newValid source
      obtain ⟨e, source⟩ := Option.ne_none_iff_exists'.mp source
      rw [duplicateFdTo_eq oldValid newValid source target]
      exact .put _ e (toNat_lt (by simp [newValid])) target
    · unfold CountedFds.duplicateFdTo
      split_ifs with invalid missing
      · exact .error _
      · exact .error _
      · exact absurd ⟨by simp_all, by simp_all, missing⟩ good

/-- A proper call does what is prescribed. -/
theorem Call.follows {call : Call} (proper : call.Proper t) : call.Follows isPipe t := by
  refine ⟨fun error failed => ?_, ?_⟩
  · have does := Call.does isPipe proper
    generalize call.run isPipe t = result at *
    cases does <;> first | rfl | exact nomatch failed
  · cases call with
    | duplicateFd oldFd =>
      intro e fd valid source least
      simp [run, CountedFds.duplicateFd, valid, source, CountedFds.allocate,
        freeFd_eq_some_iff.mpr least, put]
    | duplicateFdTo oldFd newFd =>
      intro e oldValid newValid source
      have target := proper oldValid newValid (source ▸ Option.some_ne_none e)
      simp [run, duplicateFdTo_eq oldValid newValid source target, put]
    | _ => trivial

theorem opened_update (inside : fd < kMaxFdsPerProcess) (entries : FdTable) (x : Option ℕ) :
    opened (update entries fd x) + (if (entries fd).isSome then 1 else 0) =
      opened entries + if x.isSome then 1 else 0 := by
  have changed := count_update (f := Option.isSome ∘ entries) (x := x.isSome) (k := true)
    (Finset.mem_range.mpr inside)
  rwa [← comp_update] at changed

theorem opened_le (entries : FdTable) : opened entries ≤ 128 :=
  (Finset.card_filter_le _ _).trans_eq (Finset.card_range _)

/-- A step keeps the count. -/
theorem Step.counted {t' : CountedFds} (step : Step t t') (counted : t.count = opened t.entries) :
    t'.count = opened t'.entries := by
  obtain ⟨isPipe, call, proper, rfl⟩ := step
  have does := Call.does isPipe proper
  generalize call.run isPipe t = result at *
  have bound := opened_le t.entries
  cases does with
  | error => exact counted
  | @put fd _ e inside empty =>
    have changed := opened_update inside t.entries (some e)
    simp [empty] at changed
    simp only [CountedFds.put]
    omega
  | @reset fd e _ inside found =>
    have changed := opened_update inside t.entries none
    simp [found] at changed
    simp only [CountedFds.reset]
    omega

/-- While no open descriptor is a target of `DuplicateFdTo`, the count and the calls are right. -/
theorem counted_and_follows (run : ReflTransGen Step {} t) :
    t.count = opened t.entries ∧ ∀ (isPipe : ℕ → Bool) (call : Call), call.Proper t →
      call.Follows isPipe t := by
  refine ⟨?_, fun isPipe call => call.follows⟩
  induction run with
  | refl => decide +kernel
  | tail _ step ih => exact step.counted ih

/-- A descriptor is duplicated to a free one. -/
theorem counted_and_follows_put : (put {} 0 7).count = opened (put {} 0 7).entries ∧
    (Call.duplicateFdTo 0 1).Follows (fun _ => false) (put {} 0 7) := by
  have holds := counted_and_follows (t := put {} 0 7)
    (.single ⟨fun _ => false, .allocate 7, trivial, rfl⟩)
  exact ⟨holds.1, holds.2 _ _ fun _ _ _ => rfl⟩

/-- A descriptor duplicated to itself is closed; another open target is counted twice. -/
theorem not_follows_duplicateFdTo_self :
    ¬ (Call.duplicateFdTo 0 0).Follows (fun _ => false) (put {} 0 7) ∧
      ((put (put {} 0 7) 1 8).duplicateFdTo 0 1).2.count ≠
        opened ((put (put {} 0 7) 1 8).duplicateFdTo 0 1).2.entries := by
  refine ⟨fun follows => ?_, by decide +kernel⟩
  exact nomatch congrFun (follows.2 7 rfl rfl rfl) 0

end CountedFds

end AlkOS.Fs
