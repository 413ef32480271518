import Mathlib

/-!
# Kernel computations

Kernel code is a computation over an explicit state that either returns or stops the
machine in some state. The `ASSERT` family only exists in debug builds; the `R_ASSERT`
family exists in every build.
-/

namespace AlkOS

/-- Whether the kernel was compiled with `kIsDebugBuild`. -/
inductive Build where
  | debug
  | release
deriving DecidableEq, Repr

/-- Why a computation stopped: a failed assertion, or an access without defined behaviour. -/
inductive Panic where
  | assertion (message : String)
  | undefined (access : String)
deriving DecidableEq, Repr

/-- A computation over the state `σ`. -/
abbrev Kernel (σ α : Type) := EStateM Panic σ α

/-- The errors of the memory subsystem. -/
inductive MemError where
  | outOfMemory
  | invalidArgument
  | notFound
deriving DecidableEq, Repr

namespace Kernel

variable {σ τ α β : Type} {look : σ → Except Panic α} {value : α} {first : Kernel σ α}
  {rest : α → Kernel σ β} {view : σ → τ} {update : σ → τ → σ} {run : Kernel τ α}
  {thenRun elseRun : Kernel σ α}

/-- An assertion of the `ASSERT` family, checked by debug builds only. -/
def assertTrue (build : Build) (condition : Prop) [Decidable condition] (message : String) :
    Kernel σ Unit :=
  match build with
  | .debug => if condition then pure () else throw (.assertion message)
  | .release => pure ()

/-- An assertion of the `R_ASSERT` family. -/
def rAssertTrue (condition : Prop) [Decidable condition] (message : String) : Kernel σ Unit :=
  if condition then pure () else throw (.assertion message)

/-- An access that debug builds assert and release builds leave undefined. -/
def guardAccess (build : Build) (condition : Prop) [Decidable condition] (message : String) :
    Kernel σ Unit :=
  if condition then pure ()
  else match build with
    | .debug => throw (.assertion message)
    | .release => throw (.undefined message)

/-- A computation that looks at the state and does not change it. -/
def reading (look : σ → Except Panic α) : Kernel σ α := fun state =>
  match look state with
  | .ok value => .ok value state
  | .error panic => .error panic state

/-- Run a computation on a component of a larger state. -/
def zoom (view : σ → τ) (update : σ → τ → σ) (run : Kernel τ α) : Kernel σ α := fun state =>
  match EStateM.run run (view state) with
  | .ok value inner => .ok value (update state inner)
  | .error panic inner => .error panic (update state inner)

variable {condition : Prop} [Decidable condition] {message : String} {build : Build} {s s' : σ}

/-- What a function with one new value returns. -/
theorem of_update [DecidableEq σ] {f : σ → α} {x : α} (found : Function.update f s x s' = value) :
    s' = s ∧ x = value ∨ s' ≠ s ∧ f s' = value := by
  by_cases same : s' = s
  · subst same
    exact .inl ⟨rfl, (Function.update_self s' x f).symm.trans found⟩
  · exact .inr ⟨same, (Function.update_of_ne same x f).symm.trans found⟩

@[simp] theorem run_assertTrue (holds : condition) :
    (assertTrue build condition message).run s = .ok () s := by
  cases build with
  | debug => simp only [assertTrue, holds, ↓reduceIte, EStateM.run_pure]
  | release => rfl

@[simp] theorem run_rAssertTrue (holds : condition) :
    (rAssertTrue condition message).run s = .ok () s := by
  simp only [rAssertTrue, holds, ↓reduceIte, EStateM.run_pure]

theorem run_rAssertTrue_of_not (fails : ¬ condition) :
    (rAssertTrue condition message).run s = .error (.assertion message) s := by
  simp only [rAssertTrue, fails]
  rfl

@[simp] theorem run_guardAccess (holds : condition) :
    (guardAccess build condition message).run s = .ok () s := by
  simp only [guardAccess, holds, ↓reduceIte, EStateM.run_pure]

theorem run_guardAccess_of_not (s : σ) (fails : ¬ condition) :
    ∃ panic, (guardAccess build condition message).run s = .error panic s := by
  unfold guardAccess
  rw [if_neg fails]
  cases build with
  | debug => exact ⟨_, rfl⟩
  | release => exact ⟨_, rfl⟩

theorem of_run_guardAccess {value : Unit}
    (returned : (guardAccess build condition message).run s = .ok value s') :
    condition := by
  by_contra fails
  obtain ⟨panic, stopped⟩ : ∃ panic,
      (guardAccess build condition message).run s = .error panic s :=
    run_guardAccess_of_not s fails
  cases stopped.symm.trans returned

theorem run_get_bind {rest : σ → Kernel σ β} : (get >>= rest).run s = (rest s).run s := rfl

theorem run_reading_of_ok (seen : look s = .ok value) : (reading look).run s = .ok value s := by
  change (match look s with
    | .ok value => EStateM.Result.ok value s
    | .error panic => .error panic s) = _
  rw [seen]

theorem run_reading_eq_ok (returned : (reading look).run s = .ok value s') :
    look s = .ok value ∧ s' = s := by
  change (match look s with
    | .ok value => EStateM.Result.ok value s
    | .error panic => .error panic s) = _ at returned
  cases seen : look s with
  | ok got =>
    rw [seen] at returned
    cases returned
    exact ⟨rfl, rfl⟩
  | error panic =>
    rw [seen] at returned
    cases returned

/-- A step that returns hands its value and state to the rest. -/
theorem run_bind (returned : EStateM.run first s = .ok value s') :
    (first >>= rest).run s = (rest value).run s' := by
  rw [EStateM.run_bind, returned]

/-- A step that stops the machine stops the whole computation. -/
theorem run_bind_of_error {panic : Panic} (stopped : EStateM.run first s = .error panic s') :
    (first >>= rest).run s = .error panic s' := by
  rw [EStateM.run_bind, stopped]

/-- A returning sequence ran its first step and then its rest. -/
theorem run_bind_eq_ok {value : β} (returned : (first >>= rest).run s = .ok value s') :
    ∃ middle state, EStateM.run first s = .ok middle state ∧
      (rest middle).run state = .ok value s' := by
  rw [EStateM.run_bind] at returned
  cases outcome : EStateM.run first s with
  | ok middle state =>
    rw [outcome] at returned
    exact ⟨middle, state, rfl, returned⟩
  | error panic state =>
    rw [outcome] at returned
    cases returned

/-- A loop over one more number. -/
theorem run_forM_range_succ {body : ℕ → Kernel σ PUnit} {count : ℕ} {value : PUnit}
    (returned : ((List.range count).forM body).run s = .ok value s') :
    ((List.range (count + 1)).forM body).run s = (body count).run s' := by
  change (forM (List.range (count + 1)) body).run s = _
  have single : (forM [count] body : Kernel σ PUnit) = body count := by simp
  rw [List.range_succ, List.forM_append, single]
  exact run_bind returned

/-- A computation that returns on a component returns on the whole state. -/
theorem run_zoom_of_ok {inner : τ} (returned : EStateM.run run (view s) = .ok value inner) :
    (zoom view update run).run s = .ok value (update s inner) := by
  change (match EStateM.run run (view s) with
    | .ok value inner => EStateM.Result.ok value (update s inner)
    | .error panic inner => .error panic (update s inner)) = _
  rw [returned]

/-- A returning computation on a component returned there. -/
theorem run_zoom_eq_ok (returned : (zoom view update run).run s = .ok value s') :
    ∃ inner, EStateM.run run (view s) = .ok value inner ∧ s' = update s inner := by
  change (match EStateM.run run (view s) with
    | .ok value inner => EStateM.Result.ok value (update s inner)
    | .error panic inner => .error panic (update s inner)) = _ at returned
  cases outcome : EStateM.run run (view s) with
  | ok got inner =>
    rw [outcome] at returned
    cases returned
    exact ⟨inner, rfl, rfl⟩
  | error panic inner =>
    rw [outcome] at returned
    cases returned

/-- The value a computation returned, if it returned. -/
def outcome : EStateM.Result Panic σ α → Option α
  | .ok value _ => some value
  | .error _ _ => none

theorem eq_ok_of_outcome {result : EStateM.Result Panic σ α}
    (returned : outcome result = some value) : ∃ s, result = .ok value s := by
  cases result with
  | ok got s => exact ⟨s, by rw [Option.some.inj returned]⟩
  | error panic s => cases returned

/-- The computation never stops with the given panic. -/
def Avoids (panic : Panic) (run : Kernel σ α) : Prop :=
  ∀ s s', EStateM.run run s ≠ .error panic s'

namespace Avoids

variable {panic : Panic}

@[grind ←]
theorem pure (value : α) : Avoids panic (pure value : Kernel σ α) := by
  intro s s' stopped
  cases stopped

@[grind ←]
theorem get : Avoids panic (get : Kernel σ σ) := by
  intro s s' stopped
  cases stopped

@[grind ←]
theorem modify (update : σ → σ) : Avoids panic (modify update : Kernel σ PUnit) := by
  intro s s' stopped
  cases stopped

@[grind ←]
theorem bind (left : Avoids panic first) (right : ∀ value, Avoids panic (rest value)) :
    Avoids panic (first >>= rest) := by
  intro s s' stopped
  cases outcome : EStateM.run first s with
  | ok value middle =>
    rw [run_bind outcome] at stopped
    exact right value middle s' stopped
  | error raised middle =>
    rw [run_bind_of_error outcome] at stopped
    cases stopped
    exact left s s' outcome

theorem assertTrue (other : panic ≠ .assertion message) :
    Avoids panic (assertTrue build condition message : Kernel σ Unit) := by
  intro s s' stopped
  by_cases holds : condition
  · rw [run_assertTrue holds] at stopped
    cases stopped
  · cases build with
    | debug =>
      simp only [Kernel.assertTrue, holds] at stopped
      cases stopped
      exact other rfl
    | release => cases stopped

theorem guardAccess (other : panic ≠ .assertion message) (defined : panic ≠ .undefined message) :
    Avoids panic (guardAccess build condition message : Kernel σ Unit) := by
  intro s s' stopped
  by_cases holds : condition
  · rw [run_guardAccess holds] at stopped
    cases stopped
  · unfold Kernel.guardAccess at stopped
    rw [if_neg holds] at stopped
    cases build with
    | debug =>
      cases stopped
      exact other rfl
    | release =>
      cases stopped
      exact defined rfl

end Avoids

/-- A computation that returns keeps the property of the state. -/
def Preserves (inv : σ → Prop) (run : Kernel σ α) : Prop :=
  ∀ s value s', inv s → EStateM.run run s = .ok value s' → inv s'

namespace Preserves

variable {inv : σ → Prop}

theorem of_eq {run : Kernel σ α} (same : ∀ s value s', EStateM.run run s = .ok value s' → s' = s) :
    Preserves inv run := by
  intro s value s' holds returned
  rw [same s value s' returned]
  exact holds

@[grind ←]
theorem pure (value : α) : Preserves inv (pure value : Kernel σ α) :=
  of_eq fun _ _ _ returned => by cases returned; rfl

@[grind ←]
theorem get : Preserves inv (get : Kernel σ σ) :=
  of_eq fun _ _ _ returned => by cases returned; rfl

theorem modify {update : σ → σ} (keeps : ∀ s, inv s → inv (update s)) :
    Preserves inv (modify update : Kernel σ PUnit) := by
  intro s value s' holds returned
  cases returned
  exact keeps s holds

@[grind ←]
theorem bind (left : Preserves inv first) (right : ∀ value, Preserves inv (rest value)) :
    Preserves inv (first >>= rest) := by
  intro s value s' holds returned
  obtain ⟨middle, state, ran, continued⟩ := run_bind_eq_ok returned
  exact right middle state value s' (left s middle state holds ran) continued

theorem ite (left : Preserves inv thenRun) (right : Preserves inv elseRun) :
    Preserves inv (if condition then thenRun else elseRun) := by
  by_cases holds : condition
  · rw [if_pos holds]
    exact left
  · rw [if_neg holds]
    exact right

@[grind ←]
theorem assertTrue : Preserves inv (assertTrue build condition message : Kernel σ Unit) := by
  apply of_eq
  intro s value s' returned
  cases build with
  | debug =>
    by_cases holds : condition
    · rw [run_assertTrue holds] at returned
      cases returned
      rfl
    · simp only [Kernel.assertTrue, holds] at returned
      cases returned
  | release =>
    cases returned
    rfl

@[grind ←]
theorem guardAccess : Preserves inv (guardAccess build condition message : Kernel σ Unit) := by
  apply of_eq
  intro s value s' returned
  by_cases holds : condition
  · rw [run_guardAccess holds] at returned
    cases returned
    rfl
  · obtain ⟨panic, stopped⟩ := run_guardAccess_of_not s holds
    cases stopped.symm.trans returned

theorem zoom {inner : τ → Prop} (kept : Preserves inner run) (down : ∀ s, inv s → inner (view s))
    (up : ∀ s t, inv s → inner t → inv (update s t)) : Preserves inv (zoom view update run) := by
  intro s value s' holds returned
  obtain ⟨t, ran, rfl⟩ := run_zoom_eq_ok returned
  exact up s t holds (kept _ _ _ (down s holds) ran)

@[grind ←]
theorem forM {items : List β} {body : β → Kernel σ PUnit}
    (kept : ∀ item, Preserves inv (body item)) : Preserves inv (items.forM body) := by
  induction items with
  | nil => exact .pure _
  | cons item items ih => exact (kept item).bind fun _ => ih

end Preserves

end Kernel

end AlkOS
