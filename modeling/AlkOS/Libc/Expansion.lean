import AlkOS.Libc.Conformance

/-!
# The text of a format

The characters that a format and its arguments stand for do not depend on the size of
the output. They are computed here on their own; a run of `vsnprintf` writes them one
after the other.
-/

namespace AlkOS.Libc

open Kernel Function

/-- A character that goes through `PutChar`, or one that is stored directly. -/
inductive Mark where
  | put (c : Char)
  | raw (c : Char)
deriving DecidableEq, Repr

def Mark.char : Mark → Char
  | put c => c
  | raw c => c

/-- A computation on the arguments that produces characters; it may be undefined. -/
def Trace (α : Type) : Type := List Arg → Option (List Mark × α × List Arg)

variable (c : Char)

namespace Trace

variable {α β : Type}

/-- A trace followed by another one. -/
def andThen (first : Trace α) (rest : α → Trace β) : Trace β := fun va =>
  (first va).bind fun (marks, value, va) =>
    (rest value va).map fun (marks', value', va) => (marks ++ marks', value', va)

instance : Monad Trace where
  pure value va := some ([], value, va)
  bind := andThen

/-- An undefined computation. -/
def fail : Trace α := fun _ => none

def mark (m : Mark) : Trace Unit := fun va => some ([m], (), va)

def put (text : List Char) : Trace Unit := fun va => some (text.map .put, (), va)

def word : Trace (BitVec 64)
  | .word bits :: rest => some ([], bits, rest)
  | _ => none

def int : Trace ℤ := do
  let bits ← word
  return (bits.setWidth 32).toInt

def string : Trace (Option (List Char))
  | .string array :: rest => some ([], some array, rest)
  | .wide array :: rest => some ([], some (array.flatMap wideBytes), rest)
  | .word bits :: rest => if bits = 0 then some ([], none, rest) else none
  | [] => none

def scratch (converted : Converted) : Trace Converted :=
  if converted.data.length < kBufferSize then return converted else fail

def strlen (array : List Char) : Trace ℕ :=
  match array.findIdx? (· = '\x00') with
  | some length => return length
  | none => fail

/-- The conversions. -/
def convert (spec : Spec) : Trace Converted :=
  match c with
  | 'd' => return convertDecimal false spec (← word)
  | 'i' => return convertDecimal false spec (← word)
  | 'u' => return convertDecimal true spec (← word)
  | 'x' => do
      let bits ← word
      scratch (convertUnsigned (formatHex 0x20) spec
        (integerArg true spec.lengthModifier bits).toNat)
  | 'X' => do
      let bits ← word
      scratch (convertUnsigned (formatHex 0) spec (integerArg true spec.lengthModifier bits).toNat)
  | 'p' => do
      let bits ← word
      if bits = 0 then
        return ⟨{ spec with zeroPadding := false, precision := 0 }, none,
          ['(', 'n', 'i', 'l', ')']⟩
      else scratch (convertUnsigned (formatHex 0x20) { spec with isHash := true } bits.toNat)
  | 'o' => do
      let bits ← word
      scratch (convertUnsigned formatOct spec (integerArg true spec.lengthModifier bits).toNat)
  | 's' => do
      match ← string with
      | some array => return convertString spec array (← strlen array)
      | none =>
        return ⟨{ spec with zeroPadding := false, precision := 0 }, none,
          ['(', 'n', 'u', 'l', 'l', ')']⟩
  | 'c' => return convertChar spec (← word)
  | '%' => do
      mark (.raw '%')
      return ⟨spec, none, []⟩
  | 'n' => do
      let _ ← word
      return ⟨spec, none, []⟩
  | c =>
    if c ∈ ['f', 'F', 'e', 'E', 'g', 'G', 'a', 'A'] then fail
    else do
      mark (.put '%')
      mark (.put c)
      return ⟨spec, none, []⟩

/-- A directive after its `%`. -/
def directive : ℕ → List Char → Spec → Trace (Option (List Char))
  | 0, _, _ => fail
  | _ + 1, [], _ => return none
  | fuel + 1, c :: rest, spec =>
    if c = '-' then directive fuel rest { spec with reversePadding := true }
    else if c = '.' then directive fuel rest { spec with precision := 0 }
    else if c = '0' ∧ spec.takesZero = true then
      directive fuel rest { spec with zeroPadding := true }
    else if c.isDigit then
      if (getDecimal 0 (c :: rest)).1 ≤ kIntMax then
        directive fuel (getDecimal 0 (c :: rest)).2 (spec.withNumber (getDecimal 0 (c :: rest)).1)
      else fail
    else if c = '*' then do
      let value ← int
      directive fuel rest (spec.withStar value)
    else if c = '+' then directive fuel rest { spec with isPlus := true }
    else if c = ' ' then directive fuel rest { spec with isSpace := true }
    else if c = '#' then directive fuel rest { spec with isHash := true }
    else
      match modifierOf c with
      | some modifier =>
        match spec.lengthModifier.extend modifier with
        | some modifier => directive fuel rest { spec with lengthModifier := modifier }
        | none => do
            put ['%', c]
            put (padded ⟨spec, none, []⟩)
            return some rest
      | none => do
          let converted ← convert c spec
          put (padded converted)
          return some rest

/-- The whole format, and whether it does not end inside a directive. -/
def format : ℕ → List Char → Trace Bool
  | 0, _ => fail
  | _ + 1, [] => return true
  | fuel + 1, c :: rest =>
    if c = '%' then do
      match ← directive (rest.length + 1) rest {} with
      | none => return false
      | some rest => format fuel rest
    else do
      mark (.put c)
      format fuel rest

end Trace

/-- The characters of a format, and whether it ends outside of directives. -/
def expand (format : List Char) (va : List Arg) : Option (List Mark × Bool) :=
  (Trace.format (format.length + 1) format va).map fun (marks, complete, _) => (marks, complete)

/-- An output and a position in it. -/
abbrev Page := (ℕ → Option Char) × ℕ

/-- Write a character. A position that is not an `int` is not reached. -/
def Page.write (size : ℕ) (page : Page) : Mark → Option Page
  | .put c =>
    if 0 < size then
      if page.2 < kIntMax then
        some (update page.1 (place size page.2) (some c), page.2 + 1)
      else none
    else some page
  | .raw c =>
    if page.2 < kIntMax then some (update page.1 page.2 (some c), page.2 + 1) else none

/-- Write characters one after the other. -/
def Page.writeAll (size : ℕ) : Page → List Mark → Option Page
  | page, [] => some page
  | page, mark :: marks => (page.write size mark).bind fun page => page.writeAll size marks

theorem Page.writeAll_append (size : ℕ) (page : Page) (marks marks' : List Mark) :
    page.writeAll size (marks ++ marks') =
      (page.writeAll size marks).bind fun page => page.writeAll size marks' := by
  induction marks generalizing page with
  | nil => rfl
  | cons mark marks ih =>
    change ((page.write size mark).bind fun page => page.writeAll size (marks ++ marks')) = _
    rw [funext ih, ← Option.bind_assoc]
    rfl

variable {α β : Type} {size : ℕ} {page page' : Page} {va va' : List Arg} {marks : List Mark}

/-- A run ends with a value, an output and the arguments left, or stops. -/
def Ends (run : Kernel Printf α) (page : Page) (va : List Arg) :
    Option (α × Page × List Arg) → Prop
  | some (value, page', va') =>
    EStateM.run run ⟨page.1, page.2, va⟩ = .ok value ⟨page'.1, page'.2, va'⟩
  | none => Stops run ⟨page.1, page.2, va⟩

/-- What is left of a trace when its characters are written. -/
def written (size : ℕ) (page : Page) (traced : Option (List Mark × α × List Arg)) :
    Option (α × Page × List Arg) :=
  traced.bind fun (marks, value, va) =>
    (page.writeAll size marks).map fun page => (value, page, va)

/-- A computation does what a trace says, whatever the size of the output is. -/
def Follows (run : ℕ → Kernel Printf α) (trace : Trace α) : Prop :=
  ∀ size page va, Ends (run size) page va (written size page (trace va))

theorem Ends.congr {run run' : Kernel Printf α} {ended : Option (α × Page × List Arg)}
    (same : EStateM.run run ⟨page.1, page.2, va⟩ = EStateM.run run' ⟨page.1, page.2, va⟩)
    (ends : Ends run' page va ended) : Ends run page va ended := by
  cases ended with
  | some got => exact same.trans ends
  | none =>
    obtain ⟨panic, s', stopped⟩ := ends
    exact ⟨panic, s', same.trans stopped⟩

/-- Runs are put together. -/
theorem Ends.bind {first : Kernel Printf α} {rest : α → Kernel Printf β}
    {ended : Option (α × Page × List Arg)}
    {after : α × Page × List Arg → Option (β × Page × List Arg)}
    (left : Ends first page va ended)
    (right : ∀ value page va, Ends (rest value) page va (after (value, page, va))) :
    Ends (first >>= rest) page va (ended.bind after) := by
  cases ended with
  | none =>
    obtain ⟨panic, s', stopped⟩ := left
    exact ⟨panic, s', run_bind_of_error stopped⟩
  | some got =>
    obtain ⟨value, page', va'⟩ := got
    have next := right value page' va'
    change Ends _ page va (after (value, page', va'))
    revert next
    cases after (value, page', va') with
    | none =>
      intro ⟨panic, s', stopped⟩
      exact ⟨panic, s', (run_bind left).trans stopped⟩
    | some ended => exact fun next => (run_bind left).trans next

theorem written_andThen (first : Trace α) (rest : α → Trace β) :
    written size page (first.andThen rest va) =
      (written size page (first va)).bind fun (value, page, va) =>
        written size page (rest value va) := by
  unfold Trace.andThen written
  cases first va with
  | none => rfl
  | some got =>
    obtain ⟨marks, value, va'⟩ := got
    simp only [Option.bind_some]
    cases wrote : page.writeAll size marks with
    | none => cases more : rest value va' <;> simp [Page.writeAll_append, wrote]
    | some page' => cases more : rest value va' <;> simp [Page.writeAll_append, wrote, more]

namespace Follows

theorem pure (value : α) : Follows (fun _ => Pure.pure value) (Pure.pure value) :=
  fun _ _ _ => rfl

theorem fail (panic : Panic) : Follows (α := α) (fun _ => throw panic) Trace.fail :=
  fun _ page va => ⟨panic, ⟨page.1, page.2, va⟩, rfl⟩

/-- Computations are put together. -/
theorem bind {first : ℕ → Kernel Printf α} {rest : ℕ → α → Kernel Printf β} {trace : Trace α}
    {others : α → Trace β} (left : Follows first trace)
    (right : ∀ value, Follows (fun size => rest size value) (others value)) :
    Follows (fun size => first size >>= rest size) (trace >>= others) := by
  intro size page va
  change Ends _ page va (written size page (trace.andThen others va))
  rw [written_andThen]
  exact (left size page va).bind fun value page va => right value size page va

theorem ite {condition : Prop} [Decidable condition] {run run' : ℕ → Kernel Printf α}
    {trace trace' : Trace α} (left : Follows run trace) (right : Follows run' trace') :
    Follows (fun size => if condition then run size else run' size)
      (if condition then trace else trace') := by
  by_cases holds : condition
  · simp only [if_pos holds]
    exact left
  · simp only [if_neg holds]
    exact right

theorem written_mark (m : Mark) :
    written size page (Trace.mark m va) = (page.write size m).map fun page => ((), page, va) := by
  change ((page.write size m).bind fun page => some page).map _ = _
  cases page.write size m <;> rfl

/-- A character that is stored somewhere. -/
theorem ends_putAt (page : Page) (va : List Arg) (k : ℕ) (c : Char) :
    Ends (putAt k c) page va ((if page.2 < kIntMax then
      some (update page.1 k (some c), page.2 + 1) else none).map
        fun page => ((), page, va)) := by
  by_cases room : page.2 < kIntMax
  · rw [if_pos room]
    change (putAt k c).run ⟨page.1, page.2, va⟩ = _
    unfold putAt
    rw [run_get_bind, if_pos room]
    rfl
  · rw [if_neg room]
    refine ⟨.undefined "signed overflow", ⟨page.1, page.2, va⟩, ?_⟩
    unfold putAt
    rw [run_get_bind, if_neg room]
    rfl

theorem putChar : Follows (Libc.putChar · c) (Trace.mark (.put c)) := by
  intro size page va
  rw [written_mark]
  unfold Page.write Libc.putChar
  by_cases nonempty : 0 < size
  · simp only [if_pos nonempty]
    exact (ends_putAt page va (place size page.2) c).congr (run_get_bind)
  · simp only [if_neg nonempty]
    rfl

theorem raw : Follows (fun _ => do putAt (← get).i c) (Trace.mark (.raw c)) := by
  intro size page va
  rw [written_mark]
  exact (ends_putAt page va page.2 c).congr (run_get_bind)

theorem putAll (text : List Char) : Follows (Libc.putAll · text) (Trace.put text) := by
  induction text with
  | nil => exact pure ()
  | cons c text ih =>
    exact bind (putChar c) fun _ => ih

theorem vaWord : Follows (fun _ => Libc.vaWord) Trace.word := by
  intro size page va
  cases va with
  | nil => exact ⟨_, _, rfl⟩
  | cons arg rest =>
    cases arg with
    | word bits => rfl
    | string array => exact ⟨_, _, rfl⟩
    | wide array => exact ⟨_, _, rfl⟩

/-- Strings are read from the arguments. -/
theorem vaString : Follows (fun _ => Libc.vaString) Trace.string := by
  intro size page va
  cases va with
  | nil => exact ⟨_, _, rfl⟩
  | cons arg rest =>
    cases arg with
    | word bits =>
      by_cases null : bits = 0
      · subst null
        rfl
      · have none : written size page (Trace.string (.word bits :: rest)) = none := by
          simp only [Trace.string, if_neg null]
          rfl
        rw [none]
        refine ⟨.undefined "read through a number", ⟨page.1, page.2, .word bits :: rest⟩, ?_⟩
        unfold Libc.vaString
        rw [run_get_bind]
        simp only [if_neg null]
        rfl
    | string array => rfl
    | wide array => rfl

theorem scratch (converted : Converted) :
    Follows (fun _ => Libc.scratch converted) (Trace.scratch converted) :=
  ite (pure converted) (fail _)

theorem strlen (array : List Char) : Follows (fun _ => Libc.strlen array) (Trace.strlen array) := by
  unfold Libc.strlen Trace.strlen
  cases array.findIdx? (· = '\x00') with
  | none => exact fail _
  | some length => exact pure length

/-- Conversions follow their traces. -/
theorem convert (spec : Spec) :
    Follows (Libc.convert · c spec) (Trace.convert c spec) := by
  unfold Libc.convert
  split
  · exact bind vaWord fun _ => pure _
  · exact bind vaWord fun _ => pure _
  · exact bind vaWord fun _ => pure _
  · exact bind vaWord fun _ => scratch _
  · exact bind vaWord fun _ => scratch _
  · refine bind vaWord fun bits => ?_
    exact ite (pure _) (scratch _)
  · exact bind vaWord fun _ => scratch _
  · refine bind vaString fun found => ?_
    cases found with
    | none => exact pure _
    | some array => exact bind (strlen array) fun _ => pure _
  · exact bind vaWord fun _ => pure _
  · exact bind (raw '%') fun _ => pure _
  · exact bind vaWord fun _ => pure _
  -- No other conversion has a character of its own.
  · have other : Trace.convert c spec =
        if c ∈ ['f', 'F', 'e', 'E', 'g', 'G', 'a', 'A'] then Trace.fail
        else do
          Trace.mark (.put '%')
          Trace.mark (.put c)
          return ⟨spec, none, []⟩ := by
      unfold Trace.convert
      split <;> first | contradiction | rfl
    rw [other]
    exact ite (fail _) (bind (putChar '%') fun _ => bind (putChar c) fun _ => pure _)

/-- Directives follow their traces. -/
theorem directive (fuel : ℕ) (rest : List Char) (spec : Spec) :
    Follows (Libc.directive · fuel rest spec) (Trace.directive fuel rest spec) := by
  induction fuel generalizing rest spec with
  | zero => exact fail _
  | succ fuel ih =>
    cases rest with
    | nil => exact pure none
    | cons c rest =>
      refine ite (ih _ _) (ite (ih _ _) (ite (ih _ _) (ite (ite (ih _ _) (fail _))
        (ite (bind (bind vaWord fun _ => pure _) fun _ => ih _ _) (ite (ih _ _) (ite (ih _ _)
          (ite (ih _ _) ?_)))))))
      cases modifierOf c with
      | none => exact bind (convert c spec) fun _ => bind (putAll _) fun _ => pure _
      | some modifier =>
        simp only
        cases spec.lengthModifier.extend modifier with
        | none => exact bind (putAll _) fun _ => bind (putAll _) fun _ => pure _
        | some modifier => exact ih _ _

end Follows

/-- The end of a format: the terminator and the length, or a failure inside a
directive. -/
def finished (size : ℕ) (complete : Bool) (page : Page) : Option (ℤ × Page) :=
  if complete then (page.write size (.put '\x00')).map fun page => ((page.2 : ℤ) - 1, page)
  else some (-1, page)

/-- The loop over the format writes the text and its end. -/
theorem ends_formatLoop (size fuel : ℕ) (format : List Char) (page : Page) (va : List Arg) :
    Ends (formatLoop size fuel format) page va
      ((written size page (Trace.format fuel format va)).bind fun (complete, page, va) =>
        (finished size complete page).map fun (value, page) => (value, page, va)) := by
  induction fuel generalizing format page va with
  | zero => exact ⟨_, _, rfl⟩
  | succ fuel ih =>
    cases format with
    | nil =>
      have wrote := Follows.putChar '\x00' size page va
      rw [Follows.written_mark] at wrote
      have ended : Ends (formatLoop size (fuel + 1) []) page va
          (((page.write size (.put '\x00')).map fun page => ((), page, va)).bind
            fun (_, page, va) => some ((page.2 : ℤ) - 1, page, va)) :=
        wrote.bind fun _ page va => rfl
      convert ended using 1
      change (finished size true page).map _ = _
      simp only [finished]
      cases page.write size (.put '\x00') <;> rfl
    | cons c rest =>
      by_cases percent : c = '%'
      · have traced : Trace.format (fuel + 1) (c :: rest) =
            (Trace.directive (rest.length + 1) rest {}).andThen fun left =>
              match left with
              | none => pure false
              | some rest => Trace.format fuel rest := by
          simp only [Trace.format, if_pos percent]
          rfl
        have looped : formatLoop size (fuel + 1) (c :: rest) =
            directive size (rest.length + 1) rest {} >>= fun left =>
              match left with
              | none => pure (-1)
              | some rest => formatLoop size fuel rest := by
          exact if_pos percent
        rw [traced, looped, written_andThen, Option.bind_assoc]
        refine (Follows.directive _ rest {} size page va).bind fun left page va => ?_
        cases left with
        | none => rfl
        | some rest => exact ih rest page va
      · have traced : Trace.format (fuel + 1) (c :: rest) =
            (Trace.mark (.put c)).andThen fun _ => Trace.format fuel rest := by
          simp only [Trace.format, if_neg percent]
          rfl
        have looped : formatLoop size (fuel + 1) (c :: rest) =
            putChar size c >>= fun _ => formatLoop size fuel rest := by
          simp only [formatLoop, if_neg percent]
        rw [traced, looped, written_andThen, Option.bind_assoc]
        exact (Follows.putChar c size page va).bind fun _ page va => ih rest page va

end AlkOS.Libc
