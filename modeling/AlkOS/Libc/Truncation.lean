import AlkOS.Libc.Expansion

/-!
# Truncation

With a size, `vsnprintf` keeps the beginning of the text and counts the rest, exactly if
the format is complete, the size is a positive `int`, and no `%%` comes to lie behind
the output.
-/

namespace AlkOS.Libc

open Kernel Function

variable {size i k : ℕ} {str : ℕ → Option Char} {text : List Char} {format : List Char}
  {page page' : Page} {va : List Arg} {marks : List Mark} {complete : Bool}

/-- The buffer of `vfprintf`. -/
def kTempBufferSize : ℕ := 2048

/-- `vfprintf` up to the call of `fwrite`: the bytes that are passed to it. -/
def vfprintf (format : List Char) : Kernel Printf (List (Option Char)) := do
  let len ← vsnprintf kTempBufferSize format
  let s ← get
  if (List.range s.i).any fun k => kTempBufferSize ≤ k && (s.str k).isSome then
    throw (.undefined "write past the buffer")
  else if len < 0 then return []
  else return (List.range (min len.toNat kTempBufferSize)).map s.str

/-- The text of the marks. -/
def textOfMarks (marks : List Mark) : List Char := marks.map Mark.char

/-- Every character that is stored directly lies inside of the output. -/
def RawWithin (size : ℕ) (marks : List Mark) : Prop :=
  ∀ k c, marks[k]? = some (.raw c) → k < size

/-- The output holds what fits of the text and its end, and the length is returned. -/
def Truncates (size : ℕ) (format : List Char) (va : List Arg) (text : List Char) : Prop :=
  ∀ str, ∃ s', (vsnprintf size format).run ⟨str, 0, va⟩ = .ok text.length s' ∧
    (0 < size → (∀ k < min (size - 1) text.length, s'.str k = text[k]?) ∧
      s'.str (min (size - 1) text.length) = some '\x00') ∧
    ∀ k, size ≤ k → s'.str k = str k

/-- The stream gets the text or a part of its beginning. -/
def SendsPrefix (format : List Char) (va : List Arg) (text : List Char) : Prop :=
  ∃ n s', (vfprintf format).run (blank va) = .ok ((text.take n).map some) s'

/-- What a run of `vsnprintf` comes to. -/
theorem run_vsnprintf (expanded : expand format va = some (marks, complete)) (size : ℕ)
    (str : ℕ → Option Char) :
    ∃ va', Ends (vsnprintf size format) (str, 0) va
      ((Page.writeAll size (str, 0) marks).bind fun page =>
        (finished size complete page).map fun (value, page) => (value, page, va')) := by
  obtain ⟨⟨marks', complete', va'⟩, traced, same⟩ := Option.map_eq_some_iff.mp expanded
  obtain ⟨rfl, rfl⟩ := Prod.mk.inj same
  refine ⟨va', ?_⟩
  have ended := ends_formatLoop size (format.length + 1) format (str, 0) va
  rw [traced] at ended
  simp only [written, Option.bind_some] at ended
  cases wrote : Page.writeAll size (str, 0) marks' with
  | none =>
    rw [wrote] at ended
    exact ended
  | some page =>
    rw [wrote] at ended
    exact ended

/-- What a run that returns has written. -/
theorem of_run_vsnprintf (expanded : expand format va = some (marks, complete)) {value : ℤ}
    {s' : Printf} (returned : (vsnprintf size format).run ⟨str, 0, va⟩ = .ok value s') :
    ∃ page, Page.writeAll size (str, 0) marks = some page ∧
      finished size complete page = some (value, s'.str, s'.i) := by
  obtain ⟨va', ended⟩ := run_vsnprintf expanded size str
  generalize ends : Option.bind _ _ = result at ended
  cases result with
  | none =>
    obtain ⟨panic, _, stopped⟩ := ended
    exact nomatch stopped.symm.trans returned
  | some result =>
    obtain ⟨page, wrote, rest⟩ := Option.bind_eq_some_iff.mp ends
    obtain ⟨⟨value', page'⟩, done, rfl⟩ := Option.map_eq_some_iff.mp rest
    obtain ⟨rfl, rfl⟩ := EStateM.Result.ok.inj (ended.symm.trans returned)
    exact ⟨page, wrote, done⟩

namespace Page

/-- Without room for a character there is nothing to write. -/
theorem write_eq_some (nonempty : 0 < size) {mark : Mark}
    (wrote : page.write size mark = some page') :
    page.2 < kIntMax ∧ ∃ k, page' = (update page.1 k (some mark.char), page.2 + 1) ∧
      k = match mark with
        | .put _ => place size page.2
        | .raw _ => page.2 := by
  cases mark with
  | put c =>
    simp only [write, if_pos nonempty, Option.ite_none_right_eq_some, Option.some.injEq] at wrote
    exact ⟨wrote.1, _, wrote.2.symm, rfl⟩
  | raw c =>
    simp only [write, Option.ite_none_right_eq_some, Option.some.injEq] at wrote
    exact ⟨wrote.1, _, wrote.2.symm, rfl⟩

section

variable (nonempty : 0 < size) (wrote : page.writeAll size marks = some page')
include nonempty wrote

/-- Where the characters end. -/
theorem position_of_writeAll :
    page'.2 = page.2 + marks.length ∧ (marks ≠ [] → page'.2 ≤ kIntMax) := by
  induction marks generalizing page with
  | nil =>
    rw [← Option.some.inj wrote]
    exact ⟨rfl, fun absent => absurd rfl absent⟩
  | cons mark marks ih =>
    obtain ⟨middle, first, others⟩ := Option.bind_eq_some_iff.mp wrote
    obtain ⟨room, _, rfl, _⟩ := write_eq_some nonempty first
    obtain ⟨position, small⟩ := ih others
    rw [List.length_cons]
    refine ⟨by omega, fun _ => ?_⟩
    cases marks with
    | nil =>
      rw [List.length_nil] at position
      omega
    | cons next marks => exact small (List.cons_ne_nil _ _)

/-- A place that was written stays written. -/
theorem writeAll_ne_none (here : page.1 k ≠ none) : page'.1 k ≠ none := by
  induction marks generalizing page with
  | nil =>
    rw [← Option.some.inj wrote]
    exact here
  | cons mark marks ih =>
    obtain ⟨middle, first, others⟩ := Option.bind_eq_some_iff.mp wrote
    obtain ⟨_, j, rfl, _⟩ := write_eq_some nonempty first
    refine ih others ?_
    by_cases same : k = j
    · simp [same]
    · simpa [same] using here

/-- A character that is stored directly is written where it stands in the text. -/
theorem writeAll_raw {c : Char} (raw : marks[k]? = some (.raw c)) :
    page'.1 (page.2 + k) ≠ none := by
  induction marks generalizing page k with
  | nil => exact nomatch raw
  | cons mark marks ih =>
    obtain ⟨middle, first, others⟩ := Option.bind_eq_some_iff.mp wrote
    obtain ⟨_, j, rfl, place⟩ := write_eq_some nonempty first
    cases k with
    | zero =>
      rw [List.getElem?_cons_zero, Option.some.injEq] at raw
      subst raw
      refine writeAll_ne_none nonempty others ?_
      simp [place]
    | succ k =>
      have later := ih others raw
      rwa [Nat.add_right_comm] at later

/-- Places behind the text other than the last one of the output are left alone. -/
theorem writeAll_of_le (behind : page.2 + marks.length ≤ k) (other : k ≠ size - 1) :
    page'.1 k = page.1 k := by
  induction marks generalizing page with
  | nil => rw [← Option.some.inj wrote]
  | cons mark marks ih =>
    obtain ⟨middle, first, others⟩ := Option.bind_eq_some_iff.mp wrote
    obtain ⟨_, j, rfl, here⟩ := write_eq_some nonempty first
    rw [List.length_cons] at behind
    rw [ih others (by simp only; omega)]
    refine update_of_ne ?_ _ _
    cases mark with
    | put c =>
      simp only [place] at here
      split at here <;> omega
    | raw c =>
      simp only at here
      omega

end

/-- Characters that are in place when they are stored directly. -/
theorem writeAll_eq_placed (nonempty : 0 < size) (small : page.2 + marks.length ≤ kIntMax)
    (within : ∀ k c, marks[k]? = some (.raw c) → place size (page.2 + k) = page.2 + k) :
    page.writeAll size marks =
      some (placed size page.1 page.2 (textOfMarks marks), page.2 + marks.length) := by
  induction marks generalizing page with
  | nil => rfl
  | cons mark marks ih =>
    rw [List.length_cons] at small
    have room : page.2 < kIntMax := by omega
    have first : page.write size mark =
        some (update page.1 (place size page.2) (some mark.char), page.2 + 1) := by
      cases mark with
      | put c => simp only [write, if_pos nonempty, if_pos room, Mark.char]
      | raw c =>
        have here := within 0 c rfl
        rw [Nat.add_zero] at here
        simp only [write, if_pos room, Mark.char, here]
    have others : (Page.writeAll size (update page.1 (place size page.2)
        (some mark.char), page.2 + 1) marks) = _ := ih (by simp only; omega) (by
      intro k c raw
      have later := within (k + 1) c (by rw [List.getElem?_cons_succ]; exact raw)
      rw [Nat.add_right_comm]
      exact later)
    change (page.write size mark).bind _ = _
    rw [first, Option.bind_some, others]
    simp only [List.length_cons]
    congr 2
    omega

end Page

/-- A place that a character reaches exactly from its own position. -/
theorem placed_apply (own : ∀ j, i ≤ j → j < i + text.length → (place size j = k ↔ j = k)) :
    placed size str i text k = if i ≤ k ∧ k < i + text.length then text[k - i]? else str k := by
  induction text generalizing str i with
  | nil =>
    rw [if_neg (by simp)]
    rfl
  | cons c text ih =>
    rw [List.length_cons] at own
    rw [placed, ih fun j low high => own j (by omega) (by omega), List.length_cons]
    have here := own i le_rfl (by omega)
    by_cases same : i = k
    · subst same
      rw [here.mpr rfl]
      simp
    · have apart : k ≠ place size i := fun equal => same (here.mp equal.symm)
      rw [update_of_ne apart]
      by_cases inside : i + 1 ≤ k ∧ k < i + 1 + text.length
      · rw [if_pos inside, if_pos (by omega)]
        have step : k - i = (k - (i + 1)) + 1 := by omega
        rw [step, List.getElem?_cons_succ]
      · rw [if_neg inside, if_neg (by omega)]

/-- A place that no character reaches. -/
theorem placed_of_ne (none : ∀ j, i ≤ j → j < i + text.length → place size j ≠ k) :
    placed size str i text k = str k := by
  induction text generalizing str i with
  | nil => rfl
  | cons c text ih =>
    rw [List.length_cons] at none
    rw [placed, ih fun j low high => none j (by omega) (by omega)]
    exact update_of_ne (Ne.symm (none i le_rfl (by omega))) _ _

/-- The condition under which a text is truncated as it should be. -/
def TruncationCondition (size : ℕ) (marks : List Mark) (complete : Bool) : Prop :=
  complete = true ∧ 0 < size ∧ marks.length < kIntMax ∧
    (size ≤ kIntMax ∨ (marks.length : ℤ) < toInt32 size) ∧ RawWithin size marks

theorem length_textOfMarks (marks : List Mark) : (textOfMarks marks).length = marks.length :=
  List.length_map _

/-- The places of the characters under the condition on the size. -/
theorem place_eq (fine : size ≤ kIntMax ∨ (marks.length : ℤ) < toInt32 size) {j : ℕ}
    (inside : j ≤ marks.length) : place size j = if j < size then j else size - 1 := by
  obtain ⟨top, below⟩ := toInt32_le size
  rcases fine with small | fits
  · unfold place
    rw [toInt32_of_lt small]
    simp only [Nat.cast_lt]
  · unfold place
    rw [if_pos (by omega), if_pos (by omega)]

theorem run_finished (nonempty : 0 < size) (room : page.2 < kIntMax) :
    finished size true page = some ((page.2 : ℤ),
      (update page.1 (place size page.2) (some '\x00'), page.2 + 1)) := by
  simp only [finished, Page.write, if_pos nonempty, if_pos room, Option.map_some]
  push_cast
  rw [add_sub_cancel_right]

/-- The terminator has a place if the end of a format is reached. -/
theorem of_finished (nonempty : 0 < size) {value : ℤ}
    (ends : finished size true page = some (value, page')) :
    page.2 < kIntMax ∧ value = page.2 ∧
      page' = (update page.1 (place size page.2) (some '\x00'), page.2 + 1) := by
  have room : page.2 < kIntMax := by
    by_contra full
    simp only [finished, ↓reduceIte, Page.write, if_pos nonempty, if_neg full, Option.map_none]
      at ends
    cases ends
  rw [run_finished nonempty room] at ends
  obtain ⟨rfl, rfl⟩ := Prod.mk.inj (Option.some.inj ends)
  exact ⟨room, rfl, rfl⟩

/-- The output when every character that is stored directly is in its place. -/
theorem writeAll_of_rawWithin (nonempty : 0 < size) (small : marks.length ≤ kIntMax)
    (fine : size ≤ kIntMax ∨ (marks.length : ℤ) < toInt32 size) (within : RawWithin size marks) :
    Page.writeAll size (str, 0) marks =
      some (placed size str 0 (textOfMarks marks), marks.length) := by
  have wrote : Page.writeAll size (str, 0) marks =
      some (placed size str 0 (textOfMarks marks), 0 + marks.length) := by
    refine Page.writeAll_eq_placed nonempty (by simpa using small) fun k c raw => ?_
    have inside := (List.getElem?_eq_some_iff.mp raw).1
    simp only [Nat.zero_add]
    rw [place_eq fine inside.le, if_pos (within k c raw)]
  rwa [Nat.zero_add] at wrote

/-- Nothing is stored directly where the output stays empty. -/
theorem rawWithin_of_writeAll (nonempty : 0 < size)
    (wrote : Page.writeAll size (fun _ => none, 0) marks = some page)
    (untouched : ∀ k < marks.length, size ≤ k → page.1 k = none) : RawWithin size marks := by
  intro k c raw
  by_contra behind
  have stored := Page.writeAll_raw nonempty wrote raw
  rw [Nat.zero_add] at stored
  exact stored (untouched k (List.getElem?_eq_some_iff.mp raw).1 (by omega))

theorem eq_none_of_update {f : ℕ → Option Char} {a : ℕ} {c : Char}
    (empty : update f a (some c) k = none) : f k = none := by
  rcases of_update empty with ⟨_, ⟨⟩⟩ | ⟨_, before⟩
  exact before

/-- Under the condition the output is truncated right. -/
theorem truncates_of_condition (expanded : expand format va = some (marks, complete))
    (condition : TruncationCondition size marks complete) :
    Truncates size format va (textOfMarks marks) := by
  obtain ⟨rfl, nonempty, small, fine, within⟩ := condition
  intro str
  obtain ⟨va', ended⟩ := run_vsnprintf expanded size str
  rw [writeAll_of_rawWithin nonempty small.le fine within, Option.bind_some,
    run_finished nonempty (by simp only; omega)] at ended
  refine ⟨⟨update (placed size str 0 (textOfMarks marks)) (place size marks.length)
    (some '\x00'), marks.length + 1, va'⟩, ended.trans (by rw [length_textOfMarks]), ?_, ?_⟩
  · intro _
    rw [length_textOfMarks]
    simp only
    have last := place_eq fine le_rfl
    have final : place size marks.length = min (size - 1) marks.length := by
      rw [last]
      split <;> omega
    refine ⟨fun k inside => ?_, by rw [final, update_self]⟩
    rw [update_of_ne (by omega), placed_apply, length_textOfMarks,
      if_pos (by omega), Nat.sub_zero]
    intro j _ high
    rw [length_textOfMarks] at high
    rw [place_eq fine (by omega)]
    split <;> omega
  · intro k behind
    have outside : ∀ j, j ≤ marks.length → place size j ≠ k := by
      intro j inside
      rw [place_eq fine inside]
      split <;> omega
    simp only
    rw [update_of_ne (Ne.symm (outside _ le_rfl)), placed_of_ne]
    intro j _ high
    rw [length_textOfMarks] at high
    exact outside j (by omega)

/-- Without a place for the terminator nothing is counted that goes through `PutChar`. -/
theorem Page.writeAll_zero (wrote : page.writeAll 0 marks = some page') :
    page'.2 ≤ page.2 + marks.length := by
  induction marks generalizing page with
  | nil =>
    rw [← Option.some.inj wrote]
    exact le_rfl
  | cons mark marks ih =>
    obtain ⟨middle, first, others⟩ := Option.bind_eq_some_iff.mp wrote
    have rest := ih others
    have step : middle.2 ≤ page.2 + 1 := by
      cases mark with
      | put c =>
        rw [← Option.some.inj first]
        exact Nat.le_succ _
      | raw c =>
        simp only [write, Option.ite_none_right_eq_some, Option.some.injEq] at first
        rw [← first.2]
    rw [List.length_cons]
    omega

/-- The condition on outputs is necessary. -/
theorem condition_of_truncates (expanded : expand format va = some (marks, complete))
    (truncates : Truncates size format va (textOfMarks marks)) :
    TruncationCondition size marks complete := by
  obtain ⟨s', returned, shown, untouched⟩ := truncates fun _ => none
  rw [length_textOfMarks] at returned shown
  obtain ⟨page, wrote, ends⟩ := of_run_vsnprintf expanded returned
  cases complete with
  | false =>
    have value : (-1 : ℤ) = marks.length := (Prod.mk.inj (Option.some.inj ends)).1
    omega
  | true =>
    rcases Nat.eq_zero_or_pos size with rfl | nonempty
    · have value : (page.2 : ℤ) - 1 = marks.length := (Prod.mk.inj (Option.some.inj ends)).1
      have bound := Page.writeAll_zero wrote
      omega
    · obtain ⟨room, value, output⟩ := of_finished nonempty ends
      rw [(Prod.mk.inj output).1] at shown untouched
      refine ⟨rfl, nonempty, by omega, ?_, ?_⟩
      · by_contra unfit
        have last := (shown nonempty).2
        rw [min_eq_right (by omega)] at last
        have elsewhere : marks.length ≠ place size page.2 := by
          unfold place
          rw [if_neg (by omega)]
          omega
        rw [update_of_ne elsewhere,
          Page.writeAll_of_le nonempty wrote (by simp only; omega) (by omega)] at last
        exact nomatch last
      · exact rawWithin_of_writeAll nonempty wrote fun k _ behind =>
          eq_none_of_update (untouched k behind)

/-- The condition under which a stream gets no other characters than those of the text. -/
def StreamCondition (marks : List Mark) (complete : Bool) : Prop :=
  RawWithin kTempBufferSize marks ∧ marks.length + complete.toNat ≤ kIntMax ∧
    (complete = true → marks.length < kTempBufferSize ∨
      (textOfMarks marks)[kTempBufferSize - 1]? = some '\x00')

/-- Some character lies behind the buffer of `vfprintf`. -/
def Printf.overruns (s : Printf) : Bool :=
  (List.range s.i).any fun k => kTempBufferSize ≤ k && (s.str k).isSome

theorem overruns_eq_false (s : Printf) :
    s.overruns = false ↔ ∀ k < s.i, kTempBufferSize ≤ k → s.str k = none := by
  simp only [Printf.overruns, List.any_eq_false, List.mem_range, Bool.and_eq_true,
    decide_eq_true_eq, not_and, Option.not_isSome_iff_eq_none]

theorem run_vfprintf {s s' : Printf} {len : ℤ}
    (returned : (vsnprintf kTempBufferSize format).run s = .ok len s') :
    (vfprintf format).run s =
      if s'.overruns then .error (.undefined "write past the buffer") s'
      else .ok (if len < 0 then []
        else (List.range (min len.toNat kTempBufferSize)).map s'.str) s' := by
  unfold vfprintf
  rw [run_bind returned]
  change EStateM.run (if s'.overruns = true then _ else _) s' = _
  split_ifs <;> rfl

/-- What `vfprintf` sends when it returns. -/
theorem of_run_vfprintf {s s'' : Printf} {sent : List (Option Char)}
    (sends : (vfprintf format).run s = .ok sent s'') :
    ∃ len s', (vsnprintf kTempBufferSize format).run s = .ok len s' ∧
      (∀ k < s'.i, kTempBufferSize ≤ k → s'.str k = none) ∧
      sent = if len < 0 then []
        else (List.range (min len.toNat kTempBufferSize)).map s'.str := by
  obtain ⟨len, s', returned, -⟩ := run_bind_eq_ok sends
  refine ⟨len, s', returned, ?_⟩
  rw [run_vfprintf returned] at sends
  rw [← overruns_eq_false]
  cases overruns : s'.overruns with
  | true =>
    rw [overruns] at sends
    exact nomatch sends
  | false =>
    rw [overruns] at sends
    exact ⟨rfl, (EStateM.Result.ok.inj sends).1.symm⟩

/-- The beginning of a text as an output shows it. -/
theorem map_range_eq_take {n : ℕ} (enough : n ≤ text.length)
    (shown : ∀ k < n, str k = text[k]?) : (List.range n).map str = (text.take n).map some := by
  refine List.ext_getElem? fun k => ?_
  rw [List.getElem?_map, List.getElem?_map]
  by_cases inside : k < n
  · rw [List.getElem?_range inside, List.getElem?_take_of_lt inside, Option.map_some,
      shown k inside, List.getElem?_eq_getElem (by omega), Option.map_some]
  · rw [List.getElem?_eq_none (by simp; omega), List.getElem?_eq_none (by simp; omega)]
    rfl

/-- Under the condition a stream gets a beginning of the text. -/
theorem sendsPrefix_of_condition (expanded : expand format va = some (marks, complete))
    (condition : StreamCondition marks complete) :
    SendsPrefix format va (textOfMarks marks) := by
  obtain ⟨within, small, last⟩ := condition
  have fits : kTempBufferSize ≤ kIntMax := by decide
  have positive : 0 < kTempBufferSize := by decide
  cases complete with
  | false =>
    obtain ⟨va', ended⟩ := run_vsnprintf expanded kTempBufferSize fun _ => none
    rw [writeAll_of_rawWithin positive small (.inl fits) within] at ended
    have returned : (vsnprintf kTempBufferSize format).run (blank va) = .ok (-1)
      ⟨placed kTempBufferSize (fun _ => none) 0 (textOfMarks marks), marks.length, va'⟩ := ended
    refine ⟨0, ⟨placed kTempBufferSize (fun _ => none) 0 (textOfMarks marks), marks.length, va'⟩,
      (run_vfprintf returned).trans ?_⟩
    rw [if_neg, if_pos (by decide), List.take_zero, List.map_nil]
    rw [Bool.not_eq_true, overruns_eq_false]
    intro k _ behind
    refine placed_of_ne fun j _ high => ?_
    rw [length_textOfMarks, Nat.zero_add] at high
    rw [place_eq (.inl fits) high.le]
    split <;> omega
  | true =>
    have room : marks.length < kIntMax := small
    obtain ⟨s', returned, shown, untouched⟩ := truncates_of_condition expanded
      ⟨rfl, positive, room, .inl fits, within⟩ fun _ => none
    obtain ⟨same, ends⟩ := shown positive
    rw [length_textOfMarks] at returned same ends
    refine ⟨min marks.length kTempBufferSize, s', (run_vfprintf returned).trans ?_⟩
    rw [if_neg, if_neg (by omega), Int.toNat_natCast, map_range_eq_take]
    · rw [length_textOfMarks]
      exact min_le_left _ _
    · intro k inside
      rcases last rfl with short | hidden
      · exact same k (by omega)
      · by_cases final : k = kTempBufferSize - 1
        · subst final
          rw [min_eq_left (by omega)] at ends
          rw [ends, hidden]
        · exact same k (by omega)
    · rw [Bool.not_eq_true, overruns_eq_false]
      exact fun k _ behind => untouched k behind

/-- The condition on streams is necessary. -/
theorem condition_of_sendsPrefix (expanded : expand format va = some (marks, complete))
    (sends : SendsPrefix format va (textOfMarks marks)) : StreamCondition marks complete := by
  obtain ⟨n, s'', sent⟩ := sends
  have positive : 0 < kTempBufferSize := by decide
  obtain ⟨len, s', returned, unhurt, same⟩ := of_run_vfprintf sent
  obtain ⟨page, wrote, ends⟩ := of_run_vsnprintf expanded returned
  obtain ⟨position, small⟩ := Page.position_of_writeAll positive wrote
  rw [Nat.zero_add] at position
  cases complete with
  | false =>
    obtain ⟨rfl, rfl⟩ := Prod.mk.inj (Option.some.inj ends)
    refine ⟨rawWithin_of_writeAll positive wrote fun k inside behind =>
      unhurt k (by simp only at position; omega) behind, ?_, fun absent => nomatch absent⟩
    by_cases empty : marks = []
    · subst empty
      decide
    · have := small empty
      simp only [Bool.toNat_false]
      omega
  | true =>
    obtain ⟨room, rfl, output⟩ := of_finished positive ends
    obtain ⟨shown, count⟩ := Prod.mk.inj output
    rw [shown] at unhurt same
    refine ⟨rawWithin_of_writeAll positive wrote fun k inside behind =>
      eq_none_of_update (unhurt k (by omega) behind),
      by simp only [Bool.toNat_true]; omega, fun _ => ?_⟩
    by_contra long
    rw [not_or] at long
    obtain ⟨long, other⟩ := long
    -- The last byte of the buffer is the terminator, and it is passed on.
    have final : place kTempBufferSize page.2 = kTempBufferSize - 1 := by
      rw [place_eq (.inl (by decide)) position.le, if_neg (by omega)]
    rw [if_neg (by omega), min_eq_right (by omega), final] at same
    have last := congrArg (·[kTempBufferSize - 1]?) same
    simp only [List.getElem?_map] at last
    rw [List.getElem?_range (by decide), List.getElem?_take] at last
    split at last
    · obtain ⟨c, there, same⟩ := Option.map_eq_some_iff.mp last
      rw [Option.some.inj same] at there
      exact other there
    · exact nomatch last

/-- Truncation keeps the beginning of the text, and streams get nothing else, exactly under two
conditions. -/
theorem truncates_iff_condition (expanded : expand format va = some (marks, complete))
    (size : ℕ) :
    (Truncates size format va (textOfMarks marks) ↔ TruncationCondition size marks complete) ∧
      (SendsPrefix format va (textOfMarks marks) ↔ StreamCondition marks complete) :=
  ⟨⟨condition_of_truncates expanded, truncates_of_condition expanded⟩,
    ⟨condition_of_sendsPrefix expanded, sendsPrefix_of_condition expanded⟩⟩

/-- A number and a percent sign in an output of three characters. -/
theorem truncates_iff_condition_percent :
    expand ['%', 'd', '%', '%'] [.word 42] = some ([.put '4', .put '2', .raw '%'], true) ∧
      Truncates 3 ['%', 'd', '%', '%'] [.word 42] ['4', '2', '%'] ∧
      SendsPrefix ['%', 'd', '%', '%'] [.word 42] ['4', '2', '%'] := by
  have expanded : expand ['%', 'd', '%', '%'] [.word 42] =
    some ([.put '4', .put '2', .raw '%'], true) := by decide +kernel
  have within : RawWithin 3 [.put '4', .put '2', .raw '%'] := fun k c raw =>
    (List.getElem?_eq_some_iff.mp raw).1
  refine ⟨expanded, (truncates_iff_condition expanded 3).1.mpr ⟨rfl, by decide, by decide,
    .inl (by decide), within⟩, (truncates_iff_condition expanded 3).2.mpr ⟨?_, by decide,
      fun _ => .inl (by decide)⟩⟩
  exact fun k c raw => (within k c raw).trans (by decide)

/-- A size of zero does not count, a percent sign is stored behind the output, and a long text is
passed on with its end. -/
theorem not_truncates_zero :
    ¬Truncates 0 ['a'] [] ['a'] ∧ ¬Truncates 1 ['a', '%', '%'] [] ['a', '%'] ∧
      ¬SendsPrefix (List.replicate 2048 'a') [] (List.replicate 2048 'a') := by
  refine ⟨fun truncates => ?_, fun truncates => ?_, fun sends => ?_⟩
  · have expanded : expand ['a'] [] = some ([.put 'a'], true) := by decide +kernel
    exact absurd (condition_of_truncates expanded truncates).2.1 (by decide)
  · have expanded : expand ['a', '%', '%'] [] = some ([.put 'a', .raw '%'], true) := by
      decide +kernel
    exact absurd ((condition_of_truncates expanded truncates).2.2.2.2 1 '%' rfl) (by decide)
  · have expanded : expand (List.replicate 2048 'a') [] =
        some (List.replicate 2048 (.put 'a'), true) := by decide +kernel
    have text : textOfMarks (List.replicate 2048 (.put 'a')) = List.replicate 2048 'a' := by
      simp only [textOfMarks, List.map_replicate, Mark.char]
    have condition := condition_of_sendsPrefix expanded (by rw [text]; exact sends)
    rcases condition.2.2 rfl with short | last
    · rw [List.length_replicate] at short
      exact absurd short (by decide)
    · exact absurd last (by decide +kernel)

end AlkOS.Libc
