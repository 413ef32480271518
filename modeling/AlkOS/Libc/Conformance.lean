import AlkOS.Libc.Formatting

/-!
# Conformance of `vsnprintf`

A format and all formats that it begins with are written as C prescribes exactly if
every item meets its condition and the size, as an `int`, exceeds the length of the
text.
-/

namespace AlkOS.Libc

open Kernel Function

variable {size fuel n : ℕ} {s s' : Printf} {va : List Arg} {item : Item} {items : List Item}
  {directive : Directive} {rest text prior : List Char} {str : ℕ → Option Char} {bits : BitVec 64}
  {array : List Char} {c : Char}

/-- Where a character goes. -/
def place (size i : ℕ) : ℕ := if (i : ℤ) < toInt32 size then i else size - 1

/-- The output after some characters. -/
def placed (size : ℕ) (str : ℕ → Option Char) (i : ℕ) : List Char → ℕ → Option Char
  | [] => str
  | c :: text => placed size (update str (place size i) (some c)) (i + 1) text

theorem run_putChar (nonempty : 0 < size) (room : s.i < kIntMax) :
    (putChar size c).run s = .ok ()
      { s with str := update s.str (place size s.i) (some c), i := s.i + 1 } := by
  unfold putChar
  rw [if_pos nonempty, run_get_bind]
  unfold putAt
  rw [run_get_bind, if_pos room]
  rfl

/-- Where a run stored a character. -/
theorem run_putChar_eq_ok {done : Unit} (nonempty : 0 < size)
    (returned : (putChar size c).run s = .ok done s') :
    s.i < kIntMax ∧
      s' = { s with str := update s.str (place size s.i) (some c), i := s.i + 1 } := by
  by_cases room : s.i < kIntMax
  · rw [run_putChar nonempty room] at returned
    cases returned
    exact ⟨room, rfl⟩
  · unfold putChar at returned
    rw [if_pos nonempty, run_get_bind] at returned
    unfold putAt at returned
    rw [run_get_bind, if_neg room] at returned
    exact nomatch returned

theorem run_putAll (nonempty : 0 < size) (room : s.i + text.length ≤ kIntMax) :
    (putAll size text).run s = .ok ()
      { s with str := placed size s.str s.i text, i := s.i + text.length } := by
  induction text generalizing s with
  | nil => rfl
  | cons c text ih =>
    rw [List.length_cons] at room
    refine (run_bind (run_putChar nonempty (by omega))).trans ?_
    refine (ih (by simp only; omega)).trans ?_
    rw [List.length_cons]
    congr 2
    simp only
    omega

/-- Where a run stored its characters. -/
theorem run_putAll_eq_ok {done : Unit} (nonempty : 0 < size)
    (returned : (putAll size text).run s = .ok done s') :
    s' = { s with str := placed size s.str s.i text, i := s.i + text.length } := by
  induction text generalizing s with
  | nil =>
    cases returned
    rfl
  | cons c text ih =>
    have split : (putChar size c >>= fun _ => putAll size text).run s = .ok done s' :=
      returned
    obtain ⟨_, middle, first, others⟩ := run_bind_eq_ok split
    obtain ⟨_, rfl⟩ := run_putChar_eq_ok nonempty first
    rw [ih others, List.length_cons]
    congr 1
    simp only
    omega

/-- Characters behind the position are left as they are. -/
theorem placed_of_le {k i : ℕ} (behind : i + text.length ≤ k) (other : k ≠ size - 1) :
    placed size str i text k = str k := by
  induction text generalizing str i with
  | nil => rfl
  | cons c text ih =>
    rw [List.length_cons] at behind
    have apart : k ≠ place size i := by
      unfold place
      split <;> omega
    rw [placed, ih (by omega), update_of_ne apart]

/-- The output holds a text. -/
def held (text : List Char) : ℕ → Option Char := fun k => text[k]?

theorem held_concat (text : List Char) (c : Char) :
    update (held text) text.length (some c) = held (text ++ [c]) := by
  funext k
  by_cases here : k = text.length
  · subst here
    simp [held]
  · rw [update_of_ne here]
    unfold held
    rcases Nat.lt_or_ge k text.length with inside | outside
    · rw [List.getElem?_append_left inside]
    · rw [List.getElem?_eq_none outside,
        List.getElem?_eq_none (by simp; omega)]

theorem placed_held (room : ((prior ++ text).length : ℤ) ≤ toInt32 size) :
    placed size (held prior) prior.length text = held (prior ++ text) := by
  induction text generalizing prior with
  | nil =>
    rw [List.append_nil]
    rfl
  | cons c text ih =>
    have here : place size prior.length = prior.length := by
      unfold place
      rw [if_pos]
      rw [List.length_append, List.length_cons] at room
      omega
    have length : prior.length + 1 = (prior ++ [c]).length := by simp
    rw [placed, here, held_concat, length, ih (by simpa using room), List.append_assoc]
    rfl

theorem run_vaWord (here : s.va = .word bits :: va) :
    EStateM.run vaWord s = .ok bits { s with va := va } := by
  unfold vaWord
  rw [run_get_bind, here]
  rfl

theorem run_vaString {isWide : Bool}
    (here : s.va = (if isWide then Arg.wide array else Arg.string array) :: va) :
    EStateM.run vaString s =
      .ok (some (if isWide then array.flatMap wideBytes else array)) { s with va := va } := by
  unfold vaString
  rw [run_get_bind, here]
  cases isWide <;> rfl

/-- A computation ends in a panic. -/
def Stops {α : Type} (run : Kernel Printf α) (s : Printf) : Prop :=
  ∃ panic s', EStateM.run run s = .error panic s'

/-- A conversion leaves some characters and the arguments that follow, or the run stops. -/
def Converts (run : Kernel Printf Converted) (s : Printf) (output : Option (List Char))
    (s' : Printf) : Prop :=
  match output with
  | some text => ∃ converted, EStateM.run run s = .ok converted s' ∧ padded converted = text
  | none => Stops run s

/-- An item is written and the rest of the format is read, or the run stops. -/
def Writes (size : ℕ) (run : Kernel Printf ℤ) (s : Printf) (output : Option (List Char))
    (next : Kernel Printf ℤ) (s' : Printf) : Prop :=
  match output with
  | some text => EStateM.run run s = (putAll size text >>= fun _ => next).run s'
  | none => Stops run s

/-- A directive is read and its conversion written. -/
theorem writes_directive {output : Option (List Char)} {arg : Arg} (proper : directive.Proper)
    (modifier : LengthModifier) (conversion : IsConversion c)
    (here : s.va = directive.args ++ arg :: va)
    (converts : Converts (convert size c (directive.specOf modifier))
      { s with va := arg :: va } output { s with va := va }) :
    Writes size (formatLoop size (fuel + 1)
      ('%' :: (directive.render ++ modifier.render ++ c :: rest))) s output
      (formatLoop size fuel rest) { s with va := va } := by
  have arrives : (parse size (directive.render ++ modifier.render ++ c :: rest) {}).run s =
      _ := run_parse_directive proper modifier conversion here
  have reads : EStateM.run (formatLoop size (fuel + 1)
      ('%' :: (directive.render ++ modifier.render ++ c :: rest))) s =
      EStateM.run (parse size (directive.render ++ modifier.render ++ c :: rest) {} >>= _) s := rfl
  unfold Writes
  cases output with
  | none =>
    obtain ⟨panic, s', stopped⟩ := converts
    rw [run_bind_of_error stopped] at arrives
    exact ⟨panic, s', reads.trans (run_bind_of_error arrives)⟩
  | some text =>
    obtain ⟨converted, returned, rfl⟩ := converts
    rw [run_bind returned] at arrives
    simp only
    rw [reads]
    cases written : (putAll size (padded converted)).run { s with va := va } with
    | ok done s' =>
      rw [run_bind written] at arrives ⊢
      rw [run_bind arrives]
    | error panic s' =>
      rw [run_bind_of_error written] at arrives ⊢
      rw [run_bind_of_error arrives]

theorem converts_of_scratch {run : Kernel Printf Converted} {converted : Converted}
    (same : EStateM.run run s = (scratch converted).run s') :
    Converts run s (scratched converted) s' := by
  unfold scratch at same
  unfold scratched
  by_cases short : converted.data.length < kBufferSize
  · rw [if_pos short] at same ⊢
    exact ⟨converted, same, rfl⟩
  · rw [if_neg short] at same ⊢
    exact ⟨_, s', same⟩

/-- The integer conversions leave their output. -/
theorem converts_integer (directive : Directive) (modifier : LengthModifier)
    (conversion : IntegerConversion) (here : s.va = .word bits :: va) :
    Converts (convert size conversion.render (directive.specOf modifier)) s
      (Item.integer directive modifier conversion bits).output { s with va := va } := by
  have word := run_vaWord here
  cases conversion with
  | d => exact ⟨_, run_bind word, rfl⟩
  | i => exact ⟨_, run_bind word, rfl⟩
  | u => exact ⟨_, run_bind word, rfl⟩
  | x => exact converts_of_scratch (run_bind word)
  | bigX => exact converts_of_scratch (run_bind word)
  | o => exact converts_of_scratch (run_bind word)

/-- The string conversions leave their output. -/
theorem converts_string (directive : Directive) (isWide : Bool)
    (here : s.va = (if isWide then Arg.wide array else Arg.string array) :: va) :
    Converts (convert size 's' (directive.specOf (if isWide then .l else .none))) s
      (Item.string directive isWide array).output { s with va := va } := by
  have bytes := run_vaString here
  have reads : (convert size 's' (directive.specOf (if isWide then .l else .none))).run s =
      EStateM.run (do
        let length ← strlen (if isWide then array.flatMap wideBytes else array)
        return convertString (directive.specOf (if isWide then .l else .none))
          (if isWide then array.flatMap wideBytes else array) length) { s with va := va } :=
    run_bind bytes
  change Converts _ s (stringOutput _ (if isWide then array.flatMap wideBytes else array)) _
  generalize (if isWide then array.flatMap wideBytes else array) = bytes at reads
  unfold strlen at reads
  unfold stringOutput
  cases found : bytes.findIdx? (· = '\x00') with
  | none =>
    rw [found] at reads
    exact ⟨_, { s with va := va }, reads⟩
  | some length =>
    rw [found] at reads
    exact ⟨_, reads, rfl⟩

/-- Every item is written in its turn. -/
theorem writes_item (proper : item.Proper) (here : s.va = item.args ++ va) :
    Writes size (formatLoop size (fuel + 1) (item.render ++ rest)) s item.output
      (formatLoop size fuel rest) { s with va := va } := by
  cases item with
  | char c =>
    subst here
    change (formatLoop size (fuel + 1) (c :: rest)).run s = _
    rw [formatLoop, if_neg proper.1]
    cases written : (putChar size c).run s with
    | ok done s' =>
      have all : (putAll size [c]).run s = .ok () s' := run_bind written
      rw [run_bind written, run_bind all]
    | error panic s' =>
      have all : (putAll size [c]).run s = .error panic s' := run_bind_of_error written
      rw [run_bind_of_error written, run_bind_of_error all]
  | integer directive modifier conversion bits =>
    have format : (Item.integer directive modifier conversion bits).render ++ rest =
        '%' :: (directive.render ++ modifier.render ++ conversion.render :: rest) := by
      simp [Item.render]
    have kind : IsConversion conversion.render := by
      cases conversion <;> simp [IsConversion, IntegerConversion.render]
    rw [format]
    exact writes_directive proper.1 modifier kind (here.trans (by simp [Item.args]))
      (converts_integer directive modifier conversion rfl)
  | character directive isWide bits =>
    have format : (Item.character directive isWide bits).render ++ rest =
        '%' :: (directive.render ++ (if isWide then LengthModifier.l else .none).render ++
          'c' :: rest) := by
      simp [Item.render]
    rw [format]
    exact writes_directive proper.1 _ (by simp [IsConversion])
      (here.trans (by simp [Item.args])) ⟨_, run_bind (run_vaWord rfl), rfl⟩
  | string directive isWide array =>
    have format : (Item.string directive isWide array).render ++ rest =
        '%' :: (directive.render ++ (if isWide then LengthModifier.l else .none).render ++
          's' :: rest) := by
      simp [Item.render]
    rw [format]
    exact writes_directive proper.1 _ (by simp [IsConversion])
      (here.trans (by simp [Item.args])) (converts_string directive isWide rfl)

/-- An output to which nothing was written. -/
def blank (va : List Arg) : Printf := ⟨fun _ => none, 0, va⟩

/-- The prescribed text and its end are the only characters written, and its length is returned. -/
def Conforms (size : ℕ) (items : List Item) : Prop :=
  ∃ s', (vsnprintf size (formatOf items)).run (blank (argsOf items)) =
      .ok (textOf items).length s' ∧
    s'.str = held (textOf items ++ ['\x00'])

/-- The output after items that are written as C prescribes. -/
def Printed (text : List Char) (s : Printf) : Prop := s.i = text.length ∧ s.str = held text

/-- Items that are written as C prescribes, up to one that may not be. -/
theorem run_formatLoop (nonempty : 0 < size) (enough : items.length ≤ fuel)
    (proper : ∀ item ∈ items, item.Proper)
    (meets : ∀ item ∈ items, item.output = some item.text)
    (room : ((prior ++ textOf items).length : ℤ) ≤ toInt32 size)
    (small : (prior ++ textOf items).length ≤ kIntMax)
    (printed : Printed prior s) (here : s.va = argsOf items ++ va) :
    ∃ s', (formatLoop size fuel (formatOf items ++ rest)).run s =
        (formatLoop size (fuel - items.length) rest).run s' ∧
      Printed (prior ++ textOf items) s' ∧ s'.va = va := by
  induction items generalizing s prior fuel with
  | nil => exact ⟨s, rfl, by simpa [textOf] using printed, here⟩
  | cons item items ih =>
    obtain ⟨fuel, rfl⟩ : ∃ n, fuel = n + 1 := ⟨fuel - 1, by simp at enough; omega⟩
    have text : prior ++ textOf (item :: items) = (prior ++ item.text) ++ textOf items := by
      simp [textOf]
    have format : formatOf (item :: items) ++ rest =
        item.render ++ (formatOf items ++ rest) := by simp [formatOf]
    have args : s.va = item.args ++ (argsOf items ++ va) := here.trans (by simp [argsOf])
    have writes : Writes size (formatLoop size (fuel + 1) (item.render ++ (formatOf items ++ rest)))
        s item.output _ _ := writes_item (proper item List.mem_cons_self) args
    rw [meets item List.mem_cons_self] at writes
    rw [text] at room small
    have written : (putAll size item.text).run { s with va := argsOf items ++ va } =
        .ok () _ := run_putAll nonempty (by
      rw [printed.1]
      simp only [List.length_append] at small
      omega)
    have printed' : Printed (prior ++ item.text) { s with
        str := placed size s.str s.i item.text, i := s.i + item.text.length
        va := argsOf items ++ va } := by
      refine ⟨by simp [printed.1], ?_⟩
      rw [printed.1, printed.2, placed_held (by simp only [List.length_append] at room ⊢; omega)]
    obtain ⟨s', ran, done, left⟩ := ih (Nat.le_of_succ_le_succ enough)
      (fun item member => proper item (List.mem_cons_of_mem _ member))
      (fun item member => meets item (List.mem_cons_of_mem _ member)) room small printed' rfl
    refine ⟨s', ?_, by rw [text]; exact done, left⟩
    rw [format]
    refine writes.trans ((run_bind written).trans (ran.trans ?_))
    rw [List.length_cons, Nat.add_sub_add_right]

/-- The end of the format. -/
theorem run_formatLoop_nil (nonempty : 0 < size) (room : s.i < kIntMax) :
    (formatLoop size (fuel + 1) []).run s = .ok s.i
      { s with str := update s.str (place size s.i) (some '\x00'), i := s.i + 1 } := by
  refine (run_bind (run_putChar nonempty room)).trans ?_
  change EStateM.Result.ok (((s.i + 1 : ℕ) : ℤ) - 1) _ = _
  rw [Nat.cast_add_one, add_sub_cancel_right]

theorem run_formatLoop_nil_eq_ok {value : ℤ} (nonempty : 0 < size)
    (returned : (formatLoop size (fuel + 1) []).run s = .ok value s') :
    s.i < kIntMax ∧ value = s.i ∧
      s'.str = update s.str (place size s.i) (some '\x00') := by
  obtain ⟨_, middle, first, _⟩ := run_bind_eq_ok returned
  obtain ⟨room, _⟩ := run_putChar_eq_ok nonempty first
  rw [run_formatLoop_nil nonempty room] at returned
  cases returned
  exact ⟨room, rfl, rfl⟩

theorem length_le_formatOf (items : List Item) : items.length ≤ (formatOf items).length := by
  induction items with
  | nil => exact le_rfl
  | cons item items ih =>
    have positive : 0 < item.render.length := by cases item <;> simp [Item.render]
    have format : formatOf (item :: items) = item.render ++ formatOf items := by simp [formatOf]
    rw [format, List.length_append, List.length_cons]
    omega

theorem toInt32_le (size : ℕ) : toInt32 size ≤ kIntMax ∧ toInt32 size ≤ size := by
  unfold toInt32 kIntMax
  rw [Int.bmod_def]
  split <;> omega

theorem toInt32_of_lt {size : ℕ} (small : size ≤ kIntMax) : toInt32 size = size := by
  unfold kIntMax at small
  exact toInt32_of_range (by omega) (by omega)

/-- Items that are written as C prescribes make up a format that is. -/
theorem conforms_of_outputs (proper : ∀ item ∈ items, item.Proper)
    (meets : ∀ item ∈ items, item.output = some item.text)
    (room : ((textOf items).length : ℤ) < toInt32 size) : Conforms size items := by
  obtain ⟨top, below⟩ := toInt32_le size
  have nonempty : 0 < size := by omega
  have enough := length_le_formatOf items
  obtain ⟨s', ran, printed, _⟩ : ∃ s', EStateM.run (formatLoop size ((formatOf items).length + 1)
      (formatOf items ++ [])) (blank (argsOf items)) = EStateM.run (formatLoop size
        ((formatOf items).length + 1 - items.length) []) s' ∧
      Printed ([] ++ textOf items) s' ∧ s'.va = [] :=
    run_formatLoop nonempty (by omega) proper meets (by simpa using le_of_lt room)
      (by simp only [List.nil_append]; omega) ⟨rfl, by funext k; rfl⟩ (by simp [blank])
  rw [List.nil_append] at printed
  rw [List.append_nil, Nat.sub_add_comm enough] at ran
  refine ⟨{ s' with
    str := update s'.str (place size s'.i) (some '\x00'), i := s'.i + 1 }, ?_, ?_⟩
  · refine ran.trans ((run_formatLoop_nil nonempty (by rw [printed.1]; omega)).trans ?_)
    rw [printed.1]
  · rw [printed.1, printed.2, place, if_pos room, held_concat]

theorem held_injective {text text' : List Char} (same : held text = held text') : text = text' :=
  List.ext_getElem? fun k => congrFun same k

/-- If what precedes an item conforms, and the format up to it, so does the item. -/
theorem output_of_conforms (proper : ∀ item ∈ items, item.Proper) (proper' : item.Proper)
    (meets : ∀ item ∈ items, item.output = some item.text)
    (room : ((textOf items).length : ℤ) < toInt32 size)
    (large : (textOf (items ++ [item])).length < size)
    (conforms : Conforms size (items ++ [item])) :
    item.output = some item.text ∧
      ((textOf (items ++ [item])).length : ℤ) < toInt32 size := by
  obtain ⟨top, below⟩ := toInt32_le size
  have nonempty : 0 < size := by omega
  have text : textOf (items ++ [item]) = textOf items ++ item.text := by simp [textOf]
  have format : formatOf (items ++ [item]) = formatOf items ++ (item.render ++ []) := by
    simp [formatOf]
  have args : argsOf (items ++ [item]) = argsOf items ++ (item.args ++ []) := by simp [argsOf]
  have enough := length_le_formatOf (items ++ [item])
  rw [List.length_append, List.length_singleton] at enough
  obtain ⟨extra, fuel⟩ : ∃ n, (formatOf (items ++ [item])).length + 1 =
      items.length + (n + 1 + 1) :=
    ⟨(formatOf (items ++ [item])).length - items.length - 1, by omega⟩
  obtain ⟨s', returned, shown⟩ := conforms
  unfold vsnprintf at returned
  rw [fuel, format, args] at returned
  obtain ⟨t, ran, printed, left⟩ : ∃ t, EStateM.run
      (formatLoop size (items.length + (extra + 1 + 1))
      (formatOf items ++ (item.render ++ []))) (blank (argsOf items ++ (item.args ++ []))) =
        EStateM.run (formatLoop size (items.length + (extra + 1 + 1) - items.length)
          (item.render ++ [])) t ∧ Printed ([] ++ textOf items) t ∧ t.va = item.args ++ [] :=
    run_formatLoop nonempty (by omega) proper meets (by simpa using le_of_lt room)
      (by simp only [List.nil_append]; omega) ⟨rfl, by funext k; rfl⟩ rfl
  rw [List.nil_append] at printed
  rw [Nat.add_sub_cancel_left] at ran
  rw [ran] at returned
  have writes : Writes size (formatLoop size (extra + 1 + 1) (item.render ++ [])) t item.output
      (formatLoop size (extra + 1) []) { t with va := [] } := writes_item proper' left
  cases output : item.output with
  | none =>
    rw [output] at writes
    obtain ⟨panic, _, stopped⟩ := writes
    rw [stopped] at returned
    exact nomatch returned
  | some out =>
    rw [output] at writes
    rw [writes] at returned
    obtain ⟨_, middle, first, others⟩ := run_bind_eq_ok returned
    have written := run_putAll_eq_ok nonempty first
    subst written
    obtain ⟨small, value, str⟩ := run_formatLoop_nil_eq_ok nonempty others
    simp only [printed.1, printed.2, text, List.length_append] at small value str large
    have length : out.length = item.text.length := by push_cast at value; omega
    rw [shown, text] at str
    have bound : ((textOf items ++ out).length : ℤ) < toInt32 size := by
      by_contra beyond
      have last : (textOf items).length + out.length ≠ size - 1 := by
        intro last
        rw [toInt32_of_lt (by omega), List.length_append] at beyond
        omega
      rw [List.length_append] at beyond
      have here := congrFun str ((textOf items).length + out.length)
      rw [place, if_neg beyond, update_of_ne last, placed_of_le le_rfl last] at here
      simp [held, length] at here
    rw [placed_held bound.le] at str
    rw [List.length_append] at bound
    rw [place, if_pos bound, ← List.length_append, held_concat] at str
    have same := List.append_cancel_right (held_injective str)
    rw [List.append_cancel_left same, text, List.length_append, ← length]
    exact ⟨rfl, bound⟩

/-- The empty format. -/
theorem pos_of_conforms_nil (nonempty : 0 < size) (conforms : Conforms size []) :
    0 < toInt32 size := by
  by_contra beyond
  have last : 0 ≠ size - 1 := by
    intro last
    rw [toInt32_of_lt (by unfold kIntMax; omega)] at beyond
    omega
  obtain ⟨s', returned, shown⟩ := conforms
  obtain ⟨_, _, str⟩ := run_formatLoop_nil_eq_ok nonempty returned
  have here := congrFun (shown.symm.trans str) 0
  have behind : place size (blank (argsOf [])).i = size - 1 := if_neg beyond
  rw [behind, update_of_ne last] at here
  exact nomatch here

theorem length_textOf_append (items items' : List Item) :
    (textOf (items ++ items')).length = (textOf items).length + (textOf items').length := by
  simp [textOf]

theorem length_textOf_take (items : List Item) (n : ℕ) :
    (textOf (items.take n)).length ≤ (textOf items).length := by
  have split := length_textOf_append (items.take n) (items.drop n)
  rw [List.take_append_drop] at split
  omega

theorem length_text_le (member : item ∈ items) : item.text.length ≤ (textOf items).length := by
  obtain ⟨before, after, rfl⟩ := List.append_of_mem member
  simp only [textOf, List.flatMap_append, List.flatMap_cons, List.length_append]
  omega

/-- What a format shows about the items up to one, by induction on their number. -/
theorem outputs_of_conforms (proper : ∀ item ∈ items, item.Proper)
    (large : (textOf items).length < size) (conforms : ∀ n, Conforms size (items.take n)) :
    ∀ n, (∀ item ∈ items.take n, item.output = some item.text) ∧
      ((textOf (items.take n)).length : ℤ) < toInt32 size := by
  intro n
  induction n with
  | zero =>
    have positive := pos_of_conforms_nil (by omega) (conforms 0)
    exact ⟨fun _ member => absurd member List.not_mem_nil, positive⟩
  | succ n ih =>
    by_cases inside : n < items.length
    · have last : items.take (n + 1) = items.take n ++ [items[n]] :=
        List.take_succ_eq_append_getElem inside
      have below := length_textOf_take items (n + 1)
      have once := conforms (n + 1)
      rw [last] at below once
      rw [last]
      obtain ⟨output, room⟩ := output_of_conforms
        (fun item member => proper item (List.mem_of_mem_take member))
        (proper _ (List.getElem_mem inside)) ih.1 ih.2 (by omega) once
      exact ⟨List.forall_mem_append.mpr ⟨ih.1, List.forall_mem_singleton.mpr output⟩, room⟩
    · rw [List.take_of_length_le (by omega)]
      rwa [List.take_of_length_le (by omega)] at ih

/-- A format and those it begins with are written as C prescribes exactly if every item meets its
condition and the size, as an `int`, exceeds the length. -/
theorem conforms_iff_meets (proper : ∀ item ∈ items, item.Proper)
    (fits : (textOf items).length ≤ kIntMax) (large : (textOf items).length < size) :
    (∀ n, Conforms size (items.take n)) ↔
      (∀ item ∈ items, item.Meets) ∧ ((textOf items).length : ℤ) < toInt32 size := by
  have meets : ∀ item ∈ items, (item.output = some item.text ↔ item.Meets) := fun item member =>
    output_iff_meets (proper item member) ((length_text_le member).trans fits)
  constructor
  · intro conforms
    obtain ⟨outputs, room⟩ := outputs_of_conforms proper large conforms items.length
    rw [List.take_length] at outputs room
    exact ⟨fun item member => (meets item member).mp (outputs item member), room⟩
  · rintro ⟨conditions, room⟩ n
    have below := length_textOf_take items n
    refine conforms_of_outputs (fun item member => proper item (List.mem_of_mem_take member))
      (fun item member => ?_) (by omega)
    have member := List.mem_of_mem_take member
    exact (meets item member).mpr (conditions item member)

/-- `[%-4d]` with the argument 42 meets the condition and is written as C
prescribes. -/
theorem conforms_left :
    let items := [.char '[', .integer ⟨[.minus], some (.digits [4]), none⟩ .none .d 42#64,
      .char ']']
    (∀ item ∈ items, item.Meets) ∧ ∀ n, Conforms 64 (items.take n) := by
  intro items
  have proper : ∀ item ∈ items, item.Proper := by
    simp [items, Item.Proper, Directive.Proper, Number.Fits, Number.IsWidth, ofDigits, kIntMax,
      IntegerConversion.base]
  have written : ∀ item ∈ items, item.text.length ≤ kIntMax ∧ item.output = some item.text := by
    decide +kernel
  have meets : ∀ item ∈ items, item.Meets := fun item member =>
    (output_iff_meets (proper item member) (written item member).1).mp (written item member).2
  exact ⟨meets, (conforms_iff_meets proper (by decide +kernel) (by decide +kernel)).mpr
    ⟨meets, by decide +kernel⟩⟩

/-- `%.0d` with the argument 0 writes a digit. -/
theorem not_conforms_of_zero :
    let item : Item := .integer ⟨[], none, some (.digits [0])⟩ .none .d 0#64
    item.Proper ∧ item.text = [] ∧ ¬ Conforms 64 [item] := by
  refine ⟨?_, by decide +kernel, fun ⟨s', returned, _⟩ => ?_⟩
  · simp [Item.Proper, Directive.Proper, Number.Fits, ofDigits, IntegerConversion.base]
  · have value : outcome (EStateM.run (vsnprintf 64 (formatOf [.integer ⟨[], none,
        some (.digits [0])⟩ .none .d 0#64])) (blank [.word 0#64])) = some 1 := by decide +kernel
    obtain ⟨_, other⟩ := eq_ok_of_outcome value
    have same := other.symm.trans returned
    exact absurd (EStateM.Result.ok.inj same).1 (by decide +kernel)

end AlkOS.Libc
