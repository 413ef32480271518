import AlkOS.Foundation.Bytes

/-!
# NUL-terminated strings

A C string is its characters before the terminator; reading past them gives the
terminator. In memory a string extends to the first NUL, and `strncpy` puts it there.
-/

namespace AlkOS

open Function

/-- The characters before the terminating NUL. -/
structure CString where
  chars : List UInt8
  nulFree : 0 ∉ chars
deriving DecidableEq, Repr

namespace CString

@[ext] theorem ext {left right : CString} (same : left.chars = right.chars) : left = right := by
  cases left
  cases same
  rfl

variable (s : CString)

def strlen : ℕ := s.chars.length

/-- The character at an index, or the terminator past the end. -/
def byteAt (index : ℕ) : UInt8 := s.chars.getD index 0

/-- Where the comparison loop stops: the end of the first string or the first difference. -/
def scanCommon : List UInt8 → List UInt8 → ℕ
  | [], _ => 0
  | _ :: _, [] => 0
  | c :: rest, d :: rest' => if d = c then scanCommon rest rest' + 1 else 0

/-- The first byte at which `key` leaves `other`. -/
def firstDifference (other key : CString) : ℕ := scanCommon other.chars key.chars

theorem getD_eq_of_lt_scanCommon {left right : List UInt8} {index : ℕ}
    (before : index < scanCommon left right) : left.getD index 0 = right.getD index 0 := by
  induction left generalizing right index with
  | nil => cases before
  | cons c rest ih =>
    cases right with
    | nil => cases before
    | cons d rest' =>
      rw [scanCommon] at before
      split_ifs at before with same
      · cases index with
        | zero => simp [same]
        | succ index => simpa using ih (Nat.lt_of_succ_lt_succ before)
      · cases before

/-- Strings that agree where the loop stops are equal. -/
theorem eq_of_getD_scanCommon {left right : List UInt8} (leftFree : 0 ∉ left)
    (rightFree : 0 ∉ right)
    (same : left.getD (scanCommon left right) 0 = right.getD (scanCommon left right) 0) :
    left = right := by
  induction left generalizing right with
  | nil =>
    cases right with
    | nil => rfl
    | cons d rest' =>
      exact absurd (show (0 : UInt8) = d from same) fun zero =>
        rightFree (zero ▸ List.mem_cons_self)
  | cons c rest ih =>
    cases right with
    | nil =>
      exact absurd (show c = 0 from same) fun zero => leftFree (zero ▸ List.mem_cons_self)
    | cons d rest' =>
      by_cases agree : d = c
      · subst agree
        simp only [scanCommon] at same
        rw [ih (fun member => leftFree (List.mem_cons_of_mem d member))
          (fun member => rightFree (List.mem_cons_of_mem d member)) same]
      · simp only [scanCommon, agree] at same
        exact absurd same.symm agree

theorem byteAt_eq_of_lt {other key : CString} {index : ℕ}
    (before : index < firstDifference other key) : other.byteAt index = key.byteAt index :=
  getD_eq_of_lt_scanCommon before

theorem eq_of_byteAt_firstDifference {other key : CString}
    (same : other.byteAt (firstDifference other key) = key.byteAt (firstDifference other key)) :
    other = key :=
  ext (eq_of_getD_scanCommon other.nulFree key.nulFree same)

theorem scanCommon_self (chars : List UInt8) : scanCommon chars chars = chars.length := by
  induction chars with
  | nil => rfl
  | cons c rest ih => rw [scanCommon, if_pos rfl, ih, List.length_cons]

theorem firstDifference_self : firstDifference s s = s.strlen :=
  scanCommon_self s.chars

theorem byteAt_strlen : s.byteAt s.strlen = 0 := by
  rw [byteAt, strlen, List.getD_eq_getElem?_getD, List.getElem?_eq_none (Nat.le_refl _),
    Option.getD_none]

/-- The characters before the first NUL in so many bytes from an address on. -/
def scanString (memory : Bytes) : ℕ → ℕ → List UInt8
  | 0, _ => []
  | left + 1, address =>
    if memory address = 0 then [] else memory address :: scanString memory left (address + 1)

theorem zero_notMem_scanString (memory : Bytes) (left address : ℕ) :
    0 ∉ scanString memory left address := by
  induction left generalizing address with
  | zero => exact List.not_mem_nil
  | succ left ih =>
    rw [scanString]
    split_ifs with terminator
    · exact List.not_mem_nil
    · rw [List.mem_cons, not_or]
      exact ⟨Ne.symm terminator, ih (address + 1)⟩

/-- The string at an address. -/
def stringAt (memory : Bytes) (address : ℕ) : CString :=
  ⟨scanString memory (2 ^ 64) address, zero_notMem_scanString memory _ address⟩

/-- `strncpy`. The first loop does not count the terminator, so the second stores one byte more. -/
def strncpy (memory : Bytes) (dest : ℕ) : List UInt8 → ℕ → Bytes
  | _, 0 => memory
  | [], n + 1 => Bytes.blit (update memory dest 0) (dest + 1) (n + 1) fun _ => 0
  | c :: src, n + 1 => strncpy (update memory dest c) (dest + 1) src n

variable {memory : Bytes} {dest : ℕ}

/-- With room for the terminator, `n + 1` bytes are stored. -/
theorem strncpy_eq {src : List UInt8} {n : ℕ} (room : src.length < n) :
    strncpy memory dest src n = memory.blit dest (n + 1) fun i => src.getD i 0 := by
  induction src generalizing memory dest n with
  | nil =>
    cases n with
    | zero => cases room
    | succ n =>
      funext address
      rw [strncpy, Bytes.blit, Bytes.blit, update_apply]
      split_ifs <;> first | rfl | omega
  | cons c src ih =>
    cases n with
    | zero => cases room
    | succ n =>
      rw [strncpy, ih (Nat.lt_of_succ_lt_succ room)]
      funext address
      rw [Bytes.blit, Bytes.blit, update_apply]
      split_ifs with later whole first whole
      · have index : address - dest = address - (dest + 1) + 1 := by omega
        rw [index, List.getD_cons_succ]
      · omega
      · rw [first, Nat.sub_self, List.getD_cons_zero]
      · omega
      · omega
      · rfl

/-- A string is read from where its characters and its terminator are. -/
theorem stringAt_eq {s : CString} (short : s.strlen < 2 ^ 64)
    (stored : ∀ i ≤ s.strlen, memory (dest + i) = s.byteAt i) : stringAt memory dest = s := by
  suffices scan : ∀ (chars : List UInt8) (left address : ℕ), 0 ∉ chars → chars.length < left →
      (∀ i ≤ chars.length, memory (address + i) = chars.getD i 0) →
      scanString memory left address = chars from
    ext (scan s.chars (2 ^ 64) dest s.nulFree short stored)
  intro chars
  induction chars with
  | nil =>
    intro left address free room stored
    obtain ⟨left, rfl⟩ := Nat.exists_eq_succ_of_ne_zero (Nat.ne_of_gt room)
    exact if_pos (stored 0 le_rfl)
  | cons c rest ih =>
    intro left address free room stored
    obtain ⟨left, rfl⟩ := Nat.exists_eq_succ_of_ne_zero (Nat.ne_zero_of_lt room)
    have first : memory address = c := stored 0 (Nat.zero_le _)
    rw [List.mem_cons, not_or] at free
    rw [scanString, first, if_neg (Ne.symm free.1), ih left (address + 1) free.2
      (Nat.lt_of_succ_lt_succ room)]
    intro i inside
    have next := stored (i + 1) (Nat.succ_le_succ inside)
    rwa [Nat.add_comm i 1, ← Nat.add_assoc, Nat.add_comm 1 i, List.getD_cons_succ] at next

end CString

end AlkOS
