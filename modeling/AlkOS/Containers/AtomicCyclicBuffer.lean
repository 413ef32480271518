import Mathlib

/-!
# Ring buffers

`AtomicCyclicBuffer` keeps two 64-bit indices that grow without bound and are masked on
access. A producer and a consumer may run at the same time: each publishes its index
behind the elements it copied.
-/

namespace AlkOS.Containers

open Function

/-- `AtomicCyclicBuffer<T, kSize>` with `2 ^ bits` slots. -/
structure AtomicCyclicBuffer (α : Type) (bits : Fin 64) where
  buffer : ℕ → α
  readIndex : BitVec 64
  writeIndex : BitVec 64

namespace AtomicCyclicBuffer

variable {α : Type} {bits : Fin 64} (acb : AtomicCyclicBuffer α bits)

def kSize (bits : Fin 64) : ℕ := 2 ^ bits.val

/-- `index & kMask`. -/
def slot (bits : Fin 64) (index : BitVec 64) : ℕ := index.toNat &&& (kSize bits - 1)

def count : ℕ := (acb.writeIndex - acb.readIndex).toNat

/-- One pass of the loop of `Write`. -/
def push (x : α) : AtomicCyclicBuffer α bits where
  buffer := update acb.buffer (slot bits acb.writeIndex) x
  readIndex := acb.readIndex
  writeIndex := acb.writeIndex + 1

/-- `Write`: how many elements are accepted, and the buffer behind them. -/
def write (data : List α) : ℕ × AtomicCyclicBuffer α bits :=
  let freeSpace := (kSize bits + 2 ^ 64 - acb.count) % 2 ^ 64
  if freeSpace = 0 then (0, acb)
  else
    let toWrite := min data.length freeSpace
    (toWrite, (data.take toWrite).foldl push acb)

/-- One pass of the loop of `Read`. -/
def pop : AtomicCyclicBuffer α bits := { acb with readIndex := acb.readIndex + 1 }

/-- The loop of `Read`. -/
def readLoop : ℕ → AtomicCyclicBuffer α bits → List α × AtomicCyclicBuffer α bits
  | 0, acb => ([], acb)
  | n + 1, acb =>
    let rest := readLoop n acb.pop
    (acb.buffer (slot bits acb.readIndex) :: rest.1, rest.2)

/-- `Read` into a span of some size. -/
def read (size : ℕ) : List α × AtomicCyclicBuffer α bits :=
  if acb.count = 0 then ([], acb) else readLoop (min size acb.count) acb

inductive Call (α : Type) where
  | write (data : List α)
  | read (size : ℕ)

/-- What a sequence of calls accepts and returns, and the buffer behind it. -/
def run : List (Call α) → AtomicCyclicBuffer α bits → List α × List α × AtomicCyclicBuffer α bits
  | [], acb => ([], [], acb)
  | .write data :: calls, acb =>
    let (accepted, returned, last) := run calls (acb.write data).2
    (data.take (acb.write data).1 ++ accepted, returned, last)
  | .read size :: calls, acb =>
    let (accepted, returned, last) := run calls (acb.read size).2
    (accepted, (acb.read size).1 ++ returned, last)

/-- The index behind some elements. -/
def position (n : ℕ) : BitVec 64 := acb.readIndex + BitVec.ofNat 64 n

/-- The elements between the indices. -/
def content : List α :=
  (List.range acb.count).map fun i => acb.buffer (slot bits (acb.position i))

theorem kSize_lt (bits : Fin 64) : kSize bits < 2 ^ 64 := Nat.pow_lt_pow_right (by decide) bits.isLt

theorem slot_position (n : ℕ) :
    slot bits (acb.position n) = (acb.readIndex.toNat + n) % kSize bits := by
  unfold slot position kSize
  rw [Nat.and_two_pow_sub_one_eq_mod, BitVec.toNat_add, BitVec.toNat_ofNat, Nat.add_mod_mod,
    Nat.mod_mod_of_dvd _ (pow_dvd_pow 2 bits.isLt.le)]

theorem position_succ (n : ℕ) : acb.position (n + 1) = acb.position n + 1 := by
  rw [position, position, BitVec.ofNat_add, ← BitVec.add_assoc]
  rfl

theorem writeIndex_eq : acb.writeIndex = acb.position acb.count := by
  unfold position count
  bv_omega

variable {acb} {m n : ℕ}

/-- Elements of a buffer have their own slots. -/
theorem slot_ne (before : m < n) (inside : n < kSize bits) :
    slot bits (acb.position m) ≠ slot bits (acb.position n) := by
  rw [slot_position, slot_position]
  intro same
  have multiple := (Nat.modEq_iff_dvd' (by omega)).mp same
  exact absurd (Nat.le_of_dvd (by omega) multiple) (by omega)

/-- Indices count, as long as one of them does not lap the other. -/
theorem position_sub (before : m ≤ n) (near : n < m + 2 ^ 64) :
    (acb.position n - acb.position m).toNat = n - m := by
  obtain ⟨k, rfl⟩ := Nat.exists_eq_add_of_le before
  have apart : acb.position (m + k) - acb.position m = BitVec.ofNat 64 k := by
    rw [position, position, BitVec.ofNat_add]
    bv_omega
  rw [apart, BitVec.toNat_ofNat, Nat.mod_eq_of_lt (by omega), Nat.add_sub_cancel_left]

theorem position_inj (before : m ≤ n) (near : n < m + 2 ^ 64)
    (same : acb.position n = acb.position m) : n = m := by
  have none : (acb.position n - acb.position m).toNat = n - m := position_sub before near
  rw [same, BitVec.sub_self, BitVec.toNat_zero] at none
  omega

@[simp] theorem length_content : acb.content.length = acb.count := by simp [content]

theorem count_push (room : acb.count < kSize bits) (x : α) :
    (acb.push x).count = acb.count + 1 := by
  have small := kSize_lt bits
  change (acb.writeIndex + 1 - acb.readIndex).toNat = _
  unfold count at *
  bv_omega

theorem push_content (room : acb.count < kSize bits) (x : α) :
    (acb.push x).content = acb.content ++ [x] := by
  have last := acb.writeIndex_eq
  unfold content
  rw [count_push room, List.range_succ, List.map_append]
  congr 1
  · refine List.map_congr_left fun i inside => update_of_ne ?_ _ _
    rw [last]
    exact slot_ne (List.mem_range.mp inside) room
  · change [update _ _ _ (slot bits (acb.position _))] = _
    rw [← last, update_self]

theorem foldl_push_content {data : List α} (room : acb.count + data.length ≤ kSize bits) :
    (data.foldl push acb).content = acb.content ++ data := by
  induction data generalizing acb with
  | nil => exact (List.append_nil _).symm
  | cons x data ih =>
    rw [List.length_cons] at room
    have fits : acb.count < kSize bits := by omega
    rw [List.foldl_cons, ih (by rw [count_push fits]; omega), push_content fits, List.append_assoc]
    rfl

/-- The first element is the one at the read index. -/
theorem content_eq_cons (some : acb.count ≠ 0) :
    acb.content = acb.buffer (slot bits acb.readIndex) :: acb.pop.content := by
  have fewer : acb.count = acb.pop.count + 1 := by
    change _ = (acb.writeIndex - (acb.readIndex + 1)).toNat + 1
    unfold count at *
    bv_omega
  unfold content
  rw [fewer, List.range_succ_eq_map, List.map_cons, List.map_map, position, BitVec.add_zero]
  congr 1
  refine List.map_congr_left fun i _ => ?_
  change acb.buffer (slot bits _) = acb.buffer (slot bits (acb.pop.position _))
  congr 2
  change _ = acb.readIndex + 1 + _
  unfold position
  bv_omega

/-- The loop takes the first elements. -/
theorem readLoop_content {n : ℕ} (enough : n ≤ acb.content.length) :
    (readLoop n acb).1 = acb.content.take n ∧
      (readLoop n acb).2.content = acb.content.drop n := by
  induction n generalizing acb with
  | zero => exact ⟨rfl, rfl⟩
  | succ n ih =>
    have split := content_eq_cons (show acb.count ≠ 0 by rw [length_content] at enough; omega)
    rw [split] at enough ⊢
    obtain ⟨taken, left⟩ := ih (Nat.le_of_succ_le_succ enough)
    rw [readLoop, taken, left]
    exact ⟨rfl, rfl⟩

/-- `Write` appends what there is room for. -/
theorem write_content (bounded : acb.count ≤ kSize bits) (data : List α) :
    (acb.write data).1 = min data.length (kSize bits - acb.count) ∧
      (acb.write data).2.content = acb.content ++ data.take (acb.write data).1 := by
  have small := kSize_lt bits
  have space : (kSize bits + 2 ^ 64 - acb.count) % 2 ^ 64 = kSize bits - acb.count := by omega
  unfold write
  simp only [space]
  split_ifs with full
  · exact ⟨by rw [full, Nat.min_zero], (List.append_nil _).symm⟩
  · exact ⟨rfl, foldl_push_content (by rw [List.length_take]; omega)⟩

variable (acb) in
/-- `Read` takes away what there is. -/
theorem read_content (size : ℕ) : (acb.read size).1 = acb.content.take size ∧
    (acb.read size).2.content = acb.content.drop size := by
  unfold read
  split_ifs with empty
  · rw [List.length_eq_zero_iff.mp (length_content.trans empty), List.take_nil, List.drop_nil]
    exact ⟨rfl, rfl⟩
  · rw [List.take_eq_take_min, List.drop_eq_drop_min, length_content]
    exact readLoop_content (by rw [length_content]; exact Nat.min_le_right _ _)

theorem length_read (size : ℕ) : (acb.read size).1.length = min size acb.count := by
  rw [(acb.read_content size).1, List.length_take, length_content]

/-- A full buffer of two slots whose indices wrap around. -/
def wrapping : AtomicCyclicBuffer Bool 1 := ⟨fun _ => false, -1, 1⟩

/-- Both parties within their calls. Each has loaded the index of the other once. -/
structure Shared (α : Type) (bits : Fin 64) where
  own : AtomicCyclicBuffer α bits
  readIndex : BitVec 64
  writeIndex : BitVec 64
  toWrite : List α
  toRead : ℕ
  accepted : List α
  returned : List α

namespace Shared

/-- No call is going on. -/
def idle (acb : AtomicCyclicBuffer α bits) : Shared α bits :=
  ⟨acb, acb.readIndex, acb.writeIndex, [], 0, [], []⟩

/-- The buffer with the atomics. -/
def published (s : Shared α bits) : AtomicCyclicBuffer α bits :=
  ⟨s.own.buffer, s.readIndex, s.writeIndex⟩

/-- The loads, the copies and the store of `Write` and of `Read`. -/
inductive Step : Shared α bits → Shared α bits → Prop where
  | beginWrite {s} {data : List α} {n : ℕ} : s.toWrite = [] → s.own.writeIndex = s.writeIndex →
      (s.published.write data).1 = n → Step s { s with toWrite := data.take n }
  | copyIn {s} {x : α} {rest : List α} : s.toWrite = x :: rest →
      Step s { s with own := s.own.push x, toWrite := rest, accepted := s.accepted ++ [x] }
  | endWrite {s} : s.toWrite = [] → Step s { s with writeIndex := s.own.writeIndex }
  | beginRead {s} {size n : ℕ} : s.toRead = 0 → s.own.readIndex = s.readIndex →
      (s.published.read size).1.length = n → Step s { s with toRead := n }
  | copyOut {s} {n : ℕ} : s.toRead = n + 1 → Step s { s with
      own := s.own.pop, toRead := n
      returned := s.returned ++ [s.own.buffer (slot bits s.own.readIndex)] }
  | endRead {s} : s.toRead = 0 → Step s { s with readIndex := s.own.readIndex }

/-- What holds between any two steps: neither party overtakes the other. -/
structure Safe (acb : AtomicCyclicBuffer α bits) (s : Shared α bits) : Prop where
  fifo : s.returned ++ s.own.content = acb.content ++ s.accepted
  order : ∃ r r' w w', s.readIndex = acb.position r ∧ s.own.readIndex = acb.position r' ∧
    s.writeIndex = acb.position w ∧ s.own.writeIndex = acb.position w' ∧ r ≤ r' ∧
    r' + s.toRead ≤ w ∧ w ≤ w' ∧ w' + s.toWrite.length ≤ r + kSize bits

variable {s s' : Shared α bits}

/-- Whatever step is next. -/
theorem Safe.step (safe : Safe acb s) (step : Step s s') : Safe acb s' := by
  have small := kSize_lt bits
  obtain ⟨fifo, r, r', w, w', read, ownRead, write, ownWrite, order⟩ := safe
  have count : s.own.count = w' - r' := by
    rw [AtomicCyclicBuffer.count, ownRead, ownWrite, position_sub (by omega) (by omega)]
  have published : s.published.count = w - r := by
    change (s.writeIndex - s.readIndex).toNat = _
    rw [read, write, position_sub (by omega) (by omega)]
  cases step with
  | @beginWrite data n none same found =>
    rw [(write_content (by omega) data).1] at found
    rw [ownWrite, write] at same
    have none := position_inj (by omega) (by omega) same
    refine ⟨fifo, r, r', w, w', read, ownRead, write, ownWrite, ?_⟩
    dsimp only
    rw [List.length_take]
    omega
  | @copyIn x rest next =>
    rw [next, List.length_cons] at order
    refine ⟨?_, r, r', w, w' + 1, read, ownRead, write, ?_, ?_⟩
    · change s.returned ++ (s.own.push x).content = _
      rw [push_content (by omega) x, ← List.append_assoc, fifo, List.append_assoc]
    · rw [position_succ, ← ownWrite]
      rfl
    · dsimp only
      omega
  | endWrite none =>
    -- `w` only grows, so what the consumer has found is still there.
    refine ⟨fifo, r, r', w', w', read, ownRead, ownWrite, ownWrite, ?_⟩
    dsimp only
    omega
  | @beginRead size n none same found =>
    rw [length_read] at found
    rw [ownRead, read] at same
    have none := position_inj (by omega) (by omega) same
    refine ⟨fifo, r, r', w, w', read, ownRead, write, ownWrite, ?_⟩
    dsimp only
    omega
  | @copyOut n next =>
    refine ⟨?_, r, r' + 1, w, w', read, ?_, write, ownWrite, ?_⟩
    · change s.returned ++ [_] ++ s.own.pop.content = _
      rw [← fifo, content_eq_cons (show s.own.count ≠ 0 by omega), List.append_assoc]
      rfl
    · rw [position_succ, ← ownRead]
      rfl
    · dsimp only
      omega
  | endRead none =>
    -- `r` only grows, so what the producer has found free is still free.
    refine ⟨fifo, r', r', w, w', ownRead, ownRead, write, ownWrite, ?_⟩
    dsimp only
    omega

/-- In every interleaving the elements come out in order, each once. -/
theorem interleaved_fifo (bounded : acb.count ≤ kSize bits)
    (run : Relation.ReflTransGen Step (idle acb) s) : Safe acb s := by
  induction run with
  | refl =>
    have zero := (BitVec.add_zero acb.readIndex).symm
    have last := acb.writeIndex_eq
    refine ⟨(List.append_nil _).symm, 0, 0, acb.count, acb.count, zero, zero, last, last, ?_⟩
    change 0 ≤ 0 ∧ 0 + 0 ≤ acb.count ∧ _ ∧ acb.count + 0 ≤ 0 + kSize bits
    omega
  | tail _ step ih => exact ih.step step

/-- The producer fills the slot of the first element while the consumer copies the second one. -/
theorem interleaved_fifo_wrapping : ∃ s : Shared Bool 1,
    Relation.ReflTransGen Step (idle wrapping) s ∧ s.accepted = [true] ∧
      s.returned = [false, false] ∧ Safe wrapping s := by
  have first := Relation.ReflTransGen.single (@Step.beginRead _ _ (idle wrapping) 1 1 rfl rfl
    (by decide))
  have emptied := (first.tail (Step.copyOut rfl)).tail (Step.endRead rfl)
  have both := (emptied.tail (@Step.beginWrite _ _ _ [true] 1 rfl rfl (by decide))).tail
    (@Step.beginRead _ _ _ 1 1 rfl rfl (by decide))
  have run := ((both.tail (Step.copyIn rfl)).tail (Step.copyOut rfl)).tail (Step.endWrite rfl)
  exact ⟨_, run, rfl, rfl, interleaved_fifo (by decide) run⟩

end Shared

end AtomicCyclicBuffer

end AlkOS.Containers
