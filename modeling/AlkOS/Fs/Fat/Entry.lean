import AlkOS.Foundation.Bytes

/-!
# Directory entries

The 32-byte directory entry of a FAT directory table, its kinds, and the
conversion between file names and the padded upper-case form kept in an entry.
-/

namespace AlkOS.Fat

/-- The padded name of an entry: eight characters and three for the extension. -/
abbrev ShortName := Fin 11 → UInt8

instance nameLength : NeZero 11 := ⟨by decide⟩

structure DirectoryEntry where
  filename : ShortName
  attributes : UInt8
  reserved : UInt8
  creationTimeTenth : UInt8
  creationTime : UInt16
  creationDate : UInt16
  lastAccessDate : UInt16
  firstClusterHigh : UInt16
  lastWriteTime : UInt16
  lastWriteDate : UInt16
  firstClusterLow : UInt16
  fileSize : UInt32
deriving DecidableEq

/-- `sizeof(DirectoryEntry)`. -/
def kEntrySize : ℕ := 32

def kDeletedEntry : UInt8 := 0xE5

def kEOD : UInt8 := 0x00

namespace Attributes

def volumeLabel : UInt8 := 0x08

def directory : UInt8 := 0x10

def archive : UInt8 := 0x20

def longName : UInt8 := 0x0F

end Attributes

namespace DirectoryEntry

/-- The entry in the first 32 bytes of a block. -/
def decode (bytes : Bytes) : DirectoryEntry where
  filename i := bytes i
  attributes := bytes 11
  reserved := bytes 12
  creationTimeTenth := bytes 13
  creationTime := UInt16.ofNat (bytes.readLE 14 2)
  creationDate := UInt16.ofNat (bytes.readLE 16 2)
  lastAccessDate := UInt16.ofNat (bytes.readLE 18 2)
  firstClusterHigh := UInt16.ofNat (bytes.readLE 20 2)
  lastWriteTime := UInt16.ofNat (bytes.readLE 22 2)
  lastWriteDate := UInt16.ofNat (bytes.readLE 24 2)
  firstClusterLow := UInt16.ofNat (bytes.readLE 26 2)
  fileSize := UInt32.ofNat (bytes.readLE 28 4)

variable (entry : DirectoryEntry)

/-- The first bytes of an entry, up to its times. -/
def head : Bytes := fun i =>
  if inside : i < 11 then entry.filename ⟨i, inside⟩
  else if i = 11 then entry.attributes
  else if i = 12 then entry.reserved
  else entry.creationTimeTenth

/-- The bytes of an entry. -/
def encode : Bytes :=
  entry.head
    |>.writeLE 14 2 entry.creationTime.toNat
    |>.writeLE 16 2 entry.creationDate.toNat
    |>.writeLE 18 2 entry.lastAccessDate.toNat
    |>.writeLE 20 2 entry.firstClusterHigh.toNat
    |>.writeLE 22 2 entry.lastWriteTime.toNat
    |>.writeLE 24 2 entry.lastWriteDate.toNat
    |>.writeLE 26 2 entry.firstClusterLow.toNat
    |>.writeLE 28 4 entry.fileSize.toNat

def isFree : Bool := entry.filename 0 == kDeletedEntry

def isFurtherEntriesFree : Bool := entry.filename 0 == kEOD

def isDirectory : Bool :=
  entry.attributes &&& (Attributes.directory ||| Attributes.volumeLabel) == Attributes.directory

def isFile : Bool :=
  entry.attributes &&& (Attributes.directory ||| Attributes.volumeLabel) == 0

def isVolumeLabel : Bool :=
  entry.attributes &&& (Attributes.directory ||| Attributes.volumeLabel) == Attributes.volumeLabel

def isValid : Bool :=
  entry.isFile || entry.isDirectory || entry.isVolumeLabel

def isLongNameSubComponent : Bool :=
  entry.attributes &&& 0x3F == Attributes.longName && !entry.isFree

/-- An entry with every byte zero. -/
def zero : DirectoryEntry := decode fun _ => 0

/-- Mark an entry as deleted. -/
def deleted : DirectoryEntry :=
  { entry with filename := Function.update entry.filename 0 kDeletedEntry }

/-- `SetEntryFirstCluster_`. -/
def setFirstCluster (cluster : ℕ) : DirectoryEntry :=
  { entry with
    firstClusterLow := UInt16.ofNat (cluster % 2 ^ 16)
    firstClusterHigh := UInt16.ofNat (cluster / 2 ^ 16 % 2 ^ 16) }

/-- The entry that `WriteNewEntry_` leaves in a slot. -/
def renewed (old : DirectoryEntry) (name : ShortName) (attributes : UInt8) (firstCluster : ℕ) :
    DirectoryEntry :=
  { setFirstCluster old firstCluster with
    filename := name
    attributes := attributes
    creationTimeTenth := 0
    creationTime := 0
    creationDate := 0
    lastAccessDate := 0
    lastWriteTime := 0
    lastWriteDate := 0
    fileSize := 0 }

theorem decode_of_tail {bytes bytes' : Bytes} (same : ∀ i < 32, 0 < i → bytes i = bytes' i) :
    decode bytes = { decode bytes' with filename := fun i => bytes i } := by
  have number : ∀ start width, start + width ≤ 32 → 0 < start →
      bytes.readLE start width = bytes'.readLE start width := fun start width inside late =>
    Bytes.readLE_congr fun i below => same _ (by omega) (by omega)
  simp only [decode, same 11 (by decide), same 12 (by decide), same 13 (by decide),
    number 14 2 (by decide), number 16 2 (by decide), number 18 2 (by decide),
    number 20 2 (by decide), number 22 2 (by decide), number 24 2 (by decide),
    number 26 2 (by decide), number 28 4 (by decide), Nat.reduceLT]

theorem decode_congr {bytes bytes' : Bytes} (same : ∀ i < 32, bytes i = bytes' i) :
    decode bytes = decode bytes' := by
  have names : (fun i : Fin 11 => bytes i) = fun i : Fin 11 => bytes' i := funext fun i =>
    same i (by omega)
  rw [decode_of_tail fun i inside _ => same i inside, names]
  rfl

theorem ofNat_toNat_mod_two (x : UInt16) : UInt16.ofNat (x.toNat % 256 ^ 2) = x := by
  rw [Nat.mod_eq_of_lt (by simpa using x.toNat_lt), UInt16.ofNat_toNat]

theorem ofNat_toNat_mod_four (x : UInt32) : UInt32.ofNat (x.toNat % 256 ^ 4) = x := by
  rw [Nat.mod_eq_of_lt (by simpa using x.toNat_lt), UInt32.ofNat_toNat]

theorem readLE_writeLE_of_disjoint {memory : Bytes} {start width address size value : ℕ}
    (apart : address + size ≤ start ∨ start + width ≤ address) :
    (memory.writeLE start width value).readLE address size = memory.readLE address size :=
  Bytes.readLE_blit_of_disjoint apart

theorem writeLE_of_lt {memory : Bytes} {start width address value : ℕ} (before : address < start) :
    memory.writeLE start width value address = memory address :=
  Bytes.blit_outside (.inl before)

/-- An entry is read back from its bytes. -/
theorem decode_encode : decode entry.encode = entry := by
  have early : ∀ i < 14, entry.encode i = entry.head i := by
    intro i inside
    unfold encode
    simp (disch := omega) only [writeLE_of_lt]
  have name : (fun i : Fin 11 => entry.encode i) = entry.filename := by
    funext i
    rw [early i (by omega), head, dif_pos i.isLt]
  have attributes : entry.encode 11 = entry.attributes := early 11 (by decide)
  have reserved : entry.encode 12 = entry.reserved := early 12 (by decide)
  have tenth : entry.encode 13 = entry.creationTimeTenth := early 13 (by decide)
  simp only [decode, name, attributes, reserved, tenth]
  unfold encode
  simp (disch := decide) only [readLE_writeLE_of_disjoint, Bytes.readLE_writeLE,
    ofNat_toNat_mod_two, ofNat_toNat_mod_four]

end DirectoryEntry

/-- The characters that `CopyAndValidateChars_` rejects. -/
def kInvalidChars : List UInt8 :=
  [0x22, 0x2A, 0x2B, 0x2C, 0x2E, 0x2F, 0x3A, 0x3B, 0x3C, 0x3D, 0x3E, 0x3F, 0x5B, 0x5C, 0x5D, 0x7C]

def toupper (c : UInt8) : UInt8 := if 0x61 ≤ c ∧ c ≤ 0x7A then c - 0x20 else c

/-- One step of `CopyAndValidateChars_`. Characters from 0x80 on count as negative. -/
def copyChar (c : UInt8) : Option UInt8 :=
  if (c < 0x20 ∨ 0x80 ≤ c) ∧ c ≠ 0x05 then none
  else if c ∈ kInvalidChars then none
  else some (if c = 0x05 then toupper 0xE5 else toupper c)

/-- The index of the last dot. -/
def lastDot (name : List UInt8) : Option ℕ :=
  (name.reverse.findIdx? (· == 0x2E)).map fun fromEnd => name.length - 1 - fromEnd

def toShortFormat (filename : List UInt8) : Option ShortName :=
  let len := filename.length
  if len > 12 then none
  else
    let dotPos := lastDot filename
    let nameLen := dotPos.getD len
    let extLen := match dotPos with
      | some _ => len - nameLen - 1
      | none => 0
    if extLen > 3 ∨ nameLen = 0 ∨ nameLen > 8 then none
    else do
      let name ← (filename.take nameLen).mapM copyChar
      let ext ← (match dotPos with
        | some dot => ((filename.drop (dot + 1)).take extLen).mapM copyChar
        | none => some [])
      return fun i => if i.val < 8 then name.getD i.val 0x20 else ext.getD (i.val - 8) 0x20

/-- `FormatFilename_`: at most 127 characters are looked at. -/
def formatFilename (filename : List UInt8) : Option ShortName := toShortFormat (filename.take 127)

/-- `FormatShortName_`: the characters shown for an entry. -/
def formatShortName (name : ShortName) : List UInt8 :=
  let base := ((List.range 8).map fun i => name (Fin.ofNat 11 i)).takeWhile (· != 0x20)
  let ext := ([8, 9, 10].map name).takeWhile (· != 0x20)
  base ++ if name 8 != 0x20 then 0x2E :: ext else []

/-- The name of the entry of a directory itself. -/
def kDot : ShortName := fun i => if i = 0 then 0x2E else 0x20

/-- The name of the entry of the parent directory. -/
def kDotDot : ShortName := fun i => if i = 0 ∨ i = 1 then 0x2E else 0x20

theorem copyChar_eq_some {c c' : UInt8} (copied : copyChar c = some c') :
    c' ≠ 0x2E ∧ c' ≠ kEOD ∧ (c' = kDeletedEntry → c = 0x05) := by
  have table : ∀ n : Fin 256, ∀ c' ∈ copyChar (UInt8.ofNat n.val),
      c' ≠ 0x2E ∧ c' ≠ kEOD ∧ (c' = kDeletedEntry → UInt8.ofNat n.val = 0x05) := by
    decide +kernel
  have here := table ⟨c.toNat, c.toNat_lt⟩ c'
  rw [UInt8.ofNat_toNat] at here
  exact here copied

/-- The first character of a padded name is a copy. -/
theorem toShortFormat_zero {filename : List UInt8} {name : ShortName}
    (formatted : toShortFormat filename = some name) :
    ∃ c rest, filename = c :: rest ∧ copyChar c = some (name 0) := by
  unfold toShortFormat at formatted
  simp only at formatted
  split_ifs at formatted with long bad
  obtain ⟨short, copied, rest⟩ := Option.bind_eq_some_iff.mp formatted
  obtain ⟨ext, -, padded⟩ := Option.bind_eq_some_iff.mp rest
  rw [Option.pure_def, Option.some.injEq] at padded
  cases filename with
  | nil => exact absurd (.inr (.inl rfl)) bad
  | cons c others =>
    obtain ⟨n, positive⟩ : ∃ n, (lastDot (c :: others)).getD (c :: others).length = n + 1 :=
      Nat.exists_eq_succ_of_ne_zero fun zero => bad (.inr (.inl zero))
    rw [positive, List.take_succ_cons, List.mapM_cons] at copied
    obtain ⟨first, here, later⟩ := Option.bind_eq_some_iff.mp copied
    obtain ⟨tail, -, whole⟩ := Option.bind_eq_some_iff.mp later
    rw [Option.pure_def, Option.some.injEq] at whole
    refine ⟨c, others, rfl, ?_⟩
    rw [← padded, ← whole]
    exact here

variable {filename : List UInt8} {name : ShortName}
  (formatted : formatFilename filename = some name)
include formatted

theorem formatFilename_zero :
    ∃ c rest, filename = c :: rest ∧ copyChar c = some (name 0) := by
  obtain ⟨c, rest, split, copied⟩ := toShortFormat_zero formatted
  cases filename with
  | nil => exact nomatch split
  | cons first others =>
    rw [List.take_succ_cons, List.cons.injEq] at split
    exact ⟨first, others, rfl, split.1 ▸ copied⟩

/-- No file name is formatted as `.` or `..` or with an end mark. -/
theorem formatFilename_ne_dot :
    name ≠ kDot ∧ name ≠ kDotDot ∧ name 0 ≠ kEOD := by
  obtain ⟨c, rest, -, copied⟩ := formatFilename_zero formatted
  obtain ⟨dot, ends, -⟩ := copyChar_eq_some copied
  refine ⟨?_, ?_, ends⟩
  · intro same
    rw [same] at dot
    exact dot rfl
  · intro same
    rw [same] at dot
    exact dot rfl

/-- Only names that start with 0x05 are formatted as deleted ones. -/
theorem formatFilename_deleted (deleted : name 0 = kDeletedEntry) :
    filename.head? = some 0x05 := by
  obtain ⟨c, rest, rfl, copied⟩ := formatFilename_zero formatted
  rw [List.head?_cons, (copyChar_eq_some copied).2.2 deleted]

end AlkOS.Fat
