import AlkOS.Containers.PooledHashMap
import AlkOS.Fs.Path

/-!
# File descriptors

The descriptors of a process refer to entries of the open file table, which refer to
files of the file table. Entries and files are counted; the references of smart pointers
are written out as calls of `addRef` and `release`. The virtual file system is seen as a
store of byte arrays.
-/

namespace AlkOS.Fs

open Kernel Containers Vfs Function

def kMaxFdsPerProcess : ℕ := 128

def kMaxOpenFiles : ℕ := 1014

def kMaxActiveFiles : ℕ := 512

/-- The number of processes, as in `scheduling`. -/
def kMaxProcesses : ℕ := 4096

def kStderrFd : ℕ := 2

inductive FdError where
  | invalidFd
  | fdTableFull
  | badFileDescriptor
  | notOpen
  | notFound
  | alreadyClosed
  | permissionDenied
  | invalidArgument
  | ioError
deriving DecidableEq, Repr

/-- A set of flags. -/
abbrev OpenMode := UInt8

namespace OpenMode

def kRead : OpenMode := 1
def kWrite : OpenMode := 2
def kReadWrite : OpenMode := kRead ||| kWrite
def kAppend : OpenMode := 4
def kCreate : OpenMode := 8
def kTruncate : OpenMode := 16

def hasMode (flags mode : OpenMode) : Bool := flags &&& mode == mode

end OpenMode

inductive FdSeek where
  | set
  | cur
  | end
deriving DecidableEq, Repr

structure File where
  refCount : ℕ := 0
  size : ℕ := 0
  path : Path := ⟨[], false, []⟩
  poolIdx : ℕ := 0
deriving Inhabited

/-- `FileHandle`: a tagged pointer. -/
inductive FileHandle where
  | null
  | file (a : ℕ)
  | pipe
deriving DecidableEq, Repr

structure OpenFileEntry where
  refCount : ℕ := 0
  handle : FileHandle := .null
  flags : OpenMode := 0
  offset : ℕ := 0
  isAppend : Bool := false
  poolIdx : ℕ := 0
deriving Inhabited

/-- `FdTable`: the entry of each descriptor. -/
abbrev FdTable := ℕ → Option ℕ

/-- What a path is compared by. -/
abbrev PathKey := Bool × List (List UInt8)

/-- The key of a path. -/
def pathKey (path : Path) : PathKey := (path.isAbsolute, path.components)

/-- `FdManager`, the tables of the processes and the files. -/
structure FdManager where
  files : PooledHashMap File kMaxActiveFiles
  entries : PooledHashMap OpenFileEntry kMaxOpenFiles
  tables : ℕ → Option FdTable
  contents : PathKey → Option (List UInt8)

/-- `Path::operator==`. -/
def samePath (first second : Path) : Bool := pathKey first == pathKey second

namespace FdManager

/-- Nothing is open and there is no process. -/
def initial (contents : PathKey → Option (List UInt8)) : FdManager :=
  ⟨.initial File _, .initial OpenFileEntry _, fun _ => none, contents⟩

variable {α : Type}

/-- A computation on the file table. -/
def onFiles (run : Kernel (PooledHashMap File kMaxActiveFiles) α) : Kernel FdManager α :=
  zoom (·.files) (fun manager files => { manager with files := files }) run

/-- A computation on the open file table. -/
def onEntries (run : Kernel (PooledHashMap OpenFileEntry kMaxOpenFiles) α) : Kernel FdManager α :=
  zoom (·.entries) (fun manager entries => { manager with entries := entries }) run

/-- Write a slot of the table of a process. -/
def setSlot (manager : FdManager) (pid fd : ℕ) (entry : Option ℕ) : FdManager :=
  { manager with
    tables := update manager.tables pid
      ((manager.tables pid).map fun table => update table fd entry) }

/-- `File::AddRef`. -/
def addRefFile (a : ℕ) : Kernel FdManager Unit :=
  onFiles (PooledHashMap.update a fun file => { file with refCount := file.refCount + 1 })

variable (build : Build)

/-- `File::Release`; the destructor gives the slot back. -/
def releaseFile (a : ℕ) : Kernel FdManager Unit := do
  let file ← onFiles (PooledHashMap.deref a)
  onFiles (PooledHashMap.update a fun file => { file with refCount := file.refCount - 1 })
  assertTrue build (0 < file.refCount) "Releasing ref_count that is already zero"
  if file.refCount = 1 then onFiles (PooledHashMap.free build file.poolIdx)

/-- `OpenFileEntry::AddRef`. -/
def addRefEntry (e : ℕ) : Kernel FdManager Unit :=
  onEntries (PooledHashMap.update e fun entry => { entry with refCount := entry.refCount + 1 })

/-- `TaggedPointer::Destroy`. -/
def destroyHandle : FileHandle → Kernel FdManager Unit
  | .null => pure ()
  | .file a => releaseFile build a
  | .pipe => pure ()

/-- `OpenFileEntry::Release`; the slot is given back before the handle is destroyed. -/
def releaseEntry (e : ℕ) : Kernel FdManager Unit := do
  let entry ← onEntries (PooledHashMap.deref e)
  onEntries (PooledHashMap.update e fun entry => { entry with refCount := entry.refCount - 1 })
  assertTrue build (0 < entry.refCount) "Releasing ref_count that is already zero"
  if entry.refCount = 1 then
    onEntries (PooledHashMap.free build entry.poolIdx)
    destroyHandle build entry.handle

/-- Whether a slot has a file in use with the given path. -/
def isFileOf (files : PooledHashMap File kMaxActiveFiles) (path : Path) (i : ℕ) : Bool :=
  match (files.map i).bind files.heap with
  | none => false
  | some file => 0 < file.refCount && samePath file.path path

def find (files : PooledHashMap File kMaxActiveFiles) (path : Path) : Option ℕ :=
  ((List.range kMaxActiveFiles).find? (isFileOf files path)).bind files.map

/-- `FileTable::GetOrCreate`; a file in use is adopted without being counted. -/
def getOrCreate (path : Path) : Kernel FdManager (Except FdError ℕ) := do
  if path.isEmpty then return .error .invalidArgument
  match find (← get).files path with
  | some existing => return .ok existing
  | none =>
    match ← onFiles PooledHashMap.allocate with
    | none => return .error .ioError
    | some idx =>
      match ← onFiles (PooledHashMap.get build idx) with
      | none => throw (.assertion "file")
      | some a =>
        onFiles (PooledHashMap.update a fun _ => { path := path, poolIdx := idx })
        addRefFile a
        return .ok a

/-- `OpenFile` and `OpenPipe` take a slot; the caller owns the pointer. -/
def newEntry (handle : FileHandle) (flags : OpenMode) (isAppend : Bool) :
    Kernel FdManager (Except FdError ℕ) := do
  match ← onEntries PooledHashMap.allocate with
  | none => return .error .ioError
  | some idx =>
    match ← onEntries (PooledHashMap.get build idx) with
    | none => throw (.assertion "entry")
    | some e =>
      match handle with
      | .file a => addRefFile a
      | .null => pure ()
      | .pipe => pure ()
      onEntries (PooledHashMap.update e fun _ =>
        { handle := handle, flags := flags, isAppend := isAppend, poolIdx := idx })
      addRefEntry e
      return .ok e

def openFile (a : ℕ) (flags : OpenMode) : Kernel FdManager (Except FdError ℕ) :=
  newEntry build (.file a) flags (flags.hasMode OpenMode.kAppend)

def openPipe : Kernel FdManager (Except FdError ℕ) :=
  newEntry build .pipe OpenMode.kReadWrite false

def isValidFd (fd : ℤ) : Bool := 0 ≤ fd && fd < kMaxFdsPerProcess

/-- The first free descriptor. -/
def freeFd (table : FdTable) : Option ℕ :=
  (List.range kMaxFdsPerProcess).find? fun fd => (table fd).isNone

variable (pid : ℕ)

/-- `FdTable::Allocate` for a pointer that is moved into it. -/
def allocateFd (e : ℕ) : Kernel FdManager (Except FdError ℕ) := do
  match (← get).tables pid with
  | none =>
    releaseEntry build e
    return .error .ioError
  | some table =>
    match freeFd table with
    | none =>
      releaseEntry build e
      return .error .fdTableFull
    | some fd =>
      modify fun manager => manager.setSlot pid fd (some e)
      return .ok fd

/-- The part of `Open` that has a pointer to the file. -/
def openOn (a : ℕ) (flags : OpenMode) :
    Kernel FdManager (Except FdError ℕ) := do
  match ← openFile build a flags with
  | .error error => return .error error
  | .ok e => allocateFd build pid e

/-- `FdManager::Open`; the pointer to the file is released when the call returns. -/
def «open» (path : Path) (flags : OpenMode) :
    Kernel FdManager (Except FdError ℕ) := do
  if ((← get).contents (pathKey path)).isNone then return .error .notFound
  match ← getOrCreate build path with
  | .error error => return .error error
  | .ok a =>
    let result ← openOn build pid a flags
    releaseFile build a
    return result

/-- `RefPtr::Reset` on a slot. -/
def resetSlot (pid fd : ℕ) : Kernel FdManager Unit := do
  match ((← get).tables pid).bind fun table => table fd with
  | none => pure ()
  | some e =>
    modify fun manager => manager.setSlot pid fd none
    releaseEntry build e

def close (fd : ℤ) : Kernel FdManager (Except FdError Unit) := do
  match (← get).tables pid with
  | none => return .error .ioError
  | some table =>
    if !isValidFd fd then return .error .invalidFd
    match table fd.toNat with
    | none => return .error .notOpen
    | some e =>
      let entry ← onEntries (PooledHashMap.deref e)
      if fd.toNat ≤ kStderrFd ∧ entry.handle = .pipe then return .error .permissionDenied
      resetSlot build pid fd.toNat
      return .ok ()

/-- Copy the pointer of one slot into another, empty one. -/
def copySlot (pid fd : ℕ) (e : ℕ) : Kernel FdManager Unit := do
  addRefEntry e
  modify fun manager => manager.setSlot pid fd (some e)

/-- `FdManager::Duplicate(fd)`. -/
def duplicate (fd : ℤ) : Kernel FdManager (Except FdError ℕ) := do
  match (← get).tables pid with
  | none => return .error .ioError
  | some table =>
    if !isValidFd fd then return .error .invalidFd
    match table fd.toNat with
    | none => return .error .badFileDescriptor
    | some e =>
      match freeFd table with
      | none => return .error .fdTableFull
      | some free =>
        copySlot pid free e
        return .ok free

/-- `FdManager::Duplicate(old_fd, new_fd)`. The slot is reset before the old one is read. -/
def duplicateTo (oldFd newFd : ℤ) :
    Kernel FdManager (Except FdError ℕ) := do
  match (← get).tables pid with
  | none => return .error .ioError
  | some table =>
    if !isValidFd oldFd then return .error .invalidFd
    if !isValidFd newFd then return .error .invalidFd
    match table oldFd.toNat with
    | none => return .error .badFileDescriptor
    | some e =>
      resetSlot build pid newFd.toNat
      if oldFd ≠ newFd then copySlot pid newFd.toNat e
      return .ok newFd.toNat

/-- The destructor of `FdTable`, from the last slot to the first. -/
def destroyTable : Kernel FdManager Unit := do
  (List.range kMaxFdsPerProcess).reverse.forM (resetSlot build pid)
  modify fun manager => { manager with tables := update manager.tables pid none }

/-- `FdTable::AllocateAt` for a pointer that is moved into it. -/
def allocateAt (pid fd e : ℕ) : Kernel FdManager Bool := do
  if (((← get).tables pid).map fun table => (table fd).isNone) = some true then
    modify fun manager => manager.setSlot pid fd (some e)
    return true
  else
    releaseEntry build e
    return false

/-- Open a pipe and put it at a descriptor of a new process. -/
def openStdio (pid fd : ℕ) : Kernel FdManager Bool := do
  match ← openPipe build with
  | .error _ => return false
  | .ok e => allocateAt build pid fd e

/-- `PrepareProcess` opens the standard pipes; a failure destroys the table. -/
def openStdioAll : List ℕ → Kernel FdManager Bool
  | [] => return true
  | fd :: rest => do
      if ← openStdio build pid fd then openStdioAll rest
      else
        destroyTable build pid
        return false

/-- The descriptor table of a new process. -/
def prepareTable : Kernel FdManager Bool := do
  modify fun manager =>
    { manager with tables := update manager.tables pid (some fun _ => none) }
  openStdioAll build pid [0, 1, 2]

/-- The bytes of a file after a write. -/
def overwrite (bytes : List UInt8) (offset : ℕ) (buffer : List UInt8) : List UInt8 :=
  bytes.take offset ++ List.replicate (offset - bytes.length) 0 ++ buffer ++
    bytes.drop (offset + buffer.length)

/-- The entry of a descriptor. -/
def entryOf (fd : ℤ) : Kernel FdManager (Option ℕ) := do
  match (← get).tables pid with
  | none => throw (.assertion "fd_table")
  | some table => return if isValidFd fd then table fd.toNat else none

/-- `FdManager::Read`; what a pipe holds is left out. -/
def read (fd : ℤ) (count : ℕ) : Kernel FdManager (Except FdError (List UInt8)) := do
  if count = 0 then return .error .invalidArgument
  match ← entryOf pid fd with
  | none => return .error .badFileDescriptor
  | some e =>
    let entry ← onEntries (PooledHashMap.deref e)
    if !entry.flags.hasMode OpenMode.kRead then return .error .permissionDenied
    match entry.handle with
    | .null => return .error .badFileDescriptor
    | .pipe => return .ok []
    | .file a =>
      let file ← onFiles (PooledHashMap.deref a)
      match (← get).contents (pathKey file.path) with
      | none => return .error .ioError
      | some bytes =>
        let result := (bytes.drop entry.offset).take count
        onEntries (PooledHashMap.update e fun entry =>
          { entry with offset := (entry.offset + result.length) % 2 ^ 64 })
        return .ok result

/-- `FdManager::Write`; what a pipe holds is left out. -/
def write (fd : ℤ) (buffer : List UInt8) : Kernel FdManager (Except FdError ℕ) := do
  if buffer.isEmpty then return .error .invalidArgument
  match ← entryOf pid fd with
  | none => return .error .badFileDescriptor
  | some e =>
    let entry ← onEntries (PooledHashMap.deref e)
    if !entry.flags.hasMode OpenMode.kWrite then return .error .permissionDenied
    match entry.handle with
    | .null => return .error .badFileDescriptor
    | .pipe => return .ok buffer.length
    | .file a =>
      let file ← onFiles (PooledHashMap.deref a)
      let offset := if entry.isAppend then file.size else entry.offset
      onEntries (PooledHashMap.update e fun entry => { entry with offset := offset })
      match (← get).contents (pathKey file.path) with
      | none => return .error .ioError
      | some bytes =>
        modify fun manager => { manager with
          contents := update manager.contents (pathKey file.path)
            (some (overwrite bytes offset buffer)) }
        onEntries (PooledHashMap.update e fun entry =>
          { entry with offset := (offset + buffer.length) % 2 ^ 64 })
        return .ok buffer.length

/-- The offset that `Seek` computes, a signed 64-bit number. -/
def seekTarget (whence : FdSeek) (offset size : ℕ) (delta : ℤ) : ℤ :=
  match whence with
  | .set => delta
  | .cur => (offset + delta).bmod (2 ^ 64)
  | .end => (size + delta).bmod (2 ^ 64)

def seek (fd : ℤ) (delta : ℤ) (whence : FdSeek) :
    Kernel FdManager (Except FdError ℤ) := do
  match ← entryOf pid fd with
  | none => return .error .badFileDescriptor
  | some e =>
    let entry ← onEntries (PooledHashMap.deref e)
    match entry.handle with
    | .null => return .error .invalidArgument
    | .pipe => return .error .invalidArgument
    | .file a =>
      let file ← onFiles (PooledHashMap.deref a)
      let target := seekTarget whence entry.offset file.size delta
      onEntries (PooledHashMap.update e fun entry =>
        { entry with offset := (target % 2 ^ 64).toNat })
      return .ok target

end FdManager

end AlkOS.Fs
