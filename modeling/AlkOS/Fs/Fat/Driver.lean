import AlkOS.Fs.Fat.Entry
import AlkOS.Fs.Fat.Volume
import AlkOS.Fs.Path

/-!
# The FAT driver

The operations of `vfs::Fat` over an in-memory disk. A loop along a chain of clusters
ends after at most `kEOC` steps unless the chain has a cycle, so running out of that
many steps means that the loop never ends.
-/

namespace AlkOS.Fat

open Kernel Vfs

/-- Everything after the last step of a walk along a chain without an end. -/
def endless : Panic := .undefined "the chain of clusters has no end"

/-- `PathLookupResult` of a path that was found. -/
structure PathLookupResult where
  entry : DirectoryEntry
  parentCluster : ℕ
  entryOffset : ℕ
deriving DecidableEq

namespace Volume

variable (v : Volume)

/-- The check of `io::InMemory::ReadRange`. -/
def checkRange (sectors : ℕ) : Except Panic Unit :=
  if sectors * v.bytesPerSector ≤ kMaxTempBufSize then .ok ()
  else .error (.assertion "Requested range exceeds maximum temporary buffer size")

/-- Copying a block of the given size into a `temp_buffer`. -/
def checkBuffer (size : ℕ) : Except Panic Unit :=
  if size ≤ kMaxClusterSize then .ok () else .error (.undefined "temp_buffer")

/-- FAT12 asserts that the cluster exists and may read two sectors. -/
def checkEntry (cluster : ℕ) : Except Panic Unit := do
  match v.variant with
  | .fat12 =>
    if v.build = .debug ∧ ¬ cluster < v.clusterCount + kFirstClusterNumber then
      throw (.assertion "Cluster number out of range")
    let offset := v.variant.entryOffset cluster % v.bytesPerSector
    v.checkRange (if offset = v.bytesPerSector - 1 then 2 else 1)
  | _ => v.checkRange 1

variable (disk : Bytes)

def getFATEntry (cluster : ℕ) : Except Panic ℕ := do
  v.checkEntry cluster
  return v.entry disk cluster

def setFATEntry (cluster value : ℕ) : Kernel Bytes Unit := do
  reading fun _ => v.checkEntry cluster
  modify fun disk => v.putEntry disk cluster value

def readCluster (cluster : ℕ) : Except Panic Bytes := do
  v.checkRange v.sectorsPerCluster
  return v.data disk cluster

def writeCluster (cluster : ℕ) (bytes : Bytes) : Kernel Bytes Unit :=
  modify fun disk => v.putData disk cluster bytes

/-- Reading the fixed root directory. -/
def readRoot : Except Panic Bytes := do
  v.checkRange v.rootSectors
  return v.root disk

variable (entry : DirectoryEntry)

/-- `GetFirstCluster_`, stored as a `ClusterNumT`. -/
def firstCluster : ℕ :=
  (entry.firstClusterHigh.toNat * 2 ^ 16 + entry.firstClusterLow.toNat) % 2 ^ v.variant.clusterBits

/-- The loop of `AllocateCluster_` over the given number of clusters. -/
def allocateFrom : ℕ → ℕ → Kernel Bytes ℕ
  | 0, _ => return 0
  | count + 1, cluster => do
      if (← reading fun disk => v.getFATEntry disk cluster) = 0 then
        v.setFATEntry cluster v.kEOC
        return cluster
      else allocateFrom count (cluster + 1)

/-- `AllocateCluster_`; zero means that no cluster is free. -/
def allocateCluster : Kernel Bytes ℕ := v.allocateFrom v.clusterCount kFirstClusterNumber

/-- The loop of `FreeClusterChain_`. -/
def freeChainLoop : ℕ → ℕ → Kernel Bytes Unit
  | 0, _ => throw endless
  | fuel + 1, cluster => do
      if cluster ≠ 0 ∧ cluster < v.kEOC then
        let next ← reading fun disk => v.getFATEntry disk cluster
        v.setFATEntry cluster 0
        freeChainLoop fuel next
      else return ()

def freeClusterChain (cluster : ℕ) : Kernel Bytes Unit := v.freeChainLoop (v.kEOC + 1) cluster

/-- The entries of a directory block of the given size. -/
def slotsOf (bytes : Bytes) (size : ℕ) : List DirectoryEntry :=
  (List.range (size / kEntrySize)).map fun i => DirectoryEntry.decode (bytes.view (i * kEntrySize))

/-- One block of `ScanDirectoryTableWithOffset_`: what stopped the scan, if anything. -/
def scanSlots {β : Type} (visit : DirectoryEntry → ℕ → Option β) :
    List DirectoryEntry → ℕ → Option (Option β)
  | [], _ => none
  | entry :: rest, offset =>
    if entry.isFree then scanSlots visit rest (offset + kEntrySize)
    else if entry.isFurtherEntriesFree then some none
    else match visit entry offset with
      | some value => some (some value)
      | none => scanSlots visit rest (offset + kEntrySize)

/-- `ScanClusterChainDirectoryWithOffset_`. -/
def scanChain {β : Type} (disk : Bytes) (visit : DirectoryEntry → ℕ → Option β) :
    ℕ → ℕ → ℕ → Except Panic (Option β)
  | 0, _, _ => .error endless
  | fuel + 1, cluster, offset =>
    if cluster < v.kEOC then do
      let bytes ← v.readCluster disk cluster
      match scanSlots visit (slotsOf bytes v.clusterSize) offset with
      | some result => return result
      | none =>
        let next ← v.getFATEntry disk cluster
        scanChain disk visit fuel next
          (offset + (slotsOf bytes v.clusterSize).length * kEntrySize)
    else return none

def scanDirectoryTableWithOffset {β : Type} (disk : Bytes) (dirEntry : DirectoryEntry)
    (visit : DirectoryEntry → ℕ → Option β) : Except Panic (Option β) :=
  if v.variant.kHasFixedRootDir && v.firstCluster dirEntry == 0 then do
    let bytes ← v.readRoot disk
    return (scanSlots visit (slotsOf bytes v.rootSize) 0).getD none
  else v.scanChain disk visit (v.kEOC + 1) (v.firstCluster dirEntry) 0

/-- One block of `ScanDirectoryTable_`: the entries to report, and whether it was the last. -/
def collectSlots : List DirectoryEntry → List DirectoryEntry × Bool
  | [] => ([], false)
  | entry :: rest =>
    if entry.isFree then collectSlots rest
    else if entry.isFurtherEntriesFree then ([], true)
    else (entry :: (collectSlots rest).1, (collectSlots rest).2)

/-- `ScanClusterChainDirectory_`. -/
def collectChain : ℕ → ℕ → Except Panic (List DirectoryEntry)
  | 0, _ => .error endless
  | fuel + 1, cluster =>
    if cluster < v.kEOC then do
      let bytes ← v.readCluster disk cluster
      let block := collectSlots (slotsOf bytes v.clusterSize)
      if block.2 then return block.1
      else
        let next ← v.getFATEntry disk cluster
        return block.1 ++ (← collectChain fuel next)
    else return []

def scanDirectoryTable (dirEntry : DirectoryEntry) :
    Except Panic (List DirectoryEntry) :=
  if v.variant.kHasFixedRootDir && v.firstCluster dirEntry == 0 then do
    let bytes ← v.readRoot disk
    return (collectSlots (slotsOf bytes v.rootSize)).1
  else v.collectChain disk (v.kEOC + 1) (v.firstCluster dirEntry)

def makeRootDirectoryEntry : DirectoryEntry :=
  { DirectoryEntry.zero.setFirstCluster v.rootCluster with attributes := Attributes.directory }

variable (name : ShortName)

/-- Whether a visited entry bears the name. -/
def matchName (entry : DirectoryEntry) (offset : ℕ) :
    Option (DirectoryEntry × ℕ) :=
  if !entry.isLongNameSubComponent && !entry.isFree && entry.filename == name then
    some (entry, offset)
  else none

def findEntryInDirectory (dirEntry : DirectoryEntry) (component : List UInt8) :
    Except Panic (Option (DirectoryEntry × ℕ)) :=
  match formatFilename component with
  | none => return none
  | some name => v.scanDirectoryTableWithOffset disk dirEntry (matchName name)

/-- The components `.` and `..` are skipped. -/
def isSkipped (component : List UInt8) : Bool := component == [46] || component == [46, 46]

/-- The loop of `LookupPath_`. -/
def lookupComponents : List (List UInt8) → DirectoryEntry → ℕ → ℕ → ℕ →
    Except Panic (Option PathLookupResult)
  | [], currentEntry, _, parentCluster, offset =>
    return some ⟨currentEntry, parentCluster, offset⟩
  | component :: rest, currentEntry, currentCluster, parentCluster, offset =>
    if isSkipped component then
      lookupComponents rest currentEntry currentCluster parentCluster offset
    else do
      match ← v.findEntryInDirectory disk currentEntry component with
      | none => return none
      | some (entry, entryOffset) =>
        lookupComponents rest entry (v.firstCluster entry) currentCluster entryOffset

variable (path : Path)

def lookupPath : Except Panic (Option PathLookupResult) :=
  if path.isEmpty || path.isRoot then return none
  else v.lookupComponents disk path.components v.makeRootDirectoryEntry v.rootCluster
    v.rootCluster 0

/-- `GetDirectoryLookup_`: the entry of a directory path. -/
def getDirectoryLookup : Except Panic (Option DirectoryEntry) :=
  if path.isRoot then return some v.makeRootDirectoryEntry
  else do
    return (← v.lookupPath disk path).map PathLookupResult.entry

def getParentCluster : Except Panic (Except VfsError ℕ) :=
  if path.getParent.isRoot then return .ok v.rootCluster
  else do
    match ← v.lookupPath disk path.getParent with
    | none => return .error .directoryNotFound
    | some parent => return .ok (v.firstCluster parent.entry)

def skipClusters : ℕ → ℕ → Except Panic ℕ
  | 0, cluster => return cluster
  | count + 1, cluster =>
    if cluster < v.kEOC then do
      skipClusters count (← v.getFATEntry disk cluster)
    else return cluster

/-- The loop of `ReadFileData_`. -/
def readLoop : ℕ → ℕ → ℕ → ℕ → Except Panic (List UInt8)
  | 0, _, _, _ => .error endless
  | fuel + 1, cluster, remaining, offsetInCluster =>
    if 0 < remaining ∧ cluster < v.kEOC then do
      let bytes ← v.readCluster disk cluster
      let copySize := min (v.clusterSize - offsetInCluster) remaining
      let next ← v.getFATEntry disk cluster
      return (List.range copySize).map (fun i => bytes (offsetInCluster + i)) ++
        (← readLoop fuel next (remaining - copySize) 0)
    else return []

/-- `ReadFileData_`: the bytes that are read. -/
def readFileData (size offset : ℕ) :
    Except Panic (List UInt8) := do
  let bytesToRead := min size (entry.fileSize.toNat - offset)
  let cluster ← v.skipClusters disk (offset / v.clusterSize) (v.firstCluster entry)
  v.readLoop disk (bytesToRead + 1) cluster bytesToRead (offset % v.clusterSize)

/-- The next cluster of a chain, and whether the chain was extended. -/
def nextOrAllocate (cluster : ℕ) : Kernel Bytes (Option (ℕ × Bool)) := do
  let next ← reading fun disk => v.getFATEntry disk cluster
  if next ≥ v.kEOC then
    let fresh ← v.allocateCluster
    if fresh = 0 then return none
    else
      v.setFATEntry cluster fresh
      return some (fresh, true)
  else return some (next, false)

/-- `EnsureClusterChain_`; zero means that no cluster is free. -/
def ensureClusterChain : ℕ → ℕ → Kernel Bytes ℕ
  | 0, cluster => return cluster
  | count + 1, cluster => do
      match ← v.nextOrAllocate cluster with
      | none => return 0
      | some (next, _) => ensureClusterChain count next

/-- The loop of `WriteToClusterChain_` with the rest of the buffer. -/
def writeLoop : ℕ → ℕ → List UInt8 → ℕ → Kernel Bytes ℕ
  | 0, _, _, _ => throw endless
  | fuel + 1, cluster, buffer, offsetInCluster => do
      if buffer = [] then return 0
      else
        let bytes ← reading fun disk => v.readCluster disk cluster
        reading fun _ => checkBuffer v.clusterSize
        let copySize := min (v.clusterSize - offsetInCluster) buffer.length
        v.writeCluster cluster
          (bytes.blit offsetInCluster copySize fun i => buffer.getD i 0)
        if buffer.drop copySize = [] then return copySize
        else
          match ← v.nextOrAllocate cluster with
          | none => return copySize
          | some (next, _) => return copySize + (← writeLoop fuel next (buffer.drop copySize) 0)

def writeToClusterChain (cluster : ℕ) (buffer : List UInt8) (offsetInCluster : ℕ) :
    Kernel Bytes ℕ :=
  v.writeLoop (buffer.length + 1) cluster buffer offsetInCluster

def updateEntryInFixedRootDir (offset : ℕ) (entry : DirectoryEntry) : Kernel Bytes Unit := do
  if offset ≥ v.rootSize then return ()
  else
    let bytes ← reading v.readRoot
    reading fun _ => checkBuffer v.rootSize
    modify fun disk => v.putRoot disk (bytes.blit offset kEntrySize entry.encode)

/-- The walk of `UpdateEntryInClusterDir_` to the cluster of an offset. -/
def seekCluster : ℕ → ℕ → ℕ → Except Panic (ℕ × ℕ)
  | 0, _, _ => .error endless
  | fuel + 1, cluster, offset =>
    if offset ≥ v.clusterSize ∧ cluster < v.kEOC then do
      seekCluster fuel (← v.getFATEntry disk cluster) (offset - v.clusterSize)
    else return (cluster, offset)

def updateEntryInClusterDir (parentCluster offset : ℕ) (entry : DirectoryEntry) :
    Kernel Bytes Unit := do
  let place ← reading fun disk => v.seekCluster disk (offset + 1) parentCluster offset
  if place.1 ≥ v.kEOC then return ()
  else
    let bytes ← reading fun disk => v.readCluster disk place.1
    reading fun _ => checkBuffer v.clusterSize
    v.writeCluster place.1 (bytes.blit place.2 kEntrySize entry.encode)

def updateDirectoryEntry (parentCluster offset : ℕ) (entry : DirectoryEntry) :
    Kernel Bytes Unit :=
  if v.variant.kHasFixedRootDir && parentCluster == 0 then
    v.updateEntryInFixedRootDir offset entry
  else v.updateEntryInClusterDir parentCluster offset entry

/-- The first free slot of a directory block. -/
def freeSlot (slots : List DirectoryEntry) : Option ℕ :=
  slots.findIdx? fun entry => entry.isFree || entry.isFurtherEntriesFree

/-- `WriteNewEntry_` on a block with the given slots. -/
def writeNewEntry (bytes : Bytes) (slots : List DirectoryEntry) (index : ℕ) (name : ShortName)
    (attributes : UInt8) (firstCluster : ℕ) : Bytes :=
  let old := slots.getD index DirectoryEntry.zero
  let written := bytes.blit (index * kEntrySize) kEntrySize
    (old.renewed name attributes firstCluster).encode
  if old.isFurtherEntriesFree && decide (index + 1 < slots.length) then
    written.blit ((index + 1) * kEntrySize) 1 fun _ => kEOD
  else written

def createEntryInFixedRootDir (attributes : UInt8) (firstCluster : ℕ) :
    Kernel Bytes (Except VfsError Unit) := do
  let bytes ← reading v.readRoot
  let slots := slotsOf bytes v.rootSize
  match freeSlot slots with
  | some index =>
    reading fun _ => checkBuffer v.rootSize
    modify fun disk =>
      v.putRoot disk (writeNewEntry bytes slots index name attributes firstCluster)
    return .ok ()
  | none => return .error .diskFull

def initializeEmptyCluster (cluster : ℕ) : Kernel Bytes Unit := do
  reading fun _ => checkBuffer v.clusterSize
  v.writeCluster cluster fun _ => 0

/-- The loop of `CreateEntryInClusterDir_`. -/
def createLoop (attributes : UInt8) (firstCluster : ℕ) :
    ℕ → ℕ → Kernel Bytes (Except VfsError Unit)
  | 0, _ => throw endless
  | fuel + 1, cluster => do
      if cluster < v.kEOC then
        let bytes ← reading fun disk => v.readCluster disk cluster
        let slots := slotsOf bytes v.clusterSize
        match freeSlot slots with
        | some index =>
          reading fun _ => checkBuffer v.clusterSize
          v.writeCluster cluster
            (writeNewEntry bytes slots index name attributes firstCluster)
          return .ok ()
        | none =>
          match ← v.nextOrAllocate cluster with
          | none => return .error .diskFull
          | some (next, fresh) =>
            if fresh then v.initializeEmptyCluster next
            createLoop attributes firstCluster fuel next
      else return .error .diskFull

def createEntry (parentCluster : ℕ) (name : ShortName) (attributes : UInt8) (firstCluster : ℕ) :
    Kernel Bytes (Except VfsError Unit) :=
  if v.variant.kHasFixedRootDir && parentCluster == 0 then
    v.createEntryInFixedRootDir name attributes firstCluster
  else v.createLoop name attributes firstCluster (v.kEOC + 2) parentCluster

variable (lookup : PathLookupResult)

def deleteEntry : Kernel Bytes (Except VfsError Unit) := do
  v.freeClusterChain (v.firstCluster lookup.entry)
  v.updateDirectoryEntry lookup.parentCluster lookup.entryOffset lookup.entry.deleted
  return .ok ()

def moveEntry (old : PathLookupResult) (newName : ShortName) (newParentCluster : ℕ) :
    Kernel Bytes (Except VfsError Unit) := do
  if old.parentCluster = newParentCluster then
    v.updateDirectoryEntry old.parentCluster old.entryOffset
      { old.entry with filename := newName }
    return .ok ()
  else
    match ← v.createEntry newParentCluster newName old.entry.attributes
        (v.firstCluster old.entry) with
    | .error error => return .error error
    | .ok () =>
      v.updateDirectoryEntry old.parentCluster old.entryOffset old.entry.deleted
      return .ok ()

/-- The entry of a new directory for itself or for its parent. -/
def dotEntry (cluster : ℕ) : DirectoryEntry :=
  { DirectoryEntry.zero.setFirstCluster cluster with
    filename := name
    attributes := Attributes.directory }

def initializeNewDirectory (newCluster parentCluster : ℕ) : Kernel Bytes Unit := do
  reading fun _ => checkBuffer v.clusterSize
  v.writeCluster newCluster
    ((Bytes.blit (fun _ => 0) 0 kEntrySize (dotEntry kDot newCluster).encode).blit kEntrySize
      kEntrySize (dotEntry kDotDot parentCluster).encode)

def createDirectoryWithCluster (parentCluster : ℕ) (name : ShortName) :
    Kernel Bytes (Except VfsError Unit) := do
  let newCluster ← v.allocateCluster
  if newCluster = 0 then return .error .diskFull
  else
    v.initializeNewDirectory newCluster parentCluster
    v.createEntry parentCluster name Attributes.directory newCluster

def isDirectoryEmpty : Except Panic Bool := do
  return (← v.scanDirectoryTable disk entry).all fun e =>
    e.isFree || e.isLongNameSubComponent || e.isVolumeLabel ||
      e.filename == kDot || e.filename == kDotDot

/-- The first cluster of a file, which is allocated if there is none. -/
def ensureFirstCluster :
    Kernel Bytes (Option (DirectoryEntry × ℕ)) := do
  if v.firstCluster lookup.entry = 0 then
    let cluster ← v.allocateCluster
    if cluster = 0 then return none
    else
      let entry := lookup.entry.setFirstCluster cluster
      v.updateDirectoryEntry lookup.parentCluster lookup.entryOffset entry
      return some (entry, cluster)
  else return some (lookup.entry, v.firstCluster lookup.entry)

def writeFileData (buffer : List UInt8) (offset : ℕ) :
    Kernel Bytes (Except VfsError ℕ) := do
  match ← v.ensureFirstCluster lookup with
  | none => return .error .diskFull
  | some (entry, first) =>
    let cluster ← v.ensureClusterChain (offset / v.clusterSize) first
    if cluster = 0 then return .error .diskFull
    else
      let bytesWritten ← v.writeToClusterChain cluster buffer (offset % v.clusterSize)
      let newSize := max entry.fileSize.toNat (offset + bytesWritten)
      if newSize ≠ entry.fileSize.toNat then
        v.updateDirectoryEntry lookup.parentCluster lookup.entryOffset
          { entry with fileSize := UInt32.ofNat newSize }
      return .ok bytesWritten

def createFile : Kernel Bytes (Except VfsError Unit) := do
  if path.isEmpty || path.components.isEmpty then return .error .invalidPath
  else match formatFilename path.getFilename with
    | none => return .error .invalidName
    | some name =>
      if (← reading fun disk => v.lookupPath disk path).isSome then return .error .alreadyExists
      else match ← reading fun disk => v.getParentCluster disk path with
        | .error error => return .error error
        | .ok parent => v.createEntry parent name Attributes.archive 0

/-- `ReadFile`; an empty buffer is one of size zero. -/
def readFile (size offset : ℕ) :
    Except Panic (Except VfsError (List UInt8)) := do
  if size = 0 then return .error .invalidArgument
  else match ← v.lookupPath disk path with
    | none => return .error .fileNotFound
    | some lookup =>
      if !lookup.entry.isFile then return .error .notAFile
      else if offset ≥ lookup.entry.fileSize.toNat then return .ok []
      else return .ok (← v.readFileData disk lookup.entry size offset)

def writeFile (buffer : List UInt8) (offset : ℕ) :
    Kernel Bytes (Except VfsError ℕ) := do
  if buffer = [] then return .error .invalidArgument
  else match ← reading fun disk => v.lookupPath disk path with
    | none => return .error .fileNotFound
    | some lookup =>
      if !lookup.entry.isFile then return .error .notAFile
      else v.writeFileData lookup buffer offset

def deleteFile : Kernel Bytes (Except VfsError Unit) := do
  match ← reading fun disk => v.lookupPath disk path with
  | none => return .error .fileNotFound
  | some lookup =>
    if !lookup.entry.isFile then return .error .notAFile
    else v.deleteEntry lookup

def getFileSize : Except Panic (Except VfsError ℕ) := do
  match ← v.lookupPath disk path with
  | none => return .error .fileNotFound
  | some lookup =>
    if !lookup.entry.isFile then return .error .notAFile
    else return .ok lookup.entry.fileSize.toNat

def createDirectory : Kernel Bytes (Except VfsError Unit) := do
  if path.isEmpty || path.components.isEmpty then return .error .invalidPath
  else match formatFilename path.getFilename with
    | none => return .error .invalidName
    | some name =>
      if (← reading fun disk => v.lookupPath disk path).isSome then return .error .alreadyExists
      else match ← reading fun disk => v.getParentCluster disk path with
        | .error error => return .error error
        | .ok parent => v.createDirectoryWithCluster parent name

def removeDirectory : Kernel Bytes (Except VfsError Unit) := do
  match ← reading fun disk => v.lookupPath disk path with
  | none => return .error .directoryNotFound
  | some lookup =>
    if !lookup.entry.isDirectory then return .error .notADirectory
    else if !(← reading fun disk => v.isDirectoryEmpty disk lookup.entry) then
      return .error .notEmpty
    else v.deleteEntry lookup

/-- `ListDirectory`: the names and kinds that are reported. -/
def listDirectory : Except Panic (List (List UInt8 × Bool)) := do
  match ← v.getDirectoryLookup disk path with
  | none => return []
  | some entry =>
    if !entry.isDirectory then return []
    else
      let entries ← v.scanDirectoryTable disk entry
      return (entries.filter fun e => e.isValid && !e.isVolumeLabel).map fun e =>
        (formatShortName e.filename, e.isDirectory)

def move (oldPath newPath : Path) : Kernel Bytes (Except VfsError Unit) := do
  match ← reading fun disk => v.lookupPath disk oldPath with
  | none => return .error .fileNotFound
  | some old =>
    if (← reading fun disk => v.lookupPath disk newPath).isSome then return .error .alreadyExists
    else match formatFilename newPath.getFilename with
      | none => return .error .invalidName
      | some name =>
        match ← reading fun disk => v.getParentCluster disk newPath with
        | .error error => return .error error
        | .ok parent => v.moveEntry old name parent

end Volume

end AlkOS.Fat
