import AlkOS.Fs.Fat.Chains

/-!
# The data of a chain

The clusters of a chain hold one array of bytes. Writing through a chain, which
may grow on the way, changes the bytes that are written and no others; reading
returns the bytes of a range; freeing a chain frees its clusters.
-/

namespace AlkOS.Fat.Volume

open Kernel Function

variable {v : Volume} {disk disk' disk'' : Bytes} {cluster position count fuel : ℕ}
  {offset remaining : ℕ} {l l' m m' : List ℕ} {buffer : List UInt8}

/-- A chain ends at its start or goes on at the next cluster. -/
theorem Chain.next (chain : v.Chain disk cluster (cluster :: l)) :
    l = [] ∧ v.kEOC ≤ v.entry disk cluster ∨
      v.entry disk cluster < v.kEOC ∧ v.Chain disk (v.entry disk cluster) l := by
  obtain ⟨linked, known⟩ := chain
  cases linked with
  | last _ ends => exact .inl ⟨rfl, ends⟩
  | cons _ rest =>
    refine .inr ⟨not_le.mp rest.not_stop_start, rest, fun x member => ?_⟩
    exact known x (List.mem_cons_of_mem _ member)

theorem Chain.exists_cons (chain : v.Chain disk cluster l) : ∃ rest, l = cluster :: rest :=
  chain.linked.exists_cons

section

variable (sound : v.Sound)
include sound

theorem Chain.passes (chain : v.Chain disk cluster l) :
    v.checkEntry cluster = .ok () :=
  sound.checkEntry_eq (chain.inRange cluster chain.start_mem).2

/-- A step past the first cluster of a chain, which may have to be extended. -/
theorem Sound.run_nextOrAllocate_of_chain (fits : v.Fits) (chain : v.Chain disk cluster l) :
    (v.nextOrAllocate cluster).run disk = .ok none disk ∧ l = [cluster] ∧
        v.firstFree disk = none ∨
      ∃ next fresh disk' rest, (v.nextOrAllocate cluster).run disk =
          .ok (some (next, fresh)) disk' ∧
        v.Chain disk' next rest ∧ v.Grown disk disk' l (cluster :: rest) ∧
        v.Frame disk disk' {x | x ∈ cluster :: rest} ∅ ∧
        (l ≠ [cluster] → disk' = disk ∧ l = cluster :: rest) := by
  rw [sound.run_nextOrAllocate (chain.passes sound) disk]
  obtain ⟨rest, rfl⟩ := chain.exists_cons
  rcases chain.next with ⟨rfl, ends⟩ | ⟨going, tail⟩
  · rw [if_pos ends]
    cases found : v.firstFree disk with
    | none => exact .inl ⟨rfl, rfl, rfl⟩
    | some free =>
      obtain ⟨grown, frame, single⟩ := sound.grown_link fits
        (chain.inRange cluster chain.start_mem) found (chain.entry_ne_zero chain.start_mem)
      refine .inr ⟨free, true, _, [free], rfl, single, grown, ?_, fun more => absurd rfl more⟩
      exact frame.mono (by intro x member; simpa using member) (Set.empty_subset _)
  · rw [if_neg (not_le.mpr going)]
    exact .inr ⟨_, false, disk, rest, rfl, tail, Grown.refl v disk _, Frame.refl v disk,
      fun _ => ⟨rfl, rfl⟩⟩

/-- `EnsureClusterChain_` returns the cluster of an index, or zero when none is left. -/
theorem Sound.run_ensureClusterChain (fits : v.Fits) (chain : v.Chain disk cluster l) (count : ℕ) :
    ∃ result disk' l', (v.ensureClusterChain count cluster).run disk = .ok result disk' ∧
      v.Grown disk disk' l l' ∧ v.Frame disk disk' {x | x ∈ l'} ∅ ∧
      (count < l'.length ∧ result = l'.getD count 0 ∨ result = 0 ∧ v.firstFree disk' = none) := by
  induction count generalizing disk cluster l with
  | zero =>
    obtain ⟨rest, rfl⟩ := chain.exists_cons
    exact ⟨cluster, disk, _, rfl, Grown.refl v disk _, Frame.refl v disk,
      .inl ⟨Nat.succ_pos _, rfl⟩⟩
  | succ count ih =>
    unfold ensureClusterChain
    rcases sound.run_nextOrAllocate_of_chain fits chain with
      ⟨run, -, full⟩ | ⟨next, fresh, middle, rest, run, tail, grown, frame, -⟩
    · rw [run_bind run]
      exact ⟨0, disk, l, rfl, Grown.refl v disk l, Frame.refl v disk, .inr ⟨rfl, full⟩⟩
    · obtain ⟨result, disk', rest', onward, grownRest, frameRest, place⟩ := ih tail
      rw [run_bind run]
      obtain ⟨others, split⟩ := tail.exists_cons
      rw [split] at grownRest
      have whole : v.Grown middle disk' (cluster :: rest) (cluster :: rest') := by
        rw [split]
        exact grownRest.append_left [cluster]
      refine ⟨result, disk', cluster :: rest', onward, grown.trans whole, ?_, ?_⟩
      · refine (frame.trans frameRest).mono (Set.union_subset whole.subset ?_) (by simp)
        exact fun x member => List.mem_cons_of_mem _ member
      · refine place.imp_left fun inside => ?_
        exact ⟨Nat.succ_lt_succ inside.1, inside.2⟩

/-- The byte at a position of the data of a chain. -/
def content (v : Volume) (disk : Bytes) (l : List ℕ) (position : ℕ) : UInt8 :=
  v.data disk (l.getD (position / v.clusterSize) 0) (position % v.clusterSize)

theorem Sound.clusterSize_pos : 0 < v.clusterSize :=
  Nat.mul_pos sound.cluster sound.sector

omit sound in
theorem content_cons_of_lt (inside : position < v.clusterSize) :
    v.content disk (cluster :: l) position = v.data disk cluster position := by
  unfold content
  rw [Nat.div_eq_of_lt inside, Nat.mod_eq_of_lt inside, List.getD_cons_zero]

theorem Sound.content_cons_add :
    v.content disk (cluster :: l) (v.clusterSize + position) = v.content disk l position := by
  unfold content
  rw [Nat.add_div_left _ sound.clusterSize_pos, Nat.add_mod_left, List.getD_cons_succ]

/-- The data of a chain depends on its own clusters only. -/
theorem Sound.content_congr
    (same : ∀ x ∈ l, ∀ i < v.clusterSize, v.data disk' x i = v.data disk x i)
    (inside : position < l.length * v.clusterSize) :
    v.content disk' l position = v.content disk l position := by
  have index : position / v.clusterSize < l.length := by
    rw [Nat.div_lt_iff_lt_mul sound.clusterSize_pos]
    exact inside
  unfold content
  rw [List.getD_eq_getElem _ _ index]
  exact same _ (List.getElem_mem index) _ (Nat.mod_lt _ sound.clusterSize_pos)

end

theorem Frame.data_eq {entries blocks : Set ℕ} (frame : v.Frame disk disk' entries blocks)
    (known : v.InRange cluster) (outside : cluster ∉ blocks) {i : ℕ} (inside : i < v.clusterSize) :
    v.data disk' cluster i = v.data disk cluster i := by
  have same := frame.block cluster (.inr known) outside i
    (by rw [blockSize_of_inRange known]; exact inside)
  rwa [block_of_inRange known, block_of_inRange known] at same

/-- The effect of writing a buffer at an offset of a chain. -/
structure Written (v : Volume) (disk disk' : Bytes) (l l' : List ℕ) (offset : ℕ)
    (buffer : List UInt8) (count : ℕ) : Prop where
  grown : v.Grown disk disk' l l'
  positive : 0 < count
  atMost : count ≤ buffer.length
  room : offset + count ≤ l'.length * v.clusterSize
  written : ∀ position < l'.length * v.clusterSize, v.content disk' l' position =
    if offset ≤ position ∧ position < offset + count then buffer.getD (position - offset) 0
    else v.content disk l' position
  full : count < buffer.length → v.firstFree disk' = none
  kept : offset + buffer.length ≤ l.length * v.clusterSize →
    l' = l ∧ v.Frame disk disk' ∅ {x | x ∈ l}

/-- The cluster that one round of `WriteToClusterChain_` writes back. -/
def patched (v : Volume) (disk : Bytes) (cluster offset : ℕ) (buffer : List UInt8) : Bytes :=
  v.putData disk cluster ((v.data disk cluster).blit offset
    (min (v.clusterSize - offset) buffer.length) fun i => buffer.getD i 0)

section

variable (sound : v.Sound)
include sound

theorem Sound.frame_patched (known : v.InRange cluster) :
    v.Frame disk (v.patched disk cluster offset buffer) ∅ {cluster} := by
  unfold patched
  rw [← putBlock_of_inRange known]
  exact sound.frame_putBlock (.inr known)

theorem Sound.frame_patched_chain (chain : v.Chain disk cluster l) :
    v.Frame disk (v.patched disk cluster offset buffer) ∅ {x | x ∈ l} :=
  (sound.frame_patched (chain.inRange cluster chain.start_mem)).mono (Set.empty_subset _)
    (Set.singleton_subset_iff.mpr chain.start_mem)

/-- The data of a chain after one round. -/
theorem Sound.content_patched (known : v.InRange cluster) (later : ∀ x ∈ l, v.InRange x)
    (outside : cluster ∉ l) (inside : position < (cluster :: l).length * v.clusterSize) :
    v.content (v.patched disk cluster offset buffer) (cluster :: l) position =
      if offset ≤ position ∧ position < offset + min (v.clusterSize - offset) buffer.length then
        buffer.getD (position - offset) 0
      else v.content disk (cluster :: l) position := by
  by_cases here : position < v.clusterSize
  · rw [content_cons_of_lt here, content_cons_of_lt here]
    unfold patched
    rw [data_putData_self here]
    rfl
  · obtain ⟨rest, rfl⟩ := Nat.exists_eq_add_of_le (not_lt.mp here)
    rw [List.length_cons, Nat.add_mul, Nat.one_mul] at inside
    rw [sound.content_cons_add, sound.content_cons_add, if_neg (by omega)]
    refine sound.content_congr (fun x member i small => ?_) (by omega)
    refine (sound.frame_patched known).data_eq (later x member) ?_ small
    intro same
    exact outside (Set.mem_singleton_iff.mp same ▸ member)

/-- One round of the loop. -/
theorem Sound.run_writeLoop_succ (fuel : ℕ) (nonempty : buffer ≠ []) :
    (v.writeLoop (fuel + 1) cluster buffer offset).run disk =
      EStateM.run (do
        if buffer.drop (min (v.clusterSize - offset) buffer.length) = [] then
          return min (v.clusterSize - offset) buffer.length
        else
          match ← v.nextOrAllocate cluster with
          | none => return min (v.clusterSize - offset) buffer.length
          | some (next, _) =>
            return min (v.clusterSize - offset) buffer.length +
              (← v.writeLoop fuel next
                (buffer.drop (min (v.clusterSize - offset) buffer.length)) 0))
        (v.patched disk cluster offset buffer) := by
  rw [writeLoop, if_neg nonempty, run_bind (sound.run_readCluster disk cluster),
    run_bind (run_checkBuffer sound.clusterFits disk)]
  exact run_bind (run_writeCluster disk cluster _)

variable (chain : v.Chain disk cluster l) (inside : offset < v.clusterSize)
include chain inside

/-- A round that writes the whole rest of the buffer. -/
theorem Sound.written_patched (nonempty : buffer ≠ [])
    (last : buffer.length ≤ v.clusterSize - offset ∨
      l = [cluster] ∧ v.firstFree (v.patched disk cluster offset buffer) = none) :
    v.Written disk (v.patched disk cluster offset buffer) l l offset buffer
      (min (v.clusterSize - offset) buffer.length) := by
  have known := chain.inRange cluster chain.start_mem
  have frame : v.Frame disk (v.patched disk cluster offset buffer) ∅ {x | x ∈ l} :=
    sound.frame_patched_chain chain
  have length := List.length_pos_iff.mpr nonempty
  obtain ⟨rest, split⟩ := chain.exists_cons
  have single : v.clusterSize ≤ l.length * v.clusterSize := by
    rw [split]
    exact Nat.le_mul_of_pos_left _ (Nat.succ_pos _)
  refine ⟨Grown.of_frame frame fun _ => id, by omega, Nat.min_le_right _ _, by omega, ?_, ?_, ?_⟩
  · intro position small
    have apart : cluster ∉ rest := (List.nodup_cons.mp (split ▸ chain.nodup)).1
    have later : ∀ x ∈ rest, v.InRange x := fun x member =>
      chain.inRange x (split ▸ List.mem_cons_of_mem _ member)
    rw [split] at small ⊢
    exact sound.content_patched known later apart small
  · intro short
    rcases last with whole | ⟨-, full⟩
    · omega
    · exact full
  · exact fun _ => ⟨rfl, frame⟩

/-- A round followed by the rest of the loop on the next cluster. -/
theorem Sound.written_cons {next : ℕ} (more : v.clusterSize - offset < buffer.length)
    (tail : v.Chain disk' next m)
    (grown : v.Grown (v.patched disk cluster offset buffer) disk' l (cluster :: m))
    (frame : v.Frame (v.patched disk cluster offset buffer) disk' {x | x ∈ cluster :: m} ∅)
    (kept : l ≠ [cluster] → disk' = v.patched disk cluster offset buffer ∧ l = cluster :: m)
    (rest : v.Written disk' disk'' m m' 0 (buffer.drop (v.clusterSize - offset)) count) :
    v.Written disk disk'' l (cluster :: m') offset buffer (v.clusterSize - offset + count) := by
  have known := chain.inRange cluster chain.start_mem
  have first : v.Frame disk (v.patched disk cluster offset buffer) ∅ {x | x ∈ l} :=
    sound.frame_patched_chain chain
  have patchedChain := chain.frame first fun _ _ => id
  have middle := grown.links cluster patchedChain
  obtain ⟨others, split⟩ := tail.exists_cons
  have later : v.Grown disk' disk'' (next :: others) m' := split ▸ rest.grown
  have whole : v.Grown disk' disk'' (cluster :: m) (cluster :: m') := by
    rw [split]
    exact later.append_left [cluster]
  have apart : cluster ∉ m' :=
    later.not_mem_of_before (l := [cluster]) (split ▸ middle) List.mem_cons_self
  have ends := whole.links cluster middle
  have laterKnown : ∀ x ∈ m', v.InRange x := fun x member =>
    ends.inRange x (List.mem_cons_of_mem _ member)
  have size := rest.atMost
  rw [List.length_drop] at size
  have room := rest.room
  refine ⟨(Grown.of_frame first fun _ => id).trans (grown.trans whole), ?_, by omega, ?_, ?_, ?_,
    ?_⟩
  · have positive := rest.positive
    omega
  · rw [List.length_cons, Nat.add_mul]
    omega
  · intro position small
    by_cases here : position < v.clusterSize
    · have unchanged : v.content disk'' (cluster :: m') position =
          v.content (v.patched disk cluster offset buffer) (cluster :: m') position := by
        rw [content_cons_of_lt here, content_cons_of_lt here,
          rest.grown.frame.data_eq known apart here,
          frame.data_eq known (Set.notMem_empty _) here]
      rw [unchanged, sound.content_patched known laterKnown apart small,
        Nat.min_eq_left (Nat.le_of_lt more)]
      congr 1
      apply propext
      omega
    · obtain ⟨index, rfl⟩ := Nat.exists_eq_add_of_le (not_lt.mp here)
      rw [List.length_cons, Nat.add_mul, Nat.one_mul] at small
      have below : index < m'.length * v.clusterSize := by omega
      have untouched : v.content disk' m' index = v.content disk m' index := by
        refine sound.content_congr (fun x member i small => ?_) below
        rw [frame.data_eq (laterKnown x member) (Set.notMem_empty _) small]
        refine (sound.frame_patched known).data_eq (laterKnown x member) ?_ small
        intro same
        exact apart (Set.mem_singleton_iff.mp same ▸ member)
      rw [sound.content_cons_add, rest.written index below, sound.content_cons_add, untouched]
      by_cases early : index < count
      · rw [if_pos (by omega), if_pos (by omega), List.getD_eq_getElem?_getD,
          List.getD_eq_getElem?_getD, List.getElem?_drop]
        congr 2
        omega
      · rw [if_neg (by omega), if_neg (by omega)]
  · intro short
    apply rest.full
    rw [List.length_drop]
    omega
  · intro fits
    have long : l ≠ [cluster] := by
      intro only
      rw [only, List.length_singleton] at fits
      omega
    obtain ⟨same, shape⟩ := kept long
    rw [shape, List.length_cons, Nat.add_mul] at fits
    obtain ⟨equal, frameRest⟩ := rest.kept (by rw [List.length_drop]; omega)
    rw [same] at frameRest
    refine ⟨by rw [equal, shape], (first.trans frameRest).mono (by simp) ?_⟩
    rw [shape]
    refine Set.union_subset (fun _ => id) fun x member => List.mem_cons_of_mem _ member

/-- `WriteToClusterChain_` writes some bytes, and the whole buffer unless the volume is full. -/
theorem Sound.run_writeLoop (fits : v.Fits) (fuel : ℕ) (nonempty : buffer ≠ [])
    (enough : buffer.length < fuel) :
    ∃ count disk' l', (v.writeLoop fuel cluster buffer offset).run disk = .ok count disk' ∧
      v.Written disk disk' l l' offset buffer count := by
  induction fuel generalizing disk cluster l buffer offset with
  | zero => omega
  | succ fuel ih =>
    rw [sound.run_writeLoop_succ fuel nonempty]
    by_cases whole : buffer.length ≤ v.clusterSize - offset
    · rw [if_pos (by rw [Nat.min_eq_right whole]; exact List.drop_length)]
      exact ⟨_, _, l, rfl, sound.written_patched chain inside nonempty (.inl whole)⟩
    · have size := Nat.min_eq_left (Nat.le_of_lt (not_le.mp whole))
      have more : buffer.drop (v.clusterSize - offset) ≠ [] := by
        rw [Ne, List.drop_eq_nil_iff]
        exact whole
      have patchedChain : v.Chain (v.patched disk cluster offset buffer) cluster l :=
        chain.frame (sound.frame_patched_chain chain) fun _ _ => id
      rw [if_neg (by rw [size]; exact more)]
      rcases sound.run_nextOrAllocate_of_chain fits patchedChain with
        ⟨run, only, full⟩ | ⟨next, fresh, middle, rest, run, tail, grown, frame, kept⟩
      · rw [run_bind run]
        exact ⟨_, _, l, rfl, sound.written_patched chain inside nonempty (.inr ⟨only, full⟩)⟩
      · obtain ⟨count, disk', rest', onward, written⟩ :=
          ih tail sound.clusterSize_pos more (by rw [List.length_drop]; omega)
        rw [run_bind run]
        rw [← size] at onward
        refine ⟨_, disk', cluster :: rest', run_bind onward, ?_⟩
        rw [size]
        exact sound.written_cons chain inside (not_le.mp whole) tail grown frame kept written

theorem Sound.run_writeToClusterChain (fits : v.Fits) (nonempty : buffer ≠ []) :
    ∃ count disk' l',
      (v.writeToClusterChain cluster buffer offset).run disk = .ok count disk' ∧
      v.Written disk disk' l l' offset buffer count :=
  sound.run_writeLoop chain inside fits _ nonempty (Nat.lt_succ_self _)

end

/-- The cluster of the given index starts the rest of the chain. -/
theorem Chain.drop_of_lt (chain : v.Chain disk cluster l) (inside : count < l.length) :
    v.Chain disk (l.getD count 0) (l.drop count) := by
  rw [List.getD_eq_getElem _ _ inside]
  rw [← List.take_append_drop count l, List.drop_eq_getElem_cons inside] at chain
  rw [List.drop_eq_getElem_cons inside]
  exact chain.drop

theorem Sound.content_drop (sound : v.Sound) :
    v.content disk (l.drop count) position =
      v.content disk l (count * v.clusterSize + position) := by
  unfold content
  rw [Nat.mul_comm, Nat.mul_add_div sound.clusterSize_pos, Nat.mul_add_mod,
    List.getD_eq_getElem?_getD, List.getD_eq_getElem?_getD, List.getElem?_drop]

/-- `SkipClusters_` returns the cluster of the given index. -/
theorem Sound.skipClusters_eq (sound : v.Sound) (chain : v.Chain disk cluster l)
    (inside : count < l.length) : v.skipClusters disk count cluster = .ok (l.getD count 0) := by
  induction count generalizing cluster l with
  | zero =>
    obtain ⟨rest, rfl⟩ := chain.exists_cons
    rfl
  | succ count ih =>
    obtain ⟨rest, rfl⟩ := chain.exists_cons
    rcases chain.next with ⟨rfl, -⟩ | ⟨-, tail⟩
    · exact absurd (Nat.lt_of_succ_lt_succ inside) (Nat.not_lt_zero _)
    · rw [skipClusters, if_pos (chain.lt_kEOC chain.start_mem),
        getFATEntry_of_passes (chain.passes sound)]
      exact ih tail (Nat.lt_of_succ_lt_succ inside)

/-- The bytes of a range of a chain's data. -/
def range (v : Volume) (disk : Bytes) (l : List ℕ) (offset size : ℕ) : List UInt8 :=
  (List.range' offset size).map (v.content disk l)

theorem range_add (first second : ℕ) :
    v.range disk l offset (first + second) =
      v.range disk l offset first ++ v.range disk l (offset + first) second := by
  unfold range
  rw [← List.map_append, List.range'_append_1]

theorem range_congr {start size : ℕ}
    (same : ∀ i, v.content disk l (offset + i) = v.content disk l' (start + i)) :
    v.range disk l offset size = v.range disk l' start size := by
  unfold range
  rw [List.range'_eq_map_range, List.range'_eq_map_range, List.map_map, List.map_map]
  exact List.map_congr_left fun i _ => same i

theorem range_cons_of_le {size : ℕ} (inside : offset + size ≤ v.clusterSize) :
    v.range disk (cluster :: l) offset size =
      (List.range size).map fun i => v.data disk cluster (offset + i) := by
  unfold range
  rw [List.range'_eq_map_range, List.map_map]
  refine List.map_congr_left fun i member => ?_
  have small := List.mem_range.mp member
  have below : offset + i < v.clusterSize := by omega
  exact content_cons_of_lt below

theorem Sound.range_cons_add (sound : v.Sound) (size : ℕ) :
    v.range disk (cluster :: l) v.clusterSize size = v.range disk l 0 size :=
  range_congr fun i => by rw [sound.content_cons_add, Nat.zero_add]

/-- The loop of `ReadFileData_` returns the bytes of a range inside the chain. -/
theorem Sound.readLoop_eq (sound : v.Sound) (fuel : ℕ) (chain : v.Chain disk cluster l)
    (inside : offset < v.clusterSize) (enough : remaining < fuel)
    (room : offset + remaining ≤ l.length * v.clusterSize) :
    v.readLoop disk fuel cluster remaining offset = .ok (v.range disk l offset remaining) := by
  induction fuel generalizing cluster l remaining offset with
  | zero => omega
  | succ fuel ih =>
    obtain ⟨rest, rfl⟩ := chain.exists_cons
    rw [readLoop]
    by_cases done : remaining = 0
    · rw [done]
      rfl
    · rw [if_pos ⟨Nat.pos_of_ne_zero done, chain.lt_kEOC chain.start_mem⟩,
        sound.readCluster_eq disk cluster, getFATEntry_of_passes (chain.passes sound)]
      have copied : v.range disk (cluster :: rest) offset (min (v.clusterSize - offset) remaining) =
          (List.range (min (v.clusterSize - offset) remaining)).map fun i =>
            v.data disk cluster (offset + i) := range_cons_of_le (by omega)
      suffices onward : v.readLoop disk fuel (v.entry disk cluster)
          (remaining - min (v.clusterSize - offset) remaining) 0 =
            .ok (v.range disk (cluster :: rest) (offset + min (v.clusterSize - offset) remaining)
              (remaining - min (v.clusterSize - offset) remaining)) by
        change (do
          return (List.range (min (v.clusterSize - offset) remaining)).map
              (fun i => v.data disk cluster (offset + i)) ++
            (← v.readLoop disk fuel (v.entry disk cluster)
              (remaining - min (v.clusterSize - offset) remaining) 0)) = _
        rw [onward, ← copied]
        change Except.ok _ = _
        rw [← range_add, Nat.add_sub_cancel' (Nat.min_le_right _ _)]
      by_cases last : remaining ≤ v.clusterSize - offset
      · rw [Nat.min_eq_right last, Nat.sub_self]
        cases fuel with
        | zero => omega
        | succ fuel =>
          rfl
      · have short := Nat.min_eq_left (Nat.le_of_lt (not_le.mp last))
        rw [List.length_cons, Nat.add_mul] at room
        rw [short, Nat.add_sub_cancel' (Nat.le_of_lt inside), sound.range_cons_add]
        rcases chain.next with ⟨rfl, -⟩ | ⟨-, tail⟩
        · rw [List.length_nil] at room
          omega
        · exact ih tail sound.clusterSize_pos (by omega) (by omega)

/-- `ReadFileData_` returns the bytes of a range, up to the size of the file. -/
theorem Sound.readFileData_eq (sound : v.Sound) {entry : DirectoryEntry}
    (chain : v.Chain disk (v.firstCluster entry) l)
    (room : entry.fileSize.toNat ≤ l.length * v.clusterSize) (size : ℕ)
    (inside : offset < entry.fileSize.toNat) :
    v.readFileData disk entry size offset =
      .ok (v.range disk l offset (min size (entry.fileSize.toNat - offset))) := by
  have index : offset / v.clusterSize < l.length := by
    rw [Nat.div_lt_iff_lt_mul sound.clusterSize_pos]
    omega
  have split := Nat.div_add_mod offset v.clusterSize
  rw [Nat.mul_comm] at split
  unfold readFileData
  rw [sound.skipClusters_eq chain index]
  change v.readLoop disk _ _ _ _ = _
  rw [sound.readLoop_eq _ (chain.drop_of_lt index) (Nat.mod_lt _ sound.clusterSize_pos)
    (Nat.lt_succ_self _) ?_]
  · rw [range_congr fun i => ?_]
    rw [sound.content_drop, ← Nat.add_assoc, split]
  · rw [List.length_drop, Nat.sub_mul]
    omega

theorem run_freeChainLoop_of_end (ends : cluster = 0 ∨ v.kEOC ≤ cluster) (fuel : ℕ) :
    (v.freeChainLoop (fuel + 1) cluster).run disk = .ok () disk := by
  rw [freeChainLoop, if_neg (by omega)]
  rfl

/-- The loop of `FreeClusterChain_` clears the entries of a chain. -/
theorem Sound.run_freeChainLoop (sound : v.Sound) (fuel : ℕ) (chain : v.Chain disk cluster l)
    (enough : l.length < fuel) :
    ∃ disk', (v.freeChainLoop fuel cluster).run disk = .ok () disk' ∧
      v.Frame disk disk' {x | x ∈ l} ∅ ∧ ∀ x ∈ l, v.entry disk' x = 0 := by
  induction fuel generalizing disk cluster l with
  | zero => omega
  | succ fuel ih =>
    have known := chain.inRange cluster chain.start_mem
    have positive : (2 : ℕ) ≤ cluster := known.1
    have first : v.Frame disk (v.putEntry disk cluster 0) {cluster} ∅ :=
      sound.frame_putEntry known.2
    have cleared : v.entry (v.putEntry disk cluster 0) cluster = 0 := by
      rw [entry_putEntry_self, Nat.zero_mod]
    rw [freeChainLoop, if_pos ⟨by omega, chain.lt_kEOC chain.start_mem⟩,
      run_bind (run_getFATEntry_of_passes (chain.passes sound) disk),
      run_bind (run_setFATEntry_of_passes (chain.passes sound) disk 0)]
    obtain ⟨rest, rfl⟩ := chain.exists_cons
    rcases chain.next with ⟨rfl, ends⟩ | ⟨going, tail⟩
    · cases fuel with
      | zero => exact absurd enough (Nat.lt_irrefl _)
      | succ fuel =>
        exact ⟨_, run_freeChainLoop_of_end (.inr ends) fuel,
          first.mono (by simp) (Set.empty_subset _), List.forall_mem_singleton.mpr cleared⟩
    · have apart : cluster ∉ rest := (List.nodup_cons.mp chain.nodup).1
      have kept : v.Chain (v.putEntry disk cluster 0) (v.entry disk cluster) rest :=
        tail.frame first fun x member same => apart (Set.mem_singleton_iff.mp same ▸ member)
      obtain ⟨disk', run, frame, free⟩ := ih kept (Nat.lt_of_succ_lt_succ enough)
      refine ⟨disk', run, ?_, ?_⟩
      · refine (first.trans frame).mono (Set.union_subset (by simp) ?_) (by simp)
        exact fun x member => List.mem_cons_of_mem _ member
      · refine List.forall_mem_cons.mpr ⟨?_, free⟩
        rw [frame.entry cluster known.2 apart, cleared]

/-- `FreeClusterChain_` frees the clusters of a chain. -/
theorem Sound.run_freeClusterChain (sound : v.Sound) (chain : v.Chain disk cluster l) :
    ∃ disk', (v.freeClusterChain cluster).run disk = .ok () disk' ∧
      v.Frame disk disk' {x | x ∈ l} ∅ ∧ ∀ x ∈ l, v.entry disk' x = 0 := by
  exact sound.run_freeChainLoop _ chain (Nat.lt_succ_of_le chain.length_le_kEOC)

end AlkOS.Fat.Volume
