import SoupDB.Algorithms.RecordFile
import SoupDB.Indexes.KeyCodec
import SoupDB.Lib.Partition

/-!
# SoupDB: external hashing for GROUP BY and hash JOIN

Records are cut into partitions by the hash of their key, the level being the salt, until a
partition fits the memory limit or the maximum depth is reached; then they are grouped, or
joined, with a dictionary.  The hash is any function.  The name of a partition file contains
that of the file it is cut from, and the file system takes names of at most `NAME_MAX` bytes.

Main facts: `external_hash_join_ok`, the join gives the pairs of the nested loop, and
`external_hash_group_by_ok`, the groups are the keys with the fold of their records.
-/

namespace SoupDB.ExternalHash

open Value RecordFile List

open KeyCodec (encodeKey)

abbrev Key := Value

/-- What both algorithms are given: the limits, and the hash. -/
structure Parameters where
  memoryLimitBytes : Int
  partitionCount : Int
  maxPartitionDepth : Int
  /-- The digest of a byte string. -/
  blake2b : Bytes → Bytes

def validateParameters (p : Parameters) : Except PyError Unit :=
  if p.memoryLimitBytes ≤ 0 then
    .error (.ValueError "memory_limit_bytes must be positive")
  else if p.partitionCount < 2 then
    .error (.ValueError "partition_count must be at least 2")
  else if p.maxPartitionDepth < 0 then
    .error (.ValueError "max_partition_depth must be non-negative")
  else .ok ()

namespace Parameters

/-- The limits, once they are validated. -/
def limit (p : Parameters) : Nat := p.memoryLimitBytes.toNat

def count (p : Parameters) : Nat := p.partitionCount.toNat

def maxDepth (p : Parameters) : Nat := p.maxPartitionDepth.toNat

end Parameters

/-- `level.to_bytes(4, "little")`. -/
def salt (level : Nat) : Except PyError Bytes :=
  if level < 2 ^ 32 then .ok (Pack.packLE 4 level)
  else .error (.OverflowError "int too big to convert")

variable (p : Parameters)

def partitionIndex (key : Key) (level : Nat) : Except PyError Nat := do
  let encoded ← encodeKey key
  let salt ← salt level
  .ok (Pack.unpackLE (p.blake2b (encoded ++ salt)) % p.count)

/-- Each record goes to the end of the file of its partition. -/
def partitionFrom (keyFn : Record → Except PyError Key) (level : Nat) :
    List Record → List Bytes → Except PyError (List Bytes)
  | [], files => .ok files
  | record :: records, files => do
      let key ← keyFn record
      let partition ← partitionIndex p key level
      let bytes ← writeRecord "external-hash" record
      partitionFrom keyFn level records (files.modify partition (fun file => file ++ bytes))

/-- A partition file: its name without the suffix, and its bytes. -/
structure PartitionFile where
  stem : String
  bytes : Bytes

/-- The longest name of a file, in bytes. -/
def NAME_MAX : Nat := 255

/-- `path.open("wb")` of the file with this stem. -/
def openFile (stem : String) : Except PyError Unit :=
  if (stem ++ ".bin").utf8ByteSize ≤ NAME_MAX then .ok ()
  else .error (.OSError "File name too long")

/-- `f"{prefix}-level-{level}-partition-{index}"`. -/
def partitionStem (start : String) (level index : Nat) : String :=
  start ++ "-level-" ++ level.repr ++ "-partition-" ++ index.repr

/-- The prefix of the files cut from a file, `f"group-{level}-{path.stem}"` for a group. -/
def childStart (kind : String) (level : Nat) (stem : String) : String :=
  kind ++ "-" ++ level.repr ++ "-" ++ stem

/-- The files of the partitions, all opened before the first record is read. -/
def partitionRecords (keyFn : Record → Except PyError Key) (start : String) (level : Nat)
    (records : List Record) : Except PyError (List PartitionFile) := do
  let stems := (range p.count).map (partitionStem start level)
  let _ ← stems.mapM openFile
  let files ← partitionFrom p keyFn level records (replicate p.count [])
  .ok (zipWith PartitionFile.mk stems files)

/-! ## Groups -/

/-- `groups[key] = aggregate_step(groups.get(key), record)` for each record. -/
def groupRecords {σ : Type} (keyFn : Record → Except PyError Key)
    (aggregateStep : Option σ → Record → Except PyError σ) :
    List Record → List (Key × σ) → Except PyError (List (Key × σ))
  | [], groups => .ok groups
  | record :: records, groups => do
      let key ← keyFn record
      let state ← aggregateStep (getGroup eq key groups) record
      groupRecords keyFn aggregateStep records (setGroup eq key state groups)

def groupPartition {σ : Type} (keyFn : Record → Except PyError Key)
    (aggregateStep : Option σ → Record → Except PyError σ) (level : Nat) (file : PartitionFile) :
    Except PyError (List (Key × σ)) :=
  if _h : file.bytes.length > p.limit ∧ level ≤ p.maxDepth then do
    let records ← readRecords "external-hash" file.bytes
    let children ← partitionRecords p keyFn (childStart "group" level file.stem) level records
    concatM (fun child => groupPartition keyFn aggregateStep (level + 1) child) children
  else do
    let records ← readRecords "external-hash" file.bytes
    groupRecords keyFn aggregateStep records []
termination_by p.maxDepth + 1 - level

/-- Group records using disk-backed hash partitioning. -/
def externalHashGroupBy {σ : Type} (records : List Record)
    (keyFn : Record → Except PyError Key)
    (aggregateStep : Option σ → Record → Except PyError σ) :
    Except PyError (List (Key × σ)) := do
  validateParameters p
  let partitions ← partitionRecords p keyFn "group" 0 records
  concatM (fun file => groupPartition p keyFn aggregateStep 1 file) partitions

/-! ## Joins -/

/-- `table.setdefault(key, []).append(record)`. -/
def appendRecord (matches_ : Option (List Record)) (record : Record) :
    Except PyError (List Record) :=
  .ok (matches_.getD [] ++ [record])

/-- Each probed record with the records of the table that have its key. -/
def probe (probeKeyFn : Record → Except PyError Key) (pair : Record → Record → Record × Record)
    (table : List (Key × List Record)) (records : List Record) :
    Except PyError (List (Record × Record)) :=
  concatM (fun probeRecord => do
    let key ← probeKeyFn probeRecord
    let found := (getGroup eq key table).getD []
    .ok (found.map (fun buildRecord => pair buildRecord probeRecord))) records

/-- The records of the build side, cut into chunks, with those of the probe side. -/
def joinChunks (buildKeyFn probeKeyFn : Record → Except PyError Key)
    (pair : Record → Record → Record × Record) (chunks : List (List Record)) (probed : Bytes) :
    Except PyError (List (Record × Record)) :=
  concatM (fun chunk => do
    let table ← groupRecords buildKeyFn appendRecord chunk []
    let records ← readRecords "external-hash" probed
    probe probeKeyFn pair table records) chunks

/-- The smaller file is the build side; its records are cut by `chunks`. -/
def joinFiles (chunks : List Record → List (List Record))
    (leftKeyFn rightKeyFn : Record → Except PyError Key) (leftFile rightFile : Bytes) :
    Except PyError (List (Record × Record)) :=
  if leftFile.length ≤ rightFile.length then do
    let records ← readRecords "external-hash" leftFile
    joinChunks leftKeyFn rightKeyFn (fun l r => (l, r)) (chunks records) rightFile
  else do
    let records ← readRecords "external-hash" rightFile
    joinChunks rightKeyFn leftKeyFn (fun r l => (l, r)) (chunks records) leftFile

/-- One table for the whole build side. -/
def inMemoryJoin (leftKeyFn rightKeyFn : Record → Except PyError Key)
    (leftFile rightFile : Bytes) : Except PyError (List (Record × Record)) :=
  joinFiles (fun records => [records]) leftKeyFn rightKeyFn leftFile rightFile

/-- One table for each chunk of the build side. -/
def blockHashJoin (leftKeyFn rightKeyFn : Record → Except PyError Key)
    (leftFile rightFile : Bytes) : Except PyError (List (Record × Record)) :=
  joinFiles (recordChunks p.limit) leftKeyFn rightKeyFn leftFile rightFile

def joinPartition (leftKeyFn rightKeyFn : Record → Except PyError Key) (level : Nat)
    (left right : PartitionFile) : Except PyError (List (Record × Record)) :=
  if left.bytes.length = 0 ∨ right.bytes.length = 0 then .ok []
  else if min left.bytes.length right.bytes.length ≤ p.limit then
    inMemoryJoin leftKeyFn rightKeyFn left.bytes right.bytes
  else if _h : level ≤ p.maxDepth then do
    let leftRecords ← readRecords "external-hash" left.bytes
    let leftChildren ←
      partitionRecords p leftKeyFn (childStart "left" level left.stem) level leftRecords
    let rightRecords ← readRecords "external-hash" right.bytes
    let rightChildren ←
      partitionRecords p rightKeyFn (childStart "right" level right.stem) level rightRecords
    concatM (fun children =>
      joinPartition leftKeyFn rightKeyFn (level + 1) children.1 children.2)
      (leftChildren.zip rightChildren)
  else blockHashJoin p leftKeyFn rightKeyFn left.bytes right.bytes
termination_by p.maxDepth + 1 - level

/-- Perform an equality join using external hash partitioning. -/
def externalHashJoin (leftRecords rightRecords : List Record)
    (leftKeyFn rightKeyFn : Record → Except PyError Key) :
    Except PyError (List (Record × Record)) := do
  validateParameters p
  let leftPartitions ← partitionRecords p leftKeyFn "join-left" 0 leftRecords
  let rightPartitions ← partitionRecords p rightKeyFn "join-right" 0 rightRecords
  concatM (fun files => joinPartition p leftKeyFn rightKeyFn 1 files.1 files.2)
    (leftPartitions.zip rightPartitions)

/-! ## Partitions hold the buckets -/

/-- The keys of the records, which can be encoded; and the records have a length that fits. -/
structure Keyed (keyFn : Record → Except PyError Key) (key : Record → Key)
    (records : List Record) : Prop where
  returns : ∀ record ∈ records, keyFn record = .ok (key record)
  encodes : ∀ record ∈ records, ∃ bytes, encodeKey (key record) = .ok bytes
  sized : ∀ record ∈ records, Sized record

theorem sameKey : SameKey eq where
  symm := eq_swap _ _
  trans := eq_trans

/-- The partition of a key that can be encoded. -/
def slot (level : Nat) (key : Key) : Nat :=
  match encodeKey key with
  | .ok encoded => Pack.unpackLE (p.blake2b (encoded ++ Pack.packLE 4 level)) % p.count
  | .error _ => 0

variable {p} {keyFn : Record → Except PyError Key} {key : Record → Key} {records : List Record}
  {level : Nat}

theorem partition_index_ok {k : Key} {bytes : Bytes} (hencode : encodeKey k = .ok bytes)
    (hlevel : level < 2 ^ 32) : partitionIndex p k level = .ok (slot p level k) := by
  rw [partitionIndex, slot, hencode, ok_bind, salt, if_pos hlevel]
  rfl

theorem slot_lt (hcount : 0 < p.count) (level : Nat) (k : Key) : slot p level k < p.count := by
  rw [slot]
  split
  · exact Nat.mod_lt _ hcount
  · exact hcount

namespace Keyed

theorem mono {others : List Record} (h : Keyed keyFn key records)
    (hsub : ∀ record ∈ others, record ∈ records) : Keyed keyFn key others where
  returns := fun record hrecord => h.returns record (hsub record hrecord)
  encodes := fun record hrecord => h.encodes record (hsub record hrecord)
  sized := fun record hrecord => h.sized record (hsub record hrecord)

theorem bucket (h : Keyed keyFn key records) (index : Record → Nat) (i : Nat) :
    Keyed keyFn key (SoupDB.bucket index i records) :=
  h.mono (fun _ hrecord => (mem_filter.mp hrecord).1)

/-- A key that can be encoded is `==` to itself. -/
theorem eq_self (h : Keyed keyFn key records) :
    ∀ record ∈ records, eq (key record) (key record) = true := by
  intro record hrecord
  obtain ⟨bytes, hbytes⟩ := h.encodes record hrecord
  exact KeyCodec.eq_self_of_encode_key hbytes

end Keyed

theorem slot_same {leftKeyFn rightKeyFn : Record → Except PyError Key}
    {leftKey rightKey : Record → Key} {ls rs : List Record}
    (hl : Keyed leftKeyFn leftKey ls) (hr : Keyed rightKeyFn rightKey rs) (level : Nat) :
    ∀ l ∈ ls, ∀ r ∈ rs, eq (leftKey l) (rightKey r) = true →
      slot p level (leftKey l) = slot p level (rightKey r) := by
  intro l hmem r hmem' hsame
  obtain ⟨bytes, hbytes⟩ := hl.encodes l hmem
  obtain ⟨bytes', hbytes'⟩ := hr.encodes r hmem'
  rw [KeyCodec.eq_of_encode_key hsame hbytes hbytes']

def bucketBytes (p : Parameters) (key : Record → Key) (level : Nat) (records : List Record) :
    List Bytes :=
  (range p.count).map (fun i => frames (bucket (fun r => slot p level (key r)) i records))

def bucketFiles (p : Parameters) (key : Record → Key) (start : String) (level : Nat)
    (records : List Record) : List PartitionFile :=
  (range p.count).map (fun i =>
    ⟨partitionStem start level i, frames (bucket (fun r => slot p level (key r)) i records)⟩)

theorem modify_bucketBytes (done : List Record) {record : Record} :
    (bucketBytes p key level done).modify (slot p level (key record))
        (fun file => file ++ frames [record]) =
      bucketBytes p key level (done ++ [record]) := by
  refine ext_getElem ?_ ?_
  · simp [bucketBytes]
  · intro i hi _
    have hbucket : bucket (fun r => slot p level (key r)) i (done ++ [record]) =
        bucket (fun r => slot p level (key r)) i done ++
          if slot p level (key record) = i then [record] else [] := by
      unfold bucket
      rw [filter_append, filter_cons, filter_nil]
      simp only [decide_eq_true_eq]
    simp only [bucketBytes, getElem_modify, getElem_map, getElem_range, hbucket]
    by_cases heq : slot p level (key record) = i
    · rw [if_pos heq, if_pos heq, frames_append]
    · rw [if_neg heq, if_neg heq, append_nil]

theorem partitionFrom_ok (hlevel : level < 2 ^ 32)
    (h : Keyed keyFn key records) :
    ∀ done, partitionFrom p keyFn level records (bucketBytes p key level done) =
      .ok (bucketBytes p key level (done ++ records)) := by
  induction records with
  | nil =>
      intro done
      rw [append_nil]
      rfl
  | cons record records ih =>
      intro done
      obtain ⟨bytes, hencode⟩ := h.encodes record (by simp)
      have hrest : Keyed keyFn key records := h.mono (fun r hr => mem_cons_of_mem record hr)
      rw [partitionFrom, h.returns record (by simp), ok_bind, partition_index_ok hencode hlevel,
        ok_bind, write_record_ok (h.sized record (by simp)), ok_bind,
        modify_bucketBytes done, ih hrest (done ++ [record]),
        append_assoc]
      rfl

/-- A file with this stem can be opened. -/
def Fits (stem : String) : Prop := (stem ++ ".bin").utf8ByteSize ≤ NAME_MAX

theorem partition_records_ok {start : String} (hlevel : level < 2 ^ 32)
    (hfits : ∀ i < p.count, Fits (partitionStem start level i)) (h : Keyed keyFn key records) :
    partitionRecords p keyFn start level records = .ok (bucketFiles p key start level records) := by
  have hempty : replicate p.count ([] : Bytes) = bucketBytes p key level [] := by
    refine ext_getElem ?_ ?_
    · simp [bucketBytes]
    · intro i hi _
      simp [bucketBytes, bucket, frames]
  have hopen : ((range p.count).map (partitionStem start level)).mapM openFile =
      .ok (((range p.count).map (partitionStem start level)).map (fun _ => ())) := by
    refine mapM_ok (fun stem hstem => ?_)
    obtain ⟨i, hi, rfl⟩ := mem_map.mp hstem
    exact if_pos (hfits i (mem_range.mp hi))
  rw [partitionRecords, hopen, ok_bind, hempty, partitionFrom_ok hlevel h [], ok_bind,
    nil_append, bucketBytes, zipWith_map, zipWith_self, bucketFiles]

/-! ## The names of the files -/

/-- The prefix of the files cut from the file that these indices lead to, the last one
first. -/
def startOf (root kind : String) : List Nat → String
  | [] => root
  | index :: path =>
      childStart kind (path.length + 1)
        (partitionStem (startOf root kind path) path.length index)

/-- The files of every level up to the maximum depth can be opened. -/
def Opened (p : Parameters) (root kind : String) : Prop :=
  ∀ path : List Nat, path.length ≤ p.maxDepth → (∀ i ∈ path, i < p.count) →
    ∀ i < p.count, Fits (partitionStem (startOf root kind path) path.length i)

section Names

variable {root kind : String} {path : List Nat}

theorem size_digit {n : Nat} (h : n < 10) : n.repr.utf8ByteSize = 1 := by
  have hall : ∀ n < 10, n.repr.utf8ByteSize = 1 := by
    decide +kernel
  exact hall n h

variable {index : Nat}

/-- The bytes of a name, with levels and indices of one digit. -/
theorem size_partitionStem {start : String} (hlevel : level < 10) (hindex : index < 10) :
    (partitionStem start level index).utf8ByteSize = start.utf8ByteSize + 20 := by
  have hconst : "-level-".utf8ByteSize = 7 ∧ "-partition-".utf8ByteSize = 11 := by
    decide +kernel
  simp only [partitionStem, String.utf8ByteSize_append, size_digit hlevel, size_digit hindex]
  omega

/-- Each level adds the name of its kind and 23 bytes. -/
theorem size_startOf (hlength : path.length < 10) (hpath : ∀ i ∈ path, i < 10) :
    (startOf root kind path).utf8ByteSize =
      root.utf8ByteSize + path.length * (kind.utf8ByteSize + 23) := by
  have hdash : "-".utf8ByteSize = 1 := by
    decide +kernel
  induction path with
  | nil => simp [startOf]
  | cons index path ih =>
      rw [length_cons] at hlength
      have hrest := ih (by omega) (fun i hi => hpath i (mem_cons_of_mem index hi))
      simp only [startOf, childStart, String.utf8ByteSize_append, length_cons,
        size_partitionStem (show path.length < 10 by omega) (hpath index mem_cons_self),
        size_digit hlength, hrest, hdash, Nat.add_mul]
      omega

/-- Where levels and indices have one digit, the names of one level fit together. -/
theorem fits_iff {index : Nat} (hlength : path.length < 10) (hpath : ∀ i ∈ path, i < 10)
    (hindex : index < 10) : Fits (partitionStem (startOf root kind path) path.length index) ↔
      root.utf8ByteSize + path.length * (kind.utf8ByteSize + 23) + 24 ≤ NAME_MAX := by
  have hsuffix : ".bin".utf8ByteSize = 4 := by
    decide +kernel
  rw [Fits, String.utf8ByteSize_append, size_partitionStem hlength hindex,
    size_startOf hlength hpath, hsuffix]

/-- With up to ten partitions the names of a few levels fit. -/
theorem opened_of_depth (hcount : p.count ≤ 10) (hdepth : p.maxDepth < 10)
    (hsize : root.utf8ByteSize + p.maxDepth * (kind.utf8ByteSize + 23) + 24 ≤ NAME_MAX) :
    Opened p root kind := by
  intro path hlength hpath i hi
  have hle := Nat.mul_le_mul_right (kind.utf8ByteSize + 23) hlength
  rw [fits_iff (by omega) (fun i hi => (hpath i hi).trans_le hcount) (hi.trans_le hcount)]
  omega

theorem length_le_size : path.length ≤ (startOf root kind path).utf8ByteSize := by
  have hdash : "-".utf8ByteSize = 1 := by
    decide +kernel
  induction path with
  | nil => exact Nat.zero_le _
  | cons index path ih =>
      simp only [startOf, childStart, partitionStem, String.utf8ByteSize_append, length_cons,
        hdash]
      omega

/-- A salt has bytes for every level whose files can be opened. -/
theorem Opened.depth_lt (h : Opened p root kind) (hcount : 0 < p.count) : p.maxDepth < 2 ^ 32 := by
  have hfits := h (replicate p.maxDepth 0) (by simp) (by simp; omega) 0 hcount
  have hlength : (replicate p.maxDepth 0).length ≤
      (startOf root kind (replicate p.maxDepth 0)).utf8ByteSize := length_le_size
  simp only [Fits, partitionStem, String.utf8ByteSize_append, NAME_MAX] at hfits
  rw [length_replicate] at hlength
  omega

/-- The file that the indices lead to, with some records. -/
def fileOf (root kind : String) (index : Nat) (path : List Nat) (records : List Record) :
    PartitionFile :=
  ⟨partitionStem (startOf root kind path) path.length index, frames records⟩

theorem read_file (h : Keyed keyFn key records) :
    readRecords "external-hash" (fileOf root kind index path records).bytes = .ok records :=
  read_records_frames h.sized

theorem children_ok {whole : List Record} (hcount : 0 < p.count) (hopened : Opened p root kind)
    (hlevel : path.length + 1 ≤ p.maxDepth) (hpath : ∀ i ∈ index :: path, i < p.count)
    (h : Keyed keyFn key records) :
    partitionRecords p keyFn
        (childStart kind (path.length + 1) (fileOf root kind index path whole).stem)
        (path.length + 1) records =
      .ok (bucketFiles p key (startOf root kind (index :: path)) (path.length + 1) records) := by
  have hdepth := hopened.depth_lt hcount
  exact partition_records_ok (by omega) (hopened (index :: path) hlevel hpath) h

end Names

/-! ## Groups -/

section Groups

variable {σ : Type} {aggregateStep : Option σ → Record → Except PyError σ}

theorem group_records_groups (hreturns : ∀ record ∈ records, keyFn record = .ok (key record))
    (hself : ∀ record ∈ records, eq (key record) (key record) = true) :
    ∀ {done : List Record} {groups : List (Key × σ)},
      Grouped eq key aggregateStep done groups →
        Groups eq key aggregateStep (done ++ records)
          (groupRecords keyFn aggregateStep records groups) := by
  induction records with
  | nil =>
      intro done groups hgrouped
      rw [append_nil]
      exact Or.inl ⟨groups, rfl, hgrouped⟩
  | cons record records ih =>
      intro done groups hgrouped
      have hassoc : done ++ record :: records = done ++ [record] ++ records := by
        rw [append_assoc]
        rfl
      rw [groupRecords, hreturns record (by simp), ok_bind]
      cases hstep : aggregateStep (getGroup eq (key record) groups) record with
      | ok state =>
          rw [ok_bind, hassoc]
          exact ih (fun r hr => hreturns r (mem_cons_of_mem record hr))
            (fun r hr => hself r (mem_cons_of_mem record hr))
            (hgrouped.set sameKey (hself record (by simp)) hstep)
      | error e =>
          right
          refine ⟨e, rfl, record, by simp, ?_⟩
          unfold withKey
          rw [filter_append, filter_cons, if_pos (hself record (by simp)),
            foldGroup_append]
          have hget := hgrouped.get sameKey (key record)
          unfold withKey at hget
          rw [hget, ok_bind, foldGroup, hstep]
          rfl

theorem group_partition_groups (hcount : 0 < p.count) (hopened : Opened p "group" "group") :
    ∀ (rounds index : Nat) (path : List Nat), p.maxDepth - path.length ≤ rounds →
      (∀ i ∈ index :: path, i < p.count) →
        ∀ {records : List Record}, Keyed keyFn key records →
          Groups eq key aggregateStep records
            (groupPartition p keyFn aggregateStep (path.length + 1)
              (fileOf "group" "group" index path records)) := by
  intro rounds
  induction rounds with
  | zero =>
      intro index path hrounds _ records h
      rw [groupPartition, dif_neg (by omega), read_file h, ok_bind]
      exact group_records_groups h.returns h.eq_self Grouped.nil
  | succ rounds ih =>
      intro index path hrounds hpath records h
      rw [groupPartition]
      split
      · next hsplit =>
          rw [read_file h, ok_bind, children_ok hcount hopened hsplit.2 hpath h, ok_bind,
            bucketFiles,
            concatM_map]
          refine groups_buckets sameKey h.eq_self (fun r _ => slot_lt hcount (path.length + 1) _)
            (slot_same h h (path.length + 1)) (fun i hi => ?_)
          exact ih i (index :: path) (by rw [length_cons]; omega)
            (forall_mem_cons.mpr ⟨hi, hpath⟩) (h.bucket _ i)
      · rw [read_file h, ok_bind]
        exact group_records_groups h.returns h.eq_self Grouped.nil

/-! ## The keys of the groups -/

theorem group_records_keys (hreturns : ∀ record ∈ records, keyFn record = .ok (key record))
    {P : Key → Prop} (hP : ∀ record ∈ records, P (key record)) :
    ∀ {groups result : List (Key × σ)}, (∀ g ∈ groups, P g.1) →
      groupRecords keyFn aggregateStep records groups = .ok result → ∀ g ∈ result, P g.1 := by
  induction records with
  | nil =>
      intro groups result hgroups h
      cases h
      exact hgroups
  | cons record records ih =>
      intro groups result hgroups h
      rw [groupRecords, hreturns record (by simp), ok_bind] at h
      obtain ⟨state, _, h⟩ := bind_eq_ok.mp h
      refine ih (fun r hr => hreturns r (by simp [hr])) (fun r hr => hP r (by simp [hr])) ?_ h
      intro g hg
      rcases key_of_mem_setGroup hg with hkey | ⟨g', hmem, hkey⟩
      · rw [hkey]
        exact hP record (by simp)
      · rw [← hkey]
        exact hgroups g' hmem

theorem group_partition_keys (hcount : 0 < p.count) (hopened : Opened p "group" "group")
    {P : Key → Prop} :
    ∀ (rounds index : Nat) (path : List Nat), p.maxDepth - path.length ≤ rounds →
      (∀ i ∈ index :: path, i < p.count) →
        ∀ {records : List Record}, Keyed keyFn key records →
          (∀ record ∈ records, P (key record)) → ∀ {result : List (Key × σ)},
            groupPartition p keyFn aggregateStep (path.length + 1)
              (fileOf "group" "group" index path records) = .ok result →
                ∀ g ∈ result, P g.1 := by
  intro rounds
  induction rounds with
  | zero =>
      intro index path hrounds _ records h hP result hresult
      rw [groupPartition, dif_neg (by omega), read_file h, ok_bind] at hresult
      exact group_records_keys h.returns hP (fun g hg => by cases hg) hresult
  | succ rounds ih =>
      intro index path hrounds hpath records h hP result hresult
      rw [groupPartition] at hresult
      split at hresult
      · next hsplit =>
          rw [read_file h, ok_bind, children_ok hcount hopened hsplit.2 hpath h, ok_bind,
            bucketFiles,
            concatM_map] at hresult
          intro g hg
          obtain ⟨i, hi, part, hpart, hg⟩ := mem_concatM hresult hg
          exact ih i (index :: path) (by rw [length_cons]; omega)
            (forall_mem_cons.mpr ⟨mem_range.mp hi, hpath⟩) (h.bucket _ i)
            (fun r hr => hP r (mem_filter.mp hr).1) hpart g hg
      · rw [read_file h, ok_bind] at hresult
        exact group_records_keys h.returns hP (fun g hg => by cases hg) hresult

end Groups

/-! ## Joins -/

section Joins

variable {leftKeyFn rightKeyFn : Record → Except PyError Key}
  {leftKey rightKey : Record → Key} {ls rs : List Record}

/-- The pairs of the nested loop, in some order. -/
def Joined (leftKey rightKey : Record → Key) (ls rs : List Record)
    (result : Except PyError (List (Record × Record))) : Prop :=
  ∃ pairs, result = .ok pairs ∧ pairs.Perm (nestedLoop eq leftKey rightKey ls rs)

theorem foldGroup_append_record (state : Option (List Record)) (record : Record)
    (records : List Record) :
    foldGroup appendRecord state (record :: records) =
      .ok (some (state.getD [] ++ record :: records)) := by
  induction records generalizing state record with
  | nil => rfl
  | cons next records ih =>
      rw [foldGroup, appendRecord, ok_bind, ih]
      simp

theorem table_ok (hreturns : ∀ record ∈ records, keyFn record = .ok (key record))
    (hself : ∀ record ∈ records, eq (key record) (key record) = true) :
    ∃ table, groupRecords keyFn appendRecord records [] = .ok table ∧
      ∀ k, (getGroup eq k table).getD [] = withKey eq key k records := by
  have hfold : ∀ xs : List Record, ∃ state, foldGroup appendRecord none xs = .ok state ∧
      state.getD [] = xs := by
    intro xs
    cases xs with
    | nil => exact ⟨none, rfl, rfl⟩
    | cons x xs => exact ⟨_, foldGroup_append_record none x xs, rfl⟩
  rcases group_records_groups hreturns hself Grouped.nil with
    ⟨table, htable, hgrouped⟩ | ⟨e, _, x, _, he⟩
  · refine ⟨table, htable, fun k => ?_⟩
    obtain ⟨state, hstate, hget⟩ := hfold (withKey eq key k records)
    rw [nil_append] at hgrouped
    have hgroup := hgrouped.get sameKey k
    rw [hstate, Except.ok.injEq] at hgroup
    rw [← hgroup, hget]
  · obtain ⟨state, hstate, _⟩ := hfold (withKey eq key (key x) ([] ++ records))
    rw [hstate] at he
    cases he

variable {probeKeyFn : Record → Except PyError Key} {pair : Record → Record → Record × Record}
    {probed : List Record}

theorem probe_ok {table : List (Key × List Record)} {probeKey : Record → Key}
    (htable : ∀ k, (getGroup eq k table).getD [] = withKey eq key k records)
    (hreturns : ∀ record ∈ probed, probeKeyFn record = .ok (probeKey record)) :
    probe probeKeyFn pair table probed =
      .ok (probed.flatMap (fun r =>
        (withKey eq key (probeKey r) records).map (fun b => pair b r))) := by
  refine concatM_ok (fun r hr => ?_)
  rw [hreturns r hr, ok_bind, htable]

theorem join_chunks_ok {buildKeyFn : Record → Except PyError Key} {buildKey probeKey : Record → Key}
    {chunks : List (List Record)} (hbuild : Keyed buildKeyFn buildKey chunks.flatten)
    (hprobed : Keyed probeKeyFn probeKey probed) :
    joinChunks buildKeyFn probeKeyFn pair chunks (frames probed) =
      .ok (chunks.flatMap (fun chunk => probed.flatMap (fun r =>
        (withKey eq buildKey (probeKey r) chunk).map (fun b => pair b r)))) := by
  refine concatM_ok (fun chunk hchunk => ?_)
  have hreturns : ∀ record ∈ chunk, buildKeyFn record = .ok (buildKey record) := by
    intro record hrecord
    exact hbuild.returns record (mem_flatten.mpr ⟨chunk, hchunk, hrecord⟩)
  obtain ⟨table, htable, hget⟩ := table_ok hreturns
    (fun record hrecord => hbuild.eq_self record (mem_flatten.mpr ⟨chunk, hchunk, hrecord⟩))
  rw [htable, ok_bind, read_records_frames hprobed.sized, ok_bind,
    probe_ok hget hprobed.returns]

theorem nestedLoop_flatten_left (chunks : List (List Record)) (rs : List Record) :
    nestedLoop eq leftKey rightKey chunks.flatten rs =
      chunks.flatMap (fun chunk => nestedLoop eq leftKey rightKey chunk rs) := by
  unfold nestedLoop
  rw [flatten_eq_flatMap, flatMap_assoc]
  rfl

/-- Whichever side the table is built from, and however this side is cut. -/
theorem join_files_joined {chunks : List Record → List (List Record)}
    (hchunks : ∀ records, (chunks records).flatten = records)
    (hl : Keyed leftKeyFn leftKey ls) (hr : Keyed rightKeyFn rightKey rs) :
    Joined leftKey rightKey ls rs
      (joinFiles chunks leftKeyFn rightKeyFn (frames ls) (frames rs)) := by
  rw [joinFiles]
  split
  · have hl' : Keyed leftKeyFn leftKey (chunks ls).flatten := by
      rw [hchunks]
      exact hl
    rw [read_records_frames hl.sized, ok_bind, join_chunks_ok hl' hr]
    refine ⟨_, rfl, ?_⟩
    conv_rhs => rw [← hchunks ls]
    rw [nestedLoop_flatten_left]
    exact List.Perm.flatMap_left _ (fun chunk _ => nestedLoop_exchange chunk rs)
  · have hr' : Keyed rightKeyFn rightKey (chunks rs).flatten := by
      rw [hchunks]
      exact hr
    rw [read_records_frames hr.sized, ok_bind, join_chunks_ok hr' hl]
    refine ⟨_, rfl, ?_⟩
    have hswap : ∀ chunk : List Record, (ls.flatMap (fun l =>
        (withKey eq rightKey (leftKey l) chunk).map (fun r => (l, r)))) =
        nestedLoop eq leftKey rightKey ls chunk := by
      intro chunk
      unfold nestedLoop withKey
      refine flatMap_congr (fun l _ => ?_)
      refine congrArg _ (filter_congr (fun r _ => ?_))
      exact Value.eq_comm _ _
    simp only [hswap]
    conv_rhs => rw [← hchunks rs]
    exact flatMap_right _
where
  flatMap_right (chunks : List (List Record)) :
      (chunks.flatMap (fun chunk => nestedLoop eq leftKey rightKey ls chunk)).Perm
        (nestedLoop eq leftKey rightKey ls chunks.flatten) := by
    have hexchange : ∀ rs : List Record, (rs.flatMap (fun r =>
        (ls.filter (fun l => eq (leftKey l) (rightKey r))).map (fun l => (l, r)))).Perm
        (nestedLoop eq leftKey rightKey ls rs) := fun rs => nestedLoop_exchange ls rs
    refine (List.Perm.flatMap_left _ (fun chunk _ => (hexchange chunk).symm)).trans ?_
    have hexchangeAll := hexchange chunks.flatten
    rw [flatten_eq_flatMap, flatMap_assoc] at hexchangeAll
    rw [flatten_eq_flatMap]
    exact hexchangeAll

theorem nestedLoop_of_empty (h : (frames ls).length = 0 ∨ (frames rs).length = 0) :
    nestedLoop eq leftKey rightKey ls rs = [] := by
  rcases h with h | h
  · rw [frames_eq_nil.mp (length_eq_zero_iff.mp h)]
    rfl
  · rw [frames_eq_nil.mp (length_eq_zero_iff.mp h)]
    exact nestedLoop_nil_right ls

theorem joined_buckets (hcount : 0 < p.count) (hl : Keyed leftKeyFn leftKey ls)
    (hr : Keyed rightKeyFn rightKey rs) (leftStart rightStart : String) (level : Nat)
    {join : PartitionFile → PartitionFile → Except PyError (List (Record × Record))}
    (hjoin : ∀ i < p.count, ∀ ls' rs', Keyed leftKeyFn leftKey ls' →
      Keyed rightKeyFn rightKey rs' → Joined leftKey rightKey ls' rs'
        (join ⟨partitionStem leftStart level i, frames ls'⟩
          ⟨partitionStem rightStart level i, frames rs'⟩)) :
    Joined leftKey rightKey ls rs
      (concatM (fun files => join files.1 files.2)
        ((bucketFiles p leftKey leftStart level ls).zip
          (bucketFiles p rightKey rightStart level rs))) := by
  have hbuckets : ∀ i, i < p.count → Joined leftKey rightKey
      (bucket (fun r => slot p level (leftKey r)) i ls)
      (bucket (fun r => slot p level (rightKey r)) i rs) _ :=
    fun i hi => hjoin i hi _ _ (hl.bucket _ i) (hr.bucket _ i)
  choose! pairs hpairs hperm using hbuckets
  rw [bucketFiles, bucketFiles, zip_map', concatM_map,
    concatM_ok (fun i hi => hpairs i (mem_range.mp hi))]
  refine ⟨_, rfl, ?_⟩
  refine (List.Perm.flatMap_left _ (fun i hi => hperm i (mem_range.mp hi))).trans ?_
  exact nestedLoop_buckets (fun l _ => slot_lt hcount level _) (slot_same hl hr level)

theorem join_partition_joined (hcount : 0 < p.count) (hleft : Opened p "join-left" "left")
    (hright : Opened p "join-right" "right") :
    ∀ (rounds index : Nat) (path : List Nat), p.maxDepth - path.length ≤ rounds →
      (∀ i ∈ index :: path, i < p.count) →
        ∀ {ls rs : List Record}, Keyed leftKeyFn leftKey ls → Keyed rightKeyFn rightKey rs →
          Joined leftKey rightKey ls rs
            (joinPartition p leftKeyFn rightKeyFn (path.length + 1)
              (fileOf "join-left" "left" index path ls)
              (fileOf "join-right" "right" index path rs)) := by
  intro rounds
  induction rounds with
  | zero =>
      intro index path hle _ ls rs hl hr
      rw [joinPartition]
      split
      · next hempty => exact ⟨[], rfl, by rw [nestedLoop_of_empty hempty]⟩
      · split
        · exact join_files_joined (fun _ => flatten_singleton) hl hr
        · rw [dif_neg (by omega)]
          exact join_files_joined (record_chunks_flatten p.limit) hl hr
  | succ rounds ih =>
      intro index path hle hpath ls rs hl hr
      rw [joinPartition]
      split
      · next hempty => exact ⟨[], rfl, by rw [nestedLoop_of_empty hempty]⟩
      · split
        · exact join_files_joined (fun _ => flatten_singleton) hl hr
        · split
          · next hlevel =>
              rw [read_file hl, ok_bind, children_ok hcount hleft hlevel hpath hl, ok_bind,
                read_file hr, ok_bind, children_ok hcount hright hlevel hpath hr, ok_bind]
              refine joined_buckets hcount hl hr _ _ _ (fun i hi ls' rs' hl' hr' => ?_)
              exact ih i (index :: path) (by rw [length_cons]; omega)
                (forall_mem_cons.mpr ⟨hi, hpath⟩) hl' hr'
          · exact join_files_joined (record_chunks_flatten p.limit) hl hr

end Joins

/-! ## The algorithms -/

/-- What the algorithms are promised: limits that are accepted. -/
structure Accepted (p : Parameters) : Prop where
  memoryLimitBytes : 0 < p.memoryLimitBytes
  partitionCount : 2 ≤ p.partitionCount
  maxPartitionDepth : 0 ≤ p.maxPartitionDepth

namespace Accepted

theorem validate (h : Accepted p) : validateParameters p = .ok () := by
  have hmemory := h.memoryLimitBytes
  have hpartitions := h.partitionCount
  have hdepth := h.maxPartitionDepth
  rw [validateParameters, if_neg (by omega), if_neg (by omega), if_neg (by omega)]

theorem count_pos (h : Accepted p) : 0 < p.count := by
  have hpartitions := h.partitionCount
  unfold Parameters.count
  omega

end Accepted

theorem first_files_ok {root kind : String} (hopened : Opened p root kind)
    (h : Keyed keyFn key records) :
    partitionRecords p keyFn root 0 records = .ok (bucketFiles p key root 0 records) :=
  partition_records_ok (by decide)
    (hopened [] (Nat.zero_le _) (fun _ hi => by cases hi)) h

theorem external_hash_join_joined (haccepted : Accepted p)
    (hleft : Opened p "join-left" "left") (hright : Opened p "join-right" "right")
    {leftKeyFn rightKeyFn : Record → Except PyError Key} {leftKey rightKey : Record → Key}
    {ls rs : List Record} (hl : Keyed leftKeyFn leftKey ls)
    (hr : Keyed rightKeyFn rightKey rs) :
    Joined leftKey rightKey ls rs
      (externalHashJoin p ls rs leftKeyFn rightKeyFn) := by
  rw [externalHashJoin, haccepted.validate, ok_bind, first_files_ok hleft hl, ok_bind,
    first_files_ok hright hr, ok_bind]
  refine joined_buckets haccepted.count_pos hl hr _ _ 0 (fun i hi ls' rs' hl' hr' => ?_)
  exact join_partition_joined haccepted.count_pos hleft hright _ i [] le_rfl
    (forall_mem_singleton.mpr hi) hl' hr'

variable {σ : Type} {aggregateStep : Option σ → Record → Except PyError σ}

theorem external_hash_group_by_groups (haccepted : Accepted p) (hopened : Opened p "group" "group")
    (h : Keyed keyFn key records) :
    Groups eq key aggregateStep records
      (externalHashGroupBy p records keyFn aggregateStep) := by
  rw [externalHashGroupBy, haccepted.validate, ok_bind, first_files_ok hopened h, ok_bind,
    bucketFiles, concatM_map]
  refine groups_buckets sameKey h.eq_self (fun r _ => slot_lt haccepted.count_pos 0 _)
    (slot_same h h 0) (fun i hi => ?_)
  exact group_partition_groups haccepted.count_pos hopened _ i [] le_rfl
    (forall_mem_singleton.mpr hi) (h.bucket _ i)

theorem external_hash_group_by_keys (haccepted : Accepted p) (hopened : Opened p "group" "group")
    (h : Keyed keyFn key records) {groups : List (Key × σ)}
    (hgroups : externalHashGroupBy p records keyFn aggregateStep = .ok groups) :
    ∀ g ∈ groups, ∃ record ∈ records, key record = g.1 := by
  rw [externalHashGroupBy, haccepted.validate, ok_bind, first_files_ok hopened h, ok_bind,
    bucketFiles, concatM_map] at hgroups
  intro g hg
  obtain ⟨i, hi, part, hpart, hg⟩ := mem_concatM hgroups hg
  have hkeys : ∀ r ∈ bucket (fun r => slot p 0 (key r)) i records,
      ∃ record ∈ records, key record = key r :=
    fun r hr => ⟨r, (mem_filter.mp hr).1, rfl⟩
  exact @group_partition_keys p keyFn key _ _ haccepted.count_pos hopened
    (fun k => ∃ record ∈ records, key record = k) _ i [] le_rfl
    (forall_mem_singleton.mpr (mem_range.mp hi)) _ (h.bucket _ i) hkeys _ hpart g hg

/-- What was grouped had keys that can be encoded, and lengths that fit. -/
theorem partitionFrom_returns {files files' : List Bytes}
    (h : partitionFrom p keyFn level records files = .ok files') :
    ∀ record ∈ records, Sized record ∧
      ∃ k bytes, keyFn record = .ok k ∧ encodeKey k = .ok bytes := by
  induction records generalizing files with
  | nil =>
      intro record hrecord
      cases hrecord
  | cons record records ih =>
      rw [partitionFrom] at h
      obtain ⟨k, hk, h⟩ := bind_eq_ok.mp h
      obtain ⟨index, hindex, h⟩ := bind_eq_ok.mp h
      obtain ⟨bytes, hbytes, h⟩ := bind_eq_ok.mp h
      obtain ⟨encoded, hencoded, _⟩ := bind_eq_ok.mp hindex
      refine forall_mem_cons.mpr ⟨⟨?_, k, encoded, hk, hencoded⟩, ih h⟩
      rw [writeRecord] at hbytes
      split at hbytes
      · cases hbytes
      · next hsized =>
          unfold Sized
          omega

theorem partition_records_returns {start : String} {files : List PartitionFile}
    (h : partitionRecords p keyFn start level records = .ok files) :
    ∀ record ∈ records, Sized record ∧
      ∃ k bytes, keyFn record = .ok k ∧ encodeKey k = .ok bytes := by
  obtain ⟨_, _, h⟩ := bind_eq_ok.mp h
  obtain ⟨_, hfiles, _⟩ := bind_eq_ok.mp h
  exact partitionFrom_returns hfiles

/-- For every hash, all limits that are accepted and whose files can be opened, and all records
whose keys can be encoded: the join returns exactly the pairs of the nested loop, each as left
and right; and the groups are the keys of the records, each once, with the fold of its records
in their order. -/
theorem external_hash_correct (p : Parameters) (haccepted : Accepted p) :
    (Opened p "join-left" "left" → Opened p "join-right" "right" →
      ∀ (leftKeyFn rightKeyFn : Record → Except PyError Key) (leftKey rightKey : Record → Key)
        (ls rs : List Record), Keyed leftKeyFn leftKey ls → Keyed rightKeyFn rightKey rs →
      ∃ pairs, externalHashJoin p ls rs leftKeyFn rightKeyFn = .ok pairs ∧
        pairs.Perm (nestedLoop eq leftKey rightKey ls rs)) ∧
      (Opened p "group" "group" →
        ∀ (σ : Type) (keyFn : Record → Except PyError Key) (key : Record → Key)
        (aggregateStep : Option σ → Record → σ) (records : List Record),
        Keyed keyFn key records →
          ∃ groups, externalHashGroupBy p records keyFn
              (fun state record => .ok (aggregateStep state record)) = .ok groups ∧
            Grouped eq key
              (fun state record => (.ok (aggregateStep state record) : Except PyError σ))
              records groups) := by
  constructor
  · intro hleft hright leftKeyFn rightKeyFn leftKey rightKey ls rs hl hr
    exact external_hash_join_joined haccepted hleft hright hl hr
  · intro hopened σ keyFn key aggregateStep records h
    rcases external_hash_group_by_groups haccepted hopened h with hgroups | ⟨e, _, x, _, hfold⟩
    · exact hgroups
    · rw [foldGroup_pure] at hfold
      cases hfold

/-- Two records with the same key, which the join pairs with a third one after splitting the
partition they are in. -/
theorem external_hash_correct_two_records :
    ∃ pairs, externalHashJoin ⟨1, 2, 1, fun bs => bs⟩ [[1], [2]] [[3]] (fun _ => .ok (.int 7))
        (fun _ => .ok (.int 7)) = .ok pairs ∧
      pairs.Perm [([1], [3]), ([2], [3])] := by
  have haccepted : Accepted ⟨1, 2, 1, fun bs => bs⟩ := ⟨by decide, by decide, by decide⟩
  have hkeyed : ∀ records : List Record, (∀ r ∈ records, r.length = 1) →
      Keyed (fun _ => .ok (.int 7)) (fun _ => .int 7) records := by
    intro records hlength
    refine ⟨fun _ _ => rfl, fun _ _ => ⟨_, rfl⟩, fun r hr => ?_⟩
    rw [Sized, hlength r hr]
    decide
  exact (external_hash_correct ⟨1, 2, 1, fun bs => bs⟩ haccepted).1
    (opened_of_depth (by decide) (by decide) (by decide +kernel))
    (opened_of_depth (by decide) (by decide) (by decide +kernel)) _ _ (fun _ => .int 7)
    (fun _ => .int 7) [[1], [2]] [[3]] (hkeyed _ (by decide)) (hkeyed _ (by decide))

/-! ## What has no place in the formats -/

/-- A hash with one value, so that no level splits anything. -/
def oneSlot (maxPartitionDepth : Int) : Parameters := ⟨1, 2, maxPartitionDepth, fun _ => []⟩

theorem slot_oneSlot (depth : Int) (level : Nat) (k : Key) : slot (oneSlot depth) level k = 0 := by
  rw [slot]
  split
  · rfl
  · rfl

theorem bucketFiles_oneSlot (depth : Int) (start : String) (level : Nat) :
    bucketFiles (oneSlot depth) (fun _ => int 7) start level [([] : Record)] =
      [⟨partitionStem start level 0, frames [[]]⟩, ⟨partitionStem start level 1, frames []⟩] := by
  simp only [bucketFiles, bucket, slot_oneSlot]
  rfl

theorem keyed_empty : Keyed (fun _ => .ok (.int 7)) (fun _ => .int 7) [([] : Record)] := by
  refine ⟨fun _ _ => rfl, fun _ _ => ⟨_, rfl⟩, ?_⟩
  intro r hr
  rw [mem_singleton.mp hr]
  exact Nat.two_pow_pos 32

theorem fits_zeros {level index : Nat} (hlevel : level < 10) (hindex : index < 10) :
    Fits (partitionStem (startOf "group" "group" (replicate level 0)) level index) ↔
      level ≤ 8 := by
  have hfits := @fits_iff "group" "group" (replicate level 0) index
    (by rwa [length_replicate])
    (fun i hi => by rw [eq_of_mem_replicate hi]; exact Nat.succ_pos 9) hindex
  have hgroup : "group".utf8ByteSize = 5 := by
    decide +kernel
  rw [length_replicate, hgroup, NAME_MAX] at hfits
  rw [hfits]
  omega

/-- A record that stays in the first partition is repartitioned up to the level whose names are
too long. -/
theorem group_partition_deep (aggregateStep : Option σ → Record → Except PyError σ) :
    ∀ (rounds level : Nat), level + rounds = 8 →
      groupPartition (oneSlot 9) (fun _ => .ok (.int 7)) aggregateStep (level + 1)
        ⟨partitionStem (startOf "group" "group" (replicate level 0)) level 0, frames [[]]⟩ =
          .error (.OSError "File name too long") := by
  have hsplit : ∀ level, level ≤ 8 → (frames [([] : Record)]).length > (oneSlot 9).limit ∧
      level + 1 ≤ (oneSlot 9).maxDepth := by
    intro level hlevel
    exact ⟨by decide, Nat.succ_le_succ hlevel⟩
  have hstart : ∀ level, childStart "group" (level + 1) (partitionStem
      (startOf "group" "group" (replicate level 0)) level 0) =
      startOf "group" "group" (replicate (level + 1) 0) := by
    intro level
    rw [replicate_succ, startOf, length_replicate]
  intro rounds
  induction rounds with
  | zero =>
      intro level hlevel
      obtain rfl : level = 8 := hlevel
      have hlong : openFile (partitionStem (startOf "group" "group" (replicate 9 0)) 9 0) =
          .error (.OSError "File name too long") :=
        if_neg (fun h => absurd ((fits_zeros (by decide) (by decide)).mp h) (by decide))
      have hcount : range (oneSlot 9).count = [0, 1] := rfl
      rw [groupPartition, dif_pos (hsplit 8 le_rfl),
        read_records_frames keyed_empty.sized, ok_bind, hstart, partitionRecords, hcount,
        map_cons, mapM_cons, hlong]
      rfl
  | succ rounds ih =>
      intro level hlevel
      rw [groupPartition, dif_pos (hsplit level (by omega)),
        read_records_frames keyed_empty.sized, ok_bind, hstart,
        partition_records_ok (by omega) _ keyed_empty, ok_bind, bucketFiles_oneSlot,
        concatM, ih (level + 1) (by omega), error_bind]
      intro i hi
      have hcount : i < 2 := hi
      exact (fits_zeros (by omega) (by omega)).mpr (by omega)

/-- A record of 2^32 bytes is refused; and with a depth of 9 records that stay together reach a
level whose files cannot be opened. -/
theorem limits_of_the_formats :
    (¬ ∀ (p : Parameters), Accepted p → Opened p "group" "group" →
      ∀ (key : Record → Key) (records : List Record),
        (∀ r ∈ records, ∃ bytes, encodeKey (key r) = .ok bytes) →
          ∃ groups, externalHashGroupBy p records (fun r => .ok (key r))
            (fun _ _ => .ok ()) = .ok groups) ∧
      ¬ ∀ (p : Parameters), Accepted p →
        ∀ (key : Record → Key) (records : List Record),
          (∀ r ∈ records, (∃ bytes, encodeKey (key r) = .ok bytes) ∧ Sized r) →
            ∃ groups, externalHashGroupBy p records (fun r => .ok (key r))
              (fun _ _ => .ok ()) = .ok groups := by
  constructor
  · intro hall
    have hopened : Opened (oneSlot 0) "group" "group" :=
      opened_of_depth (by decide) (by decide) (by decide +kernel)
    obtain ⟨groups, hgroups⟩ := hall (oneSlot 0) ⟨by decide, by decide, by decide⟩ hopened
      (fun _ => .int 7) [replicate (2 ^ 32) 0] (fun _ _ => ⟨_, rfl⟩)
    have hlength : (replicate (2 ^ 32) (0 : UInt8)).length = 2 ^ 32 := length_replicate
    generalize replicate (2 ^ 32) (0 : UInt8) = record at hgroups hlength
    have hwrite : writeRecord "external-hash" record =
        .error (.ValueError "record is too large for external-hash format") := by
      rw [writeRecord, if_pos (by omega)]
      rfl
    obtain ⟨_, _, hgroups⟩ := bind_eq_ok.mp hgroups
    obtain ⟨files, hfiles, _⟩ := bind_eq_ok.mp hgroups
    obtain ⟨_, _, hfiles⟩ := bind_eq_ok.mp hfiles
    obtain ⟨contents, hcontents, _⟩ := bind_eq_ok.mp hfiles
    rw [partitionFrom, ok_bind] at hcontents
    obtain ⟨_, _, hcontents⟩ := bind_eq_ok.mp hcontents
    rw [hwrite] at hcontents
    cases hcontents
  · intro hall
    have haccepted : Accepted (oneSlot 9) := ⟨by decide, by decide, by decide⟩
    obtain ⟨groups, hgroups⟩ := hall (oneSlot 9) haccepted (fun _ => .int 7) [[]]
      (fun r hr => ⟨⟨_, rfl⟩, keyed_empty.sized r hr⟩)
    have hfits : ∀ i < (oneSlot 9).count, Fits (partitionStem "group" 0 i) := by
      intro i hi
      have hcount : i < 2 := hi
      exact (@fits_zeros 0 i (by decide) (by omega)).mpr (Nat.zero_le 8)
    have hdeep : groupPartition (oneSlot 9) (fun _ => .ok (.int 7)) (fun _ _ => .ok ()) 1
        ⟨partitionStem "group" 0 0, frames [[]]⟩ = .error (.OSError "File name too long") :=
      group_partition_deep (σ := Unit) (fun _ _ => .ok ()) 8 0 rfl
    rw [externalHashGroupBy, haccepted.validate, ok_bind,
      partition_records_ok (by decide) hfits keyed_empty, ok_bind,
      bucketFiles_oneSlot, concatM, hdeep, error_bind] at hgroups
    cases hgroups

end SoupDB.ExternalHash
