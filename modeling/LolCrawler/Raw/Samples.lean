import Mathlib.Data.PNat.Notation
import LolCrawler.Foundation.Disk
import LolCrawler.Foundation.Run
import LolCrawler.Record

/-! # Raw samples

The raw JSON of some matches is kept in a compressed file each. A save creates the file
under another name and links it, so a file that is there stays. Old files are compressed
again with a dictionary, which is trained once, written down first, and found by its id
in the frame. A reader takes the dictionary from a cache that lives as long as the
process.

One save runs at a time, under the lock of the store, and one cycle of the recompactor
beside it. Any operation of either may fail. The process may end between any two of them, and
the machine may crash.
-/

namespace LolCrawler.Raw

open Foundation

/-- The compression library. -/
structure Zstd where
  compress : Bytes → Except Error Bytes
  decodeAll : Bytes → Except Error Bytes
  /-- A compressor and a decompressor for the dictionary. -/
  prepare : (dict : Bytes) → Except Error Unit
  compressWith : (dict plain : Bytes) → Except Error Bytes
  decompressWith : (dict compressed : Bytes) → (capacity : Nat) → Except Error Bytes
  decodeWith : (dict compressed : Bytes) → Except Error Bytes
  dictIdFromFrame : Bytes → Option ℕ+
  dictIdFromDict : Bytes → Option ℕ+
  fromSamples : List Bytes → (maxSize : Nat) → Except Error Bytes

/-- What is assumed of it: compressed bytes are read back with the same dictionary, and a
frame has the id of the dictionary it needs. -/
structure Zstd.Lawful (zstd : Zstd) : Prop where
  decodeAll : ∀ plain frame, zstd.compress plain = .ok frame → zstd.decodeAll frame = .ok plain
  plainId : ∀ plain frame, zstd.compress plain = .ok frame → zstd.dictIdFromFrame frame = none
  decodeWith : ∀ dict plain frame, zstd.compressWith dict plain = .ok frame →
    zstd.decodeWith dict frame = .ok plain
  dictId : ∀ dict plain frame id, zstd.compressWith dict plain = .ok frame →
    zstd.dictIdFromDict dict = some id → zstd.dictIdFromFrame frame = some id

def rawDictName : String := "match-v1.dict"

def rawDictMaxBytes : Nat := 128 * 1024

def rawDictMinSamples : Nat := 500

def rawDictMaxTrainingSamples : Nat := 4000

/-- `data_dir.join("raw")`. -/
def rawDir : List String := ["raw"]

def dictPath : Path := ⟨rawDir, rawDictName⟩

/-- The file of a sample: `match` or `timeline` JSON. -/
def samplePath (platform matchId kind : String) : Path :=
  ⟨rawDir ++ [platform], matchId ++ "." ++ kind ++ ".json.zst"⟩

def tmpPath (path : Path) : Path := { path with name := path.name ++ ".tmp" }

def rawWriteTmpPath (path : Path) : Path := { path with name := path.name ++ ".write.tmp" }

def isRawJsonSamplePath (path : Path) : Bool :=
  ".match.json.zst".toList.isSuffixOf path.name.toList ||
    ".timeline.json.zst".toList.isSuffixOf path.name.toList

/-- A sample in the directory of a platform. -/
def isSample (path : Path) : Bool :=
  path.dir.dropLast = rawDir && path.dir ≠ rawDir && isRawJsonSamplePath path

/-- `String::from_utf8`. -/
def fromUtf8 (bytes : Bytes) : Option String := String.fromUTF8? ⟨bytes.toArray⟩

abbrev Io (α : Type) : Type := Script DiskOp DiskOp.Answer α

abbrev call (op : DiskOp) : Io op.Answer := Script.perform op

open Script

section Checks

variable (zstd : Zstd)

def decompressRawPlainBytes (compressed : Bytes) : Except Error Bytes :=
  Foundation.context "zstd decompress" (zstd.decodeAll compressed)

def decompressRawWithDictBytes (compressed dict : Bytes) : Except Error Bytes :=
  zstd.decodeWith dict compressed

def rawDictId (dict : Bytes) : Except Error Nat :=
  orBail "zstd dictionary has no id" ((zstd.dictIdFromDict dict).map PNat.val)

def rawFrameDictId (compressed : Bytes) : Nat :=
  ((zstd.dictIdFromFrame compressed).map PNat.val).getD 0

end Checks

/-! ## Reading -/

section Reading

variable (zstd : Zstd) (look : Path → Option Bytes)

/-- `fs::read` of a file that must exist. -/
def readFile (path : Path) : Except Error Bytes :=
  Foundation.context s!"read {path.display}" (orBail "No such file or directory" (look path))

/-- `raw_dir_for_sample`, and the dictionary in it. -/
def dictPathForSample (path : Path) : Path := ⟨path.dir.dropLast, rawDictName⟩

/-- The dictionary, and the cache after it is found. -/
def loadCachedRawDictForSample (cache : Path → Option Bytes) (path : Path) :
    Except Error (Bytes × (Path → Option Bytes)) :=
  match cache (dictPathForSample path) with
  | some dict => .ok (dict, cache)
  | none => do
      let bytes ← readFile look (dictPathForSample path)
      let _ ← Foundation.context s!"inspect {(dictPathForSample path).display}"
        (rawDictId zstd bytes)
      pure (bytes, Function.update cache (dictPathForSample path) (some bytes))

/-- `read_raw_sample_file`, and the cache after it. -/
def readRawSampleFile (cache : Path → Option Bytes) (path : Path) :
    Except Error String × (Path → Option Bytes) :=
  let utf8 (json : Bytes) : Except Error String :=
    orBail s!"raw sample {path.display} is not utf-8" (fromUtf8 json)
  match readFile look path with
  | .error err => (.error err, cache)
  | .ok compressed =>
      if rawFrameDictId zstd compressed = 0 then
        (Foundation.context s!"decompress plain raw sample {path.display}"
          (decompressRawPlainBytes zstd compressed) >>= utf8, cache)
      else
        match loadCachedRawDictForSample zstd look cache path with
        | .error err => (.error err, cache)
        | .ok (dict, cached) => ((do
            let dictId ← rawDictId zstd dict
            ensure (rawFrameDictId zstd compressed = dictId)
              (s!"raw sample {path.display} uses dict id {rawFrameDictId zstd compressed}, " ++
                s!"but {rawDictName} has id {dictId}")
            let json ← Foundation.context s!"decompress dict raw sample {path.display}"
              (decompressRawWithDictBytes zstd compressed dict)
            utf8 json), cached)

/-- `read_raw_sample`. -/
def readRawSample (cache : Path → Option Bytes) (path : Path) : Except Error String :=
  (readRawSampleFile zstd look cache path).1

end Reading

/-! ## Saving -/

section Saving

variable (zstd : Zstd)

def removeFileIfExists (path : Path) : Io Unit :=
  Script.context s!"remove {path.display}" (call (.remove path))

def syncParentDir (path : Path) : Io Unit :=
  Script.context "fsync directory" (call (.syncDir path.dir))

/-- The new file, under its temporary name. -/
def writeNew (tmp : Path) (bytes : Bytes) : Io Unit := do
  removeFileIfExists tmp
  Script.context s!"create {tmp.display}" (call (.createNew tmp))
  call (.write tmp bytes)
  Script.context s!"fsync {tmp.display}" (call (.sync tmp))

/-- The link, and the temporary name removed. -/
def linkNew (tmp path : Path) : Io Unit := do
  match ← attempt (call (.link tmp path)) with
  | .ok true => do
      removeFileIfExists tmp
      syncParentDir path
  | .ok false => removeFileIfExists tmp
  | .error err => do
      let _ ← attempt (call (.remove tmp))
      .fail (s!"link {tmp.display} into {path.display}" :: err)

def writeFileCreateOnceAtomically (path : Path) (bytes : Bytes) : Io Unit := do
  let found ← Script.context s!"stat {path.display}" (call (.stat path))
  if found then pure ()
  else do
    Script.context "create_dir_all" (call (.mkdirs path.dir))
    writeNew (rawWriteTmpPath path) bytes
    linkNew (rawWriteTmpPath path) path

def writeRawPlainSampleCreateOnce (path : Path) (json : String) : Io Unit := do
  let compressed ← lift (Foundation.context s!"compress raw sample {path.display}"
    (zstd.compress (asBytes json)))
  writeFileCreateOnceAtomically path compressed

/-- The arguments of `save_raw_sample`. -/
structure Sample where
  platform : String
  matchId : String
  matchJson : String
  timelineJson : Option String

def Sample.matchPath (sample : Sample) : Path := samplePath sample.platform sample.matchId "match"

def Sample.timelinePath (sample : Sample) : Path :=
  samplePath sample.platform sample.matchId "timeline"

/-- What is saved in this file. -/
def Sample.json (sample : Sample) (path : Path) : Option String :=
  if path = sample.matchPath then some sample.matchJson
  else if path = sample.timelinePath then sample.timelineJson
  else none

def saveRawSample (sample : Sample) : Io Unit := do
  call (.mkdirs (rawDir ++ [sample.platform]))
  writeRawPlainSampleCreateOnce zstd sample.matchPath sample.matchJson
  match sample.timelineJson with
  | some json => writeRawPlainSampleCreateOnce zstd sample.timelinePath json
  | none => pure ()

end Saving

/-! ## Recompressing -/

structure RawSampleRecompactOutcome where
  dictCreated : Bool
  dictBytes : Nat
  trainingSamples : Nat
  filesSeen : Nat
  filesUpgraded : Nat
  filesAlreadyDict : Nat
  filesSkippedRecent : Nat
  filesSkippedChanged : Nat
  filesFailed : Nat
  beforeBytes : Nat
  afterBytes : Nat

/-- `RawSampleRecompactOutcome::default()`, with the files seen. -/
def RawSampleRecompactOutcome.seen (filesSeen : Nat) : RawSampleRecompactOutcome :=
  ⟨false, 0, 0, filesSeen, 0, 0, 0, 0, 0, 0, 0⟩

inductive RawSampleUpgrade where
  | upgraded (beforeBytes afterBytes : Nat)
  | alreadyDict
  | changed

section Recompressing

variable (zstd : Zstd)

/-- The samples in the directories of the platforms, in any order. -/
def collectRawSamplePaths : Io (List Path) :=
  Script.context "read_dir raw" (call (.list isSample))

def fileMtimeOlderThan (path : Path) : Io Bool := do
  match ← attempt (call (.older path)) with
  | .ok old => pure old
  | .error _ => pure false

/-- The loop of `train_raw_sample_dict`. -/
def trainingLoop : List Path → List Bytes → Io (List Bytes)
  | [], samples => pure samples
  | path :: paths, samples =>
      if rawDictMaxTrainingSamples ≤ samples.length then pure samples
      else do
        let old ← fileMtimeOlderThan path
        if old then
          match ← attempt (call (.read path)) with
          | .ok (some compressed) =>
              if rawFrameDictId zstd compressed ≠ 0 then trainingLoop paths samples
              else
                match decompressRawPlainBytes zstd compressed with
                | .ok sample => trainingLoop paths (samples ++ [sample])
                | .error _ => trainingLoop paths samples
          | _ => trainingLoop paths samples
        else trainingLoop paths samples

def trainRawSampleDict (paths : List Path) : Io (Option Bytes × Nat) := do
  let samples ← trainingLoop zstd paths []
  if samples.length < rawDictMinSamples then pure (none, samples.length)
  else do
    let dict ← lift (Foundation.context "train raw sample zstd dictionary"
      (zstd.fromSamples samples rawDictMaxBytes))
    lift (ensure (dict.length ≤ rawDictMaxBytes)
      (s!"trained raw sample dictionary is {dict.length} bytes, " ++ s!"max {rawDictMaxBytes}"))
    let _ ← lift (Foundation.context "trained raw sample dictionary has no id"
      (rawDictId zstd dict))
    pure (some dict, samples.length)

/-- A file under its temporary name. -/
def writeTmp (tmp : Path) (bytes : Bytes) : Io Unit := do
  removeFileIfExists tmp
  Script.context s!"create {tmp.display}" (call (.create tmp))
  call (.write tmp bytes)
  Script.context s!"fsync {tmp.display}" (call (.sync tmp))

/-- The temporary file takes the name over. -/
def renameOver (tmp path : Path) : Io Unit := do
  Script.context s!"rename {tmp.display} over {path.display}" (call (.rename tmp path))
  syncParentDir path

def writeRawDictAtomically (path : Path) (dict : Bytes) : Io Unit := do
  Script.context "create_dir_all" (call (.mkdirs path.dir))
  writeTmp (tmpPath path) dict
  renameOver (tmpPath path) path

/-- The new frame of a sample, checked. -/
def recompress (path : Path) (dict : Bytes) (dictId : Nat) (before : Bytes) :
    Except Error Bytes := do
  let plain ← Foundation.context s!"decompress plain raw sample {path.display}"
    (decompressRawPlainBytes zstd before)
  let compressed ← Foundation.context
    s!"compress raw sample {path.display} with dictionary" (zstd.compressWith dict plain)
  ensure (rawFrameDictId zstd compressed = dictId)
    (s!"recompressed raw sample {path.display} has dict id " ++
      s!"{rawFrameDictId zstd compressed}, expected {dictId}")
  let roundtrip ← Foundation.context s!"verify raw sample {path.display} with dictionary"
    (zstd.decompressWith dict compressed plain.length)
  ensure (roundtrip = plain)
    s!"raw sample dictionary roundtrip mismatch for {path.display}"
  pure compressed

/-- The new frame takes the place of the old one, unless that has changed. -/
def replaceSample (path : Path) (before compressed : Bytes) : Io RawSampleUpgrade := do
  writeTmp (tmpPath path) compressed
  let current ← Script.context s!"reread {path.display}" (call (.read path))
  if current = some before then do
    renameOver (tmpPath path) path
    pure (.upgraded before.length compressed.length)
  else do
    removeFileIfExists (tmpPath path)
    pure .changed

def recompactRawSamplePath (path : Path) (dict : Bytes) (dictId : Nat) :
    Io RawSampleUpgrade := do
  match ← Script.context s!"read {path.display}" (call (.read path)) with
  | none => .fail [s!"read {path.display}", "No such file or directory"]
  | some before =>
      if rawFrameDictId zstd before ≠ 0 then pure .alreadyDict
      else do
        let compressed ← lift (recompress zstd path dict dictId before)
        replaceSample path before compressed

/-- What a sample adds to the outcome. -/
def RawSampleRecompactOutcome.add (outcome : RawSampleRecompactOutcome) :
    Except Error RawSampleUpgrade → RawSampleRecompactOutcome
  | .ok (.upgraded beforeBytes afterBytes) =>
      { outcome with
        filesUpgraded := outcome.filesUpgraded + 1
        beforeBytes := outcome.beforeBytes + beforeBytes
        afterBytes := outcome.afterBytes + afterBytes }
  | .ok .alreadyDict => { outcome with filesAlreadyDict := outcome.filesAlreadyDict + 1 }
  | .ok .changed => { outcome with filesSkippedChanged := outcome.filesSkippedChanged + 1 }
  | .error _ => { outcome with filesFailed := outcome.filesFailed + 1 }

/-- The loop of `recompact_raw_samples_at`. -/
def upgradeLoop (dict : Bytes) (dictId : Nat) :
    List Path → RawSampleRecompactOutcome → Io RawSampleRecompactOutcome
  | [], outcome => pure outcome
  | path :: paths, outcome => do
      let old ← fileMtimeOlderThan path
      if old then do
        let upgrade ← attempt (recompactRawSamplePath zstd path dict dictId)
        upgradeLoop dict dictId paths (outcome.add upgrade)
      else
        upgradeLoop dict dictId paths
          { outcome with filesSkippedRecent := outcome.filesSkippedRecent + 1 }

/-- `recompact_raw_samples_at`, once there is a dictionary. -/
def upgradeRawSamples (dict : Bytes) (paths : List Path) (outcome : RawSampleRecompactOutcome) :
    Io RawSampleRecompactOutcome := do
  let dictId ← lift (Foundation.context s!"inspect {dictPath.display}" (rawDictId zstd dict))
  lift (zstd.prepare dict)
  upgradeLoop zstd dict dictId paths { outcome with dictBytes := dict.length }

def recompactRawSamplesAt : Io RawSampleRecompactOutcome := do
  let paths ← collectRawSamplePaths
  if paths.isEmpty then pure (.seen paths.length)
  else
    match ← Script.context s!"read {dictPath.display}" (call (.read dictPath)) with
    | some dict => upgradeRawSamples zstd dict paths (.seen paths.length)
    | none => do
        let (maybeDict, trainingSamples) ← trainRawSampleDict zstd paths
        let outcome := { RawSampleRecompactOutcome.seen paths.length with
          trainingSamples := trainingSamples }
        match maybeDict with
        | none => pure outcome
        | some dict => do
            writeRawDictAtomically dictPath dict
            upgradeRawSamples zstd dict paths { outcome with dictCreated := true }

end Recompressing

/-! ## Runs -/

/-- The files, and the histories of the saves. -/
structure Shelf where
  disk : Disk
  /-- A history: what the save put there that made the file. -/
  linked : Path → Option String

structure RawState where
  shelf : Shelf
  /-- `RAW_DICT_CACHE`. -/
  cache : Path → Option Bytes
  saver : Option (Sample × Io Unit)
  recompactor : Option (Io RawSampleRecompactOutcome)
  /-- A history: what the first save that completed for the file was given. -/
  completed : Path → Option String

/-- An empty data directory. -/
def RawState.fresh : RawState := ⟨⟨.empty, fun _ => none⟩, fun _ => none, none, none, fun _ => none⟩

/-- The link of a save is noted. -/
def Shelf.note (sample : Sample) (shelf : Shelf) :
    (op : DiskOp) → op.Answer → Path → Option String
  | .link _ target, true => Function.update shelf.linked target (sample.json target)
  | _, _ => shelf.linked

/-- The operations of a save. -/
def saving (sample : Sample) : Surroundings DiskOp DiskOp.Answer Shelf :=
  fun op shelf answer after => match answer with
  | some answer => op.Performs shelf.disk answer after.disk ∧
      after.linked = shelf.note sample op answer
  | none => op.Fails shelf.disk after.disk ∧ after.linked = shelf.linked

/-- The operations of a cycle. -/
def recompacting : Surroundings DiskOp DiskOp.Answer Shelf :=
  fun op shelf answer after => after.linked = shelf.linked ∧ match answer with
    | some answer => op.Performs shelf.disk answer after.disk
    | none => op.Fails shelf.disk after.disk

inductive RawEvent where
  | save (sample : Sample)
  /-- One operation of the save. -/
  | saver
  /-- The save has completed. -/
  | saved
  | saveFailed
  | recompact
  /-- One operation of the cycle. -/
  | recompactor
  | recompacted
  | read (path : Path)
  /-- The process ends. -/
  | ended
  /-- The machine crashes. -/
  | crash

variable (zstd : Zstd)

/-- One step of the saves, of the recompactor, or of a reader; or an end of the process or a
crash. -/
def RawStep (state : RawState) : RawEvent → RawState → Prop
  | .save sample, next => state.saver = none ∧
      next = { state with saver := some (sample, saveRawSample zstd sample) }
  | .saver, next => ∃ sample script rest shelf, state.saver = some (sample, script) ∧
      script.Moves (saving sample) state.shelf rest shelf ∧
        next = { state with shelf := shelf, saver := some (sample, rest) }
  | .saved, next => ∃ sample, state.saver = some (sample, .done ()) ∧
      next = { state with
        saver := none
        completed := fun path => (state.completed path).or (sample.json path) }
  | .saveFailed, next => ∃ sample err, state.saver = some (sample, .fail err) ∧
      next = { state with saver := none }
  | .recompact, next => state.recompactor = none ∧
      next = { state with recompactor := some (recompactRawSamplesAt zstd) }
  | .recompactor, next => ∃ script rest shelf, state.recompactor = some script ∧
      script.Moves recompacting state.shelf rest shelf ∧
        next = { state with shelf := shelf, recompactor := some rest }
  | .recompacted, next => ((∃ outcome, state.recompactor = some (.done outcome)) ∨
      ∃ err, state.recompactor = some (.fail err)) ∧ next = { state with recompactor := none }
  | .read path, next => next = { state with
      cache := (readRawSampleFile zstd state.shelf.disk.look state.cache path).2 }
  | .ended, next => next = ⟨state.shelf, fun _ => none, none, none, state.completed⟩
  | .crash, next => ∃ disk, state.shelf.disk.Crashed disk ∧
      next = ⟨⟨disk, state.shelf.linked⟩, fun _ => none, none, none, state.completed⟩

/-- A save that finds its file there, and a cycle that finds a dictionary, take it as it is. This
step does not do so before the directory of the file is synced. -/
def RawState.Sure (state : RawState) : RawEvent → Prop
  | .saver => ∀ sample path next, state.saver = some (sample, .ask (.stat path) next) →
      state.shelf.disk.Synced path
  | .recompactor => ∀ next, state.recompactor = some (.ask (.read dictPath) next) →
      state.shelf.disk.Synced dictPath
  | _ => True

/-- A step that relies on no name that a crash could still take. -/
def SureStep (state : RawState) (event : RawEvent) (next : RawState) : Prop :=
  RawStep zstd state event next ∧ state.Sure event

/-- The JSON that a reader finds. -/
def RawState.read (state : RawState) (path : Path) : Except Error String :=
  readRawSample zstd state.shelf.disk.look state.cache path

end LolCrawler.Raw
