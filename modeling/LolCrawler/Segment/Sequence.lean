import LolCrawler.Foundation.Run
import LolCrawler.Segment.Reopen

/-! # Sequences of writes

A segment is written by `append` and `flush`, and by columnar blocks that are appended to it.
The ledger says what was written; the reader returns exactly that, and every entry of the index
finds its record, whatever is appended later (`sequence_round_trip`).
-/

namespace LolCrawler.Segment

open Foundation

variable {codecs : Codecs}

/-! ## Calls -/

/-- The calls that write to one segment. -/
inductive Call where
  | append (record : MatchRecord)
  | flush
  | columnar (raws : List Bytes) (level : Int)

/-- A writer and the files it writes to. -/
structure Session where
  writer : SegmentWriter
  files : Files File

namespace Session

/-- `open`, where the day has no files yet. -/
def opened : Session := ⟨.empty, (openFiles ⟨fun _ => none, .never, []⟩).2.files⟩

/-- Whether the call succeeds, and what it leaves. -/
def call (codecs : Codecs) (session : Session) : Call → Bool × Session
  | .append record => (true, { session with writer := session.writer.append record })
  | .flush =>
      match session.writer.flush codecs ⟨session.files, .never, []⟩ with
      | (.ok writer, world) => (true, ⟨writer, world.files⟩)
      | (.error _, world) => (false, { session with files := world.files })
  | .columnar raws level =>
      match writeColumnarBlock codecs .seg raws level ⟨session.files, .never, []⟩ with
      | (.ok _, world) => (true, { session with files := world.files })
      | (.error _, world) => (false, { session with files := world.files })

/-- The block that the call writes is within the reader's limits. -/
def Within (codecs : Codecs) (session : Session) : Call → Prop
  | .append _ => True
  | .flush => session.writer.Fits codecs
  | .columnar raws level => ∀ payload compressed,
      Columnar.encodeBlock codecs.decode raws = .ok payload →
      codecs.compress payload level = .ok compressed →
        compressed.length ≤ maxSegmentBlockBytes ∧ payload.length ≤ maxSegmentBlockBytes

end Session

/-- The records that wait in the writer, those of all written blocks, and the flushed ones. -/
structure Ledger where
  waiting : List MatchRecord
  records : List Bytes
  flushed : List MatchRecord

namespace Ledger

def empty : Ledger := ⟨[], [], []⟩

/-- A call that has succeeded. -/
def note (ledger : Ledger) : Call → Ledger
  | .append record => { ledger with waiting := ledger.waiting ++ [record] }
  | .flush =>
      { waiting := []
        records := ledger.records ++ ledger.waiting.map MatchRecord.encodeToVec
        flushed := ledger.flushed ++ ledger.waiting }
  | .columnar raws _ => { ledger with records := ledger.records ++ raws }

end Ledger

/-- One call, and the ledger of what it has done. -/
inductive SequenceStep (codecs : Codecs) : Session × Ledger → Call → Session × Ledger → Prop where
  | done {session after : Session} {ledger : Ledger} {call : Call}
      (within : session.Within codecs call) (run : session.call codecs call = (true, after)) :
      SequenceStep codecs (session, ledger) call (after, ledger.note call)
  | failed {session after : Session} {ledger : Ledger} {call : Call}
      (within : session.Within codecs call) (run : session.call codecs call = (false, after)) :
      SequenceStep codecs (session, ledger) call (after, ledger)

/-! ## What a call writes -/

/-- Without an I/O failure a flush appends its block and the entries. -/
theorem flush_runs {writer : SegmentWriter} {files : Files File} {seg idx compressed : Bytes}
    (present : files .seg = some seg) (indexed : files .idx = some idx)
    (nonempty : writer.pending ≠ [])
    (packed : codecs.compress writer.buf zstdLevel = .ok compressed) :
    ∃ after, Runs (writer.flush codecs) files .empty after ∧
      after .seg = some (seg ++ writer.block codecs compressed) ∧
      after .idx = some (idx ++ idxBytes (writer.entries seg.length)) := by
  have waiting : ¬ writer.pending.isEmpty = true := by simpa using nonempty
  have written : Runs (writer.writeBlock codecs seg.length compressed) files () _ :=
    (Runs.step (by simp [Op.needs, present])).bind <|
      (Runs.step (by simp [Op.needs, Op.apply, present])).bind <|
        (Runs.sync _).bind <|
          (Runs.step (by simp [Op.needs, Op.apply, indexed])).bind (Runs.sync _)
  unfold SegmentWriter.flush
  rw [if_neg waiting]
  refine ⟨_, (metadataLen_runs present).bind ((Runs.lift packed).bind (written.bind (.pure _))),
    ?_, ?_⟩
  · simp [Op.apply, present, SegmentWriter.block, containerBytes]
  · simp [Op.apply, indexed]

/-- An uncut flush appends its block and its entries, or it fails and changes no file. -/
theorem flush_calm {writer : SegmentWriter} {files : Files File} {seg idx : Bytes}
    (present : files .seg = some seg) (indexed : files .idx = some idx)
    (nonempty : writer.pending ≠ []) :
    (∃ compressed after, codecs.compress writer.buf zstdLevel = .ok compressed ∧
        Runs (writer.flush codecs) files .empty after ∧
        after .seg = some (seg ++ writer.block codecs compressed) ∧
        after .idx = some (idx ++ idxBytes (writer.entries seg.length))) ∨
      ∃ stop log,
        writer.flush codecs ⟨files, .never, []⟩ = (.error stop, ⟨files, .never, log⟩) := by
  cases packed : codecs.compress writer.buf zstdLevel with
  | error err =>
      right
      obtain ⟨log, measured⟩ := metadataLen_runs present []
      refine ⟨.failed err, log, ?_⟩
      rw [SegmentWriter.flush, if_neg (by simpa using nonempty), Fs.bind_of_ok measured, packed]
      rfl
  | ok compressed =>
      left
      obtain ⟨after, runs, here, there⟩ := flush_runs present indexed nonempty packed
      exact ⟨compressed, after, rfl, runs, here, there⟩

/-- Without an I/O failure a columnar block is appended, or nothing is changed. -/
theorem columnar_calm {files : Files File} {seg : Bytes} {raws : List Bytes} {level : Int}
    (present : files .seg = some seg)
    (within : ∀ payload compressed, Columnar.encodeBlock codecs.decode raws = .ok payload →
      codecs.compress payload level = .ok compressed →
        compressed.length ≤ maxSegmentBlockBytes ∧ payload.length ≤ maxSegmentBlockBytes) :
    (∃ payload compressed after, Columnar.encodeBlock codecs.decode raws = .ok payload ∧
        codecs.compress payload level = .ok compressed ∧
        Runs (writeColumnarBlock codecs .seg raws level) files seg.length after ∧
        after .seg = some (seg ++ containerBytes codecs colMagic payload.length compressed) ∧
        after .idx = files .idx) ∨
      ∃ stop log, writeColumnarBlock codecs .seg raws level ⟨files, .never, []⟩ =
        (.error stop, ⟨files, .never, log⟩) := by
  have length : (files .seg).elim 0 List.length = seg.length := by rw [present]; rfl
  have read : Runs (Fs.read File.seg) files (files File.seg) files := .read File.seg
  obtain ⟨log, looked⟩ := read []
  cases encoded : Columnar.encodeBlock codecs.decode raws with
  | error err =>
      right
      refine ⟨.failed err, log, ?_⟩
      rw [writeColumnarBlock, Fs.bind_of_ok looked, encoded]
      rfl
  | ok payload =>
      cases packed : codecs.compress payload level with
      | error err =>
          right
          refine ⟨.failed err, log, ?_⟩
          have lifted : Fs.lift (.ok payload) ⟨files, .never, log⟩ =
              (.ok payload, ⟨files, .never, log⟩) := rfl
          rw [writeColumnarBlock, Fs.bind_of_ok looked, encoded, Fs.bind_of_ok lifted, packed]
          rfl
      | ok compressed =>
          left
          obtain ⟨clen, ulen⟩ := within payload compressed encoded packed
          unfold maxSegmentBlockBytes at clen ulen
          have small : tryU32 compressed.length "compressed block exceeds u32" =
              .ok (.ofNat compressed.length) := tryU32_eq_ok.mpr ⟨by omega, rfl⟩
          have small' : tryU32 payload.length "uncompressed block exceeds u32" =
              .ok (.ofNat payload.length) := tryU32_eq_ok.mpr ⟨by omega, rfl⟩
          have written : Runs (writeContainerBlock codecs .seg colMagic payload compressed)
              files () _ :=
            (Runs.lift small).bind <| (Runs.lift small').bind <|
              (Runs.step (by simp [Op.needs, present])).bind
                (Runs.step (by simp [Op.needs, Op.apply, present]))
          have whole : Runs (writeColumnarBlock codecs .seg raws level) files
              ((files .seg).elim 0 List.length) _ :=
            read.bind ((Runs.lift encoded).bind ((Runs.lift packed).bind (written.bind (.pure _))))
          rw [length] at whole
          refine ⟨payload, compressed, _, rfl, packed, whole, ?_, ?_⟩
          · simp [Op.apply, present, containerBytes]
          · simp [Op.apply]

/-! ## What is read back -/

/-- The entry carries the record's game, and finds the record. -/
structure Locates (codecs : Codecs) (seg : Bytes) (record : MatchRecord) (entry : IdxEntry) :
    Prop where
  game : entry.gameId = record.gameId
  found : readRecordAt codecs seg entry.blockOff.toNat entry.recOff = .ok record.encodeToVec

/-- What is appended to a segment moves no record. -/
theorem readRecordAt_append {seg : Bytes} {blockOff : Nat} {recOff : UInt32} {raw : Bytes}
    (found : readRecordAt codecs seg blockOff recOff = .ok raw) (tail : Bytes) :
    readRecordAt codecs (seg ++ tail) blockOff recOff = .ok raw := by
  obtain ⟨here, read, located⟩ := bind_eq_ok.mp found
  cases here with
  | none => cases located
  | some block =>
      have inside := (readSegmentBlock_advances read).2.1
      have same : seg.take seg.length = (seg ++ tail).take seg.length := by
        rw [List.take_left, List.take_length]
      have longer : readSegmentBlock codecs (seg ++ tail) blockOff true = .ok (some block) :=
        readSegmentBlock_congr read same inside (by rw [List.length_append]; omega)
      simp only [readRecordAt, longer, ok_bind, Option.elim_some]
      exact located

/-- A record is found also when the segment has grown. -/
theorem Locates.append {seg : Bytes} {record : MatchRecord} {entry : IdxEntry}
    (locates : Locates codecs seg record entry) (tail : Bytes) :
    Locates codecs (seg ++ tail) record entry :=
  ⟨locates.game, readRecordAt_append locates.found tail⟩

/-- The pending entries name the offsets of the rows. -/
theorem pending_eq (records : List MatchRecord) :
    ∀ writer : SegmentWriter, (writer.appendAll records).pending = writer.pending ++
      (records.map MatchRecord.gameId).zip
        (rowOffsets writer.buf.length (records.map MatchRecord.encodeToVec)) := by
  induction records with
  | nil => exact fun writer => (List.append_nil _).symm
  | cons record records ih =>
      intro writer
      have longer : (writer.append record).buf.length =
          writer.buf.length + 4 + record.encodeToVec.length := by
        simp [SegmentWriter.append, rowBytes]
        omega
      rw [SegmentWriter.appendAll, List.foldl_cons, ← SegmentWriter.appendAll, ih, longer,
        SegmentWriter.append, List.append_assoc]
      rfl

/-- The entries of a flushed block locate its records. -/
theorem locates_rowBlock (lossless : codecs.Lossless) {seg compressed : Bytes}
    {records : List MatchRecord}
    (block : RowBlock codecs (records.map MatchRecord.encodeToVec) compressed)
    (small : (seg ++ rowBlockBytes codecs (records.map MatchRecord.encodeToVec)
      compressed).length < 2 ^ 63) :
    List.Forall₂ (Locates codecs
        (seg ++ rowBlockBytes codecs (records.map MatchRecord.encodeToVec) compressed))
      records ((SegmentWriter.empty.appendAll records).entries seg.length) := by
  have read := readSegmentBlock_rowBlock lossless block small
  have counts : records.length =
      (rowOffsets 0 (records.map MatchRecord.encodeToVec)).length := by
    have counts := readSegmentBlock_counts read
    rwa [rowBlockOf, List.length_map] at counts
  have start : (UInt64.ofNat seg.length).toNat = seg.length := by
    rw [List.length_append] at small
    exact UInt64.toNat_ofNat_of_lt' (by unfold UInt64.size; omega)
  have pending : (SegmentWriter.empty.appendAll records).pending =
      (records.map MatchRecord.gameId).zip
        (rowOffsets 0 (records.map MatchRecord.encodeToVec)) := pending_eq records .empty
  rw [SegmentWriter.entries, pending, List.forall₂_iff_get]
  have length : (records.map MatchRecord.gameId).length =
      (rowOffsets 0 (records.map MatchRecord.encodeToVec)).length := by
    rw [List.length_map, counts]
  refine ⟨?_, fun idx inside inside' => ?_⟩
  · rw [List.length_map, List.length_zip, length, Nat.min_self, counts]
  simp only [List.get_eq_getElem, List.getElem_map, List.getElem_zip]
  have record : (rowBlockOf seg (records.map MatchRecord.encodeToVec) compressed).records[idx]? =
      some records[idx].encodeToVec := by
    simp [rowBlockOf, inside]
  refine ⟨rfl, ?_⟩
  rw [start]
  exact readRecordAt_of_block read record (List.getElem?_eq_getElem _)

/-- A columnar block is read back. -/
theorem readSegmentBlock_columnar (lossless : codecs.Lossless) {seg payload compressed : Bytes}
    {raws : List Bytes} {level : Int}
    (encoded : Columnar.encodeBlock codecs.decode raws = .ok payload)
    (packed : codecs.compress payload level = .ok compressed)
    (clen : compressed.length ≤ maxSegmentBlockBytes) (ulen : payload.length ≤ maxSegmentBlockBytes)
    (small : (seg ++ containerBytes codecs colMagic payload.length compressed).length < 2 ^ 63) :
    ∃ block, readSegmentBlock codecs
        (seg ++ containerBytes codecs colMagic payload.length compressed) seg.length true =
          .ok (some block) ∧
      block.records = raws ∧
      block.nextOff = (seg ++ containerBytes codecs colMagic payload.length compressed).length := by
  have here : (seg ++ containerBytes codecs colMagic payload.length compressed).drop seg.length =
      containerBytes codecs colMagic payload.length compressed ++ [] := by
    rw [List.drop_left, List.append_nil]
  have framed := framed_container here small (by simp) rfl clen ulen (lossless _ _ _ packed)
  have columns := Columnar.decodeBlock_of_encodeBlock encoded
  refine ⟨⟨.columnar, seg.length, seg.length + blockHeaderLen + compressed.length, raws, _⟩,
    readSegmentBlock_eq_some.mpr ⟨_, _, framed, decodeBody_columnar.mpr
      ⟨columns, (ordinals_decodeBlock framed columns).2⟩, rfl, rfl⟩, rfl, ?_⟩
  rw [List.length_append, containerBytes, List.length_append, headerBytes_length, Nat.add_assoc]

/-- A readable block behind a readable segment. -/
theorem Walk.snoc {seg tail : Bytes} {blocks : List SegmentBlock} {block : SegmentBlock}
    (walk : Walk codecs seg 0 blocks seg.length)
    (read : readSegmentBlock codecs (seg ++ tail) seg.length true = .ok (some block))
    (next : block.nextOff = (seg ++ tail).length) :
    Walk codecs (seg ++ tail) 0 (blocks ++ [block]) (seg ++ tail).length := by
  refine (walk.congr (Nat.zero_le _) ?_ ?_).append (.step read ?_)
  · rw [List.take_left, List.take_length]
  · simp
  · rw [next]
    exact .done _

/-! ## Whole sequences -/

/-- The files hold what the ledger says, and the index locates every flushed record. -/
structure Recorded (codecs : Codecs) (session : Session) (ledger : Ledger) (seg : Bytes)
    (entries : List IdxEntry) : Prop where
  writer : session.writer = SegmentWriter.empty.appendAll ledger.waiting
  present : session.files .seg = some seg
  indexed : session.files .idx = some (idxBytes entries)
  walked : seg.length < 2 ^ 63 → ∃ blocks, Walk codecs seg 0 blocks seg.length ∧
    recordsOf blocks = ledger.records
  located : seg.length < 2 ^ 63 → List.Forall₂ (Locates codecs seg) ledger.flushed entries

/-- A segment that was just opened is recorded. -/
theorem recorded_opened (codecs : Codecs) :
    Recorded codecs .opened .empty [] [] where
  writer := rfl
  present := rfl
  indexed := rfl
  walked _ := ⟨[], .done 0, rfl⟩
  located _ := .nil

/-- An index is appended to another. -/
theorem idxBytes_append (first second : List IdxEntry) :
    idxBytes (first ++ second) = idxBytes first ++ idxBytes second :=
  List.flatMap_append

/-- Records are appended one by one. -/
theorem appendAll_concat (records : List MatchRecord) (record : MatchRecord)
    (writer : SegmentWriter) :
    writer.appendAll (records ++ [record]) = (writer.appendAll records).append record := by
  rw [SegmentWriter.appendAll, List.foldl_append, ← SegmentWriter.appendAll]
  rfl

namespace Recorded

variable {session after : Session} {ledger : Ledger} {seg : Bytes} {entries : List IdxEntry}

/-- A readable block is appended, with the entries of the records that it adds to the index. -/
theorem extend (recorded : Recorded codecs session ledger seg entries) {tail : Bytes}
    {added : List IdxEntry} {ledger' : Ledger} {block : SegmentBlock} {records : List MatchRecord}
    (writer : after.writer = SegmentWriter.empty.appendAll ledger'.waiting)
    (present : after.files .seg = some (seg ++ tail))
    (indexed : after.files .idx = some (idxBytes entries ++ idxBytes added))
    (noted : ledger'.records = ledger.records ++ block.records)
    (flushed : ledger'.flushed = ledger.flushed ++ records)
    (read : (seg ++ tail).length < 2 ^ 63 →
      readSegmentBlock codecs (seg ++ tail) seg.length true = .ok (some block) ∧
        block.nextOff = (seg ++ tail).length ∧
        List.Forall₂ (Locates codecs (seg ++ tail)) records added) :
    Recorded codecs after ledger' (seg ++ tail) (entries ++ added) where
  writer := writer
  present := present
  indexed := by rw [indexed, idxBytes_append]
  walked small := by
    obtain ⟨block', next, -⟩ := read small
    obtain ⟨blocks, walk, records⟩ := recorded.walked (by rw [List.length_append] at small; omega)
    refine ⟨_, walk.snoc block' next, ?_⟩
    rw [recordsOf, List.flatMap_append, ← recordsOf, records, noted, List.flatMap_singleton]
  located small := by
    have before := recorded.located (by rw [List.length_append] at small; omega)
    rw [flushed]
    exact List.rel_append (before.imp fun _ _ locates => locates.append tail) (read small).2.2

/-- A call that changes neither the files nor the ledger's blocks. -/
theorem keep (recorded : Recorded codecs session ledger seg entries) {ledger' : Ledger}
    (writer : after.writer = SegmentWriter.empty.appendAll ledger'.waiting)
    (files : after.files = session.files) (records : ledger'.records = ledger.records)
    (flushed : ledger'.flushed = ledger.flushed) : Recorded codecs after ledger' seg entries where
  writer := writer
  present := by rw [files, recorded.present]
  indexed := by rw [files, recorded.indexed]
  walked := by rw [records]; exact recorded.walked
  located := by rw [flushed]; exact recorded.located

/-- A flush writes the records that wait, or nothing. -/
theorem flush (lossless : codecs.Lossless) (recorded : Recorded codecs session ledger seg entries)
    (fits : session.writer.Fits codecs) {returned : Bool}
    (run : session.call codecs .flush = (returned, after)) :
    ∃ tail added, Recorded codecs after (if returned then ledger.note .flush else ledger)
      (seg ++ tail) (entries ++ added) := by
  unfold Session.call at run
  by_cases pending : session.writer.pending = []
  · have none : ledger.waiting = [] := by
      have count := pending_appendAll ledger.waiting .empty
      rw [← recorded.writer, pending] at count
      exact List.length_eq_zero_iff.mp (by simp [SegmentWriter.empty] at count; omega)
    have still : session.writer.flush codecs ⟨session.files, .never, []⟩ =
        (.ok session.writer, ⟨session.files, .never, []⟩) := by
      rw [SegmentWriter.flush, pending]
      rfl
    rw [still] at run
    cases run
    refine ⟨[], [], ?_⟩
    rw [List.append_nil, List.append_nil]
    refine recorded.keep ?_ rfl ?_ ?_
    · rw [recorded.writer, none]
      rfl
    · simp [Ledger.note, none]
    · simp [Ledger.note, none]
  · rcases flush_calm recorded.present recorded.indexed pending with
      ⟨compressed, files, packed, runs, present, indexed⟩ | ⟨stop, log, failed⟩
    · obtain ⟨log, done⟩ := runs []
      rw [done] at run
      cases run
      rw [recorded.writer] at packed present indexed fits
      obtain ⟨row, block⟩ := rowBlock_of_fits fits packed
      rw [block] at present
      have read (small : (seg ++ rowBlockBytes codecs
          (ledger.waiting.map MatchRecord.encodeToVec) compressed).length < 2 ^ 63) :=
        And.intro (readSegmentBlock_rowBlock lossless row small)
          (And.intro (rowBlockOf_nextOff codecs seg
            (ledger.waiting.map MatchRecord.encodeToVec) compressed)
            (locates_rowBlock lossless row small))
      exact ⟨_, _, recorded.extend rfl present indexed rfl rfl read⟩
    · rw [failed] at run
      cases run
      refine ⟨[], [], ?_⟩
      rw [List.append_nil, List.append_nil]
      exact recorded.keep recorded.writer rfl rfl rfl

/-- A columnar block is appended, or nothing is. -/
theorem columnar (lossless : codecs.Lossless)
    (recorded : Recorded codecs session ledger seg entries) {raws : List Bytes} {level : Int}
    (within : session.Within codecs (.columnar raws level)) {returned : Bool}
    (run : session.call codecs (.columnar raws level) = (returned, after)) :
    ∃ tail added, Recorded codecs after
      (if returned then ledger.note (.columnar raws level) else ledger)
      (seg ++ tail) (entries ++ added) := by
  rcases columnar_calm recorded.present within with
    ⟨payload, compressed, files, encoded, packed, runs, present, indexed⟩ | ⟨stop, log, failed⟩
  · obtain ⟨log, done⟩ := runs []
    rw [Session.call, done] at run
    cases run
    obtain ⟨clen, ulen⟩ := within payload compressed encoded packed
    refine ⟨containerBytes codecs colMagic payload.length compressed, [], ?_⟩
    have indexed' : files .idx = some (idxBytes entries ++ idxBytes []) := by
      rw [indexed, recorded.indexed, ← idxBytes_append, List.append_nil]
    by_cases small : (seg ++ containerBytes codecs colMagic payload.length compressed).length <
        2 ^ 63
    · obtain ⟨block, read, rfl, next⟩ :=
        readSegmentBlock_columnar lossless encoded packed clen ulen small
      exact recorded.extend recorded.writer present indexed' rfl (List.append_nil _).symm
        fun _ => ⟨read, next, .nil⟩
    · have indexed : files .idx = some (idxBytes (entries ++ [])) := by
        rw [indexed, recorded.indexed, List.append_nil]
      exact ⟨recorded.writer, present, indexed, fun here => absurd here small,
        fun here => absurd here small⟩
  · rw [Session.call, failed] at run
    cases run
    refine ⟨[], [], ?_⟩
    rw [List.append_nil, List.append_nil]
    exact recorded.keep recorded.writer rfl rfl rfl

/-- Every call keeps the files and the ledger together. -/
theorem step (lossless : codecs.Lossless) (recorded : Recorded codecs session ledger seg entries)
    {call : Call} {ledger' : Ledger}
    (step : SequenceStep codecs (session, ledger) call (after, ledger')) :
    ∃ tail added, Recorded codecs after ledger' (seg ++ tail) (entries ++ added) := by
  have noted : ∃ returned, session.Within codecs call ∧
      session.call codecs call = (returned, after) ∧
      ledger' = if returned then ledger.note call else ledger := by
    cases step with
    | done within run => exact ⟨true, within, run, rfl⟩
    | failed within run => exact ⟨false, within, run, rfl⟩
  obtain ⟨returned, within, run, rfl⟩ := noted
  cases call with
  | append record =>
      cases run
      refine ⟨[], [], ?_⟩
      rw [List.append_nil, List.append_nil]
      refine recorded.keep ?_ rfl rfl rfl
      simp only [Ledger.note, if_true, appendAll_concat, recorded.writer]
  | flush => exact recorded.flush lossless within run
  | columnar raws level => exact recorded.columnar lossless within run

/-- Whole sequences keep the files and the ledger together. -/
theorem run (lossless : codecs.Lossless) {calls : List Call} {source target : Session × Ledger}
    (run : Run (SequenceStep codecs) source calls target) :
    ∀ {seg : Bytes} {entries : List IdxEntry},
      Recorded codecs source.1 source.2 seg entries →
        ∃ tail added, Recorded codecs target.1 target.2 (seg ++ tail) (entries ++ added) := by
  induction run with
  | nil state =>
      intro seg entries recorded
      exact ⟨[], [], by rw [List.append_nil, List.append_nil]; exact recorded⟩
  | cons first _ ih =>
      intro seg entries recorded
      obtain ⟨tail, added, recorded⟩ := recorded.step lossless first
      obtain ⟨tail', added', recorded⟩ := ih recorded
      refine ⟨tail ++ tail', added ++ added', ?_⟩
      rw [← List.append_assoc, ← List.append_assoc]
      exact recorded

end Recorded

/-- **Round trip.** The segment reads back to what was written, in order, and every entry of the
index finds the record that was flushed with its game. -/
theorem sequence_round_trip (codecs : Codecs) (lossless : codecs.Lossless) (calls : List Call)
    (session : Session) (ledger : Ledger)
    (run : Run (SequenceStep codecs) (.opened, .empty) calls (session, ledger)) (seg : Bytes)
    (present : session.files .seg = some seg) (small : seg.length < 2 ^ 63) :
    readSegmentRecords codecs seg = .ok ledger.records ∧
      ∃ idx entries, session.files .idx = some idx ∧ parseIdxEntries idx = some entries ∧
        List.Forall₂ (Locates codecs seg) ledger.flushed entries := by
  obtain ⟨seg', entries, recorded⟩ := Recorded.run lossless run (recorded_opened codecs)
  rw [List.nil_append, List.nil_append] at recorded
  have same := recorded.present
  rw [present, Option.some.injEq] at same
  subst same
  obtain ⟨blocks, walk, records⟩ := recorded.walked small
  refine ⟨by rw [readSegmentRecords_of_walk walk, records], _, entries, recorded.indexed,
    parseIdxEntries_idxBytes entries, recorded.located small⟩

/-! ## Blocks of both kinds -/

/-- `Within`, computed. -/
def Session.withinLimits (codecs : Codecs) (session : Session) : Call → Bool
  | .append _ => true
  | .flush => session.writer.buf.length ≤ maxSegmentBlockBytes &&
      (codecs.compress session.writer.buf zstdLevel).toOption.all
        (·.length ≤ maxSegmentBlockBytes)
  | .columnar raws level =>
      (Columnar.encodeBlock codecs.decode raws).toOption.all fun payload =>
        payload.length ≤ maxSegmentBlockBytes &&
          (codecs.compress payload level).toOption.all (·.length ≤ maxSegmentBlockBytes)

/-- A session within its limits may make the call. -/
theorem Session.within_of_limits {session : Session} {call : Call}
    (limits : session.withinLimits codecs call = true) : session.Within codecs call := by
  cases call with
  | append record => trivial
  | flush =>
      obtain ⟨raw, packed⟩ := Bool.and_eq_true_iff.mp limits
      refine ⟨of_decide_eq_true raw, fun compressed here => ?_⟩
      rw [here] at packed
      exact of_decide_eq_true packed
  | columnar raws level =>
      intro payload compressed encoded here
      rw [Session.withinLimits, encoded] at limits
      obtain ⟨raw, packed⟩ := Bool.and_eq_true_iff.mp limits
      rw [here] at packed
      exact ⟨of_decide_eq_true packed, of_decide_eq_true raw⟩

/-- A call, and its entry in the ledger. -/
def advance (codecs : Codecs) (state : Session × Ledger) (call : Call) :
    Option (Session × Ledger) :=
  let (returned, after) := state.1.call codecs call
  some (after, if returned then state.2.note call else state.2)

/-- A step that can be computed is a step. -/
theorem sequenceStep_of_advance {source target : Session × Ledger} {call : Call}
    (step : advance codecs source call = some target ∧ source.1.withinLimits codecs call) :
    SequenceStep codecs source call target := by
  obtain ⟨advanced, limits⟩ := step
  have within := Session.within_of_limits limits
  cases run : source.1.call codecs call with
  | mk returned after =>
      rw [advance, run] at advanced
      cases advanced
      cases returned with
      | false => exact .failed within run
      | true => exact .done within run

/-- A row block, a flush of nothing, a columnar block, and a row block behind it. -/
def mixedCalls : List Call :=
  [.append shortRecord, .append shortRecord, .flush, .flush,
    .columnar [shortRecord.encodeToVec] columnarRecompactZstdLevel, .append shortRecord, .flush]

/-- The session's segment has this length, and its ledger these counts. -/
def Session.measures (segLen records flushed : Nat) (state : Session × Ledger) : Bool :=
  (state.1.files .seg).map List.length = some segLen && state.2.records.length = records &&
    state.2.flushed.length = flushed

/-- Four records are read back from three blocks, and three of them are indexed. -/
theorem sequence_round_trip_mixed :
    ∃ session ledger, Run (SequenceStep shortCodecs) (.opened, .empty) mixedCalls
        (session, ledger) ∧ ledger.records.length = 4 ∧ ledger.flushed.length = 3 ∧
      ∃ seg, session.files .seg = some seg ∧
        (readSegmentRecords shortCodecs seg = .ok ledger.records ∧
          ∃ idx entries, session.files .idx = some idx ∧ parseIdxEntries idx = some entries ∧
            List.Forall₂ (Locates shortCodecs seg) ledger.flushed entries) := by
  have done : (follow (advance shortCodecs)
      (fun state call => state.1.withinLimits shortCodecs call) (Session.opened, Ledger.empty)
      mixedCalls).any (Session.measures 186 4 3) := by
    decide +kernel
  obtain ⟨⟨session, ledger⟩, computed, measured⟩ := run_of_follow done
  have run := computed.mono fun _ _ _ => sequenceStep_of_advance
  simp only [Session.measures, Bool.and_eq_true, decide_eq_true_eq] at measured
  obtain ⟨⟨length, records⟩, flushed⟩ := measured
  obtain ⟨seg, present, length⟩ := Option.map_eq_some_iff.mp length
  exact ⟨session, ledger, run, records, flushed, seg, present,
    sequence_round_trip shortCodecs (storedCodecs_lossless _) mixedCalls session ledger run seg
      present (by omega)⟩

end LolCrawler.Segment
