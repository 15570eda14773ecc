import LolCrawler.Segment.Sequence

/-! # The index across crashes

A crash inside `flush` leaves each file what is synced and some of the bytes behind it. The
index is written once the block is synced, so a part of the block is cut off when the segment is
reopened. The index itself is reopened as it is: it stays usable exactly as long as every crash
leaves a whole number of entries (`idx_usable`).
-/

namespace LolCrawler.Segment

open Foundation

variable {codecs : Codecs}

/-! ## A flush that is cut short -/

/-- What a crash before the operation at `point` of a flush leaves. -/
def flushCut (codecs : Codecs) (writer : SegmentWriter) (files : Files File) (point : Nat)
    (kept : File → Nat) : Files File :=
  let world := (writer.flush codecs ⟨files, .crash point, []⟩).2
  crashLeaves world.files (syncedBy files world.log) kept

/-- A part of the block, or the block and a part of the entries. -/
inductive Cuts (codecs : Codecs) (writer : SegmentWriter) (seg idx : Bytes) (files : Files File) :
    Prop where
  | block {compressed : Bytes} (written : Nat)
      (packed : codecs.compress writer.buf zstdLevel = .ok compressed)
      (here : files .seg = some (seg ++ (writer.block codecs compressed).take written))
      (indexed : files .idx = some idx)
  | entries {compressed : Bytes} (written : Nat)
      (packed : codecs.compress writer.buf zstdLevel = .ok compressed)
      (here : files .seg = some (seg ++ writer.block codecs compressed))
      (indexed : files .idx =
        some (idx ++ (idxBytes (writer.entries seg.length)).take written))
  | nothing (here : files .seg = some seg) (indexed : files .idx = some idx)

section Cut

variable {writer : SegmentWriter} {files : Files File} {seg idx : Bytes}

/-- What is synced is kept. -/
theorem take_synced (bytes rest : Bytes) (kept : Nat) :
    (bytes ++ rest).take (bytes.length + kept) = bytes ++ rest.take kept :=
  List.take_length_add_append kept

/-- After a crash the synced bytes are left, and some of the others. -/
theorem crashLeaves_eq {now safe : Files File} {path : File} {bytes rest : Bytes}
    (here : now path = some (bytes ++ rest)) (synced : safe path = some bytes)
    (kept : File → Nat) :
    crashLeaves now safe kept path = some (bytes ++ rest.take (kept path)) := by
  rw [crashLeaves, here, synced, Option.map_some, Option.elim_some, take_synced]

/-- A crash that nothing was written before. -/
theorem crashLeaves_same {now safe : Files File} {path : File} {bytes : Bytes}
    (here : now path = some bytes) (synced : safe path = some bytes) (kept : File → Nat) :
    crashLeaves now safe kept path = some bytes := by
  rw [crashLeaves_eq (by rw [List.append_nil]; exact here) synced, List.take_nil, List.append_nil]

/-- The operations of a flush. -/
def flushOps (codecs : Codecs) (writer : SegmentWriter) (blockOff : Nat) (compressed : Bytes) :
    List (Op File) :=
  [.observe, .write .seg (headerBytes codecs segMagic writer.buf.length compressed),
    .write .seg compressed, .sync .seg, .write .idx (idxBytes (writer.entries blockOff)),
    .sync .idx]

/-- A flush that is cut has performed its operations up to the crash. -/
theorem flush_cut {compressed : Bytes} (present : files .seg = some seg)
    (indexed : files .idx = some idx) (pending : writer.pending.isEmpty = false)
    (packed : codecs.compress writer.buf zstdLevel = .ok compressed) (point : Nat) :
    let world := (writer.flush codecs ⟨files, .crash point, []⟩).2
    let ops := (flushOps codecs writer seg.length compressed).take point
    world.files = ops.foldl Op.apply files ∧ world.log = ops := by
  rcases point with _ | _ | _ | _ | _ | _ | point
  all_goals
    simp [flushOps, SegmentWriter.flush, pending, metadataLen, Fs.openFile, Fs.read, Fs.step, bind,
      Cut.next, Fs.look, present, indexed, packed, Fs.lift, pure, Op.needs, Op.apply,
      SegmentWriter.writeBlock]

/-- **Crashes inside a flush.** They cut the block, or the entries behind a whole block. -/
theorem flushCut_cuts (present : files .seg = some seg) (indexed : files .idx = some idx)
    (point : Nat) (kept : File → Nat) :
    Cuts codecs writer seg idx (flushCut codecs writer files point kept) := by
  cases pending : writer.pending.isEmpty with
  | true =>
      rw [flushCut, SegmentWriter.flush, pending, if_pos rfl]
      exact .nothing (crashLeaves_same present present kept) (crashLeaves_same indexed indexed kept)
  | false =>
      cases packed : codecs.compress writer.buf zstdLevel with
      | error err =>
          have still : (writer.flush codecs ⟨files, .crash point, []⟩).2.files = files ∧
              syncedBy files (writer.flush codecs ⟨files, .crash point, []⟩).2.log = files := by
            cases point <;> simp [SegmentWriter.flush, pending, metadataLen, Fs.openFile, Fs.read,
              Fs.step, bind, Cut.next, Fs.look, present, packed, Fs.lift, Fs.fail, pure, Op.needs,
              Op.apply, syncedBy, Cached.perform]
          rw [flushCut, still.1, still.2]
          exact .nothing (crashLeaves_same present present kept)
            (crashLeaves_same indexed indexed kept)
      | ok compressed =>
          obtain ⟨now, log⟩ := flush_cut present indexed pending packed point
          rw [flushCut, now, log]
          have header : (headerBytes codecs segMagic writer.buf.length compressed).take
              (kept .seg) = (writer.block codecs compressed).take
                (min (kept .seg)
                  (headerBytes codecs segMagic writer.buf.length compressed).length) := by
            rw [SegmentWriter.block, containerBytes, ← List.take_take, List.take_left]
          -- One case for each operation that the crash comes before.
          rcases point with _ | _ | _ | _ | _ | _ | point
          · exact .nothing (crashLeaves_same present present kept)
              (crashLeaves_same indexed indexed kept)
          · exact .nothing (crashLeaves_same present present kept)
              (crashLeaves_same indexed indexed kept)
          · refine .block (min (kept .seg)
              (headerBytes codecs segMagic writer.buf.length compressed).length) packed ?_
              (crashLeaves_same ?_ ?_ kept)
            · rw [← header]
              exact crashLeaves_eq (by simp [flushOps, Op.apply, present]) present kept
            · simp [flushOps, Op.apply, indexed]
            · simp [flushOps, syncedBy, Cached.perform, indexed]
          · refine .block (kept .seg) packed ?_ (crashLeaves_same ?_ ?_ kept)
            · refine crashLeaves_eq ?_ present kept
              simp [flushOps, Op.apply, present, SegmentWriter.block, containerBytes]
            · simp [flushOps, Op.apply, indexed]
            · simp [flushOps, syncedBy, Cached.perform, indexed]
          · refine .entries 0 packed (crashLeaves_same ?_ ?_ kept) ?_
            · simp [flushOps, Op.apply, present, SegmentWriter.block, containerBytes]
            · simp [flushOps, syncedBy, Cached.perform, Op.apply, present, SegmentWriter.block,
                containerBytes]
            · rw [List.take_zero, List.append_nil]
              refine crashLeaves_same ?_ ?_ kept
              · simp [flushOps, Op.apply, indexed]
              · simp [flushOps, syncedBy, Cached.perform, indexed]
          · refine .entries (kept .idx) packed (crashLeaves_same ?_ ?_ kept)
              (crashLeaves_eq ?_ ?_ kept)
            · simp [flushOps, Op.apply, present, SegmentWriter.block, containerBytes]
            · simp [flushOps, syncedBy, Cached.perform, Op.apply, present, SegmentWriter.block,
                containerBytes]
            · simp [flushOps, Op.apply, indexed]
            · simp [flushOps, syncedBy, Cached.perform, indexed]
          · refine .entries _ packed (crashLeaves_same ?_ ?_ kept)
              ((crashLeaves_same ?_ ?_ kept).trans (by rw [List.take_length]))
            · simp [flushOps, Op.apply, present, SegmentWriter.block, containerBytes]
            · simp [flushOps, syncedBy, Cached.perform, Op.apply, present, SegmentWriter.block,
                containerBytes]
            · simp [flushOps, Op.apply, indexed]
            · simp [flushOps, syncedBy, Cached.perform, Op.apply, indexed]

end Cut

/-! ## Flushes, crashes and reopenings -/

/-- The writer, unless the program is down, and the files. -/
structure Machine where
  writer : Option SegmentWriter
  files : Files File

/-- What happens to a segment and its index. -/
inductive Event where
  | append (record : MatchRecord)
  | flush
  | crash (point : Nat) (kept : File → Nat)
  | reopen

namespace Machine

/-- `open`, where the day has no files yet. -/
def opened : Machine := ⟨some .empty, Session.opened.files⟩

/-- The file system does not fail. -/
def next (codecs : Codecs) (machine : Machine) : Event → Option Machine
  | .append record =>
      machine.writer.map fun writer => { machine with writer := some (writer.append record) }
  | .flush =>
      machine.writer.map fun writer =>
        let after := (Session.call codecs ⟨writer, machine.files⟩ .flush).2
        ⟨some after.writer, after.files⟩
  | .crash point kept =>
      machine.writer.map fun writer => ⟨none, flushCut codecs writer machine.files point kept⟩
  | .reopen =>
      match machine.writer, openFiles ⟨machine.files, .never, []⟩ with
      | none, (.ok (), world) => some ⟨some .empty, world.files⟩
      | _, _ => none

/-- A segment fits the file system, and what a flush writes the reader's limits. -/
def withinLimits (codecs : Codecs) (machine : Machine) : Event → Bool
  | .append _ | .reopen => true
  | .flush | .crash _ _ => machine.writer.all fun writer =>
      Session.withinLimits codecs ⟨writer, machine.files⟩ .flush

def length (machine : Machine) (path : File) : Nat := (machine.files path).elim 0 List.length

/-- The crash leaves a whole number of the entries that it was to write. -/
def wholeEntries (codecs : Codecs) (machine : Machine) (event : Event) : Bool :=
  match event with
  | .append _ | .flush | .reopen => true
  | .crash _ _ => (machine.next codecs event).all fun after =>
      (after.length .idx - machine.length .idx) % idxEntryLen = 0

end Machine

/-- One event, within the limits of the reader and of the file system. -/
structure CrashStep (codecs : Codecs) (machine : Machine) (event : Event) (after : Machine) :
    Prop where
  next : machine.next codecs event = some after
  within : machine.withinLimits codecs event = true
  small : after.length .seg < 2 ^ 63

/-- A crash leaves whole entries. -/
structure WholeStep (codecs : Codecs) (machine : Machine) (event : Event) (after : Machine) :
    Prop extends CrashStep codecs machine event after where
  whole : machine.wholeEntries codecs event = true

/-- The index parses, and every entry finds a record of its game. -/
def Usable (codecs : Codecs) (files : Files File) : Prop :=
  ∃ seg idx entries, files .seg = some seg ∧ files .idx = some idx ∧
    parseIdxEntries idx = some entries ∧
      ∀ entry ∈ entries, ∃ record, Locates codecs seg record entry

/-! ## What holds between two crashes -/

/-- A part of a block. -/
inductive TornBlock (codecs : Codecs) : Bytes → Prop where
  | part {ulen written : Nat} {compressed : Bytes} (clen : compressed.length < 2 ^ 32)
      (small : ulen < 2 ^ 32)
      (short : written < (containerBytes codecs segMagic ulen compressed).length) :
      TornBlock codecs ((containerBytes codecs segMagic ulen compressed).take written)

/-- No block at all counts as torn. -/
theorem tornBlock_nil : TornBlock codecs [] := by
  have short : 0 < (containerBytes codecs segMagic 0 []).length := by
    rw [containerBytes, List.length_append, headerBytes_length]
    decide
  have torn := TornBlock.part (by decide) (by decide) short
  rwa [List.take_zero] at torn

/-- The segment up to a torn block, and the index. -/
def cutOff (files : Files File) (seg : Bytes) : Files File
  | .seg => some seg
  | file => files file

/-- What a crash leaves: behind the torn block everything is recorded. -/
structure Down (codecs : Codecs) (files : Files File) (ledger : Ledger) (seg torn : Bytes)
    (entries : List IdxEntry) : Prop where
  present : files .seg = some (seg ++ torn)
  part : TornBlock codecs torn
  recorded : Recorded codecs ⟨.empty, cutOff files seg⟩ ledger seg entries

/-- The machine is up and its files are recorded, or it is down. -/
inductive Settled (codecs : Codecs) : Machine → Prop where
  | up {writer : SegmentWriter} {files : Files File} {ledger : Ledger} {seg : Bytes}
      {entries : List IdxEntry} (recorded : Recorded codecs ⟨writer, files⟩ ledger seg entries)
      (small : seg.length < 2 ^ 63) : Settled codecs ⟨some writer, files⟩
  | down {files : Files File} {ledger : Ledger} {seg torn : Bytes} {entries : List IdxEntry}
      (down : Down codecs files ledger seg torn entries) (small : (seg ++ torn).length < 2 ^ 63) :
      Settled codecs ⟨none, files⟩

/-- A segment that was just opened is settled. -/
theorem settled_opened (codecs : Codecs) : Settled codecs .opened :=
  .up (recorded_opened codecs) (by decide)

/-- What is on one side is related to something on the other. -/
theorem exists_of_forall₂ {α β : Type} {related : α → β → Prop} {left : List α} {right : List β}
    (all : List.Forall₂ related left right) {second : β} (inside : second ∈ right) :
    ∃ first, related first second := by
  induction all with
  | nil => cases inside
  | cons here _ ih =>
      rcases List.mem_cons.mp inside with rfl | inside
      · exact ⟨_, here⟩
      · exact ih inside

/-- Every flushed record has its entry. -/
theorem Recorded.entry {session : Session} {ledger : Ledger} {seg : Bytes}
    {entries : List IdxEntry} (recorded : Recorded codecs session ledger seg entries)
    (small : seg.length < 2 ^ 63) {entry : IdxEntry} (inside : entry ∈ entries) :
    ∃ record, Locates codecs seg record entry :=
  exists_of_forall₂ (recorded.located small) inside

/-- A settled segment is usable. -/
theorem Settled.usable {machine : Machine} (settled : Settled codecs machine) :
    Usable codecs machine.files := by
  cases settled with
  | up recorded small =>
      exact ⟨_, _, _, recorded.present, recorded.indexed, parseIdxEntries_idxBytes _,
        fun entry inside => recorded.entry small inside⟩
  | @down files ledger seg torn entries down small =>
      refine ⟨_, _, _, down.present, down.recorded.indexed, parseIdxEntries_idxBytes _,
        fun entry inside => ?_⟩
      rw [List.length_append] at small
      obtain ⟨record, locates⟩ := down.recorded.entry (by omega) inside
      exact ⟨record, locates.append torn⟩

/-- A usable index is a whole number of entries. -/
theorem Usable.whole {files : Files File} {idx : Bytes} (usable : Usable codecs files)
    (indexed : files .idx = some idx) : idx.length % idxEntryLen = 0 := by
  obtain ⟨_, idx', _, _, indexed', parsed, -⟩ := usable
  rw [indexed, Option.some.injEq] at indexed'
  subst indexed'
  by_contra part
  rw [parseIdxEntries, if_pos part] at parsed
  cases parsed

/-- The first bytes of an index, cut between entries, are the index of its first entries. -/
theorem take_idxBytes (entries : List IdxEntry) (count : Nat) :
    (idxBytes entries).take (count * idxEntryLen) = idxBytes (entries.take count) := by
  induction count generalizing entries with
  | zero => rw [Nat.zero_mul, List.take_zero, List.take_zero]; rfl
  | succ count ih =>
      cases entries with
      | nil => rw [List.take_nil, idxBytes, List.flatMap_nil, List.take_nil]
      | cons entry entries =>
          have split : idxBytes (entry :: entries) = entry.bytes ++ idxBytes entries := rfl
          have length : (count + 1) * idxEntryLen = entry.bytes.length + count * idxEntryLen := by
            rw [entryBytes_length, Nat.add_mul, Nat.one_mul, Nat.add_comm]
          rw [split, length, List.take_length_add_append, ih]
          rfl

/-! ## Every event -/

section Steps

variable {writer : SegmentWriter} {files after : Files File} {ledger : Ledger} {seg : Bytes}
  {entries : List IdxEntry}

/-- A whole block that has none or some of its entries. -/
theorem Recorded.cut (lossless : codecs.Lossless)
    (recorded : Recorded codecs ⟨writer, files⟩ ledger seg entries)
    (fits : writer.Fits codecs) {compressed : Bytes} (count : Nat)
    (packed : codecs.compress writer.buf zstdLevel = .ok compressed)
    (here : after .seg = some (seg ++ writer.block codecs compressed))
    (indexed : after .idx =
      some (idxBytes entries ++ idxBytes ((writer.entries seg.length).take count))) :
    ∃ ledger', Recorded codecs ⟨.empty, after⟩ ledger' (seg ++ writer.block codecs compressed)
      (entries ++ (writer.entries seg.length).take count) := by
  have written := recorded.writer
  simp only at written
  subst written
  obtain ⟨row, block⟩ := rowBlock_of_fits fits packed
  rw [block] at here ⊢
  exact ⟨⟨[], ledger.records ++ ledger.waiting.map MatchRecord.encodeToVec,
    ledger.flushed ++ ledger.waiting.take count⟩,
    recorded.extend rfl here indexed rfl rfl fun small =>
      ⟨readSegmentBlock_rowBlock lossless row small,
        rowBlockOf_nextOff codecs seg (ledger.waiting.map MatchRecord.encodeToVec) compressed,
        List.forall₂_take count (locates_rowBlock lossless row small)⟩⟩

/-- Nothing is torn off. -/
theorem Recorded.down {session : Session} (recorded : Recorded codecs session ledger seg entries) :
    Down codecs session.files ⟨[], ledger.records, ledger.flushed⟩ seg [] entries where
  present := by rw [recorded.present, List.append_nil]
  part := tornBlock_nil
  recorded :=
    { writer := rfl, present := rfl, indexed := recorded.indexed, walked := recorded.walked
      located := recorded.located }

/-- The length of a file is that of its bytes. -/
theorem length_of {machine : Machine} {path : File} {bytes : Bytes}
    (here : machine.files path = some bytes) : machine.length path = bytes.length := by
  rw [Machine.length, here, Option.elim_some]

/-- A recorded segment is settled. -/
theorem Recorded.settled (recorded : Recorded codecs ⟨writer, files⟩ ledger seg entries)
    (small : Machine.length ⟨some writer, files⟩ .seg < 2 ^ 63) :
    Settled codecs ⟨some writer, files⟩ := by
  rw [length_of recorded.present] at small
  exact .up recorded small

/-- **Crashes.** What a crash inside a flush leaves is settled, or has a part of an entry. -/
theorem Recorded.crash (lossless : codecs.Lossless)
    (recorded : Recorded codecs ⟨writer, files⟩ ledger seg entries) (fits : writer.Fits codecs)
    (cuts : Cuts codecs writer seg (idxBytes entries) after)
    (small : (Machine.length ⟨none, after⟩ .seg) < 2 ^ 63) :
    Settled codecs ⟨none, after⟩ ∨
      ((Machine.length ⟨none, after⟩ .idx) - (Machine.length ⟨some writer, files⟩ .idx)) %
          idxEntryLen ≠ 0 ∧ ¬ Usable codecs after := by
  cases cuts with
  | nothing here indexed =>
      left
      rw [length_of here] at small
      have still : Recorded codecs ⟨.empty, after⟩ ⟨[], ledger.records, ledger.flushed⟩ seg
          entries :=
        { writer := rfl, present := here, indexed := indexed, walked := recorded.walked
          located := recorded.located }
      exact .down still.down (by rw [List.append_nil]; exact small)
  | @block compressed written packed here indexed =>
      left
      rw [length_of here] at small
      by_cases part : written < (writer.block codecs compressed).length
      · have clen := fits.packed compressed packed
        have raw := fits.raw
        unfold maxSegmentBlockBytes at clen raw
        have down : Down codecs after ⟨[], ledger.records, ledger.flushed⟩ seg
            ((writer.block codecs compressed).take written) entries :=
          ⟨here, .part (by omega) (by omega) part, rfl, rfl, indexed, recorded.walked,
            recorded.located⟩
        exact .down down small
      · rw [List.take_of_length_le (Nat.not_lt.mp part)] at here small
        have indexed' : after .idx =
            some (idxBytes entries ++ idxBytes ((writer.entries seg.length).take 0)) := by
          rw [indexed, List.take_zero, ← idxBytes_append, List.append_nil]
        obtain ⟨ledger', whole⟩ := recorded.cut lossless fits 0 packed here indexed'
        exact .down whole.down (by rw [List.append_nil]; exact small)
  | @entries compressed written packed here indexed =>
      rw [length_of here] at small
      rw [length_of indexed, length_of recorded.indexed, List.length_append,
        Nat.add_sub_cancel_left]
      by_cases whole : ((idxBytes (writer.entries seg.length)).take written).length %
          idxEntryLen = 0
      · left
        obtain ⟨count, multiple⟩ := Nat.dvd_of_mod_eq_zero whole
        rw [List.length_take, Nat.mul_comm] at multiple
        have kept : (idxBytes (writer.entries seg.length)).take written =
            idxBytes ((writer.entries seg.length).take count) := by
          rw [List.take_eq_take_min, multiple, take_idxBytes]
        rw [kept] at indexed
        obtain ⟨ledger', recorded'⟩ := recorded.cut lossless fits count packed here indexed
        exact .down recorded'.down (by rw [List.append_nil]; exact small)
      · right
        refine ⟨whole, fun usable => ?_⟩
        have aligned := usable.whole indexed
        rw [List.length_append, idxBytes_length, Nat.mul_add_mod_self_right] at aligned
        exact whole aligned

/-- **Reopening.** The torn block is cut off, and the index is taken as it is. -/
theorem Down.reopen {torn : Bytes} (down : Down codecs files ledger seg torn entries)
    (small : (seg ++ torn).length < 2 ^ 63) {world : World File}
    (run : openFiles ⟨files, .never, []⟩ = (.ok (), world)) :
    Settled codecs ⟨some .empty, world.files⟩ := by
  obtain ⟨cutBack, sameIdx⟩ := openFiles_eq_ok run
  have short : seg.length < 2 ^ 63 := by
    rw [List.length_append] at small
    omega
  obtain ⟨blocks, walk, -⟩ := down.recorded.walked short
  have valid : validateSegment (seg ++ torn) = seg.length := by
    obtain ⟨clen, ulen, part⟩ := down.part
    exact validateSegment_part walk (by decide) clen ulen part
  have indexed : files .idx = some (idxBytes entries) := down.recorded.indexed
  simp only [down.present, Option.getD_some, valid, List.take_left] at cutBack
  simp only [indexed, Option.getD_some] at sameIdx
  have again : Recorded codecs ⟨.empty, world.files⟩ ledger seg entries :=
    { writer := down.recorded.writer, present := cutBack, indexed := sameIdx
      walked := down.recorded.walked, located := down.recorded.located }
  exact .up again short

end Steps

/-- One event keeps the machine settled, unless a crash leaves a part of an entry. -/
theorem Settled.step (lossless : codecs.Lossless) {machine after : Machine} {event : Event}
    (settled : Settled codecs machine) (step : CrashStep codecs machine event after) :
    (machine.wholeEntries codecs event = true ∧ Settled codecs after) ∨
      (machine.wholeEntries codecs event = false ∧ ¬ Usable codecs after.files) := by
  obtain ⟨next, within, small⟩ := step
  cases settled with
  | @up writer files ledger seg entries recorded _ =>
      cases event with
      | append record =>
          cases next
          have appended : SequenceStep codecs (⟨writer, files⟩, ledger) (.append record)
              (⟨writer.append record, files⟩, ledger.note (.append record)) := .done trivial rfl
          obtain ⟨tail, added, recorded⟩ := recorded.step lossless appended
          exact .inl ⟨rfl, recorded.settled small⟩
      | flush =>
          cases next
          have fits : Session.Within codecs ⟨writer, files⟩ .flush :=
            Session.within_of_limits within
          obtain ⟨tail, added, recorded⟩ := recorded.flush lossless fits rfl
          exact .inl ⟨rfl, recorded.settled small⟩
      | crash point kept =>
          cases next
          have fits : Session.Within codecs ⟨writer, files⟩ .flush :=
            Session.within_of_limits within
          have cuts : Cuts codecs writer seg (idxBytes entries)
              (flushCut codecs writer files point kept) :=
            flushCut_cuts recorded.present recorded.indexed point kept
          rcases recorded.crash lossless fits cuts small with
            settled | ⟨part, useless⟩
          · obtain ⟨_, idx, _, _, indexed, _, _⟩ := settled.usable
            have aligned := settled.usable.whole indexed
            refine .inl ⟨?_, settled⟩
            have before : Machine.length ⟨some writer, files⟩ .idx = entries.length * idxEntryLen :=
              (length_of recorded.indexed).trans (idxBytes_length entries)
            simp only [Machine.wholeEntries, Machine.next, Option.map_some, Option.all_some,
              decide_eq_true_eq, length_of indexed, before]
            unfold idxEntryLen at aligned ⊢
            omega
          · exact .inr ⟨decide_eq_false part, useless⟩
      | reopen => cases next
  | @down files ledger seg torn entries down short =>
      cases event with
      | append record => cases next
      | flush => cases next
      | crash point kept => cases next
      | reopen =>
          rcases run : openFiles ⟨files, .never, []⟩ with ⟨stop | _, world⟩
          · simp only [Machine.next, run] at next
            cases next
          · simp only [Machine.next, run, Option.some.injEq] at next
            subst next
            exact .inl ⟨rfl, down.reopen short run⟩

/-- **The index.** As long as every crash leaves whole entries, the index is usable; and it is
usable after the next event exactly if that one leaves whole entries. -/
theorem idx_usable (codecs : Codecs) (lossless : codecs.Lossless) (events : List Event)
    (machine : Machine) (run : Run (WholeStep codecs) .opened events machine) :
    Usable codecs machine.files ∧
      ∀ event after, CrashStep codecs machine event after →
        (Usable codecs after.files ↔ machine.wholeEntries codecs event = true) := by
  have settled : Settled codecs machine := by
    refine run.invariant (Settled codecs) (fun source event target settled step => ?_)
      (settled_opened codecs)
    rcases settled.step lossless step.toCrashStep with ⟨-, settled⟩ | ⟨part, -⟩
    · exact settled
    · have whole := step.whole
      rw [part] at whole
      cases whole
  refine ⟨settled.usable, fun event after step => ?_⟩
  rcases settled.step lossless step with ⟨whole, settled⟩ | ⟨part, useless⟩
  · exact iff_of_true settled.usable whole
  · exact iff_of_false useless (by rw [part]; exact Bool.false_ne_true)

/-! ## A whole entry and a part of one -/

/-- `CrashStep`, computed. -/
def Machine.possible (codecs : Codecs) (machine : Machine) (event : Event) : Bool :=
  machine.withinLimits codecs event &&
    (machine.next codecs event).all fun after => after.length .seg < 2 ^ 63

/-- A step that can be computed is a step. -/
theorem crashStep_of_possible {machine after : Machine} {event : Event}
    (next : machine.next codecs event = some after)
    (possible : machine.possible codecs event = true) : CrashStep codecs machine event after := by
  obtain ⟨within, small⟩ := Bool.and_eq_true_iff.mp possible
  rw [next] at small
  exact ⟨next, within, of_decide_eq_true small⟩

/-- Two records are flushed; of the entries, a crash leaves this many bytes. -/
def tornIndex (kept : Nat) : List Event :=
  [.append shortRecord, .append shortRecord, .crash 5 fun _ => kept]

/-- Then the segment is reopened, and another record is flushed. -/
def flushedBehind (kept : Nat) : List Event :=
  tornIndex kept ++ [.reopen, .append shortRecord, .flush]

/-- The number of entries that the index parses to. -/
def Machine.parsed (machine : Machine) : Option (Option Nat) :=
  (machine.files .idx).map fun idx => (parseIdxEntries idx).map List.length

/-- One of two entries survives, and another one is written behind it. -/
theorem idx_usable_whole :
    ∃ machine, Run (WholeStep shortCodecs) .opened (flushedBehind 20) machine ∧
      machine.parsed = some (some 2) ∧ (Usable shortCodecs machine.files ∧
        ∀ event after, CrashStep shortCodecs machine event after →
          (Usable shortCodecs after.files ↔ machine.wholeEntries shortCodecs event = true)) := by
  have done : (follow (Machine.next shortCodecs) (fun machine event =>
      machine.possible shortCodecs event && machine.wholeEntries shortCodecs event) .opened
      (flushedBehind 20)).any fun machine => machine.parsed = some (some 2) := by
    decide +kernel
  obtain ⟨machine, computed, parsed⟩ := run_of_follow done
  have run : Run (WholeStep shortCodecs) .opened (flushedBehind 20) machine := by
    refine computed.mono fun source event target step => ?_
    obtain ⟨possible, whole⟩ := Bool.and_eq_true_iff.mp step.2
    exact ⟨crashStep_of_possible step.1 possible, whole⟩
  exact ⟨machine, run, of_decide_eq_true parsed,
    idx_usable shortCodecs (storedCodecs_lossless _) _ machine run⟩

/-- An index that does not parse is not usable. -/
theorem not_usable_of_parsed {machine : Machine} (parsed : machine.parsed = some none) :
    ¬ Usable codecs machine.files := by
  rintro ⟨_, idx, entries, _, indexed, here, -⟩
  rw [Machine.parsed, indexed, Option.map_some, here] at parsed
  cases parsed

/-- Seven bytes of the first entry survive, and no entry is ever found again. -/
theorem torn_entry_hides_index :
    (∃ machine, Run (CrashStep shortCodecs) .opened (tornIndex 7) machine ∧
      ¬ Usable shortCodecs machine.files) ∧
    ∃ machine, Run (CrashStep shortCodecs) .opened (flushedBehind 7) machine ∧
      ¬ Usable shortCodecs machine.files := by
  have run_of {events : List Event} (done : (follow (Machine.next shortCodecs)
      (Machine.possible shortCodecs) .opened events).any fun machine =>
        machine.parsed = some none) :
      ∃ machine, Run (CrashStep shortCodecs) .opened events machine ∧
        ¬ Usable shortCodecs machine.files := by
    obtain ⟨machine, computed, parsed⟩ := run_of_follow done
    exact ⟨machine, computed.mono fun _ _ _ step => crashStep_of_possible step.1 step.2,
      not_usable_of_parsed (of_decide_eq_true parsed)⟩
  exact ⟨run_of (by decide +kernel), run_of (by decide +kernel)⟩

end LolCrawler.Segment
