import LolCrawler.Foundation.Run
import LolCrawler.Segment.Sequence
import LolCrawler.Store.Runs

/-! # The blocks of the store's writers

Nothing bounds the block in the making: it holds the records that `store_match` was given since
the last flush, however many those are. A flush writes what the reader accepts exactly if these
records are within the reader's limit (`blocks_accepted_iff`).
-/

namespace LolCrawler.Store

open Foundation Segment

/-! ## What leaves the blocks alone -/

/-- The writers and the histories are the same. -/
structure SameBlocks (before after : State) : Prop where
  writers : after.ram.writers = before.ram.writers
  stored : after.stored = before.stored

instance : Std.Refl SameBlocks := ⟨fun _ => ⟨rfl, rfl⟩⟩

instance : IsTrans State SameBlocks where
  trans _ _ _ one two := ⟨two.writers.trans one.writers, two.stored.trans one.stored⟩

section SameBlocks

/-- The steps of the transaction of a match. -/
theorem sameBlocks_steps : Transacts Any SparesArchive fun (α : Type) (program : Act α) =>
    Leaves SameBlocks program :=
  leaves_steps (fun _ => ⟨rfl, rfl⟩) (fun _ _ _ => ⟨rfl, rfl⟩)
    (fun state _ spares => ⟨(spares state.ram).1, rfl⟩) fun _ => ⟨rfl, rfl⟩

/-- A checkpoint leaves the blocks alone. -/
theorem durableCheckpoint_sameBlocks (nowMs : Nat) :
    Leaves SameBlocks (durableCheckpoint nowMs) := by
  intro before
  refine (durableCheckpoint_meets nowMs before).mono (fun _ after here => ?_)
    fun _ after halted => ?_
  · rw [here]
    exact ⟨rfl, rfl⟩
  · refine ⟨?_, halted.outside.stored⟩
    rcases halted.ram with same | drained
    · rw [same]
    · rw [drained]

/-- Writing the bitmaps leaves the blocks alone. -/
theorem commitBitmaps_sameBlocks : Leaves SameBlocks commitBitmaps := by
  intro before
  refine (commitBitmaps_meets before).mono (fun _ after here => ?_) fun _ after halted =>
    ⟨by rw [halted.2], halted.1.stored⟩
  rw [here]
  split
  · exact ⟨rfl, rfl⟩
  · exact ⟨rfl, rfl⟩

/-- A mark leaves the blocks alone. -/
theorem markSeen_sameBlocks (origin : Origin) (platform : String) (gameId : UInt64) :
    Leaves SameBlocks (markSeen origin platform gameId) := by
  unfold markSeen setRam
  exact Leaves.modify fun _ => ⟨rfl, rfl⟩

/-- Work on the files leaves the blocks alone. -/
theorem onFiles_sameBlocks {α : Type} (place : Place) (action : Fs File α) :
    Leaves SameBlocks (onFiles place action) :=
  onFiles_leaves place action fun _ _ => ⟨rfl, rfl⟩

end SameBlocks

/-! ## The records that wait -/

/-- The records given to a writer that no flush has taken: the last ones of its segment. -/
def State.waiting (state : State) (platform : String) (writer : Writer) : List MatchRecord :=
  ((state.stored (platform, writer.date)).map Stored.record).drop
    ((state.stored (platform, writer.date)).length - writer.block.pending.length)

/-- Every block in the making holds the records that wait, one after the other. -/
def Buffered (state : State) : Prop :=
  ∀ platform writer, state.ram.writers.get platform = some writer →
    writer.block = SegmentWriter.empty.appendAll (state.waiting platform writer)

variable {codecs : Codecs} {before after state : State}

/-- Blocks that stay the same stay buffered. -/
theorem SameBlocks.buffered (same : SameBlocks before after) (buffered : Buffered before) :
    Buffered after := by
  intro platform writer found
  rw [same.writers] at found
  rw [State.waiting, same.stored]
  exact buffered platform writer found

/-- A program that leaves the blocks alone leaves them buffered. -/
theorem SameBlocks.meets {α : Type} {program : Act α} (leaves : Leaves SameBlocks program)
    (buffered : Buffered before) :
    Meets program before (fun _ after => Buffered after ∧ after.ram.writers = before.ram.writers)
      fun _ after => Buffered after :=
  (leaves before).mono (fun _ _ same => ⟨same.buffered buffered, same.writers⟩)
    fun _ _ same => same.buffered buffered

/-- A block of which nothing is pending is empty. -/
theorem Buffered.empty {platform : String} {writer : Writer} (buffered : Buffered state)
    (found : state.ram.writers.get platform = some writer) (none : writer.block.pending = []) :
    writer.block = .empty := by
  have block := buffered platform writer found
  rw [State.waiting, none, List.length_nil, Nat.sub_zero, ← List.length_map Stored.record,
    List.drop_length] at block
  exact block

/-- A writer whose block is empty. -/
theorem Buffered.setEmpty (buffered : Buffered state) (platform date : String) :
    Buffered { state with
      ram := { state.ram with writers := state.ram.writers.insert platform ⟨date, .empty⟩ } } := by
  intro other writer found
  simp only [Table.get_insert] at found
  split at found
  · next same =>
      cases found
      rw [State.waiting, SegmentWriter.empty, List.length_nil, Nat.sub_zero,
        ← List.length_map Stored.record, List.drop_length]
      rfl
  · exact buffered other writer found

/-- A record that is appended keeps the writers' blocks buffered. -/
theorem Buffered.append (buffered : Buffered state) {platform : String} {writer : Writer}
    (found : state.ram.writers.get platform = some writer) (stored : Stored) :
    Buffered { state with
      ram := { state.ram with
        writers := state.ram.writers.insert platform
          { writer with block := writer.block.append stored.record } }
      stored := Function.update state.stored (platform, writer.date)
        (state.stored (platform, writer.date) ++ [stored]) } := by
  intro other writer' found'
  simp only [Table.get_insert] at found'
  split at found'
  · next same =>
      subst same
      cases found'
      have short : (state.stored (other, writer.date)).length - writer.block.pending.length ≤
          ((state.stored (other, writer.date)).map Stored.record).length := by
        rw [List.length_map]
        exact Nat.sub_le _ _
      simp only [State.waiting, Function.update_self, List.map_append, List.length_append,
        SegmentWriter.append, List.map_cons, List.map_nil, List.length_cons, List.length_nil,
        Nat.add_sub_add_right]
      rw [List.drop_append_of_le_length short, appendAll_concat]
      have block := buffered other writer found
      rw [State.waiting] at block
      rw [← block]
      rfl
  · next different =>
      have elsewhere : (other, writer'.date) ≠ (platform, writer.date) :=
        fun same => different (Prod.mk.inj same).1
      simp only [State.waiting, Function.update_of_ne elsewhere]
      exact buffered other writer' found'

/-! ## Every call -/

section Calls

/-- What `flush` returns is empty. -/
theorem flush_empty {writer later : SegmentWriter} {world after : World File}
    (run : writer.flush codecs world = (.ok later, after)) :
    later = .empty ∨ later = writer ∧ writer.pending = [] := by
  unfold SegmentWriter.flush at run
  split at run
  · next none =>
      obtain ⟨rfl, -⟩ := Fs.pure_eq_ok.mp run
      exact .inr ⟨rfl, List.isEmpty_iff.mp none⟩
  · obtain ⟨_, _, _, rest⟩ := Fs.bind_eq_ok.mp run
    obtain ⟨_, _, _, rest⟩ := Fs.bind_eq_ok.mp rest
    obtain ⟨_, _, _, rest⟩ := Fs.bind_eq_ok.mp rest
    exact .inl (Fs.pure_eq_ok.mp rest).1

/-- The block that a flush of a waiting writer returns. -/
theorem onFiles_flush_meets (buffered : Buffered before) {platform : String} {writer : Writer}
    (found : before.ram.writers.get platform = some writer) (place : Place) :
    Meets (onFiles place (writer.block.flush codecs)) before
      (fun block after => block = .empty ∧ SameBlocks before after)
      fun _ after => Buffered after := by
  have same := (onFiles_sameBlocks place (writer.block.flush codecs) before).mono
    (fun _ _ same => same) fun _ _ same => same.buffered buffered
  intro cut
  have here := same cut
  rcases run : onFiles place (writer.block.flush codecs) ⟨before, cut⟩ with ⟨halt | block, after⟩
  · rw [run] at here
    exact here
  · rw [run] at here
    refine ⟨?_, here⟩
    rcases flushed : writer.block.flush codecs ⟨(before.segments place).files, cut, []⟩ with
      ⟨stop | later, world⟩
    · simp only [onFiles, flushed] at run
      cases run
    · simp only [onFiles, flushed] at run
      cases run
      rcases flush_empty flushed with empty | ⟨kept, none⟩
      · exact empty
      · rw [kept]
        exact buffered.empty found none

/-- An empty block is buffered. -/
theorem setWriter_buffered (buffered : Buffered before) (platform date : String) :
    Meets (setWriter platform ⟨date, .empty⟩) before (fun _ after => Buffered after)
      fun _ after => Buffered after := by
  unfold setWriter setRam
  exact Meets.modify (buffered.setEmpty platform date)

/-- A flush leaves the blocks buffered, whether it fails or not. -/
theorem flushWriter_buffered (buffered : Buffered before) {platform : String} {writer : Writer}
    (found : before.ram.writers.get platform = some writer) :
    Meets (flushWriter codecs platform writer) before (fun _ after => Buffered after)
      fun _ after => Buffered after := by
  refine (onFiles_flush_meets buffered found _).bind fun block between here => ?_
  obtain ⟨rfl, same⟩ := here
  exact setWriter_buffered (same.buffered buffered) platform writer.date

/-- So does a flush of several writers. -/
theorem flushWriters_buffered (order : List String) :
    ∀ before, Buffered before → Meets (flushWriters codecs order) before
      (fun _ after => Buffered after) fun _ after => Buffered after := by
  induction order with
  | nil => exact fun _ buffered => Meets.pure buffered
  | cons platform order ih =>
      intro before buffered
      refine Meets.gets_bind ?_
      cases found : before.ram.writers.get platform with
      | none => exact ih before buffered
      | some writer => exact (flushWriter_buffered buffered found).bind fun _ between => ih between

/-- A roll leaves the blocks buffered. -/
theorem roll_buffered (buffered : Buffered before) {platform : String} {writer : Writer}
    (found : before.ram.writers.get platform = some writer) (today : String) :
    Meets (roll codecs platform today writer) before (fun _ after => Buffered after)
      fun _ after => Buffered after := by
  refine (onFiles_flush_meets buffered found _).bind fun block between here => ?_
  obtain ⟨rfl, same⟩ := here
  refine (setWriter_buffered (same.buffered buffered) platform writer.date).bind
    fun _ _ buffered => ?_
  refine (SameBlocks.meets (onFiles_sameBlocks _ _) buffered).bind fun _ _ opened => ?_
  exact setWriter_buffered opened.1 platform today

/-- So does a roll that may not be needed. -/
theorem rollIfNeeded_buffered (buffered : Buffered before) (platform : String) (clock : Clock) :
    Meets (rollIfNeeded codecs platform clock) before (fun _ after => Buffered after)
      fun _ after => Buffered after := by
  refine Meets.gets_bind ?_
  cases found : before.ram.writers.get platform with
  | none => exact Meets.pure buffered
  | some writer =>
      simp only
      split
      · exact Meets.pure buffered
      · refine (SameBlocks.meets (durableCheckpoint_sameBlocks _) buffered).bind
          fun _ between here => ?_
        exact roll_buffered here.1 (by rw [here.2, found]) clock.today

/-- A writer that is opened has a buffered block. -/
theorem openWriter_buffered (buffered : Buffered before) (platform : String) (clock : Clock) :
    Meets (openWriter platform clock) before
      (fun writer after => Buffered after ∧ after.ram.writers.get platform = some writer)
      fun _ after => Buffered after := by
  refine Meets.gets_bind ?_
  cases found : before.ram.writers.get platform with
  | some writer => exact Meets.pure ⟨buffered, found⟩
  | none =>
      refine (SameBlocks.meets (onFiles_sameBlocks _ _) buffered).bind fun _ between here => ?_
      unfold setWriter setRam
      exact Meets.modify_bind (Meets.pure
        ⟨here.1.setEmpty platform clock.today, Table.get_insert_self _ _ _⟩)

/-- A record that is appended is buffered. -/
theorem appendRecord_buffered (buffered : Buffered before) {platform : String} {writer : Writer}
    (found : before.ram.writers.get platform = some writer) (record : MatchRecord)
    (puuids : List String) :
    Meets (appendRecord platform writer record puuids) before (fun _ after => Buffered after)
      fun _ after => Buffered after := by
  unfold appendRecord setWriter setRam
  exact Meets.modify_bind (Meets.modify (buffered.append found ⟨record, puuids⟩))

/-- The archive leaves the blocks buffered. -/
theorem archive_buffered (buffered : Buffered before) (record : MatchRecord) (puuids : List String)
    (clock : Clock) :
    Meets (archive codecs record puuids clock) before (fun _ after => Buffered after)
      fun _ after => Buffered after := by
  refine (rollIfNeeded_buffered buffered _ _).bind fun _ _ buffered => ?_
  refine (openWriter_buffered buffered _ _).bind fun writer _ opened => ?_
  refine (appendRecord_buffered opened.1 opened.2 _ _).bind fun _ _ buffered => ?_
  exact (SameBlocks.meets (markSeen_sameBlocks _ _ _) buffered).mono (fun _ _ here => here.1)
    fun _ _ here => here

/-- A match leaves the blocks buffered, however it is cut. -/
theorem storeMatch_buffered (buffered : Buffered before) (given : Match) (clock : Clock) :
    Meets (storeMatch codecs given.record given.puuids given.tsMs given.growthPaused clock) before
      (fun _ after => Buffered after) fun _ after => Buffered after := by
  refine (SameBlocks.meets (sameBlocks_steps.matchTxn (fun _ here => here) _ _ _ _) buffered).bind
    fun value _ here => ?_
  exact (archive_buffered here.1 value.1 given.puuids clock).bind
    fun _ _ buffered => Meets.pure buffered

/-- A commit leaves the blocks buffered, however it is cut. -/
theorem commit_buffered (buffered : Buffered before) (nowMs : Nat) (order : List String) :
    Meets (commit codecs nowMs order) before (fun _ after => Buffered after)
      fun _ after => Buffered after := by
  refine (SameBlocks.meets (durableCheckpoint_sameBlocks _) buffered).bind fun _ _ here => ?_
  refine (flushWriters_buffered order _ here.1).bind fun _ _ buffered => ?_
  exact (SameBlocks.meets commitBitmaps_sameBlocks buffered).mono (fun _ _ here => here.1)
    fun _ _ here => here

end Calls

/-! ## Runs -/

/-- The calls that write to the segments. -/
inductive ArchiveCall where
  | storeMatch (given : Match) (clock : Clock)
  | commit (nowMs : Nat) (order : List String)

def ArchiveCall.run (codecs : Codecs) : ArchiveCall → Act Unit
  | .storeMatch given clock => do
      let _ ← Store.storeMatch codecs given.record given.puuids given.tsMs given.growthPaused clock
      pure ()
  | .commit nowMs order => Store.commit codecs nowMs order

/-- A call that returns, with or without an error. -/
def ArchiveStep (codecs : Codecs) (state : State) (call : ArchiveCall) (next : State) : Prop :=
  ∃ cut result after, call.run codecs ⟨state, cut⟩ = (result, after) ∧
    result ≠ .error .crashed ∧ next = after.state

/-- **One step** leaves the blocks buffered. -/
theorem ArchiveStep.buffered {next : State} {call : ArchiveCall}
    (step : ArchiveStep codecs state call next) (buffered : Buffered state) : Buffered next := by
  obtain ⟨cut, result, after, run, -, rfl⟩ := step
  have meets : Meets (call.run codecs) state (fun _ after => Buffered after)
      fun _ after => Buffered after := by
    cases call with
    | storeMatch given clock =>
        exact (storeMatch_buffered buffered given clock).bind
          fun _ _ buffered => Meets.pure buffered
    | commit nowMs order => exact commit_buffered buffered nowMs order
  cases result with
  | ok value => exact meets.ok run
  | error halt => exact meets.error run

/-- An opened store has no writers. -/
theorem waits_opened (platforms : List String) : Buffered (opened platforms) := by
  intro platform writer found
  cases found

/-- The bytes of the records in a block. -/
def rowsLength (records : List MatchRecord) : Nat :=
  (records.map fun record => 4 + record.encodeToVec.length).sum

/-- A block whose size the reader accepts: the header says the true lengths, which are within the
limits, and every entry has the true offset of its record. -/
structure Accepted (codecs : Codecs) (block : SegmentWriter) (records : List MatchRecord)
    (compressed : Bytes) : Prop where
  header : Header.parse (headerBytes codecs segMagic block.buf.length compressed) =
    ⟨segMagic, codecs.hash compressed, compressed.length, block.buf.length⟩
  clen : compressed.length ≤ maxSegmentBlockBytes
  ulen : block.buf.length ≤ maxSegmentBlockBytes
  offsets : ∀ (idx : Nat) entry, block.pending[idx]? = some entry →
    entry.2.toNat = rowsLength (records.take idx)

/-- The rows of records have a length that depends on the records alone. -/
theorem rows_length (records : List MatchRecord) :
    ((records.map MatchRecord.encodeToVec).flatMap rowBytes).length = rowsLength records := by
  induction records with
  | nil => rfl
  | cons record records ih =>
      rw [List.map_cons, List.flatMap_cons, List.length_append, ih, rowBytes, List.length_append,
        toLe_length, rowsLength, rowsLength, List.map_cons, List.sum_cons]

/-- The offset of a record is the length of the rows before it. -/
theorem rowOffsets_getElem? {records : List MatchRecord} :
    ∀ {off idx : Nat} {recOff : UInt32},
      (rowOffsets off (records.map MatchRecord.encodeToVec))[idx]? = some recOff →
        recOff = .ofNat (off + rowsLength (records.take idx)) ∧
          rowsLength (records.take idx) ≤ rowsLength records := by
  induction records with
  | nil =>
      intro off idx recOff found
      cases found
  | cons record records ih =>
      intro off idx recOff found
      cases idx with
      | zero =>
          cases found
          exact ⟨rfl, Nat.zero_le _⟩
      | succ idx =>
          rw [List.map_cons, rowOffsets, List.getElem?_cons_succ] at found
          obtain ⟨here, less⟩ := ih found
          have longer : ∀ rest, rowsLength (record :: rest) =
              4 + record.encodeToVec.length + rowsLength rest := fun rest => List.sum_cons
          rw [List.take_succ_cons, longer, longer]
          refine ⟨?_, Nat.add_le_add_left less _⟩
          rw [here, Nat.add_assoc, Nat.add_assoc, Nat.add_assoc]

/-- A block of these records is accepted exactly if they are within the limit. -/
theorem accepted_iff (records : List MatchRecord) (compressed : Bytes) :
    Accepted codecs (SegmentWriter.empty.appendAll records) records compressed ↔
      rowsLength records ≤ maxSegmentBlockBytes ∧ compressed.length ≤ maxSegmentBlockBytes := by
  have length : (SegmentWriter.empty.appendAll records).buf.length = rowsLength records := by
    rw [buf_appendAll, SegmentWriter.empty, List.nil_append, rows_length]
  constructor
  · intro accepted
    exact ⟨length ▸ accepted.ulen, accepted.clen⟩
  · rintro ⟨rows, clen⟩
    have ulen := rows
    unfold maxSegmentBlockBytes at ulen
    refine ⟨parse_headerBytes (by decide) ?_ (by omega), clen, by omega, ?_⟩
    · unfold maxSegmentBlockBytes at clen
      omega
    · intro idx entry found
      have pending : (SegmentWriter.empty.appendAll records).pending =
          (records.map MatchRecord.gameId).zip
            (rowOffsets 0 (records.map MatchRecord.encodeToVec)) := pending_eq records .empty
      rw [pending] at found
      obtain ⟨-, offset⟩ := List.getElem?_zip_eq_some.mp found
      obtain ⟨here, less⟩ := rowOffsets_getElem? offset
      rw [here, Nat.zero_add]
      exact UInt32.toNat_ofNat_of_lt' (by unfold UInt32.size; omega)

/-- The reader does not reject an accepted block for its size. -/
theorem Accepted.readHeader {block : SegmentWriter} {records : List MatchRecord}
    {compressed seg : Bytes} (accepted : Accepted codecs block records compressed)
    (small : (seg ++ block.block codecs compressed).length < 2 ^ 63) (strict : Bool) :
    Segment.readHeader (seg ++ block.block codecs compressed) seg.length strict =
      .ok (some (⟨segMagic, codecs.hash compressed, compressed.length, block.buf.length⟩,
        seg.length + blockHeaderLen + compressed.length)) := by
  have here : (seg ++ block.block codecs compressed).drop seg.length =
      containerBytes codecs segMagic block.buf.length compressed ++ [] := by
    rw [List.drop_left, List.append_nil]
    rfl
  have length : (seg ++ block.block codecs compressed).length =
      seg.length + blockHeaderLen + compressed.length := by
    rw [List.length_append, SegmentWriter.block, containerBytes, List.length_append,
      headerBytes_length, Nat.add_assoc]
  rw [length] at small
  refine readHeader_eq_some.mpr ⟨by omega, ?_, rfl, ?_, rfl, by omega, accepted.clen,
    accepted.ulen⟩
  · rw [(slice_container here).1, accepted.header]
  · unfold Columnar.usizeBound
    omega

/-- **Block sizes.** In every state reached, the block that a flush writes is accepted exactly if
the records stored since the last flush, and what they compress to, are within the limit. -/
theorem blocks_accepted_iff (codecs : Codecs) (platforms : List String)
    (calls : List ArchiveCall) (state : State)
    (run : Run (ArchiveStep codecs) (opened platforms) calls state) (platform : String)
    (writer : Writer) (held : state.ram.writers.get platform = some writer)
    (pending : writer.block.pending ≠ []) (world after : World File) (seg : Bytes)
    (present : world.files .seg = some seg) (later : SegmentWriter)
    (flushed : writer.block.flush codecs world = (.ok later, after)) :
    ∃ compressed, codecs.compress writer.block.buf zstdLevel = .ok compressed ∧
      after.files .seg = some (seg ++ writer.block.block codecs compressed) ∧
      (Accepted codecs writer.block (state.waiting platform writer) compressed ↔
        rowsLength (state.waiting platform writer) ≤ maxSegmentBlockBytes ∧
          compressed.length ≤ maxSegmentBlockBytes) := by
  have buffered : Buffered state := run.invariant Buffered
    (fun _ _ _ buffered step => ArchiveStep.buffered step buffered) (waits_opened platforms)
  obtain ⟨compressed, packed, written⟩ := flush_eq_ok present pending flushed
  refine ⟨compressed, packed, written, ?_⟩
  have accepted : Accepted codecs _ (state.waiting platform writer) compressed ↔ _ :=
    accepted_iff (state.waiting platform writer) compressed
  rwa [← buffered platform writer held] at accepted

/-! ## One record, and very many -/

/-- A call that stores a small record. -/
def storeSmall : ArchiveCall := .storeMatch (sampleMatch "EUW1" 1 1000 1800) sampleClock

/-- A record for a writer of the day is appended to its block. -/
theorem archive_here {record : MatchRecord} {clock : Clock} {writer : Writer}
    (held : state.ram.writers.get record.platform = some writer)
    (today : writer.date = clock.checked) (puuids : List String) :
    ∃ next, Ends (archive codecs record puuids clock) state () next ∧
      next.ram.writers.get record.platform =
        some { writer with block := writer.block.append record } := by
  have found : Ends (Prog.gets fun state => state.ram.writers.get record.platform : Act _) state
      (some writer) state := by
    rw [Ends, Prog.gets, held]
  have stays : Ends (if writer.date = clock.checked then Pure.pure () else do
      durableCheckpoint clock.nowMs
      roll codecs record.platform clock.today writer) state () state := by
    rw [if_pos today]
    rfl
  have rolled : Ends (rollIfNeeded codecs record.platform clock) state () state :=
    found.bind stays
  have opened : Ends (openWriter record.platform clock) state writer state := found.bind rfl
  exact ⟨_, rolled.bind (opened.bind rfl), Table.get_insert_self _ _ _⟩

/-- Every call adds a record to the block. -/
theorem storeSmall_step {writer : Writer} (held : state.ram.writers.get "EUW1" = some writer)
    (today : writer.date = sampleClock.checked) :
    ∃ next later, ArchiveStep codecs state storeSmall next ∧
      next.ram.writers.get "EUW1" = some later ∧ later.date = sampleClock.checked ∧
      later.block.pending.length = writer.block.pending.length + 1 := by
  obtain ⟨value, between, txn⟩ := (paced_steps.matchTxn memory_any
    (sampleMatch "EUW1" 1 1000 1800).record
    (sampleMatch "EUW1" 1 1000 1800).puuids 1000 false).total state
  have same := (sameBlocks_steps.matchTxn (fun _ here => here) _ _ _ _ state).ok txn
  have filled := ((sampleMatch "EUW1" 1 1000 1800).matchTxn_meets state).ok txn
  have platform : value.1.platform = "EUW1" := by
    rw [filled.1]
    rfl
  rw [← same.writers, ← platform] at held
  obtain ⟨next, archived, found⟩ : ∃ next, Ends (archive codecs value.1
      (sampleMatch "EUW1" 1 1000 1800).puuids sampleClock) between () next ∧ _ :=
    archive_here held today _
  have ends : Ends (storeSmall.run codecs) state () next :=
    Ends.bind (Ends.bind txn (archived.bind rfl)) rfl
  rw [platform] at found
  exact ⟨next, _, ⟨.never, .ok (), ⟨next, .never⟩, ends, nofun, rfl⟩, found, today,
    by simp [SegmentWriter.append]⟩

/-- Codecs that leave the bytes as they are. -/
def plainCodecs : Codecs :=
  { shortCodecs with
    compress := fun payload _ => .ok payload
    decompress := fun compressed _ => .ok compressed }

/-- The first call opens the writer. -/
theorem storeSmall_first :
    ∃ state writer, ArchiveStep plainCodecs (opened ["EUW1"]) storeSmall state ∧
      state.ram.writers.get "EUW1" = some writer ∧ writer.date = sampleClock.checked ∧
      writer.block.pending.length = 1 := by
  have returned : (storeSmall.run plainCodecs ⟨opened ["EUW1"], .never⟩).1.toOption = some () := by
    decide +kernel
  have measured : ((storeSmall.run plainCodecs ⟨opened ["EUW1"], .never⟩).2.state.ram.writers.get
      "EUW1").map (fun writer => (writer.date, writer.block.pending.length)) =
        some (sampleClock.checked, 1) := by
    decide +kernel
  rcases run : storeSmall.run plainCodecs ⟨opened ["EUW1"], .never⟩ with ⟨result, after⟩
  rw [run] at returned measured
  obtain ⟨writer, held, measured⟩ := Option.map_eq_some_iff.mp measured
  obtain ⟨date, length⟩ := Prod.mk.inj measured
  refine ⟨after.state, writer, ⟨.never, result, after, run, fun crashed => ?_, rfl⟩, held, date,
    length⟩
  rw [crashed] at returned
  cases returned

/-- However many calls there are, the block grows. -/
theorem storeSmall_run (count : Nat) :
    ∃ state writer,
      Run (ArchiveStep plainCodecs) (opened ["EUW1"]) (.replicate (count + 1) storeSmall) state ∧
      state.ram.writers.get "EUW1" = some writer ∧ writer.date = sampleClock.checked ∧
      writer.block.pending.length = count + 1 := by
  induction count with
  | zero =>
      obtain ⟨state, writer, step, held, today, length⟩ := storeSmall_first
      exact ⟨state, writer, .cons step (.nil _), held, today, length⟩
  | succ count ih =>
      obtain ⟨state, writer, run, held, today, length⟩ := ih
      obtain ⟨next, later, step, held', today', longer⟩ := storeSmall_step held today
      refine ⟨next, later, ?_, held', today', by rw [longer, length]⟩
      rw [List.replicate_succ']
      exact run.append (.cons step (.nil _))

/-- What a flush of a writer of the day writes into new files. -/
theorem plain_flush {writer : SegmentWriter} (pending : writer.pending ≠ []) :
    ∃ after, writer.flush plainCodecs ⟨emptyFiles, .never, []⟩ = (.ok .empty, after) := by
  obtain ⟨after, runs, -⟩ := flush_runs (show emptyFiles .seg = some [] from rfl)
    (show emptyFiles .idx = some [] from rfl) pending
    (show plainCodecs.compress writer.buf zstdLevel = .ok writer.buf from rfl)
  obtain ⟨log, done⟩ := runs []
  exact ⟨_, done⟩

/-- Each row takes four bytes at least. -/
theorem rowsLength_ge (records : List MatchRecord) : 4 * records.length ≤ rowsLength records := by
  induction records with
  | nil => exact Nat.le_refl _
  | cons record records ih =>
      have longer : rowsLength (record :: records) =
          4 + record.encodeToVec.length + rowsLength records := List.sum_cons
      rw [longer, List.length_cons]
      omega

/-- Without a commit, more small records are stored than a block can hold: the flush writes a block
that is too large. -/
theorem long_schedule_exceeds_block :
    ∃ calls state writer, Run (ArchiveStep plainCodecs) (opened ["EUW1"]) calls state ∧
      state.ram.writers.get "EUW1" = some writer ∧
      ∃ later after compressed,
        writer.block.flush plainCodecs ⟨emptyFiles, .never, []⟩ = (.ok later, after) ∧
        after.files .seg = some (writer.block.block plainCodecs compressed) ∧
        ¬ Accepted plainCodecs writer.block (state.waiting "EUW1" writer) compressed := by
  obtain ⟨count, many⟩ : ∃ count, maxSegmentBlockBytes < 4 * (count + 1) := ⟨2 ^ 26, by decide⟩
  obtain ⟨state, writer, run, held, -, length⟩ := storeSmall_run count
  have buffered : Buffered state := run.invariant Buffered
    (fun _ _ _ buffered step => ArchiveStep.buffered step buffered) (waits_opened ["EUW1"])
  have pending : writer.block.pending ≠ [] := by
    intro none
    rw [none] at length
    cases length
  obtain ⟨after, flushed⟩ := plain_flush pending
  obtain ⟨compressed, packed, written⟩ :=
    flush_eq_ok (show emptyFiles .seg = some [] from rfl) pending flushed
  refine ⟨_, state, writer, run, held, _, after, compressed, flushed, written, fun accepted => ?_⟩
  have records := pending_appendAll (state.waiting "EUW1" writer) .empty
  have block := buffered "EUW1" writer held
  rw [block, accepted_iff] at accepted
  rw [← block, length] at records
  have rows := rowsLength_ge (state.waiting "EUW1" writer)
  have limit := accepted.1
  simp only [SegmentWriter.empty, List.length_nil] at records
  omega

/-- One record is stored and flushed, and its block is accepted exactly if it is small. -/
theorem blocks_accepted_once :
    ∃ state writer after compressed,
      Run (ArchiveStep plainCodecs) (opened ["EUW1"]) [storeSmall] state ∧
      writer.block.pending.length = 1 ∧
      plainCodecs.compress writer.block.buf zstdLevel = .ok compressed ∧
      after = some ([] ++ writer.block.block plainCodecs compressed) ∧
      (Accepted plainCodecs writer.block (state.waiting "EUW1" writer) compressed ↔
        rowsLength (state.waiting "EUW1" writer) ≤ maxSegmentBlockBytes ∧
          compressed.length ≤ maxSegmentBlockBytes) := by
  obtain ⟨state, writer, step, held, today, length⟩ := storeSmall_first
  have pending : writer.block.pending ≠ [] := by
    intro none
    rw [none] at length
    cases length
  obtain ⟨after, flushed⟩ := plain_flush pending
  have run : Run (ArchiveStep plainCodecs) (opened ["EUW1"]) [storeSmall] state :=
    .cons step (.nil _)
  obtain ⟨compressed, packed, written, iff⟩ := blocks_accepted_iff plainCodecs ["EUW1"]
    [storeSmall] state run "EUW1" writer held pending _ after [] rfl _ flushed
  exact ⟨state, writer, after.files .seg, compressed, run, length, packed, written, iff⟩

end LolCrawler.Store
