import LolCrawler.Segment.Retry

/-! # Reopening a segment

`validate_segment` keeps what has a known kind and is as long as its header says;
`read_segment_block` also checks the checksum, the size limits and the body. The two agree
on a file exactly when the first block that is not read does not look intact either
(`validateSegment_eq_iff`), and then the blocks flushed after reopening are read.
-/

namespace LolCrawler.Segment

open Foundation

variable {codecs : Codecs}

/-! ## Chains of blocks -/

/-- A chain of blocks that `read_segment_block` accepts. -/
inductive Reads (codecs : Codecs) (strict : Bool) (bytes : Bytes) :
    Nat → List SegmentBlock → Nat → Prop where
  | done (pos : Nat) : Reads codecs strict bytes pos [] pos
  | step {pos stop : Nat} {block : SegmentBlock} {blocks : List SegmentBlock}
      (read : readSegmentBlock codecs bytes pos strict = .ok (some block))
      (rest : Reads codecs strict bytes block.nextOff blocks stop) :
      Reads codecs strict bytes pos (block :: blocks) stop

/-- The longest prefix of accepted blocks. -/
structure Longest (codecs : Codecs) (strict : Bool) (bytes : Bytes) (blocks : List SegmentBlock)
    (stop : Nat) : Prop where
  reads : Reads codecs strict bytes 0 blocks stop
  ends : ∀ block, readSegmentBlock codecs bytes stop strict ≠ .ok (some block)

/-- A block of a known kind, with as many bytes behind its header as the header says. -/
def looksIntact (bytes : Bytes) (pos : Nat) : Bool :=
  pos + blockHeaderLen ≤ bytes.length &&
    let header := Header.parse (slice bytes pos blockHeaderLen)
    knownSegmentMagic header.magic && pos + blockHeaderLen + header.clen ≤ bytes.length

namespace Reads

variable {strict : Bool} {bytes : Bytes} {pos mid stop : Nat} {blocks later : List SegmentBlock}

/-- A reading stops inside the file. -/
theorem le_length (reads : Reads codecs strict bytes pos blocks stop)
    (inside : pos ≤ bytes.length) : pos ≤ stop ∧ stop ≤ bytes.length := by
  induction reads with
  | done => exact ⟨Nat.le_refl _, inside⟩
  | step read rest ih =>
      obtain ⟨forward, inside, -⟩ := readSegmentBlock_advances read
      have := ih inside
      omega

/-- Two readings, one after the other. -/
theorem append (first : Reads codecs strict bytes pos blocks mid)
    (second : Reads codecs strict bytes mid later stop) :
    Reads codecs strict bytes pos (blocks ++ later) stop := by
  induction first with
  | done => exact second
  | step read rest ih => exact .step read (ih second)

/-- A reading is about the bytes before its stop alone. -/
theorem congr {other : Bytes} (reads : Reads codecs strict bytes pos blocks stop)
    (inside : pos ≤ bytes.length) (same : bytes.take stop = other.take stop)
    (room : stop ≤ other.length) : Reads codecs strict other pos blocks stop := by
  induction reads with
  | done => exact .done _
  | step read rest ih =>
      obtain ⟨-, inside', -⟩ := readSegmentBlock_advances read
      have ahead := (rest.le_length inside').1
      exact .step (readSegmentBlock_congr read same ahead (ahead.trans room)) (ih inside' same room)

end Reads

/-- A walk is a reading. -/
theorem Walk.reads {bytes : Bytes} {pos stop : Nat} {blocks : List SegmentBlock}
    (walk : Walk codecs bytes pos blocks stop) : Reads codecs false bytes pos blocks stop := by
  induction walk with
  | done => exact .done _
  | step read rest ih => exact .step (readSegmentBlock_lenient read) ih

/-- A block that is read looks intact. -/
theorem looksIntact_of_read {bytes : Bytes} {pos : Nat} {strict : Bool} {block : SegmentBlock}
    (read : readSegmentBlock codecs bytes pos strict = .ok (some block)) :
    looksIntact bytes pos = true ∧
      block.nextOff = pos + blockHeaderLen +
        (Header.parse (slice bytes pos blockHeaderLen)).clen := by
  obtain ⟨header, body, framed, -⟩ := readSegmentBlock_eq_some.mp read
  have known := framed.head.known
  have inside := framed.head.inside
  have next := framed.head.next
  rw [framed.head.parsed] at known next
  refine ⟨?_, next⟩
  simp only [looksIntact, known, Bool.true_and, Bool.and_eq_true, decide_eq_true_eq]
  exact ⟨framed.head.whole, by omega⟩

/-! ## What reopening keeps -/

/-- One round of the validation passes an intact block, or stops. -/
theorem validateLoop_succ (bytes : Bytes) (fuel pos : Nat) :
    validateLoop bytes (fuel + 1) pos =
      if looksIntact bytes pos then
        validateLoop bytes fuel
          (pos + blockHeaderLen + (Header.parse (slice bytes pos blockHeaderLen)).clen)
      else pos := by
  rw [validateLoop]
  by_cases whole : bytes.length < pos + blockHeaderLen
  · rw [if_pos whole, looksIntact, decide_eq_false (by omega), Bool.false_and]
    rfl
  · rw [if_neg whole, looksIntact, decide_eq_true (by omega), Bool.true_and]
    cases known : knownSegmentMagic (Header.parse (slice bytes pos blockHeaderLen)).magic with
    | false => simp [known]
    | true =>
        by_cases inside : pos + blockHeaderLen +
            (Header.parse (slice bytes pos blockHeaderLen)).clen ≤ bytes.length
        · simp [known, inside, Nat.not_lt.mpr inside]
        · simp [known, inside, Nat.not_le.mp inside]

/-- The walk of `validate_segment` goes over every accepted block. -/
theorem Reads.validateLoop {bytes : Bytes} {strict : Bool} {pos stop : Nat}
    {blocks : List SegmentBlock} (reads : Reads codecs strict bytes pos blocks stop) :
    ∀ fuel, bytes.length ≤ pos + fuel → ∃ fuel', bytes.length ≤ stop + fuel' ∧
      Segment.validateLoop bytes fuel pos = Segment.validateLoop bytes fuel' stop := by
  induction reads with
  | done pos =>
      intro fuel enough
      exact ⟨fuel, enough, rfl⟩
  | @step pos stop block blocks read rest ih =>
      intro fuel enough
      obtain ⟨forward, inside, -⟩ := readSegmentBlock_advances read
      obtain ⟨intact, next⟩ := looksIntact_of_read read
      unfold blockHeaderLen at forward
      cases fuel with
      | zero => omega
      | succ fuel =>
          obtain ⟨fuel', enough', same⟩ := ih fuel (by omega)
          refine ⟨fuel', enough', ?_⟩
          rw [validateLoop_succ, if_pos intact, ← next, same]

/-- The validation goes forward. -/
theorem validateLoop_ge (bytes : Bytes) : ∀ fuel pos, pos ≤ validateLoop bytes fuel pos := by
  intro fuel
  induction fuel with
  | zero => exact fun pos => Nat.le_refl _
  | succ fuel ih =>
      intro pos
      rw [validateLoop_succ]
      split
      · have later := ih (pos + blockHeaderLen +
          (Header.parse (slice bytes pos blockHeaderLen)).clen)
        omega
      · exact Nat.le_refl _

/-- **Two walkers.** They agree exactly when what is not read does not look intact. -/
theorem validateSegment_eq_iff {bytes : Bytes} {strict : Bool} {blocks : List SegmentBlock}
    {stop : Nat} (longest : Longest codecs strict bytes blocks stop) :
    validateSegment bytes = stop ↔ looksIntact bytes stop = false := by
  obtain ⟨fuel, enough, same⟩ := longest.reads.validateLoop bytes.length (by omega)
  rw [validateSegment, same]
  cases intact : looksIntact bytes stop with
  | false =>
      refine iff_of_true ?_ rfl
      cases fuel with
      | zero => rfl
      | succ fuel => rw [validateLoop_succ, intact, if_neg Bool.false_ne_true]
  | true =>
      refine iff_of_false ?_ Bool.true_eq_false.mp
      have whole : stop + blockHeaderLen ≤ bytes.length := by
        rw [looksIntact, Bool.and_eq_true, decide_eq_true_eq] at intact
        exact intact.1
      unfold blockHeaderLen at whole
      cases fuel with
      | zero => omega
      | succ fuel =>
          rw [validateLoop_succ, intact, if_pos rfl]
          have later := validateLoop_ge bytes fuel (stop + blockHeaderLen +
            (Header.parse (slice bytes stop blockHeaderLen)).clen)
          unfold blockHeaderLen at later ⊢
          omega

/-! ## What the reader sees -/

/-- The lenient row loop fails on no block within the size limits. -/
theorem decodeRowLoop_total {block : Bytes} (small : block.length < 2 ^ 32) (fuel : Nat) :
    ∀ off, ∃ rows, decodeRowLoop block false fuel off = .ok rows := by
  induction fuel with
  | zero => exact fun off => ⟨_, rfl⟩
  | succ fuel ih =>
      intro off
      by_cases whole : off + 4 ≤ block.length ∧ rowEnd block off ≤ block.length
      · obtain ⟨rest, loop⟩ := ih (rowEnd block off)
        have recOff : tryU32 off "row record offset exceeds u32" = .ok (.ofNat off) :=
          tryU32_eq_ok.mpr ⟨by omega, rfl⟩
        rw [decodeRowLoop_row whole.1 whole.2, recOff, ok_bind, loop]
        exact ⟨_, rfl⟩
      · unfold decodeRowLoop
        split
        · split
          · exact ⟨_, rfl⟩
          · next start =>
              have recOff : tryU32 off "row record offset exceeds u32" = .ok (.ofNat off) :=
                tryU32_eq_ok.mpr ⟨by omega, rfl⟩
              unfold rowEnd at whole
              rw [recOff, ok_bind]
              simp only
              rw [if_pos (by omega)]
              exact ⟨_, rfl⟩
        · exact ⟨_, rfl⟩

/-- The lenient reader fails on no file within the file system's size limit. -/
theorem readSegmentBlock_total {bytes : Bytes} (small : bytes.length < 2 ^ 63) (pos : Nat) :
    ∃ found, readSegmentBlock codecs bytes pos false = .ok found := by
  obtain ⟨found, first⟩ := readHeader_lenient small pos
  cases found with
  | none => exact ⟨none, by simp only [readSegmentBlock, first, ok_bind, pure, Except.pure]⟩
  | some found =>
      obtain ⟨header, nextOff⟩ := found
      obtain ⟨found, second⟩ := readBody_lenient codecs pos header
        (slice bytes (pos + blockHeaderLen) header.clen)
      cases found with
      | none =>
          exact ⟨none, by simp only [readSegmentBlock, first, second, ok_bind, pure, Except.pure]⟩
      | some body =>
          have framed : Framed codecs bytes pos header nextOff body :=
            ⟨readHeader_eq_some.mp first, readBody_eq_some.mp second⟩
          have third : ∃ found, decodeBody pos false (kindOf header.magic) body = .ok found := by
            cases kindOf header.magic with
            | row =>
                have ulen := framed.head.ulen
                have length := framed.content.length
                unfold maxSegmentBlockBytes at ulen
                obtain ⟨rows, loop⟩ := decodeRowLoop_total
                  (show body.length < 2 ^ 32 by omega) body.length 0
                exact ⟨some rows, decodeBody_row.mpr loop⟩
            | columnar =>
                cases columns : Columnar.decodeBlock body with
                | error err =>
                    exact ⟨none, by
                      simp only [decodeBody, columns, invalidBlock, Bool.false_eq_true, if_false]⟩
                | ok records =>
                    exact ⟨_, decodeBody_columnar.mpr
                      ⟨columns, (ordinals_decodeBlock framed columns).2⟩⟩
          obtain ⟨found, third⟩ := third
          simp only [readSegmentBlock, first, second, third, ok_bind]
          cases found with
          | none => exact ⟨none, rfl⟩
          | some rows => exact ⟨_, rfl⟩

/-- The reader returns the records of the longest prefix. -/
theorem Reads.records {bytes : Bytes} {pos stop : Nat} {blocks : List SegmentBlock}
    (reads : Reads codecs false bytes pos blocks stop) (small : bytes.length < 2 ^ 63)
    (ends : ∀ block, readSegmentBlock codecs bytes stop false ≠ .ok (some block)) :
    ∀ fuel, bytes.length ≤ pos + fuel →
      readRecordsLoop codecs bytes fuel pos = .ok (recordsOf blocks) := by
  induction reads with
  | done pos =>
      intro fuel enough
      cases fuel with
      | zero => rfl
      | succ fuel =>
          obtain ⟨found, read⟩ : ∃ found, readSegmentBlock codecs bytes pos false = .ok found :=
            readSegmentBlock_total small pos
          rw [readRecordsLoop, read]
          cases found with
          | none => split <;> rfl
          | some block => exact absurd read (ends block)
  | @step pos stop block blocks read rest ih =>
      intro fuel enough
      obtain ⟨forward, inside, -⟩ := readSegmentBlock_advances read
      unfold blockHeaderLen at forward
      cases fuel with
      | zero => omega
      | succ fuel =>
          rw [readRecordsLoop, if_pos (by omega)]
          simp only [read, ok_bind, ih ends fuel (by omega)]
          rfl

/-- Every file has a longest prefix. -/
theorem exists_longest (codecs : Codecs) (strict : Bool) (bytes : Bytes) :
    ∃ blocks stop, Longest codecs strict bytes blocks stop := by
  have from_pos : ∀ left pos, bytes.length ≤ pos + left → ∃ blocks stop,
      Reads codecs strict bytes pos blocks stop ∧
        ∀ block, readSegmentBlock codecs bytes stop strict ≠ .ok (some block) := by
    intro left
    induction left with
    | zero =>
        intro pos past
        refine ⟨[], pos, .done pos, fun block read => ?_⟩
        obtain ⟨forward, inside, -⟩ := readSegmentBlock_advances read
        unfold blockHeaderLen at forward
        omega
    | succ left ih =>
        intro pos enough
        by_cases readable : ∃ block, readSegmentBlock codecs bytes pos strict = .ok (some block)
        · obtain ⟨block, read⟩ := readable
          have forward := (readSegmentBlock_advances read).1
          unfold blockHeaderLen at forward
          obtain ⟨blocks, stop, reads, ends⟩ := ih block.nextOff (by omega)
          exact ⟨block :: blocks, stop, .step read reads, ends⟩
        · exact ⟨[], pos, .done pos, not_exists.mp readable⟩
  obtain ⟨blocks, stop, reads, ends⟩ := from_pos bytes.length 0 (by omega)
  exact ⟨blocks, stop, reads, ends⟩

/-! ## Flushing after reopening -/

/-- Writers for these records, one after the other, each flushed. -/
def flushAll (codecs : Codecs) : List (List MatchRecord) → Fs File Unit
  | [] => pure ()
  | batch :: batches => do
      let _ ← (SegmentWriter.empty.appendAll batch).flush codecs
      flushAll codecs batches

/-- What reopening leaves of the files. -/
theorem openFiles_eq_ok {world after : World File} (run : openFiles world = (.ok (), after)) :
    after.files .seg = some (((world.files .seg).getD []).take
        (validateSegment ((world.files .seg).getD []))) ∧
      after.files .idx = some ((world.files .idx).getD []) := by
  obtain ⟨_, touched, touch, run⟩ := Fs.bind_eq_ok.mp run
  obtain ⟨bytes, opened, look, run⟩ := Fs.bind_eq_ok.mp run
  obtain ⟨_, cut, truncate, last⟩ := Fs.bind_eq_ok.mp run
  obtain ⟨_, _, _, rfl⟩ := Fs.step_eq_ok.mp touch
  obtain ⟨_, _, _, rfl⟩ := Fs.step_eq_ok.mp last
  obtain ⟨here, same⟩ := Fs.openFile_eq_ok look
  have content : bytes = (world.files .seg).getD [] := by
    simpa [Op.apply, eq_comm] using here
  have seg : opened.files .seg = some bytes := by rw [same, here]
  have idx : opened.files .idx = world.files .idx := by
    rw [same]
    simp [Op.apply, Function.update_of_ne]
  rw [← content]
  unfold truncateTorn at truncate
  split at truncate
  · next torn =>
      obtain ⟨_, _, shorten, look'⟩ := Fs.bind_eq_ok.mp truncate
      obtain ⟨_, _, _, rfl⟩ := Fs.step_eq_ok.mp shorten
      obtain ⟨_, _, _, rfl⟩ := Fs.step_eq_ok.mp look'
      constructor
      · simp [Op.apply, Function.update_of_ne, seg, resize_of_le (Nat.le_of_lt torn)]
      · simp [Op.apply, Function.update_of_ne, idx]
  · next whole =>
      obtain ⟨-, rfl⟩ := Fs.pure_eq_ok.mp truncate
      constructor
      · simp [Op.apply, Function.update_of_ne, seg, List.take_of_length_le (Nat.not_lt.mp whole)]
      · simp [Op.apply, idx]

/-- Flushes only append to the segment. -/
theorem flushAll_grows {batches : List (List MatchRecord)} {world after : World File}
    {seg : Bytes} (present : world.files .seg = some seg)
    (run : flushAll codecs batches world = (.ok (), after)) :
    ∃ tail, after.files .seg = some (seg ++ tail) := by
  induction batches generalizing world seg with
  | nil =>
      obtain ⟨-, rfl⟩ := Fs.pure_eq_ok.mp run
      exact ⟨[], by rw [List.append_nil, present]⟩
  | cons batch batches ih =>
      obtain ⟨_, _, flush, rest⟩ := Fs.bind_eq_ok.mp run
      by_cases pending : (SegmentWriter.empty.appendAll batch).pending = []
      · rw [SegmentWriter.flush, pending] at flush
        obtain ⟨-, rfl⟩ := Fs.pure_eq_ok.mp flush
        exact ih present rest
      · obtain ⟨compressed, -, appended⟩ := flush_eq_ok present pending flush
        obtain ⟨tail, final⟩ := ih appended rest
        exact ⟨_, by rw [final, List.append_assoc]⟩

/-- Blocks flushed behind a prefix that is read to the end of the file are read. -/
theorem flushAll_reads (lossless : codecs.Lossless) {batches : List (List MatchRecord)}
    (fits : ∀ batch ∈ batches, (SegmentWriter.empty.appendAll batch).Fits codecs)
    {world after : World File} {seg final : Bytes} {blocks : List SegmentBlock}
    (present : world.files .seg = some seg) (run : flushAll codecs batches world = (.ok (), after))
    (last : after.files .seg = some final) (small : final.length < 2 ^ 63)
    (reads : Reads codecs false seg 0 blocks seg.length) :
    ∃ later, Reads codecs false final 0 (blocks ++ later) final.length ∧
      recordsOf later = batches.flatten.map MatchRecord.encodeToVec := by
  induction batches generalizing world seg blocks with
  | nil =>
      obtain ⟨-, rfl⟩ := Fs.pure_eq_ok.mp run
      rw [present, Option.some.injEq] at last
      subst last
      exact ⟨[], by rw [List.append_nil]; exact reads, rfl⟩
  | cons batch batches ih =>
      have others : ∀ other ∈ batches, (SegmentWriter.empty.appendAll other).Fits codecs :=
        fun other inside => fits other (List.mem_cons_of_mem _ inside)
      obtain ⟨_, _, flush, rest⟩ := Fs.bind_eq_ok.mp run
      by_cases pending : (SegmentWriter.empty.appendAll batch).pending = []
      · have nobody : batch = [] := by
          have count := pending_appendAll batch .empty
          rw [pending] at count
          exact List.length_eq_zero_iff.mp (by simp [SegmentWriter.empty] at count; omega)
        rw [SegmentWriter.flush, pending] at flush
        obtain ⟨-, rfl⟩ := Fs.pure_eq_ok.mp flush
        rw [nobody]
        exact ih others present rest reads
      · obtain ⟨compressed, packed, appended⟩ := flush_eq_ok present pending flush
        obtain ⟨tail, grown⟩ := flushAll_grows appended rest
        obtain ⟨row, block⟩ := rowBlock_of_fits (fits batch List.mem_cons_self) packed
        rw [block] at appended grown
        rw [last, Option.some.injEq] at grown
        have short : (seg ++ rowBlockBytes codecs (batch.map MatchRecord.encodeToVec)
            compressed).length < 2 ^ 63 := by
          rw [grown, List.length_append] at small
          omega
        have read := readSegmentBlock_rowBlock lossless row short
        have extended : Reads codecs false (seg ++ rowBlockBytes codecs
            (batch.map MatchRecord.encodeToVec) compressed) 0
            (blocks ++ [rowBlockOf seg (batch.map MatchRecord.encodeToVec) compressed])
            (seg ++ rowBlockBytes codecs
              (batch.map MatchRecord.encodeToVec) compressed).length := by
          refine (reads.congr (Nat.zero_le _) ?_ ?_).append
            (.step (readSegmentBlock_lenient read) ?_)
          · rw [List.take_left, List.take_length]
          · simp
          · rw [rowBlockOf_nextOff codecs]
            exact .done _
        obtain ⟨later, whole, records⟩ := ih others appended rest extended
        refine ⟨rowBlockOf seg (batch.map MatchRecord.encodeToVec) compressed :: later, ?_, ?_⟩
        · rw [List.append_cons]
          exact whole
        · rw [recordsOf, List.flatMap_cons, ← recordsOf, records, List.flatten_cons,
            List.map_append]
          rfl

/-- **Reopening.** Reopening agrees with reading, and what is flushed behind it is read, exactly
when the first bytes that are not read do not look intact. -/
theorem reopen_agrees_iff (codecs : Codecs) (lossless : codecs.Lossless)
    (batches : List (List MatchRecord))
    (fits : ∀ batch ∈ batches, (SegmentWriter.empty.appendAll batch).Fits codecs)
    (world after : World File)
    (run : (do openFiles; flushAll codecs batches) world = (.ok (), after))
    (seg final : Bytes) (present : world.files .seg = some seg)
    (last : after.files .seg = some final) (small : seg.length < 2 ^ 63)
    (small' : final.length < 2 ^ 63) (blocks : List SegmentBlock) (stop : Nat)
    (longest : Longest codecs false seg blocks stop) :
    (validateSegment seg = stop ∧
      ∃ records, readSegmentRecords codecs seg = .ok records ∧
        readSegmentRecords codecs final =
          .ok (records ++ batches.flatten.map MatchRecord.encodeToVec)) ↔
      looksIntact seg stop = false := by
  rw [← validateSegment_eq_iff longest]
  refine ⟨And.left, fun agrees => ⟨agrees, recordsOf blocks,
    longest.reads.records small longest.ends _ (by omega), ?_⟩⟩
  obtain ⟨_, reopened, opened, flushed⟩ := Fs.bind_eq_ok.mp run
  have kept := (openFiles_eq_ok opened).1
  rw [present, Option.getD_some, agrees] at kept
  have inside := (longest.reads.le_length (Nat.zero_le _)).2
  have length : (seg.take stop).length = stop := by rw [List.length_take, Nat.min_eq_left inside]
  have reads : Reads codecs false (seg.take stop) 0 blocks (seg.take stop).length := by
    rw [length]
    exact longest.reads.congr (Nat.zero_le _) (by rw [List.take_take, Nat.min_self]) (by omega)
  obtain ⟨later, whole, records⟩ := flushAll_reads lossless fits kept flushed last small' reads
  have all := whole.records small' (fun block read => ?_) final.length (by omega)
  · rw [readSegmentRecords, all, recordsOf, List.flatMap_append, ← recordsOf, ← recordsOf, records]
  · have forward := readSegmentBlock_advances read
    unfold blockHeaderLen at forward
    omega

/-! ## A part of a header and a zeroed body -/

/-- Opens a segment with these bytes and flushes the short record behind them. -/
def reopened (seg : Bytes) : Except Stop Unit × World File :=
  (do openFiles; flushAll shortCodecs [[shortRecord]])
    ⟨fun file => match file with | .seg => some seg | _ => none, .never, []⟩

/-- The opened segment, once the calls have returned. -/
def reopenedSeg (seg : Bytes) : Option Bytes :=
  match (reopened seg).1 with
  | .ok () => (reopened seg).2.files .seg
  | .error _ => none

/-- A reopening that can be computed returns. -/
theorem reopened_eq {seg final : Bytes} (returns : reopenedSeg seg = some final) :
    ∃ after, reopened seg = (.ok (), after) ∧ after.files .seg = some final := by
  unfold reopenedSeg at returns
  split at returns
  · next result => exact ⟨_, Prod.ext result rfl, returns⟩
  · cases returns

/-- Nothing is read when the first block is not. -/
theorem longest_nil {seg : Bytes}
    (unread : (readSegmentBlock shortCodecs seg 0 false).toOption.map Option.isNone = some true) :
    Longest shortCodecs false seg [] 0 where
  reads := .done 0
  ends block read := by
    rw [read] at unread
    cases unread

/-- One byte of a header is cut off, and the record flushed behind it is read. -/
theorem reopen_agrees_torn :
    ∃ final, reopenedSeg [0x31] = some final ∧
      (validateSegment [0x31] = 0 ∧ ∃ records, readSegmentRecords shortCodecs [0x31] = .ok records ∧
        readSegmentRecords shortCodecs final =
          .ok (records ++ [[shortRecord]].flatten.map MatchRecord.encodeToVec)) := by
  have length : (reopenedSeg [0x31]).map List.length = some 38 := by decide +kernel
  obtain ⟨final, returns, length⟩ := Option.map_eq_some_iff.mp length
  obtain ⟨after, run, last⟩ := reopened_eq returns
  have fits : ∀ batch ∈ [[shortRecord]],
      (SegmentWriter.empty.appendAll batch).Fits shortCodecs := by
    intro batch inside
    rw [List.mem_singleton.mp inside]
    exact shortWriter_fits
  exact ⟨final, returns, (reopen_agrees_iff shortCodecs (storedCodecs_lossless _) [[shortRecord]]
    fits _ after run [0x31] final rfl last (by decide) (by omega) [] 0
    (longest_nil (by decide +kernel))).mpr (by decide)⟩

/-- The header of a flushed block, whose body never reached the disk. -/
def zeroedTail : Bytes :=
  [0x31, 0x4c, 0x53, 0x47, 0xf0, 0x25, 0x44, 0xd1, 22, 0, 0, 0, 10, 0, 0, 0] ++ List.replicate 22 0

/-- The zeroed block is kept, and hides the record that is flushed behind it. -/
theorem zeroed_tail_hides_flush :
    Longest shortCodecs false zeroedTail [] 0 ∧ validateSegment zeroedTail = 38 ∧
      readSegmentRecords shortCodecs zeroedTail = .ok [] ∧
      ∃ final, reopenedSeg zeroedTail = some final ∧ final.length = 76 ∧
        readSegmentRecords shortCodecs final = .ok [] := by
  have before : (readSegmentRecords shortCodecs zeroedTail).toOption = some [] := by decide +kernel
  have after : (reopenedSeg zeroedTail).map (fun final =>
      (final.length, (readSegmentRecords shortCodecs final).toOption)) = some (76, some []) := by
    decide +kernel
  obtain ⟨final, returns, seen⟩ := Option.map_eq_some_iff.mp after
  obtain ⟨length, read⟩ := Prod.mk.inj seen
  have ok_of {result : Except Error (List Bytes)} (found : result.toOption = some []) :
      result = .ok [] := by
    cases result with
    | error err => cases found
    | ok records => exact congrArg Except.ok (Option.some.inj found)
  exact ⟨longest_nil (by decide +kernel), by decide +kernel, ok_of before, final, returns, length,
    ok_of read⟩

end LolCrawler.Segment
