import LolCrawler.Segment.Recompact

/-! # What a rewrite writes

A container that was written is read back as the block it was made from, and an
index as its entries. The temporary segment is a chain of such containers
(`Written`), so the walk that verifies it finds columnar blocks only, with the
entries of the temporary index (`writeTmps_eq_ok`).
-/

namespace LolCrawler.Segment

open Foundation

variable {codecs : Codecs}

/-! ## Containers -/

/-- Slicing out the middle of three parts gives the middle. -/
theorem slice_append_of_length {first second third : Bytes} {off len : Nat}
    (before : first.length = off) (here : second.length = len) :
    slice (first ++ (second ++ third)) off len = second := by
  rw [slice, ← before, List.drop_left, ← here, List.take_left]

/-- A header has a fixed length. -/
theorem headerBytes_length (codecs : Codecs) (magic ulen : Nat) (compressed : Bytes) :
    (headerBytes codecs magic ulen compressed).length = blockHeaderLen := by
  simp [headerBytes, blockHeaderLen]

/-- A header is read back. -/
theorem parse_headerBytes {magic ulen : Nat} {compressed : Bytes} (known : magic < 2 ^ 32)
    (clen : compressed.length < 2 ^ 32) (small : ulen < 2 ^ 32) :
    Header.parse (headerBytes codecs magic ulen compressed) =
      ⟨magic, codecs.hash compressed, compressed.length, ulen⟩ := by
  have first : slice (headerBytes codecs magic ulen compressed) 0 4 = toLe 4 magic := by
    rw [headerBytes, List.append_assoc, List.append_assoc]
    exact slice_append_of_length (@List.length_nil UInt8) (toLe_length 4 _)
  have second : slice (headerBytes codecs magic ulen compressed) 4 4 =
      toLe 4 (codecs.hash compressed).toNat := by
    rw [headerBytes, List.append_assoc, List.append_assoc]
    exact slice_append_of_length (toLe_length 4 _) (toLe_length 4 _)
  have third : slice (headerBytes codecs magic ulen compressed) 8 4 =
      toLe 4 compressed.length := by
    rw [headerBytes, List.append_assoc]
    exact slice_append_of_length (by simp) (toLe_length 4 _)
  have fourth : slice (headerBytes codecs magic ulen compressed) 12 4 = toLe 4 ulen := by
    rw [headerBytes, ← List.append_nil (toLe 4 ulen)]
    exact slice_append_of_length (by simp) (toLe_length 4 _)
  have crc := (codecs.hash compressed).toNat_lt
  rw [Header.parse, first, second, third, fourth, ofLe_toLe_of_lt known,
    ofLe_toLe_of_lt (by omega), ofLe_toLe_of_lt clen, ofLe_toLe_of_lt small, UInt32.ofNat_toNat]

/-- The header and the body of a container at `pos`. -/
theorem slice_container {bytes rest compressed : Bytes} {pos magic ulen : Nat}
    (here : bytes.drop pos = containerBytes codecs magic ulen compressed ++ rest) :
    slice bytes pos blockHeaderLen = headerBytes codecs magic ulen compressed ∧
      slice bytes (pos + blockHeaderLen) compressed.length = compressed := by
  have header := headerBytes_length codecs magic ulen compressed
  rw [containerBytes, List.append_assoc] at here
  constructor
  · rw [slice, here, ← header, List.take_left]
  · rw [slice, ← List.drop_drop, here, ← header, List.drop_left, List.take_left]

/-- A block framed at a container is that container. -/
theorem Framed.of_container {bytes rest compressed payload body : Bytes} {pos magic nextOff : Nat}
    {header : Header} (framed : Framed codecs bytes pos header nextOff body)
    (here : bytes.drop pos = containerBytes codecs magic payload.length compressed ++ rest)
    (known : magic < 2 ^ 32) (clen : compressed.length < 2 ^ 32) (ulen : payload.length < 2 ^ 32)
    (opens : codecs.decompress compressed payload.length = .ok payload) :
    header.magic = magic ∧ nextOff = pos + blockHeaderLen + compressed.length ∧ body = payload := by
  obtain ⟨head, content⟩ := slice_container here
  have parsed := framed.head.parsed
  rw [head, parse_headerBytes known clen ulen] at parsed
  have next := framed.head.next
  have opened := framed.content.opened
  rw [parsed] at next opened ⊢
  simp only [content, opens, Except.ok.injEq] at next opened
  exact ⟨rfl, next, opened.symm⟩

/-! ## Chains of containers -/

/-- Chunks written as columnar containers from `pos` on, with their index entries. -/
inductive Written (codecs : Codecs) : Nat → List (List Bytes) → Bytes → List IdxEntry → Prop where
  | nil (pos : Nat) : Written codecs pos [] [] []
  | cons {pos : Nat} {chunk : List Bytes} {chunks : List (List Bytes)}
      {payload compressed bytes : Bytes} {entries later : List IdxEntry}
      (encoded : Columnar.encodeBlock codecs.decode chunk = .ok payload)
      (packed : codecs.compress payload columnarRecompactZstdLevel = .ok compressed)
      (clen : compressed.length < 2 ^ 32) (ulen : payload.length < 2 ^ 32)
      (numbered : chunkEntries codecs pos chunk 0 = .ok entries)
      (rest : Written codecs (pos + blockHeaderLen + compressed.length) chunks bytes later) :
      Written codecs pos (chunk :: chunks)
        (containerBytes codecs colMagic payload.length compressed ++ bytes) (entries ++ later)

/-- The entries of a chunk are those the layout finds in its block. -/
theorem blockEntries_of_chunkEntries {blockOff : Nat} {raws : List Bytes} :
    ∀ {ord : Nat} {entries : List IdxEntry}, chunkEntries codecs blockOff raws ord = .ok entries →
      blockEntries codecs blockOff
        (raws.zip ((List.range' ord raws.length).map UInt32.ofNat)) = .ok entries := by
  induction raws with
  | nil =>
      intro ord entries built
      exact built
  | cons raw raws ih =>
      intro ord entries built
      obtain ⟨gameId, decoded, built⟩ := Foundation.bind_eq_ok.mp built
      obtain ⟨recOff, small, built⟩ := Foundation.bind_eq_ok.mp built
      obtain ⟨later, rest, built⟩ := Foundation.bind_eq_ok.mp built
      obtain ⟨-, rfl⟩ := tryU32_eq_ok.mp small
      rw [List.length_cons, List.range'_succ, List.map_cons, List.zip_cons_cons, blockEntries,
        decoded, context_ok, ok_bind, ih rest]
      exact built

/-- **Chains.** A walk over written containers finds columnar blocks with the written
entries. -/
theorem Written.walk (lossless : codecs.Lossless) {bytes tail : Bytes} {pos stop : Nat}
    {chunks : List (List Bytes)} {entries : List IdxEntry} {blocks : List SegmentBlock}
    (written : Written codecs pos chunks tail entries) (here : bytes.drop pos = tail)
    (walk : Walk codecs bytes pos blocks stop) (ends : stop = bytes.length) :
    (∀ block ∈ blocks, block.kind = .columnar) ∧ layoutEntries codecs blocks = .ok entries := by
  induction written generalizing blocks with
  | nil pos =>
      have past : bytes.length ≤ pos := List.drop_eq_nil_iff.mp here
      cases walk with
      | done => exact ⟨by simp, rfl⟩
      | step read _ => exact absurd read (unreadable_of_length_le past _)
  | @cons pos chunk chunks payload compressed bytes' entries later encoded packed clen ulen numbered
      rest ih =>
      cases walk with
      | done =>
          have length := congrArg List.length here
          rw [List.length_drop, ends, Nat.sub_self, containerBytes, List.length_append,
            List.length_append, headerBytes_length, blockHeaderLen] at length
          omega
      | @step _ _ block blocks read walk =>
          obtain ⟨header, body, framed, decoded, kind, off⟩ := readSegmentBlock_eq_some.mp read
          obtain ⟨magic, next, rfl⟩ := framed.of_container here (by decide) clen ulen
            (lossless _ _ _ packed)
          have columnar : kindOf header.magic = .columnar := by
            rw [magic]
            rfl
          rw [columnar] at decoded
          obtain ⟨columns, ordinal⟩ := decodeBody_columnar.mp decoded
          have records : block.records = chunk := by
            rw [Columnar.decodeBlock_of_encodeBlock encoded] at columns
            exact (Except.ok.inj columns).symm
          have offsets : block.recOffsets = (List.range' 0 chunk.length).map UInt32.ofNat := by
            rw [(ordinals_decodeBlock framed columns).2, records, List.range_eq_range'] at ordinal
            exact (Except.ok.inj ordinal).symm
          have behind : bytes.drop (pos + blockHeaderLen + compressed.length) = bytes' := by
            rw [← List.drop_drop, ← List.drop_drop, here, containerBytes,
              ← headerBytes_length codecs colMagic body.length compressed, List.append_assoc,
              List.drop_left, List.drop_left]
          rw [next] at walk
          obtain ⟨others, entriesLater⟩ := ih behind walk
          constructor
          · intro other inside
            rcases List.mem_cons.mp inside with rfl | inside
            · exact kind.trans columnar
            · exact others other inside
          · have first : layoutBlock codecs block = .ok entries := by
              rw [layoutBlock, offsets, records, List.length_map, List.length_range', off,
                decide_eq_true rfl, ensure_true, ok_bind]
              exact blockEntries_of_chunkEntries numbered
            rw [layoutEntries, first, ok_bind, entriesLater]
            rfl

/-! ## Index files -/

/-- An entry that is written is parsed back. -/
theorem parse_entryBytes (entry : IdxEntry) : IdxEntry.parse entry.bytes = entry := by
  have first : slice entry.bytes 0 8 = toLe 8 entry.gameId.toNat := by
    rw [IdxEntry.bytes, List.append_assoc]
    exact slice_append_of_length (@List.length_nil UInt8) (toLe_length 8 _)
  have second : slice entry.bytes 8 8 = toLe 8 entry.blockOff.toNat := by
    rw [IdxEntry.bytes, List.append_assoc]
    exact slice_append_of_length (toLe_length 8 _) (toLe_length 8 _)
  have third : slice entry.bytes 16 4 = toLe 4 entry.recOff.toNat := by
    rw [IdxEntry.bytes, ← List.append_nil (toLe 4 entry.recOff.toNat)]
    exact slice_append_of_length (by simp) (toLe_length 4 _)
  have gameId := entry.gameId.toNat_lt
  have blockOff := entry.blockOff.toNat_lt
  have recOff := entry.recOff.toNat_lt
  rw [IdxEntry.parse, first, second, third, ofLe_toLe_of_lt (by omega), ofLe_toLe_of_lt (by omega),
    ofLe_toLe_of_lt (by omega), UInt64.ofNat_toNat, UInt64.ofNat_toNat, UInt32.ofNat_toNat]

/-- An entry has a fixed length. -/
theorem entryBytes_length (entry : IdxEntry) : entry.bytes.length = idxEntryLen := by
  simp [IdxEntry.bytes, idxEntryLen]

/-- The length of an index is a multiple of that of an entry. -/
theorem idxBytes_length (entries : List IdxEntry) :
    (idxBytes entries).length = entries.length * idxEntryLen := by
  induction entries with
  | nil => rfl
  | cons entry entries ih =>
      have rest : (idxBytes (entry :: entries)).length = entry.bytes.length +
        (idxBytes entries).length := by
        rw [idxBytes, List.flatMap_cons, List.length_append, idxBytes]
      rw [rest, ih, entryBytes_length, List.length_cons]
      ring

/-- An index that is written is parsed back. -/
theorem idxChunks_idxBytes (entries : List IdxEntry) :
    idxChunks entries.length (idxBytes entries) = entries := by
  induction entries with
  | nil => rfl
  | cons entry entries ih =>
      have split : idxBytes (entry :: entries) = entry.bytes ++ idxBytes entries := rfl
      rw [List.length_cons, idxChunks, split, ← entryBytes_length entry, List.take_left,
        List.drop_left, parse_entryBytes, ih]

/-- An index file is read back. -/
theorem parseIdxEntries_idxBytes (entries : List IdxEntry) :
    parseIdxEntries (idxBytes entries) = some entries := by
  have positive : 0 < idxEntryLen := by decide
  rw [parseIdxEntries, idxBytes_length, Nat.mul_mod_left, if_neg (by simp),
    Nat.mul_div_cancel _ positive, idxChunks_idxBytes]

/-! ## The temporary files -/

/-- A segment of columnar blocks, with its records and the entries that locate them. -/
structure Compacted (codecs : Codecs) (seg : Bytes) (blocks : List SegmentBlock)
    (entries : List IdxEntry) : Prop where
  walk : Walk codecs seg 0 blocks seg.length
  columnar : ∀ block ∈ blocks, block.kind = .columnar
  entries : layoutEntries codecs blocks = .ok entries

/-- Reading the size of a file runs. -/
theorem metadataLen_runs {files : Files File} {path : File} {bytes : Bytes}
    (present : files path = some bytes) : Runs (metadataLen path) files bytes.length files :=
  (Runs.openFile present).bind (.pure _)

/-- A block is appended, header first. -/
theorem writeContainerBlock_eq_ok {path : File} {magic : Nat}
    {uncompressed compressed before : Bytes}
    {world after : World File}
    (run : writeContainerBlock codecs path magic uncompressed compressed world = (.ok (), after))
    (present : world.files path = some before) :
    compressed.length < 2 ^ 32 ∧ uncompressed.length < 2 ^ 32 ∧
      after.files path =
        some (before ++ containerBytes codecs magic uncompressed.length compressed) := by
  obtain ⟨_, _, clen, run⟩ := Fs.bind_eq_ok.mp run
  obtain ⟨_, _, ulen, run⟩ := Fs.bind_eq_ok.mp run
  obtain ⟨_, _, head, body⟩ := Fs.bind_eq_ok.mp run
  obtain ⟨small, rfl⟩ := Fs.lift_eq_ok.mp clen
  obtain ⟨small', rfl⟩ := Fs.lift_eq_ok.mp ulen
  obtain ⟨_, _, _, rfl⟩ := Fs.step_eq_ok.mp head
  obtain ⟨_, _, _, rfl⟩ := Fs.step_eq_ok.mp body
  refine ⟨(tryU32_eq_ok.mp small).1, (tryU32_eq_ok.mp small').1, ?_⟩
  simp only [Op.apply, Function.update_self, present, Option.map_some, containerBytes,
    List.append_assoc]

/-- A columnar block is appended, at the end that the file had. -/
theorem writeColumnarBlock_eq_ok {path : File} {records : List Bytes} {level : Int} {before : Bytes}
    {world after : World File} {blockOff : Nat}
    (run : writeColumnarBlock codecs path records level world = (.ok blockOff, after))
    (present : world.files path = some before) :
    blockOff = before.length ∧ ∃ payload compressed,
      Columnar.encodeBlock codecs.decode records = .ok payload ∧
      codecs.compress payload level = .ok compressed ∧
      compressed.length < 2 ^ 32 ∧ payload.length < 2 ^ 32 ∧
      after.files path =
        some (before ++ containerBytes codecs colMagic payload.length compressed) := by
  obtain ⟨found, between, look, looked⟩ := Fs.bind_eq_ok.mp run
  obtain ⟨payload, _, encode, encoded⟩ := Fs.bind_eq_ok.mp looked
  obtain ⟨compressed, _, compress, packed⟩ := Fs.bind_eq_ok.mp encoded
  obtain ⟨_, _, write, done⟩ := Fs.bind_eq_ok.mp packed
  obtain ⟨rfl, rfl⟩ := Fs.pure_eq_ok.mp done
  obtain ⟨rfl, same⟩ := Fs.read_eq_ok look
  obtain ⟨encodes, rfl⟩ := Fs.lift_eq_ok.mp encode
  obtain ⟨packs, rfl⟩ := Fs.lift_eq_ok.mp compress
  obtain ⟨clen, ulen, files⟩ := writeContainerBlock_eq_ok write (by rw [same, present])
  refine ⟨?_, payload, compressed, encodes, packs, clen, ulen, files⟩
  rw [present]
  rfl

/-- The chunks are appended as columnar blocks, with an entry for each record. -/
theorem writeChunks_eq_ok {chunks : List (List Bytes)} :
    ∀ {world after : World File} {before : Bytes} {entries : List IdxEntry},
      writeChunks codecs chunks world = (.ok entries, after) →
      world.files .segTmp = some before →
        ∃ tail, Written codecs before.length chunks tail entries ∧
          after.files .segTmp = some (before ++ tail) := by
  induction chunks with
  | nil =>
      intro world after before entries run present
      obtain ⟨rfl, rfl⟩ := Fs.pure_eq_ok.mp run
      exact ⟨[], .nil _, by rw [present, List.append_nil]⟩
  | cons chunk chunks ih =>
      intro world after before entries run present
      obtain ⟨blockOff, _, write, written⟩ := Fs.bind_eq_ok.mp run
      obtain ⟨here, _, number, numbered⟩ := Fs.bind_eq_ok.mp written
      obtain ⟨later, _, rest, done⟩ := Fs.bind_eq_ok.mp numbered
      obtain ⟨rfl, rfl⟩ := Fs.pure_eq_ok.mp done
      obtain ⟨rfl, payload, compressed, encoded, packed, clen, ulen, files⟩ :=
        writeColumnarBlock_eq_ok write present
      obtain ⟨numbered, rfl⟩ := Fs.lift_eq_ok.mp number
      obtain ⟨tail, written, files'⟩ := ih rest files
      rw [List.length_append, containerBytes, List.length_append, headerBytes_length,
        ← Nat.add_assoc] at written
      exact ⟨_, .cons encoded packed clen ulen numbered written, by rw [files', List.append_assoc]⟩

/-! ## Reading a layout -/

/-- Looking changes no file. -/
def Op.Looks {Path : Type} (op : Op Path) : Prop := op = .observe

/-- An observation looks. -/
theorem looks_observe : Op.Looks (.observe : Op File) := rfl

/-- Looking spares every file. -/
theorem Op.Looks.spares {Path : Type} {op : Op Path} (looks : Op.Looks op) (path : Path) :
    op.Spares path := by
  rw [show op = .observe from looks]
  trivial

/-- The walk over the blocks only looks. -/
theorem layoutLoopIo_only (codecs : Codecs) (bytes : Bytes) (fuel : Nat) :
    ∀ pos, Only Op.Looks (layoutLoopIo codecs bytes fuel pos) := by
  induction fuel with
  | zero => exact fun _ => .pure _
  | succ fuel ih =>
      intro pos
      unfold layoutLoopIo
      split
      · refine (Only.step looks_observe).attempt.bind fun tried => ?_
        cases tried with
        | error err => exact .pure _
        | ok _ =>
            simp only
            split
            · exact (Only.lift _).bind fun _ => (ih _).bind fun _ => .pure _
            · exact .pure _
      · exact .pure _

/-- Reading the layout only looks. -/
theorem readSegmentLayoutIo_only (codecs : Codecs) (paths : Paths) (path : File) :
    Only Op.Looks (readSegmentLayoutIo codecs paths path) :=
  (Only.openFile path looks_observe).context.bind fun _ =>
    (Only.step looks_observe).bind fun _ => layoutLoopIo_only _ _ _ _

/-- An attempt of one operation has done it, or has failed. -/
theorem attempt_step_eq_ok {op : Op File} {world after : World File} {tried : Except Error Unit}
    (run : Fs.attempt (Fs.step op) world = (.ok tried, after)) :
    (tried = .ok () ∧ Fs.step op world = (.ok (), after)) ∨ ∃ err, tried = .error err ∧
      Fs.step op world = (.error (.failed err), after) := by
  unfold Fs.attempt at run
  split at run
  · next done =>
      cases run
      exact .inl ⟨rfl, done⟩
  · next err _ failed =>
      cases run
      exact .inr ⟨err, rfl, failed⟩
  · cases run

/-- An observation fails only where the run is cut. -/
theorem observe_failed {world after : World File} {err : Error}
    (run : Fs.step .observe world = (.error (.failed err), after)) :
    ∃ written rest, world.cut.next = .error (some (written, rest)) := by
  unfold Fs.step at run
  split at run
  · cases run
  · next written rest fails => exact ⟨written, rest, fails⟩
  · split at run
    · cases run
    · next absent => simp [Op.needs] at absent

/-- The layout of the first `count` blocks of a walk that stops at `stop`. -/
def FrontLayout (codecs : Codecs) (bytes : Bytes) (pos : Nat) (blocks : List SegmentBlock)
    (stop count : Nat) (layout : SegmentLayout) : Prop :=
  ∃ last, Walk codecs bytes pos (blocks.take count) last ∧
    (count = blocks.length → last = stop) ∧
    layoutOf codecs bytes (blocks.take count) last = .ok layout

/-- The layout that is read is that of the blocks in front of the first read that fails. -/
theorem layoutLoopIo_eq_ok {bytes : Bytes} {pos stop : Nat} {blocks : List SegmentBlock}
    (walk : Walk codecs bytes pos blocks stop) (ends : Unreadable codecs bytes stop) :
    ∀ {fuel : Nat} {world after : World File} {layout : SegmentLayout},
      bytes.length ≤ pos + fuel →
      layoutLoopIo codecs bytes fuel pos world = (.ok layout, after) →
        FrontLayout codecs bytes pos blocks stop (world.cut.smooth blocks.length) layout := by
  induction walk with
  | done pos =>
      intro fuel world after layout enough run
      rw [FrontLayout, List.take_nil]
      refine ⟨pos, .done pos, fun _ => rfl, ?_⟩
      cases fuel with
      | zero =>
          obtain ⟨rfl, rfl⟩ := Fs.pure_eq_ok.mp run
          rw [layoutOf, tailAt, if_neg (by omega)]
          rfl
      | succ fuel =>
          unfold layoutLoopIo at run
          split at run
          · next inside =>
              have torn : layout = .torn pos bytes.length := by
                obtain ⟨tried, between, -, rest⟩ := Fs.bind_eq_ok.mp run
                cases tried with
                | error err => exact (Fs.pure_eq_ok.mp rest).1
                | ok done =>
                    rcases found : readSegmentBlock codecs bytes pos true with err | (_ | block)
                    · simp only [found] at rest
                      exact (Fs.pure_eq_ok.mp rest).1
                    · simp only [found] at rest
                      exact (Fs.pure_eq_ok.mp rest).1
                    · exact absurd found (ends block)
              rw [torn, layoutOf, tailAt, if_pos inside]
              rfl
          · next past =>
              obtain ⟨rfl, rfl⟩ := Fs.pure_eq_ok.mp run
              rw [layoutOf, tailAt, if_neg past]
              rfl
  | @step pos stop block blocks read rest ih =>
      intro fuel world after layout enough run
      obtain ⟨forward, inside, -⟩ := readSegmentBlock_advances read
      unfold blockHeaderLen at forward
      cases fuel with
      | zero => omega
      | succ fuel =>
          rw [layoutLoopIo, if_pos (by omega)] at run
          obtain ⟨tried, between, first, later⟩ := Fs.bind_eq_ok.mp run
          rcases attempt_step_eq_ok first with ⟨rfl, done⟩ | ⟨err, rfl, failed⟩
          · simp only [read] at later
            obtain ⟨entries, _, lifted, walked⟩ := Fs.bind_eq_ok.mp later
            obtain ⟨rows, _, loop, last⟩ := Fs.bind_eq_ok.mp walked
            obtain ⟨rfl, rfl⟩ := Fs.pure_eq_ok.mp last
            obtain ⟨built, rfl⟩ := Fs.lift_eq_ok.mp lifted
            obtain ⟨cut, goes, -, rfl⟩ := Fs.step_eq_ok.mp done
            obtain ⟨last, front, whole, same⟩ := ih ends (by omega) loop
            rw [FrontLayout, List.length_cons, (Cut.next_eq_ok goes).2, List.take_succ_cons]
            refine ⟨last, .step read front, fun all => whole (Nat.succ.inj all), ?_⟩
            rw [layoutOf_cons, built, ok_bind, same]
            rfl
          · -- The blocks from here on count as a torn tail.
            obtain ⟨rfl, rfl⟩ := Fs.pure_eq_ok.mp later
            obtain ⟨written, rest, fails⟩ := observe_failed failed
            rw [FrontLayout, Cut.smooth_of_failing fails, List.take_zero]
            refine ⟨pos, .done pos, fun none => ?_, ?_⟩
            · simp at none
            · rw [layoutOf, tailAt, if_pos (by omega)]
              rfl

/-- **A layout that is read** is the layout of the blocks in front of the first failing read. -/
theorem readSegmentLayoutIo_eq_ok {paths : Paths} {path : File} {world after : World File}
    {bytes : Bytes} {blocks : List SegmentBlock} {stop : Nat} {layout : SegmentLayout}
    (present : world.files path = some bytes) (maximal : MaximalWalk codecs bytes blocks stop)
    (run : readSegmentLayoutIo codecs paths path world = (.ok layout, after)) :
    FrontLayout codecs bytes 0 blocks stop ((world.cut.passed 2).smooth blocks.length)
      layout := by
  obtain ⟨found, between, first, opened⟩ := Fs.bind_eq_ok.mp run
  obtain ⟨_, looped, measure, loop⟩ := Fs.bind_eq_ok.mp opened
  have here := (Fs.openFile_eq_ok (Fs.context_eq_ok.mp first)).1
  rw [present, Option.some.injEq] at here
  subst here
  have behind : looped.cut = world.cut.passed 2 := by
    rw [Costs.step _ _ _ _ measure, (Costs.openFile path).context _ _ _ first, Cut.passed_passed]
  rw [← behind]
  exact layoutLoopIo_eq_ok maximal.walk maximal.ends (by omega) loop

/-- The walk over the blocks runs as it does on the bytes. -/
theorem layoutLoopIo_runs {bytes : Bytes} {files : Files File} {fuel : Nat} :
    ∀ {pos : Nat} {layout : SegmentLayout}, layoutLoop codecs bytes fuel pos = .ok layout →
      Runs (layoutLoopIo codecs bytes fuel pos) files layout files := by
  induction fuel with
  | zero =>
      intro pos layout read
      cases read
      exact .pure _
  | succ fuel ih =>
      intro pos layout read
      unfold layoutLoop at read
      unfold layoutLoopIo
      split at read
      · next inside =>
          rw [if_pos inside]
          refine Runs.observe.attempt.bind ?_
          rcases found : readSegmentBlock codecs bytes pos true with err | _ | block <;>
            simp only [found] at read ⊢
          · cases read
            exact .pure _
          · cases read
            exact .pure _
          · obtain ⟨entries, built, rest⟩ := Foundation.bind_eq_ok.mp read
            obtain ⟨later, loop, done⟩ := Foundation.bind_eq_ok.mp rest
            cases done
            exact (Runs.lift built).bind ((ih loop).bind (.pure _))
      · next past =>
          cases read
          rw [if_neg past]
          exact .pure _

/-- Reading the layout runs as it does on the bytes. -/
theorem readSegmentLayoutIo_runs (paths : Paths) {path : File} {files : Files File} {bytes : Bytes}
    {layout : SegmentLayout} (present : files path = some bytes)
    (read : readSegmentLayout codecs bytes = .ok layout) :
    Runs (readSegmentLayoutIo codecs paths path) files layout files :=
  (Runs.openFile present).context.bind (Runs.observe.bind (layoutLoopIo_runs read))

/-! ## The temporary files are what they should be -/

/-- Bytes that pass the comparison are equal. -/
theorem verifyBytes_eq_ok {wants : List Bytes} :
    ∀ {gots : List Bytes} {idx : Nat}, wants.length = gots.length →
      verifyBytes (wants.zip gots) idx = .ok () → gots = wants := by
  induction wants with
  | nil =>
      intro gots idx count _
      exact List.eq_nil_of_length_eq_zero count.symm
  | cons want wants ih =>
      intro gots idx count verified
      cases gots with
      | nil => simp at count
      | cons got gots =>
          obtain ⟨_, same, rest⟩ := Foundation.bind_eq_ok.mp verified
          rw [ih (by simpa using count) rest, of_decide_eq_true (ensure_eq_ok.mp same)]

/-- Records that pass the verification are equal. -/
theorem verifyRewrite_eq_ok {want got : List Bytes} (verified : verifyRewrite want got = .ok ()) :
    got = want := by
  obtain ⟨_, count, rest⟩ := Foundation.bind_eq_ok.mp verified
  exact verifyBytes_eq_ok (of_decide_eq_true (ensure_eq_ok.mp count)) rest

/-- Records that pass the verification are equal, and nothing is removed. -/
theorem verifyOrRemove_eq_ok {want got : List Bytes} {world after : World File}
    (run : verifyOrRemove want got world = (.ok (), after)) : got = want ∧ after = world := by
  unfold verifyOrRemove at run
  cases verified : verifyRewrite want got with
  | ok _ =>
      rw [verified] at run
      exact ⟨verifyRewrite_eq_ok verified, (Fs.pure_eq_ok.mp run).2⟩
  | error err =>
      rw [verified] at run
      obtain ⟨_, _, _, rest⟩ := Fs.bind_eq_ok.mp run
      obtain ⟨_, _, _, failed⟩ := Fs.bind_eq_ok.mp rest
      cases failed

/-- The temporary index is written. -/
theorem writeIdxTmp_eq_ok {paths : Paths} {entries : List IdxEntry} {world after : World File}
    (run : writeIdxTmp paths entries world = (.ok (), after)) :
    after.files = Function.update world.files .idxTmp (some (idxBytes entries)) := by
  obtain ⟨_, _, create, rest⟩ := Fs.bind_eq_ok.mp run
  obtain ⟨_, _, write, sync⟩ := Fs.bind_eq_ok.mp rest
  obtain ⟨_, _, _, rfl⟩ := Fs.step_eq_ok.mp (Fs.context_eq_ok.mp create)
  obtain ⟨_, _, _, rfl⟩ := Fs.step_eq_ok.mp write
  obtain ⟨_, _, _, rfl⟩ := Fs.step_eq_ok.mp (Fs.context_eq_ok.mp sync)
  simp only [Op.apply, Function.update_self, Option.map_some, List.nil_append,
    Function.update_idem]

/-- A strict read returns the records of the whole file. -/
theorem readSegmentRecordsStrict_eq_ok {paths : Paths} {path : File} {world after : World File}
    {records : List Bytes}
    (run : readSegmentRecordsStrict codecs paths path world = (.ok records, after)) :
    after.files = world.files ∧ ∃ bytes blocks, world.files path = some bytes ∧
      Walk codecs bytes 0 blocks bytes.length ∧ records = recordsOf blocks := by
  obtain ⟨layout, between, read, rest⟩ := Fs.bind_eq_ok.mp run
  obtain ⟨_, _, check, done⟩ := Fs.bind_eq_ok.mp rest
  obtain ⟨untorn, rfl⟩ := Fs.lift_eq_ok.mp check
  obtain ⟨rfl, rfl⟩ := Fs.pure_eq_ok.mp done
  have whole : layout.tornTail = none := Option.isNone_iff_eq_none.mp (ensure_eq_ok.mp untorn)
  have kept : ∀ other, after.files other = world.files other := fun other =>
    (readSegmentLayoutIo_only codecs paths path).files_eq read
      fun _ looks => Op.Looks.spares looks other
  obtain ⟨bytes, opened, first, -⟩ := Fs.bind_eq_ok.mp read
  have present := (Fs.openFile_eq_ok (Fs.context_eq_ok.mp first)).1
  obtain ⟨blocks, stop, maximal⟩ := exists_maximalWalk codecs bytes
  obtain ⟨last, walk, -, same⟩ := readSegmentLayoutIo_eq_ok present maximal read
  obtain ⟨entries, _, built⟩ := Foundation.bind_eq_ok.mp same
  cases built
  have ends : last = bytes.length := by
    have inside := (walk.le_length (Nat.zero_le _)).2
    simp only [tailAt] at whole
    split at whole
    · cases whole
    · omega
  exact ⟨funext kept, bytes, _, present, ends ▸ walk, rfl⟩

/-- **The temporary files.** What is renamed into place is a compacted segment with the
records of the layout, and its index. -/
theorem writeTmps_eq_ok (lossless : codecs.Lossless) {paths : Paths} {layout : SegmentLayout}
    {world after : World File} (run : writeTmps codecs paths layout world = (.ok (), after)) :
    ∃ seg blocks entries, after.files .segTmp = some seg ∧
      after.files .idxTmp = some (idxBytes entries) ∧ Compacted codecs seg blocks entries ∧
      recordsOf blocks = layout.records := by
  obtain ⟨_, _, create, rest⟩ := Fs.bind_eq_ok.mp run
  obtain ⟨_, _, _, rfl⟩ := Fs.step_eq_ok.mp (Fs.context_eq_ok.mp create)
  obtain ⟨entries, _, write, rest⟩ := Fs.bind_eq_ok.mp rest
  have empty : Op.apply world.files (.create .segTmp) File.segTmp = some [] := rfl
  obtain ⟨tail, written, files⟩ := writeChunks_eq_ok write empty
  obtain ⟨_, _, sync, rest⟩ := Fs.bind_eq_ok.mp rest
  obtain ⟨_, _, _, rfl⟩ := Fs.step_eq_ok.mp (Fs.context_eq_ok.mp sync)
  obtain ⟨_, _, index, rest⟩ := Fs.bind_eq_ok.mp rest
  have indexed := writeIdxTmp_eq_ok index
  obtain ⟨rewritten, _, read, verify⟩ := Fs.bind_eq_ok.mp rest
  obtain ⟨same, bytes, blocks, present, walk, rfl⟩ := readSegmentRecordsStrict_eq_ok read
  obtain ⟨records, rfl⟩ := verifyOrRemove_eq_ok verify
  have segment : bytes = tail := by
    rw [indexed, Function.update_of_ne (by decide)] at present
    exact Option.some.inj (present.symm.trans files)
  subst segment
  obtain ⟨columnar, located⟩ := written.walk lossless (List.drop_zero) walk rfl
  refine ⟨bytes, blocks, entries, ?_, ?_, ⟨walk, columnar, located⟩, records⟩
  · rw [same, present]
  · rw [same, indexed, Function.update_self]

end LolCrawler.Segment
