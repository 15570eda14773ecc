import LolCrawler.Columnar.SelfCheck
import LolCrawler.Segment.Block

/-! # Walking the blocks of a segment

What a block read depends on, and what strict and lenient readers see. A walk is
a chain of strictly readable blocks (`Walk`); the layout of a segment is its
longest walk (`readSegmentLayout_spec`), and a block is read the same in every
file that agrees up to its end (`readSegmentBlock_congr`).
-/

namespace LolCrawler.Segment

open Foundation

/-! ## Headers and bodies -/

/-- A slice depends on the bytes up to its end. -/
theorem slice_congr {first second : Bytes} {stop off len : Nat}
    (same : first.take stop = second.take stop) (inside : off + len ≤ stop) :
    slice first off len = slice second off len := by
  have cut : ∀ bytes : Bytes, slice bytes off len = slice (bytes.take stop) off len := by
    intro bytes
    rw [slice, slice, List.drop_take, List.take_take, Nat.min_eq_left (by omega)]
  rw [cut first, cut second, same]

/-- A block that is invalid is not read. -/
theorem invalidBlock_ne_some {α : Type} {strict : Bool} {msg : String} {value : α} :
    invalidBlock strict msg ≠ .ok (some value) := by
  cases strict <;> simp [invalidBlock, bail]

/-- A header whose block lies within the file and the size limits. -/
structure HeaderAt (bytes : Bytes) (pos : Nat) (header : Header) (nextOff : Nat) : Prop where
  whole : pos + blockHeaderLen ≤ bytes.length
  parsed : header = .parse (slice bytes pos blockHeaderLen)
  next : nextOff = pos + blockHeaderLen + header.clen
  small : nextOff < Columnar.usizeBound
  known : knownSegmentMagic header.magic = true
  inside : nextOff ≤ bytes.length
  clen : header.clen ≤ maxSegmentBlockBytes
  ulen : header.ulen ≤ maxSegmentBlockBytes

/-- A checked sum is a sum that fits. -/
theorem checkedAdd_eq_some {a b sum : Nat} :
    Columnar.checkedAdd a b = some sum ↔ sum = a + b ∧ a + b < Columnar.usizeBound := by
  unfold Columnar.checkedAdd
  split <;> simp_all [eq_comm]

/-- A header that is read is at its place. -/
theorem readHeader_eq_some {bytes : Bytes} {pos : Nat} {strict : Bool} {header : Header}
    {nextOff : Nat} :
    readHeader bytes pos strict = .ok (some (header, nextOff)) ↔
      HeaderAt bytes pos header nextOff := by
  constructor
  · intro read
    unfold readHeader at read
    split at read
    · exact absurd read invalidBlock_ne_some
    · next whole =>
        simp only at read
        split at read
        · simp [bail] at read
        · next found =>
            obtain ⟨mid, first, second⟩ := Option.bind_eq_some_iff.mp found
            obtain ⟨rfl, -⟩ := checkedAdd_eq_some.mp first
            obtain ⟨rfl, small⟩ := checkedAdd_eq_some.mp second
            repeat
              split at read
              · exact absurd read invalidBlock_ne_some
            cases read
            exact ⟨by omega, rfl, rfl, small, by simp_all, by omega, by omega, by omega⟩
  · rintro ⟨whole, parsed, next, small, known, inside, clen, ulen⟩
    have next' : nextOff = pos + blockHeaderLen +
      (Header.parse (slice bytes pos blockHeaderLen)).clen := by
      rw [next, parsed]
    have added : (Columnar.checkedAdd pos blockHeaderLen).bind
        (Columnar.checkedAdd · (Header.parse (slice bytes pos blockHeaderLen)).clen) =
          some nextOff := by
      apply Option.bind_eq_some_iff.mpr
      refine ⟨_, checkedAdd_eq_some.mpr ⟨rfl, by omega⟩, checkedAdd_eq_some.mpr ⟨next', ?_⟩⟩
      omega
    unfold readHeader
    rw [if_neg (by omega)]
    simp only [added]
    rw [← parsed, known, if_neg (by simp), if_neg (by omega), if_neg (by omega),
      if_neg (by omega)]

/-- A body whose checksum and length are those of its header. -/
structure BodyAt (codecs : Codecs) (header : Header) (compressed body : Bytes) : Prop where
  sum : codecs.hash compressed = header.crc
  opened : codecs.decompress compressed header.ulen = .ok body
  length : body.length = header.ulen

section Blocks

variable {codecs : Codecs}

/-- A body that is read is at its place. -/
theorem readBody_eq_some {pos : Nat} {strict : Bool} {header : Header} {compressed body : Bytes} :
    readBody codecs pos strict header compressed = .ok (some body) ↔
      BodyAt codecs header compressed body := by
  constructor
  · intro read
    unfold readBody at read
    split at read
    · exact absurd read invalidBlock_ne_some
    · next sum =>
        split at read
        · exact absurd read invalidBlock_ne_some
        · next opened =>
            split at read
            · exact absurd read invalidBlock_ne_some
            · next length =>
                cases read
                exact ⟨not_not.mp sum, opened, not_not.mp length⟩
  · rintro ⟨sum, opened, length⟩
    simp only [readBody, sum, opened, length, ne_eq, not_true_eq_false, if_false]

/-- A block that passes its checksum lies at `pos`. -/
structure Framed (codecs : Codecs) (bytes : Bytes) (pos : Nat) (header : Header) (nextOff : Nat)
    (body : Bytes) : Prop where
  head : HeaderAt bytes pos header nextOff
  content : BodyAt codecs header (slice bytes (pos + blockHeaderLen) header.clen) body

/-- A block is readable exactly when it passes its checksum and its body decodes. -/
theorem readSegmentBlock_eq_some {bytes : Bytes} {pos : Nat} {strict : Bool}
    {block : SegmentBlock} :
    readSegmentBlock codecs bytes pos strict = .ok (some block) ↔
      ∃ header body, Framed codecs bytes pos header block.nextOff body ∧
        decodeBody pos strict (kindOf header.magic) body =
          .ok (some (block.records, block.recOffsets)) ∧
        block.kind = kindOf header.magic ∧ block.blockOff = pos := by
  constructor
  · intro read
    obtain ⟨found, first, read⟩ := bind_eq_ok.mp read
    cases found with
    | none => cases read
    | some found =>
        obtain ⟨header, nextOff⟩ := found
        obtain ⟨found, second, read⟩ := bind_eq_ok.mp read
        cases found with
        | none => cases read
        | some body =>
            obtain ⟨found, third, read⟩ := bind_eq_ok.mp read
            cases found with
            | none => cases read
            | some decoded =>
                cases read
                exact ⟨header, body, ⟨readHeader_eq_some.mp first, readBody_eq_some.mp second⟩,
                  third, rfl, rfl⟩
  · rintro ⟨header, body, framed, decoded, kind, off⟩
    simp only [readSegmentBlock, readHeader_eq_some.mpr framed.head,
      readBody_eq_some.mpr framed.content, decoded, ok_bind]
    rw [← kind, ← off]
    rfl

/-- A framed block is framed in every file that agrees up to its end. -/
theorem Framed.congr {first second : Bytes} {pos stop nextOff : Nat} {header : Header}
    {body : Bytes} (framed : Framed codecs first pos header nextOff body)
    (same : first.take stop = second.take stop) (inside : nextOff ≤ stop)
    (room : nextOff ≤ second.length) : Framed codecs second pos header nextOff body := by
  obtain ⟨⟨whole, parsed, next, small, known, _, clen, ulen⟩, content⟩ := framed
  have header' : slice first pos blockHeaderLen = slice second pos blockHeaderLen :=
    slice_congr same (by omega)
  have body' : slice first (pos + blockHeaderLen) header.clen =
      slice second (pos + blockHeaderLen) header.clen := slice_congr same (by omega)
  exact ⟨⟨by omega, by rw [parsed, header'], next, small, known, room, clen, ulen⟩, body' ▸ content⟩

/-- A block is read the same in every file that agrees up to its end. -/
theorem readSegmentBlock_congr {first second : Bytes} {pos stop : Nat} {strict : Bool}
    {block : SegmentBlock} (read : readSegmentBlock codecs first pos strict = .ok (some block))
    (same : first.take stop = second.take stop) (inside : block.nextOff ≤ stop)
    (room : block.nextOff ≤ second.length) :
    readSegmentBlock codecs second pos strict = .ok (some block) := by
  obtain ⟨header, body, framed, rest⟩ := readSegmentBlock_eq_some.mp read
  exact readSegmentBlock_eq_some.mpr ⟨header, body, framed.congr same inside room, rest⟩

/-- There is one framed block at a position. -/
theorem Framed.unique {bytes : Bytes} {pos next next' : Nat} {header header' : Header}
    {body body' : Bytes} (one : Framed codecs bytes pos header next body)
    (other : Framed codecs bytes pos header' next' body') :
    header = header' ∧ next = next' ∧ body = body' := by
  have sameHeader : header = header' := one.head.parsed.trans other.head.parsed.symm
  subst sameHeader
  refine ⟨rfl, one.head.next.trans other.head.next.symm, ?_⟩
  have opened := one.content.opened
  rw [other.content.opened] at opened
  exact (Except.ok.inj opened).symm

/-! ## Strict and lenient readers -/

/-- The end of the row at `off`. -/
def rowEnd (block : Bytes) (off : Nat) : Nat := off + 4 + ofLe (slice block off 4)

/-- A round of the row loop over a whole row. -/
theorem decodeRowLoop_row {block : Bytes} {strict : Bool} {fuel off : Nat}
    (header : off + 4 ≤ block.length) (whole : rowEnd block off ≤ block.length) :
    decodeRowLoop block strict (fuel + 1) off = (do
      let recOff ← tryU32 off "row record offset exceeds u32"
      let (records, recOffsets) ← decodeRowLoop block strict fuel (rowEnd block off)
      pure (slice block (off + 4) (ofLe (slice block off 4)) :: records, recOff ::
        recOffsets)) := by
  unfold rowEnd at whole
  rw [decodeRowLoop, if_pos (by omega), if_neg (by omega)]
  simp only [if_neg (show ¬ block.length < off + 4 + ofLe (slice block off 4) by omega)]
  rfl

/-- The row loop stops at the end, or at the first row that is cut short. -/
theorem decodeRowLoop_stop {block : Bytes} {strict : Bool} {fuel off : Nat}
    {rows : List Bytes × List UInt32}
    (short : block.length < off + 4 ∨ block.length < rowEnd block off)
    (decoded : decodeRowLoop block strict (fuel + 1) off = .ok rows) :
    rows = ([], []) ∧ (strict = true → block.length ≤ off) := by
  unfold rowEnd at short
  unfold decodeRowLoop at decoded
  split at decoded
  · split at decoded
    · cases strict <;> simp_all [bail]
    · obtain ⟨recOff, -, decoded⟩ := bind_eq_ok.mp decoded
      simp only at decoded
      rw [if_pos (by omega)] at decoded
      cases strict <;> simp_all [bail]
  · simp_all

/-- A row block that decodes strictly decodes the same leniently. -/
theorem decodeRowLoop_lenient {block : Bytes} {fuel : Nat} :
    ∀ {off : Nat} {rows : List Bytes × List UInt32},
      decodeRowLoop block true fuel off = .ok rows →
        decodeRowLoop block false fuel off = .ok rows := by
  induction fuel with
  | zero => exact id
  | succ fuel ih =>
      intro off rows decoded
      by_cases whole : off + 4 ≤ block.length ∧ rowEnd block off ≤ block.length
      · rw [decodeRowLoop_row whole.1 whole.2] at decoded ⊢
        obtain ⟨recOff, first, decoded⟩ := bind_eq_ok.mp decoded
        obtain ⟨rest, second, built⟩ := bind_eq_ok.mp decoded
        simp only [first, ok_bind, ih second]
        exact built
      · obtain ⟨rfl, finished⟩ := decodeRowLoop_stop (by omega) decoded
        rw [decodeRowLoop, if_neg (by have := finished rfl; omega)]

/-- The body of a row block is read as rows. -/
theorem decodeBody_row {pos : Nat} {strict : Bool} {body : Bytes}
    {rows : List Bytes × List UInt32} :
    decodeBody pos strict .row body = .ok (some rows) ↔ decodeRowBlock body strict = .ok rows := by
  cases result : decodeRowBlock body strict <;> simp [decodeBody, result, Except.map]

/-- The body of a columnar block is read as columns. -/
theorem decodeBody_columnar {pos : Nat} {strict : Bool} {body : Bytes} {records : List Bytes}
    {recOffsets : List UInt32} :
    decodeBody pos strict .columnar body = .ok (some (records, recOffsets)) ↔
      Columnar.decodeBlock body = .ok records ∧ ordinals records.length = .ok recOffsets := by
  cases result : Columnar.decodeBlock body with
  | error err => simp [decodeBody, result, invalidBlock_ne_some]
  | ok found =>
      cases numbered : ordinals found.length with
      | error err =>
          simp only [decodeBody, result, numbered, Except.map, reduceCtorEq, false_iff, not_and,
            Except.ok.injEq]
          rintro rfl
          simp [numbered]
      | ok offsets =>
          simp only [decodeBody, result, numbered, Except.map, Except.ok.injEq, Option.some.injEq,
            Prod.mk.injEq]
          constructor
          · rintro ⟨rfl, rfl⟩
            exact ⟨rfl, numbered⟩
          · rintro ⟨rfl, same⟩
            rw [numbered] at same
            exact ⟨rfl, Except.ok.inj same⟩

/-- A body that is read strictly is read. -/
theorem decodeBody_lenient {pos : Nat} {kind : BlockKind} {body : Bytes}
    {rows : List Bytes × List UInt32} (decoded : decodeBody pos true kind body = .ok (some rows)) :
    decodeBody pos false kind body = .ok (some rows) := by
  cases kind with
  | row => exact decodeBody_row.mpr (decodeRowLoop_lenient (decodeBody_row.mp decoded))
  | columnar => exact decodeBody_columnar.mpr (decodeBody_columnar.mp decoded)

/-- What a strict reader accepts, a lenient reader reads the same. -/
theorem readSegmentBlock_lenient {bytes : Bytes} {pos : Nat} {block : SegmentBlock}
    (read : readSegmentBlock codecs bytes pos true = .ok (some block)) :
    readSegmentBlock codecs bytes pos false = .ok (some block) := by
  obtain ⟨header, body, framed, decoded, rest⟩ := readSegmentBlock_eq_some.mp read
  exact readSegmentBlock_eq_some.mpr ⟨header, body, framed, decodeBody_lenient decoded, rest⟩

/-! ## Locators -/

/-- A count that is stored fits a `u32`. -/
theorem tryU32_eq_ok {value : Nat} {what : String} {small : UInt32} :
    tryU32 value what = .ok small ↔ value < 2 ^ 32 ∧ small = .ofNat value := by
  unfold tryU32
  split <;> simp_all [eq_comm]

/-- The locators of a row block are the increasing offsets of its rows. -/
theorem decodeRowLoop_offsets {block : Bytes} {strict : Bool} {fuel : Nat} :
    ∀ {off : Nat} {rows : List Bytes × List UInt32},
      decodeRowLoop block strict fuel off = .ok rows →
        rows.1.length = rows.2.length ∧ rows.2.Pairwise (·.toNat < ·.toNat) ∧
          ∀ recOff ∈ rows.2, off ≤ recOff.toNat := by
  induction fuel with
  | zero =>
      intro off rows decoded
      cases decoded
      simp
  | succ fuel ih =>
      intro off rows decoded
      by_cases whole : off + 4 ≤ block.length ∧ rowEnd block off ≤ block.length
      · rw [decodeRowLoop_row whole.1 whole.2] at decoded
        obtain ⟨recOff, first, decoded⟩ := bind_eq_ok.mp decoded
        obtain ⟨rest, second, built⟩ := bind_eq_ok.mp decoded
        obtain ⟨count, increasing, above⟩ := ih second
        obtain ⟨small, rfl⟩ := tryU32_eq_ok.mp first
        have here : (UInt32.ofNat off).toNat = off := UInt32.toNat_ofNat_of_lt' small
        have past : off < rowEnd block off := by
          unfold rowEnd
          omega
        cases built
        refine ⟨by simp [count], List.pairwise_cons.mpr ⟨?_, increasing⟩, ?_⟩
        · intro later inside
          have := above later inside
          omega
        · intro later inside
          rcases List.mem_cons.mp inside with rfl | inside
          · omega
          · have := above later inside
            omega
      · obtain ⟨rfl, -⟩ := decodeRowLoop_stop (by omega) decoded
        simp

/-- A columnar block within the size limit has few enough records to number. -/
theorem ordinals_eq_ok {count : Nat} (few : count ≤ 2 ^ 32) :
    ordinals count = .ok ((List.range count).map UInt32.ofNat) := by
  apply mapM_eq_ok
  intro idx inside
  rw [List.mem_range] at inside
  exact tryU32_eq_ok.mpr ⟨by omega, rfl⟩

/-- The records of a columnar block are numbered. -/
theorem ordinals_decodeBlock {header : Header} {bytes body : Bytes} {pos nextOff : Nat}
    {records : List Bytes} (framed : Framed codecs bytes pos header nextOff body)
    (decoded : Columnar.decodeBlock body = .ok records) :
    records.length ≤ maxSegmentBlockBytes ∧
      ordinals records.length = .ok ((List.range records.length).map UInt32.ofNat) := by
  have bound := Columnar.length_le_of_decodeBlock decoded
  have body' := framed.content.length
  have ulen := framed.head.ulen
  have few : records.length ≤ maxSegmentBlockBytes := by omega
  refine ⟨few, ordinals_eq_ok ?_⟩
  unfold maxSegmentBlockBytes at few
  omega

/-- A readable block has one locator per record. -/
theorem readSegmentBlock_counts {bytes : Bytes} {pos : Nat} {strict : Bool}
    {block : SegmentBlock} (read : readSegmentBlock codecs bytes pos strict = .ok (some block)) :
    block.records.length = block.recOffsets.length := by
  obtain ⟨header, body, framed, decoded, kind, -⟩ := readSegmentBlock_eq_some.mp read
  rw [← kind] at decoded
  cases shape : block.kind with
  | row =>
      rw [shape] at decoded
      exact (decodeRowLoop_offsets (decodeBody_row.mp decoded)).1
  | columnar =>
      rw [shape] at decoded
      obtain ⟨columns, numbered⟩ := decodeBody_columnar.mp decoded
      rw [(ordinals_decodeBlock framed columns).2, Except.ok.injEq] at numbered
      rw [← numbered]
      simp

/-- Offsets that increase are found where they are. -/
theorem findIdx?_of_increasing {offsets : List UInt32}
    (increasing : offsets.Pairwise (·.toNat < ·.toNat))
    {idx : Nat} {recOff : UInt32} (found : offsets[idx]? = some recOff) :
    offsets.findIdx? (· = recOff) = some idx := by
  obtain ⟨inside, rfl⟩ := List.getElem?_eq_some_iff.mp found
  rw [List.findIdx?_eq_some_iff_getElem]
  refine ⟨inside, by simp, ?_⟩
  intro earlier before
  have smaller := List.pairwise_iff_getElem.mp increasing earlier idx (by omega) inside before
  simp only [decide_eq_true_eq]
  intro same
  rw [same] at smaller
  exact Nat.lt_irrefl _ smaller

/-- **Locators.** The locator of a record of a readable block finds that record. -/
theorem readRecordAt_of_block {bytes : Bytes} {pos idx : Nat} {block : SegmentBlock}
    {raw : Bytes} {recOff : UInt32}
    (read : readSegmentBlock codecs bytes pos true = .ok (some block))
    (record : block.records[idx]? = some raw) (locator : block.recOffsets[idx]? = some recOff) :
    readRecordAt codecs bytes pos recOff = .ok raw := by
  obtain ⟨header, body, framed, decoded, kind, -⟩ := readSegmentBlock_eq_some.mp read
  rw [← kind] at decoded
  simp only [readRecordAt, read, ok_bind, Option.elim_some]
  cases shape : block.kind with
  | row =>
      rw [shape] at decoded
      have increasing := (decodeRowLoop_offsets (decodeBody_row.mp decoded)).2.1
      simp only [findIdx?_of_increasing increasing locator, Option.bind_some, record, orBail]
  | columnar =>
      rw [shape] at decoded
      obtain ⟨columns, numbered⟩ := decodeBody_columnar.mp decoded
      obtain ⟨few, count⟩ := ordinals_decodeBlock framed columns
      rw [count, Except.ok.injEq] at numbered
      obtain ⟨inside, -⟩ := List.getElem?_eq_some_iff.mp record
      have ordinal : recOff.toNat = idx := by
        rw [← numbered, List.getElem?_map, List.getElem?_range inside] at locator
        rw [← Option.some.inj locator]
        apply UInt32.toNat_ofNat_of_lt'
        unfold maxSegmentBlockBytes at few
        unfold UInt32.size
        omega
      simp only [ordinal, record, orBail]

/-! ## Walks -/

/-- A chain of strictly readable blocks from `pos` to `stop`. -/
inductive Walk (codecs : Codecs) (bytes : Bytes) : Nat → List SegmentBlock → Nat → Prop where
  | done (pos : Nat) : Walk codecs bytes pos [] pos
  | step {pos stop : Nat} {block : SegmentBlock} {blocks : List SegmentBlock}
      (read : readSegmentBlock codecs bytes pos true = .ok (some block))
      (rest : Walk codecs bytes block.nextOff blocks stop) :
      Walk codecs bytes pos (block :: blocks) stop

/-- No strictly readable block lies at `pos`. -/
def Unreadable (codecs : Codecs) (bytes : Bytes) (pos : Nat) : Prop :=
  ∀ block, readSegmentBlock codecs bytes pos true ≠ .ok (some block)

/-- The maximal prefix of strictly readable blocks. -/
structure MaximalWalk (codecs : Codecs) (bytes : Bytes) (blocks : List SegmentBlock) (stop : Nat) :
    Prop where
  walk : Walk codecs bytes 0 blocks stop
  ends : Unreadable codecs bytes stop

/-- The records of a chain of blocks. -/
def recordsOf (blocks : List SegmentBlock) : List Bytes := blocks.flatMap (·.records)

/-- A block that is read goes forward, by its header at least. -/
theorem readSegmentBlock_advances {bytes : Bytes} {pos : Nat} {strict : Bool}
    {block : SegmentBlock} (read : readSegmentBlock codecs bytes pos strict = .ok (some block)) :
    pos + blockHeaderLen ≤ block.nextOff ∧ block.nextOff ≤ bytes.length ∧
      block.nextOff < Columnar.usizeBound := by
  obtain ⟨header, body, framed, -⟩ := readSegmentBlock_eq_some.mp read
  have next := framed.head.next
  exact ⟨by omega, framed.head.inside, framed.head.small⟩

/-- Behind the end nothing is readable. -/
theorem unreadable_of_length_le {bytes : Bytes} {pos : Nat} (past : bytes.length ≤ pos) :
    Unreadable codecs bytes pos := by
  intro block read
  obtain ⟨forward, inside, -⟩ := readSegmentBlock_advances read
  unfold blockHeaderLen at forward
  omega

namespace Walk

variable {bytes : Bytes} {pos mid stop : Nat} {blocks later : List SegmentBlock}

/-- A walk stops inside the file. -/
theorem le_length (walk : Walk codecs bytes pos blocks stop) (inside : pos ≤ bytes.length) :
    pos ≤ stop ∧ stop ≤ bytes.length := by
  induction walk with
  | done => exact ⟨Nat.le_refl _, inside⟩
  | step read rest ih =>
      obtain ⟨forward, inside, -⟩ := readSegmentBlock_advances read
      have := ih inside
      omega

/-- Two walks, one after the other. -/
theorem append (first : Walk codecs bytes pos blocks mid)
    (second : Walk codecs bytes mid later stop) :
    Walk codecs bytes pos (blocks ++ later) stop := by
  induction first with
  | done => exact second
  | step read rest ih => exact .step read (ih second)

/-- A walk is a walk of every file that agrees up to its end. -/
theorem congr {other : Bytes} (walk : Walk codecs bytes pos blocks stop)
    (inside : pos ≤ bytes.length) (same : bytes.take stop = other.take stop)
    (room : stop ≤ other.length) : Walk codecs other pos blocks stop := by
  induction walk with
  | done => exact .done _
  | step read rest ih =>
      obtain ⟨-, inside', -⟩ := readSegmentBlock_advances read
      have ahead := (rest.le_length inside').1
      exact .step (readSegmentBlock_congr read same ahead (ahead.trans room)) (ih inside' same room)

/-- Two walks from one position that both stop where nothing is readable are equal. -/
theorem unique {blocks' : List SegmentBlock} {stop' : Nat}
    (one : Walk codecs bytes pos blocks stop) (ends : Unreadable codecs bytes stop)
    (other : Walk codecs bytes pos blocks' stop') (ends' : Unreadable codecs bytes stop') :
    blocks = blocks' ∧ stop = stop' := by
  induction one generalizing blocks' stop' with
  | done =>
      cases other with
      | done => exact ⟨rfl, rfl⟩
      | step read _ => exact absurd read (ends _)
  | step read rest ih =>
      cases other with
      | done => exact absurd read (ends' _)
      | step read' rest' =>
          rw [read] at read'
          cases read'
          obtain ⟨rfl, rfl⟩ := ih ends rest' ends'
          exact ⟨rfl, rfl⟩

end Walk

/-- A file has one maximal walk. -/
theorem MaximalWalk.unique {bytes : Bytes} {blocks blocks' : List SegmentBlock} {stop stop' : Nat}
    (one : MaximalWalk codecs bytes blocks stop) (other : MaximalWalk codecs bytes blocks' stop') :
    blocks = blocks' ∧ stop = stop' :=
  one.walk.unique one.ends other.walk other.ends

/-- A walk to the end of the file is maximal. -/
theorem Walk.maximal {bytes : Bytes} {blocks : List SegmentBlock}
    (walk : Walk codecs bytes 0 blocks bytes.length) :
    MaximalWalk codecs bytes blocks bytes.length :=
  ⟨walk, unreadable_of_length_le (Nat.le_refl _)⟩

/-- A file cut at the end of a walk is walked to its end. -/
theorem Walk.take {bytes : Bytes} {blocks : List SegmentBlock} {stop : Nat}
    (walk : Walk codecs bytes 0 blocks stop) :
    Walk codecs (bytes.take stop) 0 blocks (bytes.take stop).length := by
  have inside := (walk.le_length (Nat.zero_le _)).2
  have length : (bytes.take stop).length = stop := by
    rw [List.length_take, Nat.min_eq_left inside]
  rw [length]
  exact walk.congr (Nat.zero_le _) (by rw [List.take_take, Nat.min_self]) (by omega)

end Blocks

end LolCrawler.Segment
