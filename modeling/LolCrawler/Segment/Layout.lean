import Mathlib.Data.List.Forall2
import LolCrawler.Segment.Walk

/-! # Layouts and record lists

Both readers of a whole segment follow its maximal walk. The layout collects the
records, the index entries and the tail (`readSegmentLayout_eq`); the lenient
reader collects the records (`readSegmentRecords_eq`). The entries of a layout
resolve to its records (`layoutEntries_resolve`).
-/

namespace LolCrawler.Segment

open Foundation

variable {codecs : Codecs} {bytes : Bytes}

/-- A maximal walk starts at every position. -/
theorem exists_walk_unreadable (codecs : Codecs) (bytes : Bytes) :
    ∀ left pos : Nat, bytes.length ≤ pos + left →
      ∃ blocks stop, Walk codecs bytes pos blocks stop ∧ Unreadable codecs bytes stop := by
  intro left
  induction left with
  | zero =>
      intro pos past
      exact ⟨[], pos, .done pos, unreadable_of_length_le past⟩
  | succ left ih =>
      intro pos enough
      by_cases readable : ∃ block, readSegmentBlock codecs bytes pos true = .ok (some block)
      · obtain ⟨block, read⟩ := readable
        have forward := (readSegmentBlock_advances read).1
        unfold blockHeaderLen at forward
        obtain ⟨blocks, stop, walk, ends⟩ := ih block.nextOff (by omega)
        exact ⟨block :: blocks, stop, .step read walk, ends⟩
      · exact ⟨[], pos, .done pos, not_exists.mp readable⟩

/-- Every file has a maximal walk. -/
theorem exists_maximalWalk (codecs : Codecs) (bytes : Bytes) :
    ∃ blocks stop, MaximalWalk codecs bytes blocks stop := by
  obtain ⟨blocks, stop, walk, ends⟩ := exists_walk_unreadable codecs bytes bytes.length 0 (by omega)
  exact ⟨blocks, stop, walk, ends⟩

/-! ## The layout -/

/-- The index entries of a chain of blocks. -/
def layoutEntries (codecs : Codecs) : List SegmentBlock → Except Error (List IdxEntry)
  | [] => .ok []
  | block :: blocks => do
      let entries ← layoutBlock codecs block
      let rest ← layoutEntries codecs blocks
      pure (entries ++ rest)

/-- The tail behind a walk that stops at `stop`. -/
def tailAt (bytes : Bytes) (stop : Nat) : Option SegmentTornTail :=
  if stop < bytes.length then some ⟨stop, bytes.length - stop⟩ else none

/-- A chain holds a row block. -/
def hasRow (blocks : List SegmentBlock) : Bool := blocks.any fun block => block.kind = .row

/-- The layout of a walk. -/
def layoutOf (codecs : Codecs) (bytes : Bytes) (blocks : List SegmentBlock) (stop : Nat) :
    Except Error SegmentLayout := do
  let entries ← layoutEntries codecs blocks
  pure { records := recordsOf blocks, idxEntries := entries, hasRowBlocks := hasRow blocks
         tornTail := tailAt bytes stop }

/-- The entries of a block come before those of the others. -/
theorem layoutOf_cons (block : SegmentBlock) (blocks : List SegmentBlock) (stop : Nat) :
    layoutOf codecs bytes (block :: blocks) stop = (do
      let entries ← layoutBlock codecs block
      let rest ← layoutOf codecs bytes blocks stop
      pure (.cons block entries rest)) := by
  rw [layoutOf, layoutOf, layoutEntries]
  cases layoutBlock codecs block with
  | error err => rfl
  | ok entries =>
      cases layoutEntries codecs blocks with
      | error err => rfl
      | ok rest => rfl

/-- The layout loop follows a maximal walk. -/
theorem layoutLoop_eq {pos stop : Nat} {blocks : List SegmentBlock}
    (walk : Walk codecs bytes pos blocks stop) (ends : Unreadable codecs bytes stop) :
    ∀ fuel, bytes.length ≤ pos + fuel →
      layoutLoop codecs bytes fuel pos = layoutOf codecs bytes blocks stop := by
  induction walk with
  | done pos =>
      intro fuel enough
      cases fuel with
      | zero =>
          rw [layoutLoop, layoutOf, tailAt, if_neg (by omega)]
          rfl
      | succ fuel =>
          unfold layoutLoop
          by_cases inside : pos < bytes.length
          · rw [if_pos inside, layoutOf, tailAt, if_pos inside]
            split
            · next block read => exact absurd read (ends block)
            · rfl
          · rw [if_neg inside, layoutOf, tailAt, if_neg inside]
            rfl
  | @step pos stop block blocks read rest ih =>
      intro fuel enough
      obtain ⟨forward, inside, -⟩ := readSegmentBlock_advances read
      unfold blockHeaderLen at forward
      cases fuel with
      | zero => omega
      | succ fuel =>
          rw [layoutLoop, if_pos (by omega), layoutOf_cons]
          simp only [read, ih ends fuel (by omega)]

/-- **Layouts.** The layout of a segment is that of its maximal walk. -/
theorem readSegmentLayout_eq {blocks : List SegmentBlock} {stop : Nat}
    (maximal : MaximalWalk codecs bytes blocks stop) :
    readSegmentLayout codecs bytes = layoutOf codecs bytes blocks stop :=
  layoutLoop_eq maximal.walk maximal.ends _ (by omega)

/-! ## The entries of a layout -/

/-- An entry that carries the game of `raw` and locates it in `bytes`. -/
structure Resolves (codecs : Codecs) (bytes : Bytes) (raw : Bytes) (entry : IdxEntry) : Prop where
  game : decodeGameId codecs raw = .ok entry.gameId
  found : readRecordAt codecs bytes entry.blockOff.toNat entry.recOff = .ok raw

/-- The entries of a block find its records. -/
theorem blockEntries_resolve {block : SegmentBlock}
    (read : readSegmentBlock codecs bytes block.blockOff true = .ok (some block))
    {pairs : List (Bytes × UInt32)} :
    ∀ {entries : List IdxEntry} (before : List (Bytes × UInt32)),
      before ++ pairs = block.records.zip block.recOffsets →
      blockEntries codecs block.blockOff pairs = .ok entries →
        List.Forall₂ (Resolves codecs bytes) (pairs.map Prod.fst) entries := by
  induction pairs with
  | nil =>
      intro entries before _ built
      cases built
      exact .nil
  | cons pair pairs ih =>
      intro entries before split built
      obtain ⟨raw, recOff⟩ := pair
      obtain ⟨gameId, decoded, built⟩ := bind_eq_ok.mp built
      obtain ⟨rest, later, built⟩ := bind_eq_ok.mp built
      cases built
      have here : (block.records.zip block.recOffsets)[before.length]? = some (raw, recOff) := by
        rw [← split, List.getElem?_append_right (Nat.le_refl _), Nat.sub_self]
        rfl
      obtain ⟨record, locator⟩ := List.getElem?_zip_eq_some.mp here
      have offset : (UInt64.ofNat block.blockOff).toNat = block.blockOff := by
        have bounds := readSegmentBlock_advances read
        apply UInt64.toNat_ofNat_of_lt'
        unfold Columnar.usizeBound at bounds
        unfold UInt64.size
        omega
      refine .cons ⟨context_eq_ok.mp decoded, ?_⟩ (ih (before ++ [(raw, recOff)]) ?_ later)
      · simp only [offset]
        exact readRecordAt_of_block read record locator
      · rw [← split, List.append_assoc]
        rfl

/-- The layout of a block finds its records. -/
theorem layoutBlock_resolve {block : SegmentBlock} {entries : List IdxEntry}
    (read : readSegmentBlock codecs bytes block.blockOff true = .ok (some block))
    (built : layoutBlock codecs block = .ok entries) :
    List.Forall₂ (Resolves codecs bytes) block.records entries := by
  obtain ⟨_, -, built⟩ := bind_eq_ok.mp built
  have resolve := blockEntries_resolve read [] (List.nil_append _) built
  rwa [List.map_fst_zip (Nat.le_of_eq (readSegmentBlock_counts read))] at resolve

/-- **Entries.** The entries of a walk resolve, one by one, to its records. -/
theorem layoutEntries_resolve {pos stop : Nat} {blocks : List SegmentBlock}
    (walk : Walk codecs bytes pos blocks stop) :
    ∀ {entries : List IdxEntry}, layoutEntries codecs blocks = .ok entries →
      List.Forall₂ (Resolves codecs bytes) (recordsOf blocks) entries := by
  induction walk with
  | done =>
      intro entries built
      cases built
      exact .nil
  | step read rest ih =>
      intro entries built
      obtain ⟨here, first, built⟩ := bind_eq_ok.mp built
      obtain ⟨later, second, built⟩ := bind_eq_ok.mp built
      cases built
      obtain ⟨_, _, _, _, _, off⟩ := readSegmentBlock_eq_some.mp read
      exact List.rel_append (layoutBlock_resolve (off ▸ read) first) (ih second)

/-! ## The lenient reader -/

/-- Row blocks that pass the checksum are well framed: every row is whole. -/
def WellFramed (codecs : Codecs) (bytes : Bytes) : Prop :=
  ∀ blocks stop, Walk codecs bytes 0 blocks stop → ∀ header nextOff body,
    Framed codecs bytes stop header nextOff body → kindOf header.magic = .row →
      ∃ rows, decodeRowBlock body true = .ok rows

/-- The records that are read are those of the walk. -/
theorem readRecordsLoop_eq {pos stop : Nat} {blocks : List SegmentBlock}
    (walk : Walk codecs bytes pos blocks stop)
    (ends : stop < bytes.length → readSegmentBlock codecs bytes stop false = .ok none) :
    ∀ fuel, bytes.length ≤ pos + fuel →
      readRecordsLoop codecs bytes fuel pos = .ok (recordsOf blocks) := by
  induction walk with
  | done pos =>
      intro fuel enough
      cases fuel with
      | zero => rfl
      | succ fuel =>
          unfold readRecordsLoop
          split
          · next inside =>
              rw [ends inside]
              rfl
          · rfl
  | @step pos stop block blocks read rest ih =>
      intro fuel enough
      obtain ⟨forward, inside, -⟩ := readSegmentBlock_advances read
      unfold blockHeaderLen at forward
      cases fuel with
      | zero => omega
      | succ fuel =>
          rw [readRecordsLoop, if_pos (by omega)]
          simp only [readSegmentBlock_lenient read, ok_bind, ih ends fuel (by omega)]
          rfl

/-- The lenient reader returns the records of a segment that is walked to its end. -/
theorem readSegmentRecords_of_walk {blocks : List SegmentBlock}
    (walk : Walk codecs bytes 0 blocks bytes.length) :
    readSegmentRecords codecs bytes = .ok (recordsOf blocks) :=
  readRecordsLoop_eq walk (fun inside => absurd inside (Nat.lt_irrefl _)) _ (by omega)

/-- The lenient header read fails on no file within the file system's size limit. -/
theorem readHeader_lenient (small : bytes.length < 2 ^ 63) (pos : Nat) :
    ∃ found, readHeader bytes pos false = .ok found := by
  unfold readHeader
  split
  · exact ⟨none, rfl⟩
  · next whole =>
      have clen : (Header.parse (slice bytes pos blockHeaderLen)).clen < 256 ^ 4 := by
        refine Nat.lt_of_lt_of_le (ofLe_lt _) (Nat.pow_le_pow_right (by omega) ?_)
        rw [slice, List.length_take]
        exact Nat.min_le_left _ _
      simp only
      split
      · next overflow =>
          rw [Columnar.checkedAdd, if_pos (by unfold Columnar.usizeBound; omega),
            Option.bind_some, Columnar.checkedAdd,
            if_pos (by unfold Columnar.usizeBound; omega)] at overflow
          cases overflow
      · repeat
          split
          · exact ⟨none, rfl⟩
        exact ⟨some _, rfl⟩

/-- A body that is read leniently is never an error. -/
theorem readBody_lenient (codecs : Codecs) (pos : Nat) (header : Header) (compressed : Bytes) :
    ∃ found, readBody codecs pos false header compressed = .ok found := by
  unfold readBody
  split
  · exact ⟨none, rfl⟩
  · split
    · exact ⟨none, rfl⟩
    · split
      · exact ⟨none, rfl⟩
      · exact ⟨some _, rfl⟩

/-- A lenient reader skips what no strict reader accepts, unless a row is cut short. -/
theorem readSegmentBlock_none {stop : Nat} (small : bytes.length < 2 ^ 63)
    (ends : Unreadable codecs bytes stop)
    (rows : ∀ header nextOff body, Framed codecs bytes stop header nextOff body →
      kindOf header.magic = .row → ∃ rows, decodeRowBlock body true = .ok rows) :
    readSegmentBlock codecs bytes stop false = .ok none := by
  obtain ⟨found, first⟩ := readHeader_lenient small stop
  cases found with
  | none => simp only [readSegmentBlock, first, ok_bind, pure, Except.pure]
  | some found =>
      obtain ⟨header, nextOff⟩ := found
      obtain ⟨found, second⟩ := readBody_lenient codecs stop header
        (slice bytes (stop + blockHeaderLen) header.clen)
      cases found with
      | none => simp only [readSegmentBlock, first, second, ok_bind, pure, Except.pure]
      | some body =>
          have framed : Framed codecs bytes stop header nextOff body :=
            ⟨readHeader_eq_some.mp first, readBody_eq_some.mp second⟩
          have undecoded : ∀ decoded,
              decodeBody stop true (kindOf header.magic) body ≠ .ok (some decoded) := by
            intro decoded read
            exact ends ⟨kindOf header.magic, stop, nextOff, decoded.1, decoded.2⟩
              (readSegmentBlock_eq_some.mpr ⟨header, body, framed, read, rfl, rfl⟩)
          simp only [readSegmentBlock, first, second, ok_bind]
          cases kind : kindOf header.magic with
          | row =>
              obtain ⟨decoded, strict⟩ := rows header nextOff body framed kind
              rw [kind] at undecoded
              exact absurd (decodeBody_row.mpr strict) (undecoded decoded)
          | columnar =>
              cases columns : Columnar.decodeBlock body with
              | error err =>
                  simp only [decodeBody, columns, invalidBlock, Bool.false_eq_true, if_false,
                    ok_bind, pure, Except.pure]
              | ok records =>
                  rw [kind] at undecoded
                  exact absurd (decodeBody_columnar.mpr
                    ⟨columns, (ordinals_decodeBlock framed columns).2⟩) (undecoded _)

/-- **Records.** The lenient reader returns the records of the maximal walk. -/
theorem readSegmentRecords_eq {blocks : List SegmentBlock} {stop : Nat}
    (small : bytes.length < 2 ^ 63) (framed : WellFramed codecs bytes)
    (maximal : MaximalWalk codecs bytes blocks stop) :
    readSegmentRecords codecs bytes = .ok (recordsOf blocks) :=
  readRecordsLoop_eq maximal.walk
    (fun _ => readSegmentBlock_none small maximal.ends (framed blocks stop maximal.walk)) _
    (by omega)

/-- Only the last block of a maximal walk can be badly framed. -/
theorem wellFramed_of_maximal {blocks : List SegmentBlock} {stop : Nat}
    (maximal : MaximalWalk codecs bytes blocks stop)
    (last : ∀ header nextOff, ¬ HeaderAt bytes stop header nextOff) : WellFramed codecs bytes := by
  intro blocks' stop' walk header nextOff body framed row
  by_cases readable : ∃ block, readSegmentBlock codecs bytes stop' true = .ok (some block)
  · obtain ⟨block, read⟩ := readable
    obtain ⟨header', body', framed', decoded, -, -⟩ := readSegmentBlock_eq_some.mp read
    obtain ⟨rfl, -, rfl⟩ := framed.unique framed'
    rw [row] at decoded
    exact ⟨_, decodeBody_row.mp decoded⟩
  · obtain ⟨-, rfl⟩ := walk.unique (not_exists.mp readable) maximal.walk maximal.ends
    exact absurd framed.head (last header nextOff)

end LolCrawler.Segment
