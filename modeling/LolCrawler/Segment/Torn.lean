import Mathlib.Data.List.Induction
import LolCrawler.Segment.Crashes

/-! # Segments of row blocks

A segment that only `flush` writes to is a row of row blocks, and behind them a part of one that
a crash cut off. Every prefix of such a segment is one (`take_rowBlocks`), the reader finds the
records of the whole blocks (`readSegmentRecords_torn`), and reopening cuts the rest off
(`validateSegment_torn`).
-/

namespace LolCrawler.Segment

open Foundation

variable {codecs : Codecs}

/-- Row blocks, each with what its rows were compressed to. -/
abbrev Rows := List (List Bytes × Bytes)

def rowBlocks (codecs : Codecs) (rows : Rows) : Bytes :=
  rows.flatMap fun block => rowBlockBytes codecs block.1 block.2

/-- Each block is what a flush writes, within the reader's limits. -/
def WholeRows (codecs : Codecs) (rows : Rows) : Prop :=
  ∀ block ∈ rows, RowBlock codecs block.1 block.2

/-- The first block comes first. -/
theorem rowBlocks_cons (block : List Bytes × Bytes) (rows : Rows) :
    rowBlocks codecs (block :: rows) = rowBlockBytes codecs block.1 block.2 ++ rowBlocks
    codecs rows :=
  List.flatMap_cons

/-- Blocks are appended. -/
theorem rowBlocks_append (first second : Rows) :
    rowBlocks codecs (first ++ second) = rowBlocks codecs first ++ rowBlocks codecs second :=
  List.flatMap_append

/-- The last block comes last. -/
theorem rowBlocks_concat (rows : Rows) (block : List Bytes × Bytes) :
    rowBlocks codecs (rows ++ [block]) = rowBlocks codecs rows ++ rowBlockBytes codecs
    block.1 block.2 := by
  rw [rowBlocks_append, rowBlocks_cons]
  exact congrArg _ (List.append_nil _)

/-! ## Parts of blocks -/

/-- A part of a torn block is torn. -/
theorem TornBlock.take {torn : Bytes} (part : TornBlock codecs torn) (kept : Nat) :
    TornBlock codecs (torn.take kept) := by
  obtain ⟨clen, small, short⟩ := part
  rw [List.take_take]
  exact .part clen small (Nat.lt_of_le_of_lt (Nat.min_le_right _ _) short)

/-- A part of a block is torn. -/
theorem RowBlock.torn {raws : List Bytes} {compressed : Bytes}
    (block : RowBlock codecs raws compressed)
    {written : Nat} (short : written < (rowBlockBytes codecs raws compressed).length) :
    TornBlock codecs ((rowBlockBytes codecs raws compressed).take written) := by
  have clen := block.clen
  have ulen := block.ulen
  unfold maxSegmentBlockBytes at clen ulen
  exact .part (by omega) (by omega) short

/-- **Prefixes.** Of a segment that is cut off, whole blocks remain and a part of the next one. The
blocks before the cut are among them. -/
theorem take_rowBlocks {torn : Bytes} (part : TornBlock codecs torn) :
    ∀ {rows : Rows}, WholeRows codecs rows → ∀ kept : Nat, ∃ count torn',
      (rowBlocks codecs rows ++ torn).take kept =
        rowBlocks codecs (rows.take count) ++ torn' ∧ TornBlock codecs torn' ∧
      ∀ before, (rowBlocks codecs (rows.take before)).length ≤ kept →
        (rows.take count).take before = rows.take before := by
  intro rows
  induction rows with
  | nil =>
      intro _ kept
      exact ⟨0, torn.take kept, rfl, part.take kept, fun _ _ => rfl⟩
  | cons block rows ih =>
      intro whole kept
      have here : RowBlock codecs block.1 block.2 := whole block List.mem_cons_self
      by_cases short : kept < (rowBlockBytes codecs block.1 block.2).length
      · refine ⟨0, (rowBlockBytes codecs block.1 block.2).take kept, ?_, here.torn short, ?_⟩
        · rw [rowBlocks_cons, List.append_assoc, List.take_append_of_le_length (Nat.le_of_lt short)]
          rfl
        · intro before inside
          cases before with
          | zero => rfl
          | succ before =>
              rw [List.take_succ_cons, rowBlocks_cons, List.length_append] at inside
              omega
      · obtain ⟨count, torn', same, part', earlier⟩ :=
          ih (fun other there => whole other (List.mem_cons_of_mem _ there))
            (kept - (rowBlockBytes codecs block.1 block.2).length)
        refine ⟨count + 1, torn', ?_, part', ?_⟩
        · rw [rowBlocks_cons, List.append_assoc, List.take_append,
            List.take_of_length_le (Nat.not_lt.mp short), same, List.take_succ_cons, rowBlocks_cons,
            List.append_assoc]
        · intro before inside
          cases before with
          | zero => rfl
          | succ before =>
              rw [List.take_succ_cons, rowBlocks_cons, List.length_append] at inside
              rw [List.take_succ_cons, List.take_succ_cons, List.take_succ_cons,
                earlier before (by omega)]

/-! ## Reopening -/

/-- The scan goes from one whole block to the next, and stops at a part of one. -/
theorem validateLoop_torn {bytes torn : Bytes} (part : TornBlock codecs torn) {rows : Rows} :
    WholeRows codecs rows → ∀ {fuel pos : Nat},
      bytes.drop pos = rowBlocks codecs rows ++ torn → pos ≤ bytes.length →
      bytes.length ≤ pos + fuel →
        validateLoop bytes fuel pos = pos + (rowBlocks codecs rows).length := by
  induction rows with
  | nil =>
      intro _ fuel pos here inside enough
      cases fuel with
      | zero => rfl
      | succ fuel =>
          obtain @⟨ulen, written, compressed, clen, small, short⟩ := part
          have length := congrArg List.length here
          rw [rowBlocks, List.flatMap_nil, List.nil_append, List.length_drop, List.length_take,
            Nat.min_eq_left (Nat.le_of_lt short)] at length
          rw [containerBytes, List.length_append, headerBytes_length] at short
          unfold validateLoop
          split
          · rfl
          · next whole =>
              have parsed : slice bytes pos blockHeaderLen =
                  headerBytes codecs segMagic ulen compressed := by
                rw [slice, here, rowBlocks, List.flatMap_nil, List.nil_append, List.take_take,
                  Nat.min_eq_left (by omega), containerBytes,
                  ← headerBytes_length codecs segMagic ulen compressed, List.take_left]
              simp only [parsed, parse_headerBytes (by decide : segMagic < 2 ^ 32) clen small]
              rw [if_pos]
              · rfl
              · simp only [Bool.or_eq_true, decide_eq_true_eq]
                omega
  | cons block rows ih =>
      intro whole fuel pos here inside enough
      have row : RowBlock codecs block.1 block.2 := whole block List.mem_cons_self
      have clen := row.clen
      have ulen := row.ulen
      unfold maxSegmentBlockBytes at clen ulen
      rw [rowBlocks_cons, List.append_assoc] at here
      have head := (slice_container (show bytes.drop pos = containerBytes codecs segMagic
        (block.1.flatMap rowBytes).length block.2 ++ _ from here)).1
      have length := congrArg List.length here
      have size := rowBlockBytes_length codecs block.1 block.2
      rw [List.length_drop, List.length_append, size] at length
      have header : 0 < blockHeaderLen := by decide
      cases fuel with
      | zero => omega
      | succ fuel =>
          have next : bytes.drop (pos + blockHeaderLen + block.2.length) =
              rowBlocks codecs rows ++ torn := by
            rw [Nat.add_assoc, ← size, ← List.drop_drop, here, List.drop_left]
          have known : knownSegmentMagic segMagic = true := by decide
          rw [validateLoop, if_neg (by omega)]
          simp only [head, parse_headerBytes (by decide : segMagic < 2 ^ 32)
            (show block.2.length < 2 ^ 32 by omega)
            (show (block.1.flatMap rowBytes).length < 2 ^ 32 by omega), known, Bool.not_true,
            Bool.false_or, decide_eq_true_eq]
          rw [if_neg (by omega),
            ih (fun other there => whole other (List.mem_cons_of_mem _ there)) next
            (by omega) (by omega), rowBlocks_cons, List.length_append, size]
          omega

/-- **Reopening.** A part of a block is cut off, and nothing else. -/
theorem validateSegment_torn {torn : Bytes} (part : TornBlock codecs torn) {rows : Rows}
    (whole : WholeRows codecs rows) :
    validateSegment (rowBlocks codecs rows ++ torn) = (rowBlocks codecs rows).length := by
  rw [validateSegment, validateLoop_torn part whole rfl (Nat.zero_le _) (Nat.le_add_left _ _),
    Nat.zero_add]

/-! ## Reading -/

/-- Whole blocks are walked to their end. -/
theorem walk_rowBlocks (lossless : codecs.Lossless) {rows : Rows} (whole : WholeRows codecs rows)
    (small : (rowBlocks codecs rows).length < 2 ^ 63) :
    ∃ blocks, Walk codecs (rowBlocks codecs rows) 0 blocks (rowBlocks codecs rows).length ∧
      recordsOf blocks = rows.flatMap Prod.fst := by
  induction rows using List.reverseRecOn with
  | nil => exact ⟨[], .done 0, rfl⟩
  | append_singleton rows block ih =>
      rw [rowBlocks_concat] at small ⊢
      have shorter : (rowBlocks codecs rows).length < 2 ^ 63 := by
        rw [List.length_append] at small
        omega
      obtain ⟨blocks, walk, records⟩ :=
        ih (fun other there => whole other (List.mem_append_left _ there)) shorter
      obtain ⟨last, longer, rest⟩ := walk.append_rowBlock lossless
        (whole block (List.mem_append_right _ (List.mem_singleton_self _))) small
      refine ⟨blocks ++ [last], longer, ?_⟩
      rw [recordsOf, List.flatMap_append, ← recordsOf, records, List.flatMap_append,
        List.flatMap_singleton, List.flatMap_singleton, rest]

/-- **Reading.** The reader returns the records of the whole blocks, and stops behind them. -/
theorem readSegmentRecords_torn (lossless : codecs.Lossless) {torn : Bytes}
    (part : TornBlock codecs torn) {rows : Rows} (whole : WholeRows codecs rows)
    (small : (rowBlocks codecs rows ++ torn).length < 2 ^ 63) :
    readSegmentRecords codecs (rowBlocks codecs rows ++ torn) = .ok (rows.flatMap Prod.fst) := by
  have shorter : (rowBlocks codecs rows).length < 2 ^ 63 := by
    rw [List.length_append] at small
    omega
  obtain ⟨blocks, walk, records⟩ := walk_rowBlocks lossless whole shorter
  have none : ∀ header nextOff,
      ¬ HeaderAt (rowBlocks codecs rows ++ torn) (rowBlocks codecs rows).length header nextOff := by
    obtain ⟨clen, ulen, short⟩ := part
    exact not_headerAt_part (by decide) clen ulen short
  have maximal : MaximalWalk codecs (rowBlocks codecs rows ++ torn) blocks
      (rowBlocks codecs rows).length := by
    refine ⟨walk.congr (Nat.zero_le _) ?_ ?_, fun block read => ?_⟩
    · rw [List.take_left, List.take_length]
    · simp
    · obtain ⟨header, _, framed, -⟩ := readSegmentBlock_eq_some.mp read
      exact none header _ framed.head
  rw [readSegmentRecords_eq small (wellFramed_of_maximal maximal none) maximal, records]

end LolCrawler.Segment
