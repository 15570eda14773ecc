import LolCrawler.Foundation.Endures
import LolCrawler.Segment.Torn
import LolCrawler.Store.State

/-! # The files of a segment

What a flush and an opening do to the files of a segment and to what is synced of them, and what a
crash inside one of them leaves. The synced part only grows, up to the end of the whole blocks.
-/

namespace LolCrawler.Store

open Foundation Segment

variable {codecs : Codecs}

/-! ## Operations on one segment -/

/-- The state with these files of a segment. -/
def State.withFiles (state : State) (place : Place) (held : SegmentFiles) : State :=
  { state with segments := Function.update state.segments place held }

theorem foldl_resync_files (ops : List (Op File)) (held : SegmentFiles) :
    (ops.foldl resync held).files = ops.foldl Op.apply held.files := by
  induction ops generalizing held with
  | nil => rfl
  | cons op ops ih => exact ih (resync held op)

/-- **Operations on the files of a segment.** -/
theorem onFiles_endures {α : Type} {state : State} {place : Place} {action : Fs File α}
    {ops : List (Op File)} {outcome : Except Stop α}
    (performs : Performs action (state.segments place).files ops outcome) :
    Endures (onFiles place action) state
      (fun value after => outcome = .ok value ∧
        after = state.withFiles place (ops.foldl resync (state.segments place)))
      (fun after => (∃ stop, outcome = .error stop) ∧
        after = state.withFiles place (ops.foldl resync (state.segments place)))
      fun after => ∃ done, done <+: ops ∧
        after = state.withFiles place (done.foldl resync (state.segments place)) := by
  intro cut benign
  obtain ⟨done, result, rest, run, ending⟩ := performs cut [] benign
  have files : ({ files := done.foldl Op.apply (state.segments place).files
                  synced := (done.foldl resync (state.segments place)).synced } : SegmentFiles) =
      done.foldl resync (state.segments place) := by
    rw [← foldl_resync_files]
  have after : onFiles place action ⟨state, cut⟩ = (result.mapError haltOf,
      ⟨state.withFiles place (done.foldl resync (state.segments place)), rest⟩) := by
    simp only [onFiles, run, List.nil_append, files]
    rfl
  rw [after]
  rcases ending with ⟨early, rfl⟩ | ⟨rfl, rfl, benign⟩
  · exact ⟨done, early, rfl⟩
  · rcases result with (_ | err) | value
    · exact ⟨done, List.prefix_refl _, rfl⟩
    · exact ⟨⟨_, rfl⟩, rfl⟩
    · exact ⟨benign, rfl, rfl⟩

/-! ## A flush -/

section Flush

variable {writer : SegmentWriter} {held : SegmentFiles} {seg idx compressed : Bytes}

theorem metadataLen_performs {files : Files File} (present : files .seg = some seg) :
    Performs (metadataLen .seg) files [.observe] (.ok seg.length) :=
  (Performs.openFile present).bind (Performs.pure _)

/-- A flush performs its operations, unless the block cannot be compressed. -/
theorem flush_performs {files : Files File} (present : files .seg = some seg)
    (indexed : files .idx = some idx) (pending : writer.pending ≠ [])
    (packed : codecs.compress writer.buf zstdLevel = .ok compressed) :
    Performs (writer.flush codecs) files (flushOps codecs writer seg.length compressed)
      (.ok .empty) := by
  have waiting : ¬ writer.pending.isEmpty = true := by simpa using pending
  have written : Performs (writer.writeBlock codecs seg.length compressed) files
      [.write .seg (headerBytes codecs segMagic writer.buf.length compressed),
        .write .seg compressed, .sync .seg, .write .idx (idxBytes (writer.entries seg.length)),
        .sync .idx] (.ok ()) :=
    .step_bind (by simp [Op.needs, present]) (.step_bind (by simp [Op.needs, Op.apply, present])
      (.step_bind (by simp [Op.needs]) (.step_bind (by simp [Op.needs, Op.apply, indexed])
        (.step (by simp [Op.needs])))))
  unfold SegmentWriter.flush
  rw [if_neg waiting]
  have lifted := @Performs.lift _ _ _ files (codecs.compress writer.buf zstdLevel)
  rw [packed] at lifted ⊢
  exact (metadataLen_performs present).bind
    (lifted.bind (written.bind (Performs.pure SegmentWriter.empty)))

theorem flush_gives_up {files : Files File} {err : Error} (present : files .seg = some seg)
    (pending : writer.pending ≠ []) (packed : codecs.compress writer.buf zstdLevel = .error err) :
    Performs (writer.flush codecs) files [.observe] (.error (.failed err)) := by
  have waiting : ¬ writer.pending.isEmpty = true := by simpa using pending
  unfold SegmentWriter.flush
  rw [if_neg waiting, packed]
  intro cut log benign
  obtain ⟨done, result, rest, run, ⟨early, rfl⟩ | ⟨rfl, rfl, benign⟩⟩ :=
    metadataLen_performs present cut log benign
  · exact ⟨done, _, rest, Fs.bind_of_error run, .inl ⟨early, rfl⟩⟩
  · exact ⟨_, _, rest, (Fs.bind_of_ok run).trans rfl, .inr ⟨rfl, rfl, benign⟩⟩

/-- What the first operations of a flush leave: a part of the block, and nothing synced is lost. -/
theorem flushOps_early (present : held.files .seg = some seg) {done : List (Op File)}
    (early : done <+: flushOps codecs writer seg.length compressed) :
    (∃ written, (done.foldl resync held).files .seg =
        some (seg ++ (writer.block codecs compressed).take written)) ∧
      ∀ len, len ≤ seg.length → len ≤ held.synced .seg →
        len ≤ (done.foldl resync held).synced .seg := by
  have same := List.prefix_iff_eq_take.mp early
  have header : headerBytes codecs segMagic writer.buf.length compressed =
      (writer.block codecs compressed).take
        (headerBytes codecs segMagic writer.buf.length compressed).length := by
    rw [SegmentWriter.block, containerBytes, List.take_left]
  have whole : headerBytes codecs segMagic writer.buf.length compressed ++ compressed =
      (writer.block codecs compressed).take (writer.block codecs compressed).length := by
    rw [List.take_length, SegmentWriter.block, containerBytes]
  rw [same]
  -- One case for each operation that the crash comes before.
  rcases done.length with _ | _ | _ | _ | _ | _ | count
  · exact ⟨⟨0, by simp [present]⟩, fun _ _ synced => synced⟩
  · exact ⟨⟨0, by simp [flushOps, resync, Op.apply, present]⟩, fun _ _ synced => synced⟩
  · refine ⟨⟨(headerBytes codecs segMagic writer.buf.length compressed).length, ?_⟩,
      fun _ _ synced => synced⟩
    rw [← header]
    simp [flushOps, resync, Op.apply, present]
  · refine ⟨⟨(writer.block codecs compressed).length, ?_⟩, fun _ _ synced => synced⟩
    rw [← whole]
    simp [flushOps, resync, Op.apply, present]
  all_goals
    refine ⟨⟨(writer.block codecs compressed).length, ?_⟩, fun len inside _ => ?_⟩
    · rw [← whole]
      simp [flushOps, resync, Op.apply, present]
    · simp [flushOps, resync, Op.apply, present]
      omega

/-- What a whole flush leaves: the block is synced. -/
theorem flushOps_whole (present : held.files .seg = some seg)
    (indexed : held.files .idx = some idx) :
    ((flushOps codecs writer seg.length compressed).foldl resync held).files .seg =
        some (seg ++ writer.block codecs compressed) ∧
      (((flushOps codecs writer seg.length compressed).foldl resync held).files .idx).isSome ∧
      ((flushOps codecs writer seg.length compressed).foldl resync held).synced .seg =
        (seg ++ writer.block codecs compressed).length := by
  refine ⟨?_, ?_, ?_⟩
  · simp [flushOps, resync, Op.apply, present, SegmentWriter.block, containerBytes]
  · simp [flushOps, resync, Op.apply, indexed]
  · simp [flushOps, resync, Op.apply, present, SegmentWriter.block, containerBytes]

end Flush

/-! ## An opening -/

section Open

/-- The operations of an opening that finds these bytes. -/
def openOps (bytes : Bytes) : List (Op File) :=
  [.touch .seg, .observe] ++
    (if validateSegment bytes < bytes.length then [.setLen .seg (validateSegment bytes), .observe]
      else []) ++ [.touch .idx]

theorem openFiles_performs (files : Files File) :
    Performs openFiles files (openOps ((files .seg).getD [])) (.ok ()) := by
  have touched : (Op.touch File.seg).apply files .seg = some ((files .seg).getD []) := by
    simp [Op.apply]
  have truncated : Performs
      (truncateTorn (validateSegment ((files .seg).getD [])) ((files .seg).getD []).length)
      ((Op.touch File.seg).apply files)
      (if validateSegment ((files .seg).getD []) < ((files .seg).getD []).length then
        [.setLen .seg (validateSegment ((files .seg).getD [])), .observe] else []) (.ok ()) := by
    unfold truncateTorn
    split
    · exact .step_bind (by simp [Op.needs, touched]) (.step (by simp [Op.needs]))
    · exact .pure _
  have last : ∀ between, Performs (Fs.step (.touch File.idx)) between [.touch .idx] (.ok ()) :=
    fun _ => .step (by simp [Op.needs])
  exact .step_bind (by simp [Op.needs])
    ((Performs.openFile touched).bind (truncated.bind (last _)))

variable {held : SegmentFiles}

/-- What the first operations of an opening leave: the bytes, or the valid ones of them. -/
theorem openOps_early {bytes : Bytes} (found : (held.files .seg).getD [] = bytes)
    {done : List (Op File)} (early : done <+: openOps bytes) :
    (((done.foldl resync held).files .seg).getD [] = bytes ∨
        ((done.foldl resync held).files .seg).getD [] = bytes.take (validateSegment bytes)) ∧
      ∀ len, len ≤ validateSegment bytes → len ≤ held.synced .seg →
        len ≤ (done.foldl resync held).synced .seg := by
  have same := List.prefix_iff_eq_take.mp early
  rw [same, openOps]
  split
  · next torn =>
      have cut : resize (validateSegment bytes) bytes = bytes.take (validateSegment bytes) :=
        resize_of_le (Nat.le_of_lt torn)
      rcases done.length with _ | _ | _ | _ | _ | count
      · exact ⟨.inl found, fun _ _ synced => synced⟩
      · exact ⟨.inl (by simp [resync, Op.apply, found]), fun _ _ synced => synced⟩
      · exact ⟨.inl (by simp [resync, Op.apply, found]), fun _ _ synced => synced⟩
      all_goals
        refine ⟨.inr ?_, fun len inside synced => ?_⟩
        · simp [resync, Op.apply, found, cut]
        · simp [resync]
          omega
  · rcases done.length with _ | _ | _ | count
    · exact ⟨.inl found, fun _ _ synced => synced⟩
    all_goals
      exact ⟨.inl (by simp [resync, Op.apply, found]),
      fun _ _ synced => by simpa [resync] using synced⟩

/-- What an opening leaves: the valid bytes, and an index. -/
theorem openOps_whole {bytes : Bytes} (found : (held.files .seg).getD [] = bytes) :
    ((openOps bytes).foldl resync held).files .seg = some (bytes.take (validateSegment bytes)) ∧
      (((openOps bytes).foldl resync held).files .idx).isSome := by
  unfold openOps
  split
  · next torn =>
      have cut : resize (validateSegment bytes) bytes = bytes.take (validateSegment bytes) :=
        resize_of_le (Nat.le_of_lt torn)
      exact ⟨by simp [resync, Op.apply, found, cut], by simp [resync, Op.apply]⟩
  · next whole =>
      have all : bytes.take (validateSegment bytes) = bytes :=
        List.take_of_length_le (Nat.not_lt.mp whole)
      exact ⟨by simp [resync, Op.apply, found, all], by simp [resync, Op.apply]⟩

end Open

end LolCrawler.Store
