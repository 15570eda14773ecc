import Mathlib.Data.List.GetD
import LolCrawler.Store.Effects

/-! # Progress records

A progress record is determined by ten counts (`progressOf`): they are capped, and
the flag says whether all of them are at the cap. Crediting a player's later games
raises one count in each (`credit_records`). It stops at the first that is at the
cap, which is right as long as those after it are at the cap as well.
-/

namespace LolCrawler.Store

open Foundation

/-- The record that belongs to ten counts. -/
def progressOf (counts : List Nat) : List Nat :=
  newProgress (counts.map fun count => min historyRequired count)

/-- The record is that of a valid sample. -/
def flagged (progress : List Nat) : Bool := progress.getD 10 0 = 1

/-- One more in a slot. -/
def raise (counts : List Nat) (slot : Nat) : List Nat := counts.set slot (counts.getD slot 0 + 1)

/-- All counts have reached the cap. -/
def complete (counts : List Nat) : Bool := counts.all fun count => historyRequired ≤ count

section Records

variable {counts : List Nat} {slot : Nat}

/-- New progress is the counts and a flag. -/
theorem newProgress_eq (ten : counts.length = 10) :
    newProgress counts = counts ++ [(complete counts).toNat] := by
  have whole : full (counts ++ [0]) = complete counts := by
    rw [full, complete, List.take_append_of_le_length (Nat.le_of_eq ten.symm),
      List.take_of_length_le (Nat.le_of_eq ten)]
  unfold newProgress
  rw [ten, show List.replicate (11 - 10) 0 = [0] from rfl]
  simp only [whole]
  split
  · next all =>
      rw [all, List.set_append_right _ _ (Nat.le_of_eq ten), ten]
      rfl
  · next some =>
      rw [Bool.not_eq_true] at some
      rw [some]
      rfl

/-- Counts above the requirement complete no more. -/
theorem complete_cap :
    complete (counts.map fun count => min historyRequired count) = complete counts := by
  unfold complete
  rw [List.all_map]
  congr 1
  funext count
  simp only [Function.comp_apply, decide_eq_decide]
  omega

/-- The progress of counts is what is stored of them. -/
theorem progressOf_eq (ten : counts.length = 10) :
    progressOf counts =
      counts.map (fun count => min historyRequired count) ++ [(complete counts).toNat] := by
  rw [progressOf, newProgress_eq (by rw [List.length_map, ten]), complete_cap]

/-- The progress has ten slots and a flag. -/
theorem progressOf_length (ten : counts.length = 10) : (progressOf counts).length = 11 := by
  rw [progressOf_eq ten, List.length_append, List.length_map, ten]
  rfl

/-- The flag says whether the counts are complete. -/
theorem flagged_progressOf (ten : counts.length = 10) :
    flagged (progressOf counts) = complete counts := by
  rw [flagged, progressOf_eq ten, List.getD_append_right _ _ _ _ (by rw [List.length_map, ten]),
    List.length_map, ten]
  cases complete counts <;> rfl

/-- The progress is full if the counts are complete. -/
theorem full_progressOf (ten : counts.length = 10) :
    full (progressOf counts) = complete counts := by
  have ten' : (counts.map fun count => min historyRequired count).length = 10 := by
    rw [List.length_map, ten]
  rw [full, progressOf_eq ten, List.take_append_of_le_length (Nat.le_of_eq ten'.symm),
    List.take_of_length_le (Nat.le_of_eq ten')]
  exact complete_cap

/-- A slot has its count, up to the requirement. -/
theorem progressOf_getD (ten : counts.length = 10) (inside : slot < 10) :
    (progressOf counts).getD slot 0 = min historyRequired (counts.getD slot 0) := by
  rw [progressOf_eq ten, List.getD_append _ _ _ _ (by rw [List.length_map, ten]; exact inside)]
  simp [List.getD_eq_getElem?_getD, ten, inside]

/-- A count that is raised leaves as many. -/
theorem raise_length : (raise counts slot).length = counts.length := List.length_set

/-- A slot at the cap stays where it is. -/
theorem bumpSlot_full (ten : counts.length = 10) (inside : slot < 10)
    (enough : historyRequired ≤ counts.getD slot 0) : bumpSlot (progressOf counts) slot = none := by
  rw [bumpSlot, if_pos]
  rw [progressOf_getD ten inside]
  omega

/-- Beyond the cap, nothing is recorded. -/
theorem progressOf_raise_full
    (enough : historyRequired ≤ counts.getD slot 0) :
    progressOf (raise counts slot) = progressOf counts := by
  have capped : (raise counts slot).map (fun count => min historyRequired count) =
      counts.map fun count => min historyRequired count := by
    apply List.ext_getElem
    · rw [List.length_map, List.length_map, raise_length]
    · intro index here there
      rw [List.length_map] at there
      rw [List.getElem_map, List.getElem_map]
      by_cases same : index = slot
      · subst same
        simp only [raise, List.getElem_set_self]
        rw [List.getD_eq_getElem _ _ there] at enough ⊢
        omega
      · simp only [raise, List.getElem_set_ne (Ne.symm same)]
  rw [progressOf, progressOf, capped]

/-- A slot with room is not complete. -/
theorem incomplete (ten : counts.length = 10) (inside : slot < 10)
    (room : counts.getD slot 0 < historyRequired) : complete counts = false := by
  rw [complete, List.all_eq_false]
  refine ⟨counts.getD slot 0, ?_, by simpa using room⟩
  rw [List.getD_eq_getElem _ _ (by rw [ten]; exact inside)]
  exact List.getElem_mem _

/-- Below the cap, the record becomes that of the raised counts. -/
theorem bumpSlot_progressOf (ten : counts.length = 10) (inside : slot < 10)
    (room : counts.getD slot 0 < historyRequired) :
    bumpSlot (progressOf counts) slot =
      some (progressOf (raise counts slot), complete (raise counts slot)) := by
  have cap : (progressOf counts).getD slot 0 = counts.getD slot 0 := by
    rw [progressOf_getD ten inside, Nat.min_eq_right (Nat.le_of_lt room)]
  have unflagged := incomplete ten inside room
  have raised : (raise counts slot).map (fun count => min historyRequired count) =
      (counts.map fun count => min historyRequired count).set slot (counts.getD slot 0 + 1) := by
    rw [raise, List.map_set, Nat.min_eq_right room]
  have bumped : (progressOf counts).set slot (counts.getD slot 0 + 1) =
      (raise counts slot).map (fun count => min historyRequired count) ++ [0] := by
    rw [progressOf_eq ten, unflagged,
      List.set_append_left _ _ (by rw [List.length_map, ten]; exact inside),
      raised]
    rfl
  have ten' : ((raise counts slot).map fun count => min historyRequired count).length = 10 := by
    rw [List.length_map, raise_length, ten]
  have whole : full ((raise counts slot).map (fun count => min historyRequired count) ++ [0]) =
      complete (raise counts slot) := by
    rw [full, List.take_append_of_le_length (Nat.le_of_eq ten'.symm),
      List.take_of_length_le (Nat.le_of_eq ten')]
    exact complete_cap
  unfold bumpSlot
  rw [cap, if_neg (Nat.not_le.mpr room), bumped]
  have low : ((raise counts slot).map (fun count => min historyRequired count) ++ [0]).getD
    10 0 = 0 := by
    rw [List.getD_append_right _ _ _ _ (Nat.le_of_eq ten'), ten']
    rfl
  simp only [low, whole, decide_true, Bool.true_and]
  rw [progressOf_eq (by rw [raise_length, ten])]
  split
  · next all =>
      rw [all, List.set_append_right _ _ (Nat.le_of_eq ten'), ten']
      rfl
  · next some =>
      rw [Bool.not_eq_true] at some
      rw [some]
      rfl

end Records

/-! ## Crediting the later games of a player -/

/-- The number of valid samples of a platform. -/
def validCount (records : Table (String × UInt64) (List Nat)) (platform : String) : Nat :=
  records.count fun key progress => key.1 = platform && flagged progress

/-- A later game has a record, with these counts and a slot in them. -/
structure Counted (platform : String) (records : Table (String × UInt64) (List Nat))
    (entry : TlEntry) (counts : List Nat) : Prop where
  record : records.get (platform, entry.2.1) = some (progressOf counts)
  ten : counts.length = 10
  slot : entry.2.2 < 10

/-- What crediting leaves: one more in the slot of each game, nothing elsewhere, and the
number of games that it completed. -/
structure Credited (platform : String) (later : List TlEntry) (counts : TlEntry → List Nat)
    (before after : Table (String × UInt64) (List Nat) × Nat) : Prop where
  raised : ∀ entry ∈ later,
    after.1.get (platform, entry.2.1) = some (progressOf (raise (counts entry) entry.2.2))
  others : ∀ key, (∀ entry ∈ later, key ≠ (platform, entry.2.1)) →
    after.1.get key = before.1.get key
  valid : validCount after.1 platform + before.2 = validCount before.1 platform + after.2
  elsewhere : ∀ other ≠ platform, validCount after.1 other = validCount before.1 other

section Credit

variable {platform : String} {counts : TlEntry → List Nat}
  {found : Table (String × UInt64) (List Nat) × Nat}

/-- A new record counts for its platform if it is flagged. -/
theorem validCount_insert_new {records : Table (String × UInt64) (List Nat)} {key : String × UInt64}
    (absent : records.get key = none) (new : List Nat) (platform : String) :
    validCount (records.insert key new) platform =
      validCount records platform + (decide (key.1 = platform) && flagged new).toNat := by
  have counted := records.count_insert (fun key progress => key.1 = platform && flagged progress)
    key new
  unfold validCount
  simpa [absent] using counted

/-- Nothing is left to do if all games are at the cap. -/
theorem Credited.of_full {later : List TlEntry}
    (counted : ∀ entry ∈ later, Counted platform found.1 entry (counts entry))
    (enough : ∀ entry ∈ later, historyRequired ≤ (counts entry).getD entry.2.2 0) :
    Credited platform later counts found found where
  raised entry inside := by
    rw [progressOf_raise_full (enough entry inside)]
    exact (counted entry inside).record
  others _ _ := rfl
  valid := rfl
  elsewhere _ _ := rfl

/-- The record of one game is replaced. -/
theorem validCount_insert {records : Table (String × UInt64) (List Nat)} {gameId : UInt64}
    {old : List Nat} (record : records.get (platform, gameId) = some old) (new : List Nat) :
    validCount (records.insert (platform, gameId) new) platform + (flagged old).toNat =
        validCount records platform + (flagged new).toNat ∧
      ∀ other ≠ platform,
        validCount (records.insert (platform, gameId) new) other = validCount records other := by
  constructor
  · have counted := records.count_insert (fun key progress => key.1 = platform && flagged progress)
      (platform, gameId) new
    unfold validCount
    simpa [record] using counted
  · intro other different
    have counted := records.count_insert (fun key progress => key.1 = other && flagged progress)
      (platform, gameId) new
    unfold validCount
    simpa [record, different.symm] using counted

/-- Each later game that counts is credited in its slot. -/
theorem credit_credited {later : List TlEntry}
    (counted : ∀ entry ∈ later, Counted platform found.1 entry (counts entry))
    (distinct : later.Pairwise fun first second => first.2.1 ≠ second.2.1)
    (monotone : later.Pairwise fun first second =>
      historyRequired ≤ (counts first).getD first.2.2 0 →
        historyRequired ≤ (counts second).getD second.2.2 0) :
    Credited platform later counts found (credit platform later found) := by
  induction later generalizing found with
  | nil => exact ⟨by simp, fun _ _ => rfl, rfl, fun _ _ => rfl⟩
  | cons entry later ih =>
      obtain ⟨key, gameId, slot⟩ := entry
      obtain ⟨record, ten, inside⟩ := counted _ List.mem_cons_self
      obtain ⟨apart, distinct⟩ := List.pairwise_cons.mp distinct
      obtain ⟨above, monotone⟩ := List.pairwise_cons.mp monotone
      simp only at record inside apart above
      have held : slots found.1 platform gameId =
          some (progressOf (counts (key, gameId, slot))) := by
        rw [slots, record, Option.filter_some, if_pos (by simp [progressOf_length ten])]
      by_cases enough : historyRequired ≤ (counts (key, gameId, slot)).getD slot 0
      · -- The break: those after this game are at the cap too.
        rw [credit_full held (bumpSlot_full ten inside enough)]
        refine Credited.of_full counted fun entry there => ?_
        rcases List.mem_cons.mp there with rfl | there
        · exact enough
        · exact above entry there enough
      · have room := Nat.not_le.mp enough
        rw [credit_bump held (bumpSlot_progressOf ten inside room)]
        have still : ∀ entry ∈ later, Counted platform (found.1.insert (platform, gameId)
            (progressOf (raise (counts (key, gameId, slot)) slot))) entry (counts entry) := by
          intro entry there
          obtain ⟨record', ten', inside'⟩ := counted entry (List.mem_cons_of_mem _ there)
          refine ⟨?_, ten', inside'⟩
          rw [Table.get_insert_of_ne _ _ (by simpa using (apart entry there).symm), record']
        have rest : Credited platform later counts
            (found.1.insert (platform, gameId)
            (progressOf (raise (counts (key, gameId, slot)) slot)),
              found.2 + (complete (raise (counts (key, gameId, slot)) slot)).toNat) _ :=
          ih still distinct monotone
        obtain ⟨here, elsewhere⟩ := validCount_insert record
          (progressOf (raise (counts (key, gameId, slot)) slot))
        rw [flagged_progressOf ten, incomplete ten inside room,
          flagged_progressOf (by rw [raise_length, ten])] at here
        refine ⟨fun entry there => ?_, fun other different => ?_, ?_, fun other different => ?_⟩
        · rcases List.mem_cons.mp there with rfl | there
          · rw [rest.others _ fun entry there => by simpa using apart entry there,
              Table.get_insert_self]
          · exact rest.raised entry there
        · rw [rest.others _ fun entry there => different entry (List.mem_cons_of_mem _ there),
            Table.get_insert_of_ne _ _ (different _ List.mem_cons_self)]
        · have valid := rest.valid
          simp only [Bool.toNat_false] at here valid
          omega
        · rw [rest.elsewhere other different, elsewhere other different]

end Credit

end LolCrawler.Store
