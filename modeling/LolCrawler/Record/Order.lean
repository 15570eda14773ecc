import LolCrawler.Record.Parse

/-! # The order of the participants

Each team's members get the five slots, each one of them. So the order lists every participant
once, and the table that is built from it takes each participant to its place.
-/

namespace LolCrawler.Record

open Foundation Json

variable {participants : List Value}

/-- The slots of a team that are taken in this order. -/
def teamSlots (team : Nat) (taken : List Nat) : List (Nat × Nat) :=
  taken.zipIdx.map fun (idx, slot) => (slot, team * 5 + idx)

/-- The members of a team take the slots in this order. -/
structure Seated (participants : List Value) (team : Nat) (taken : List Nat) : Prop where
  members : taken.Perm (List.range 5)
  /-- The first who names a slot has it. -/
  first : ∀ slot idx : Nat, slot < 5 →
    ((Record.members participants team).map wish)[idx]? = some (some slot) →
    (∀ earlier < idx,
      ((Record.members participants team).map wish)[earlier]? ≠ some (some slot)) →
    taken[slot]? = some idx
  team : ∀ p ∈ Record.members participants team, p.i "teamId" = teamId team

theorem length_members (ten : participants.length = 10) {team : Nat} (two : team < 2) :
    (members participants team).length = 5 := by
  rw [members, List.length_take, List.length_drop, ten]
  omega

/-- A member by its number in the whole list. -/
theorem members_getElem? (team : Nat) {idx : Nat} (inside : idx < 5) :
    (members participants team)[idx]? = participants[team * 5 + idx]? := by
  rw [members, List.getElem?_take_of_lt inside, List.getElem?_drop]

/-- A team is refused if one of its members is of another team, and else is seated. -/
theorem orderTeam_spec (ten : participants.length = 10) {team : Nat} (two : team < 2) :
    orderTeam participants team = .error .notGrouped ∨
      ∃ taken, Seated participants team taken ∧
        orderTeam participants team = .ok (teamSlots team taken) := by
  have five : ((members participants team).map wish).length = 5 := by
    rw [List.length_map, length_members ten two]
  obtain ⟨taken, repaired, all, first⟩ := Slots.repair_spec ((members participants team).map wish)
  rw [five] at repaired all first
  rw [orderTeam]
  cases foreign : (members participants team).any fun p => p.i "teamId" ≠ teamId team with
  | true => exact .inl rfl
  | false =>
      refine .inr ⟨taken, ⟨all, first, fun p inside => ?_⟩, ?_⟩
      · have own := List.any_eq_false.mp foreign p inside
        exact Decidable.not_not.mp fun different => own (decide_eq_true different)
      · rw [repaired, if_neg Bool.false_ne_true]
        change (taken.map some).zipIdx.mapM _ = _
        rw [List.zipIdx_map]
        refine List.mapM_map.trans ?_
        exact mapM_eq_ok fun entry _ => rfl

/-- The order is refused for a participant of the wrong team only. -/
theorem order_spec (ten : participants.length = 10) :
    order participants = .error .notGrouped ∨
      ∃ blue red, Seated participants 0 blue ∧ Seated participants 1 red ∧
        order participants = .ok (teamSlots 0 blue ++ teamSlots 1 red) := by
  rw [order]
  rcases @orderTeam_spec _ ten 0 (by omega) with failed | ⟨blue, seatedBlue, ordered⟩
  · rw [failed]
    exact .inl rfl
  · rcases @orderTeam_spec _ ten 1 (by omega) with failed | ⟨red, seatedRed, orderedRed⟩
    · rw [ordered, failed]
      exact .inl rfl
    · rw [ordered, orderedRed]
      exact .inr ⟨blue, red, seatedBlue, seatedRed, rfl⟩

/-! ## The places -/

/-- The participants in the order of their places. -/
def references (blue red : List Nat) : List Nat := blue ++ red.map (5 + ·)

theorem teamSlots_snd (team : Nat) (taken : List Nat) :
    (teamSlots team taken).map Prod.snd = taken.map (team * 5 + ·) := by
  rw [teamSlots, List.map_map]
  refine Eq.trans ?_ (congrArg (List.map (team * 5 + ·)) (List.zipIdx_map_fst 0 taken))
  rw [List.map_map]
  rfl

theorem ordered_snd (blue red : List Nat) :
    (teamSlots 0 blue ++ teamSlots 1 red).map Prod.snd = references blue red := by
  rw [List.map_append, teamSlots_snd, teamSlots_snd, references]
  congr 1
  exact (List.map_congr_left fun idx _ => (Nat.zero_add idx :)).trans (List.map_id' blue)

theorem references_perm {blue red : List Nat} (blueAll : blue.Perm (List.range 5))
    (redAll : red.Perm (List.range 5)) : (references blue red).Perm (List.range 10) := by
  have ten : List.range 10 = List.range 5 ++ (List.range 5).map (5 + ·) :=
    @List.range_add 5 5
  rw [ten]
  exact blueAll.append (redAll.map _)

/-- Each place is in its team and its slot. -/
theorem ordered_getElem? {blue red : List Nat} (blueFive : blue.length = 5)
    (redFive : red.length = 5) {place reference : Nat}
    (there : (references blue red)[place]? = some reference) :
    (teamSlots 0 blue ++ teamSlots 1 red)[place]? = some (place % 5, reference) := by
  have length : (teamSlots 0 blue).length = 5 := by
    rw [teamSlots, List.length_map, List.length_zipIdx, blueFive]
  rw [List.getElem?_append, length]
  rw [references, List.getElem?_append, blueFive] at there
  by_cases left : place < 5
  · rw [if_pos left] at there ⊢
    rw [teamSlots, List.getElem?_map, List.getElem?_zipIdx, there]
    simp [Nat.mod_eq_of_lt left]
  · rw [if_neg left] at there ⊢
    rw [List.getElem?_map, Option.map_eq_some_iff] at there
    obtain ⟨idx, there, rfl⟩ := there
    have below := (List.getElem?_eq_some_iff.mp there).1
    rw [redFive] at below
    rw [teamSlots, List.getElem?_map, List.getElem?_zipIdx, there]
    have slot : place % 5 = place - 5 := by omega
    rw [slot, Option.map_some, Option.map_some, Nat.zero_add, Nat.one_mul]

/-- The table is the inverse of the order. -/
theorem origToSorted_eq {ordered : List (Nat × Nat)}
    (known : ∀ reference ∈ ordered.map Prod.snd, reference < participants.length) :
    origToSorted participants ordered = .ok (Slots.inverse 10 (ordered.map Prod.snd)) := by
  have each : ∀ (table : List Nat), ∀ entry ∈ ordered.zipIdx,
      (do
        let reference ← orFail .panicked (position participants entry.1.2)
        return table.set reference entry.2 : Except ParseError (List Nat)) =
      .ok (table.set entry.1.2 entry.2) := by
    intro table entry inside
    have bound := known entry.1.2 (List.mem_map_of_mem (List.fst_mem_of_mem_zipIdx inside))
    have found : position participants entry.1.2 = some entry.1.2 := by
      rw [position, List.findIdx?_eq_some_iff_getElem]
      refine ⟨by rw [List.length_range]; exact bound, ?_, fun earlier less => ?_⟩
      · rw [List.getElem_range]
        exact beq_self_eq_true _
      · rw [List.getElem_range]
        exact fun same => Nat.ne_of_lt less (eq_of_beq same)
    rw [found]
    rfl
  rw [origToSorted]
  refine (foldlM_eq_ok each _).trans ?_
  rw [Slots.inverse, List.zipIdx_map, List.foldl_map]
  rfl

end LolCrawler.Record
