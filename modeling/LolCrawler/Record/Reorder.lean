import LolCrawler.Record.Order
import LolCrawler.Record.Timeline

/-! # One order for the match and its timeline

The participants of a record are those of the text, in another order, and its timeline names them
by their places in that order.
-/

namespace LolCrawler.Record

open Foundation Json Server

/-- What a participant of a record has of the one in the text. -/
structure ParticipantOf (slot : Nat) (p : Value) (stored : Participant) : Prop where
  /-- The storage fills it in. -/
  playerId : stored.playerId = 0
  championId : stored.championId = asU32 (p.i "championId")
  position : stored.position = UInt32.ofNat slot
  spell1 : stored.spell1 = asU32 (p.i "summoner1Id")
  spell2 : stored.spell2 = asU32 (p.i "summoner2Id")
  runes : stored.runes =
    (p.elements ["perks", "styles"]).map (fun style => asU32 (style.i "style")) ++
      (p.elements ["perks", "styles"]).flatMap (fun style =>
        (style.elements ["selections"]).map fun sel => asU32 (sel.i "perk")) ++
      (p.follow ["perks", "statPerks"]).elim [] fun statPerks =>
        ["offense", "flex", "defense"].map fun k => asU32 (statPerks.i k)
  stats : stored.stats = statFields.map p.i

/-- The record has the participants of the text, in their places. -/
structure Reordered (input : List Value) (places : Places) (parsed : ParsedMatch) : Prop where
  ten : input.length = 10 ∧ parsed.record.participants.length = 10 ∧ parsed.puuids.length = 10
  /-- The five positions in each team. -/
  position : parsed.record.participants.map (·.position) = [0, 1, 2, 3, 4, 0, 1, 2, 3, 4]
  participant : ∀ (member : Fin 10) p, input[member.val]? = some p →
    ∃ stored, parsed.record.participants[(places member).val]? = some stored ∧
      ParticipantOf ((places member).val % 5) p stored
  puuid : ∀ (member : Fin 10) p, input[member.val]? = some p →
    parsed.puuids[(places member).val]? = some (p.s "puuid")
  /-- Blue before red. -/
  team : ∀ (member : Fin 10) p, input[member.val]? = some p →
    p.i "teamId" = if (places member).val < 5 then 100 else 200
  inTeam : ∀ member : Fin 10, (places member).val / 5 = member.val / 5
  /-- The first of a team who names a position has it. -/
  first : ∀ (member : Fin 10) p slot, input[member.val]? = some p →
    positions[slot]? = some (p.s "teamPosition") →
    (∀ other < member.val, other / 5 = member.val / 5 → ∀ q, input[other]? = some q →
      q.s "teamPosition" ≠ p.s "teamPosition") →
    (places member).val = member.val / 5 * 5 + slot

/-- The timeline of the record, if there is one, is that of the text, everyone in their place. -/
def Places.Retold (places : Places) (fromStr : String → Except String Value)
    (timelineJson : Option String) (timeline : Option TimelineLite) : Prop :=
  match timelineJson with
  | none => timeline = none
  | some text => ∃ t frames tl, fromStr text = .ok t ∧
      t.follow ["info", "frames"] = some (.array frames) ∧ timeline = some tl ∧
      places.Follows frames tl

/-- A member wishes for the slot of the position that it names. -/
theorem wish_eq_some {p : Value} {slot : Nat} :
    wish p = some slot ↔ positions[slot]? = some (p.s "teamPosition") := by
  rw [wish, List.idxOf?_eq_some_iff, List.getElem?_eq_some_iff]
  have once : positions.Nodup := by decide
  constructor
  · intro found
    obtain ⟨inside, same, -⟩ := found
    exact ⟨inside, same⟩
  · intro there
    obtain ⟨inside, same⟩ := there
    refine ⟨inside, same, fun earlier less again => Nat.ne_of_lt less ?_⟩
    exact (List.Nodup.getElem_inj_iff once).mp (again.trans same.symm)

/-- A wish is one of five slots. -/
theorem wish_lt {p : Value} {slot : Nat} (wished : wish p = some slot) : slot < 5 :=
  (List.getElem?_eq_some_iff.mp (wish_eq_some.mp wished)).1

/-- A participant of the record is the one of the text that it is made of. -/
theorem participantOf_participant (slot : Nat) (p : Value) :
    ParticipantOf slot p (participant slot p) where
  playerId := rfl
  championId := rfl
  position := rfl
  spell1 := rfl
  spell2 := rfl
  runes := by
    simp only [Value.elements_eq, Value.follow_one, Value.follow_two]
    rfl
  stats := rfl

/-- The slots of an order are the positions, twice. -/
theorem ordered_fst {blue red : List Nat} (blueFive : blue.length = 5)
    (redFive : red.length = 5) :
    (teamSlots 0 blue ++ teamSlots 1 red).map Prod.fst = [0, 1, 2, 3, 4, 0, 1, 2, 3, 4] := by
  have slots : ∀ (team : Nat) (taken : List Nat), taken.length = 5 →
      (teamSlots team taken).map Prod.fst = [0, 1, 2, 3, 4] := by
    intro team taken five
    rw [teamSlots, List.map_map]
    have seconds := List.zipIdx_map_snd 0 taken
    rw [five] at seconds
    exact seconds
  rw [List.map_append, slots 0 blue blueFive, slots 1 red redFive]
  rfl

section Seats

variable {participants : List Value} {blue red : List Nat}

/-- A place belongs to the team of its participant. -/
theorem references_team (seatedBlue : Seated participants 0 blue)
    (seatedRed : Seated participants 1 red) {place reference : Nat}
    (there : (references blue red)[place]? = some reference) : place / 5 = reference / 5 := by
  have blueFive : blue.length = 5 := seatedBlue.members.length_eq.trans List.length_range
  have redFive : red.length = 5 := seatedRed.members.length_eq.trans List.length_range
  rw [references, List.getElem?_append, blueFive] at there
  split at there
  · have below := List.mem_range.mp (seatedBlue.members.mem_iff.mp (List.mem_of_getElem? there))
    omega
  · rw [List.getElem?_map, Option.map_eq_some_iff] at there
    obtain ⟨idx, there, rfl⟩ := there
    have inside := (List.getElem?_eq_some_iff.mp there).1
    have below := List.mem_range.mp (seatedRed.members.mem_iff.mp (List.mem_of_getElem? there))
    omega

/-- A member of a team that is seated, by its number and the slot it has. -/
theorem references_seat (seatedBlue : Seated participants 0 blue) {team idx slot : Nat}
    (two : team < 2) (inside : slot < 5)
    (seat : (if team = 0 then blue else red)[slot]? = some idx) :
    (references blue red)[team * 5 + slot]? = some (team * 5 + idx) := by
  have blueFive : blue.length = 5 := seatedBlue.members.length_eq.trans List.length_range
  rw [references, List.getElem?_append, blueFive]
  by_cases left : team = 0
  · subst left
    rw [if_pos rfl] at seat
    rw [Nat.zero_mul, Nat.zero_add, Nat.zero_add, if_pos inside]
    exact seat
  · have right : team = 1 := by omega
    subst right
    rw [if_neg left] at seat
    rw [Nat.one_mul, if_neg (by omega), Nat.add_sub_cancel_left, List.getElem?_map, seat]
    rfl

/-- Who names a position first in its team has it. -/
theorem references_first (seatedBlue : Seated participants 0 blue)
    (seatedRed : Seated participants 1 red) {member slot : Nat} (ten : member < 10)
    (named : (participants.map wish)[member]? = some (some slot))
    (none : ∀ other < member, other / 5 = member / 5 →
      (participants.map wish)[other]? ≠ some (some slot)) :
    (references blue red)[member / 5 * 5 + slot]? = some member := by
  have two : member / 5 < 2 := by omega
  have numbered : ∀ idx < 5, ((members participants (member / 5)).map wish)[idx]? =
      (participants.map wish)[member / 5 * 5 + idx]? := by
    intro idx inside
    rw [List.getElem?_map, members_getElem? _ inside, List.getElem?_map]
  have whole : member / 5 * 5 + member % 5 = member := by omega
  have own : ((members participants (member / 5)).map wish)[member % 5]? = some (some slot) := by
    rw [numbered _ (Nat.mod_lt _ (by omega)), whole]
    exact named
  have alone : ∀ earlier < member % 5,
      ((members participants (member / 5)).map wish)[earlier]? ≠ some (some slot) := by
    intro earlier less
    rw [numbered earlier (by omega)]
    exact none _ (by omega) (by omega)
  have inside : slot < 5 := by
    rw [List.getElem?_map, Option.map_eq_some_iff] at named
    obtain ⟨p, -, wished⟩ := named
    exact wish_lt wished
  have seat : (if member / 5 = 0 then blue else red)[slot]? = some (member % 5) := by
    by_cases left : member / 5 = 0
    · rw [if_pos left]
      exact seatedBlue.first slot (member % 5) inside (left ▸ own) (left ▸ alone)
    · have right : member / 5 = 1 := by omega
      rw [if_neg left]
      exact seatedRed.first slot (member % 5) inside (right ▸ own) (right ▸ alone)
  have seated := references_seat seatedBlue two inside seat
  rw [whole] at seated
  exact seated

/-- Every participant is of the team it is listed under. -/
theorem teamId_of_seated (ten : participants.length = 10) (seatedBlue : Seated participants 0 blue)
    (seatedRed : Seated participants 1 red) {member : Nat} {p : Value}
    (there : participants[member]? = some p) : p.i "teamId" = teamId (member / 5) := by
  have below := (List.getElem?_eq_some_iff.mp there).1
  have whole : member / 5 * 5 + member % 5 = member := by omega
  have inTeam : p ∈ members participants (member / 5) := by
    refine List.mem_of_getElem? (i := member % 5) ?_
    rw [members_getElem? _ (Nat.mod_lt _ (by omega)), whole]
    exact there
  by_cases left : member / 5 = 0
  · rw [left] at inTeam ⊢
    exact seatedBlue.team p inTeam
  · have right : member / 5 = 1 := by omega
    rw [right] at inTeam ⊢
    exact seatedRed.team p inTeam

/-- The order of two teams that are seated puts the participants in their places. -/
theorem reordered_of_seated (ten : participants.length = 10)
    (seatedBlue : Seated participants 0 blue) (seatedRed : Seated participants 1 red)
    {places : Places} (placed : ∀ member : Fin 10,
      (references blue red)[(places member).val]? = some member.val) {parsed : ParsedMatch}
    (listed : parsed.record.participants =
      (teamSlots 0 blue ++ teamSlots 1 red).map fun entry =>
        participant entry.1 (participants.getD entry.2 .null))
    (named : parsed.puuids = (teamSlots 0 blue ++ teamSlots 1 red).map fun entry =>
      (participants.getD entry.2 .null).s "puuid") :
    Reordered participants places parsed := by
  have blueFive : blue.length = 5 := seatedBlue.members.length_eq.trans List.length_range
  have redFive : red.length = 5 := seatedRed.members.length_eq.trans List.length_range
  have all := references_perm seatedBlue.members seatedRed.members
  have slots := ordered_fst blueFive redFive
  have length : (teamSlots 0 blue ++ teamSlots 1 red).length = 10 := by
    have counted := congrArg List.length slots
    rwa [List.length_map] at counted
  have seated : ∀ member : Fin 10, (teamSlots 0 blue ++ teamSlots 1 red)[(places member).val]? =
      some ((places member).val % 5, member.val) :=
    fun member => ordered_getElem? blueFive redFive (placed member)
  have inTeam : ∀ member : Fin 10, (places member).val / 5 = member.val / 5 :=
    fun member => references_team seatedBlue seatedRed (placed member)
  have own : ∀ (member : Fin 10) p, participants[member.val]? = some p →
      participants.getD member.val .null = p := by
    intro member p there
    rw [List.getD_eq_getElem?_getD, there]
    rfl
  refine ⟨⟨ten, ?_, ?_⟩, ?_, ?_, ?_, ?_, inTeam, ?_⟩
  · rw [listed, List.length_map, length]
  · rw [named, List.length_map, length]
  · rw [listed, List.map_map]
    have positions := congrArg (List.map UInt32.ofNat) slots
    rw [List.map_map] at positions
    exact positions
  · intro member p there
    refine ⟨_, ?_, participantOf_participant _ p⟩
    rw [listed, List.getElem?_map, seated member, Option.map_some, own member p there]
  · intro member p there
    rw [named, List.getElem?_map, seated member, Option.map_some, own member p there]
  · intro member p there
    have below := (places member).isLt
    rw [teamId_of_seated ten seatedBlue seatedRed there, ← inTeam member, teamId]
    by_cases left : (places member).val < 5
    · rw [if_pos left, if_pos (by omega)]
    · rw [if_neg left, if_neg (by omega)]
  · intro member p slot there wished alone
    have wish : (participants.map wish)[member.val]? = some (some slot) := by
      rw [List.getElem?_map, there, Option.map_some, wish_eq_some.mpr wished]
    have first := references_first seatedBlue seatedRed member.isLt wish (by
      intro other less same again
      rw [List.getElem?_map, Option.map_eq_some_iff] at again
      obtain ⟨q, listed, wishes⟩ := again
      have position := (wish_eq_some.mp wishes).symm.trans wished
      exact alone other less same q listed (Option.some.inj position))
    have once : (references blue red).Nodup := all.nodup_iff.mpr List.nodup_range
    have inside := (List.getElem?_eq_some_iff.mp (placed member)).1
    exact (List.getElem?_inj inside once).mp ((placed member).trans first.symm)

end Seats

/-- No error of this kind. -/
def Unfailing (error : ParseError) : Prop :=
  error ≠ .positionRepairFailed ∧ error ≠ .panicked

/-- Every failure is of a kind. -/
def Fails {α : Type} (kind : ParseError → Prop) (result : Except ParseError α) : Prop :=
  ∀ error, result = .error error → kind error

section Fails

variable {α β : Type} {kind : ParseError → Prop}

/-- What succeeds does not fail. -/
theorem fails_ok (value : α) : Fails kind (.ok value : Except ParseError α) := by
  intro error failed
  cases failed

/-- A bind fails in the way of its parts. -/
theorem fails_bind {first : Except ParseError α} {second : α → Except ParseError β}
    (one : Fails kind first) (two : ∀ value, first = .ok value → Fails kind (second value)) :
    Fails kind (first >>= second) := by
  cases result : first with
  | error error => exact fun other failed => Except.error.inj failed ▸ one error result
  | ok value => exact two value result

/-- A missing value is an error. -/
theorem orFail_eq_ok {error : ParseError} {value : Option α} {found : α} :
    orFail error value = .ok found ↔ value = some found := by
  cases value <;> simp [orFail]

/-- A missing value fails in the way it says. -/
theorem fails_orFail {error : ParseError} (known : kind error) (value : Option α) :
    Fails kind (orFail error value) := by
  cases value with
  | none => exact fun other failed => Except.error.inj failed ▸ known
  | some value => exact fails_ok value

/-- The error of a JSON text is a parse error. -/
theorem json_eq_ok {result : Except String α} {value : α} :
    result.mapError ParseError.json = .ok value ↔ result = .ok value := by
  cases result <;> simp [Except.mapError]

/-- A JSON text fails in the way of JSON. -/
theorem fails_json (known : ∀ why, kind (.json why)) (result : Except String α) :
    Fails kind (result.mapError .json) := by
  cases result with
  | error why => exact fun other failed => Except.error.inj failed ▸ known why
  | ok value => exact fails_ok value

end Fails

section Texts

variable (fromStr : String → Except String Value)

/-- The participants that are read are those of the text, ten of them. -/
theorem readMatch_eq_ok {matchJson : String} {info : Value} {key : String × UInt64}
    {input : List Value} (read : readMatch fromStr matchJson = .ok (info, key, input)) :
    input.length = 10 ∧ ∃ m, fromStr matchJson = .ok m ∧
      m.follow ["info", "participants"] = some (.array input) := by
  simp only [readMatch, bind, bind_eq_ok] at read
  obtain ⟨m, parsed, found, within, metadata, -, id, -, listed, array, rest⟩ := read
  split at rest
  · obtain ⟨_, ⟨⟩, -⟩ := rest
  · next ten =>
      cases rest
      refine ⟨Decidable.not_not.mp ten, m, ?_, ?_⟩
      · exact json_eq_ok.mp parsed
      · rw [Value.follow_two, orFail_eq_ok.mp within, Option.bind_some]
        have found := orFail_eq_ok.mp array
        rw [Option.bind_eq_some_iff] at found
        obtain ⟨value, there, isArray⟩ := found
        rw [there, Value.asArray_eq_some.mp isArray]

/-- What a successful reading went through. -/
theorem parseMatch_eq_ok {matchJson : String} {timelineJson : Option String} {parsed : ParsedMatch}
    (ok : parseMatch fromStr matchJson timelineJson = .ok parsed) :
    ∃ info key input ordered table, readMatch fromStr matchJson = .ok (info, key, input) ∧
      order input = .ok ordered ∧ origToSorted input ordered = .ok table ∧
      timelineOf fromStr timelineJson table = .ok parsed.record.timeline ∧
      parsed.record.gameId = key.2 ∧ parsed.record.platform = key.1 ∧
      parsed.record.queueId = asU32 (info.i "queueId") ∧
      parsed.record.participants = (ordered.map fun (slot, reference) =>
        participant slot (input.getD reference .null)) ∧
      parsed.puuids = ordered.map fun (_, reference) =>
        (input.getD reference .null).s "puuid" := by
  simp only [parseMatch, bind, bind_eq_ok] at ok
  obtain ⟨⟨info, key, input⟩, read, ordered, sorted, table, tabulated, timeline, told, same⟩ := ok
  cases same
  exact ⟨info, key, input, ordered, table, read, sorted, tabulated, told, rfl, rfl, rfl, rfl, rfl⟩

/-- A match is read, or fails in one of the ways. -/
theorem readMatch_fails (matchJson : String) : Fails Unfailing (readMatch fromStr matchJson) := by
  have unfailing : ∀ why, Unfailing (.json why) := fun _ => ⟨nofun, nofun⟩
  refine fails_bind (fails_json unfailing _) fun m _ => ?_
  refine fails_bind (fails_orFail ⟨nofun, nofun⟩ _) fun info _ => ?_
  refine fails_bind (fails_orFail ⟨nofun, nofun⟩ _) fun metadata _ => ?_
  refine fails_bind (fails_orFail ⟨nofun, nofun⟩ _) fun key _ => ?_
  refine fails_bind (fails_orFail ⟨nofun, nofun⟩ _) fun input _ => ?_
  split
  · exact fun other failed => Except.error.inj failed ▸ ⟨nofun, nofun⟩
  · exact fails_ok _

/-- A timeline is read, or fails in one of the ways. -/
theorem parseTimeline_fails (timelineJson : String) (table : List Nat) :
    Fails Unfailing (parseTimeline fromStr timelineJson table) := by
  have unfailing : ∀ why, Unfailing (.json why) := fun _ => ⟨nofun, nofun⟩
  refine fails_bind ?_ fun frames _ => fails_ok _
  exact fails_bind (fails_json unfailing _) fun t _ => fails_orFail ⟨nofun, nofun⟩ _

/-- The repair of the positions succeeds, and the order lists every participant once. -/
theorem parseMatch_fails (matchJson : String) (timelineJson : Option String) :
    Fails Unfailing (parseMatch fromStr matchJson timelineJson) := by
  refine fails_bind (readMatch_fails fromStr matchJson)
    fun (info, (platform, gameId), input) read => ?_
  change Fails Unfailing (order input >>= _)
  have ten := (readMatch_eq_ok fromStr read).1
  rcases order_spec ten with refused | ⟨blue, red, seatedBlue, seatedRed, ordered⟩
  · rw [refused]
    exact fun other failed => Except.error.inj failed ▸ ⟨nofun, nofun⟩
  · refine fails_bind (by rw [ordered]; exact fails_ok _) fun sorted same => ?_
    rw [ordered] at same
    cases same
    have known : ∀ reference ∈ (teamSlots 0 blue ++ teamSlots 1 red).map Prod.snd,
        reference < input.length := by
      intro reference inside
      rw [ordered_snd] at inside
      rw [ten]
      exact List.mem_range.mp
        ((references_perm seatedBlue.members seatedRed.members).mem_iff.mp inside)
    refine fails_bind (by rw [origToSorted_eq known]; exact fails_ok _) fun table _ => ?_
    refine fails_bind ?_ fun timeline _ => fails_ok _
    cases timelineJson with
    | none => exact fails_ok _
    | some text =>
        exact fails_bind (parseTimeline_fails fromStr text table) fun tl _ => fails_ok _

/-- A timeline that is read with the table of some places is that of the text, everyone in their
place. -/
theorem retold_of_tabulates {table : List Nat} {places : Places}
    (tabulates : Tabulates table places) {timelineJson : Option String}
    {timeline : Option TimelineLite}
    (told : timelineOf fromStr timelineJson table = .ok timeline) :
    places.Retold fromStr timelineJson timeline := by
  cases timelineJson with
  | none => exact (Except.ok.inj told).symm
  | some text =>
      obtain ⟨tl, reading, same⟩ := bind_eq_ok.mp told
      obtain ⟨frames, framed, rest⟩ := bind_eq_ok.mp reading
      obtain ⟨t, parsed, found⟩ := bind_eq_ok.mp framed
      cases rest
      refine ⟨t, frames, _, json_eq_ok.mp parsed, ?_, (Except.ok.inj same).symm,
        follows tabulates frames⟩
      have found := orFail_eq_ok.mp found
      rw [Option.bind_eq_some_iff] at found
      obtain ⟨value, there, isArray⟩ := found
      rw [Value.follow_two, there, Value.asArray_eq_some.mp isArray]

/-- **One order.** Every record that is read has the participants of the text in places of which
its timeline tells, and no reading fails for want of a place. -/
theorem parseMatch_consistent (matchJson : String) (timelineJson : Option String) :
    (∀ parsed, parseMatch fromStr matchJson timelineJson = .ok parsed →
      ∃ m input, fromStr matchJson = .ok m ∧
        m.follow ["info", "participants"] = some (.array input) ∧
        ∃ places : Places, Reordered input places parsed ∧
          places.Retold fromStr timelineJson parsed.record.timeline) ∧
      parseMatch fromStr matchJson timelineJson ≠ .error .positionRepairFailed ∧
      parseMatch fromStr matchJson timelineJson ≠ .error .panicked := by
  have fails := parseMatch_fails fromStr matchJson timelineJson
  refine ⟨fun parsed ok => ?_, fun failed => (fails _ failed).1 rfl,
    fun failed => (fails _ failed).2 rfl⟩
  obtain ⟨info, key, input, ordered, table, read, sorted, tabulated, told, -, -, -, participants,
    puuids⟩ := parseMatch_eq_ok fromStr ok
  obtain ⟨ten, m, text, found⟩ := readMatch_eq_ok fromStr read
  refine ⟨m, input, text, found, ?_⟩
  rcases order_spec ten with refused | ⟨blue, red, seatedBlue, seatedRed, taken⟩
  · rw [refused] at sorted
    cases sorted
  · rw [taken] at sorted
    cases sorted
    have all := references_perm seatedBlue.members seatedRed.members
    have once : (references blue red).Nodup := all.nodup_iff.mpr List.nodup_range
    have known : ∀ reference ∈ (teamSlots 0 blue ++ teamSlots 1 red).map Prod.snd,
        reference < input.length := by
      intro reference inside
      rw [ordered_snd] at inside
      rw [ten]
      exact List.mem_range.mp (all.mem_iff.mp inside)
    obtain ⟨places, placed⟩ := Slots.exists_perm all
    rw [origToSorted_eq known, ordered_snd] at tabulated
    cases tabulated
    have tabulates : Tabulates (Slots.inverse 10 (references blue red)) places :=
      fun member => Slots.inverse_spec once member.isLt (placed member)
    exact ⟨places, reordered_of_seated ten seatedBlue seatedRed placed participants puuids,
      retold_of_tabulates fromStr tabulates told⟩

end Texts

/-! A match in which two blue players name one position and a red one names none. -/

def player (team : UInt64) (teamPosition puuid : String) (championId : UInt64) : Value :=
  .object [("teamId", .number (.posInt team)), ("teamPosition", .string teamPosition),
    ("puuid", .string puuid), ("championId", .number (.posInt championId))]

def swappedMatch : Value :=
  .object [("metadata", .object [("matchId", .string "EUW1_7")]),
    ("info", .object [("participants", .array [
      player 100 "JUNGLE" "a" 11, player 100 "JUNGLE" "b" 12, player 100 "TOP" "c" 13,
      player 100 "UTILITY" "d" 14, player 100 "BOTTOM" "e" 15, player 200 "TOP" "f" 16,
      player 200 "JUNGLE" "g" 17, player 200 "MIDDLE" "h" 18, player 200 "" "i" 19,
      player 200 "UTILITY" "j" 20])])]

def minions (lane jungle : UInt64) : Value :=
  .object [("totalGold", .number (.posInt 500)), ("minionsKilled", .number (.posInt lane)),
    ("jungleMinionsKilled", .number (.posInt jungle))]

/-- Player 3 kills player 9 with three others, and player 10 places a ward. The last entry of
the frame names nobody. -/
def swappedTimeline : Value :=
  .object [("info", .object [("frames", .array [.object [
    ("participantFrames", .object [("3", minions 7 1), ("10", minions 2 0), ("11", minions 9 9)]),
    ("events", .array [
      .object [("type", .string "CHAMPION_KILL"), ("killerId", .number (.posInt 3)),
        ("victimId", .number (.posInt 9)), ("assistingParticipantIds", .array [
          .number (.posInt 1), .number (.posInt 2), .number (.posInt 4), .number (.posInt 11)])],
      .object [("type", .string "WARD_PLACED"), ("creatorId", .number (.posInt 10))]])]])])]

def swappedTexts (text : String) : Except String Value :=
  if text = "match" then .ok swappedMatch else if text = "timeline" then .ok swappedTimeline
  else .error "no such text"

/-- Two players are moved to their positions, with their frames, kills and assists. -/
theorem parseMatch_consistent_swapped :
    ∃ parsed, parseMatch swappedTexts "match" (some "timeline") = .ok parsed ∧
      parsed.puuids = ["c", "a", "b", "e", "d", "f", "g", "h", "i", "j"] ∧
      parsed.record.participants.map (·.championId) = [13, 11, 12, 15, 14, 16, 17, 18, 19, 20] ∧
      (parsed.record.timeline.map fun tl => tl.frames.map fun mf => (mf.totalGold, mf.cs)) =
        some [([500, 0, 0, 0, 0, 0, 0, 0, 0, 500], [8, 0, 0, 0, 0, 0, 0, 0, 0, 2])] ∧
      (parsed.record.timeline.map fun tl => tl.kills.map fun kill =>
        (kill.killer, kill.victim, kill.assistMask)) = some [(0, 8, 22)] ∧
      (parsed.record.timeline.map fun tl => tl.wards.map (·.participant)) = some [9] ∧
      ∃ m input, swappedTexts "match" = .ok m ∧
        m.follow ["info", "participants"] = some (.array input) ∧
        ∃ places : Places, Reordered input places parsed ∧
          places.Retold swappedTexts (some "timeline") parsed.record.timeline := by
  refine ⟨_, rfl, by decide +kernel, by decide +kernel, by decide +kernel, by decide +kernel,
    by decide +kernel, ?_⟩
  exact (parseMatch_consistent swappedTexts "match" (some "timeline")).1 _ rfl

end LolCrawler.Record
