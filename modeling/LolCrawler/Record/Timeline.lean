import LolCrawler.Foundation.Gather
import LolCrawler.Record.Parse

/-! # Whom a timeline names

A permutation takes each participant to its place in the record. A timeline follows it when every
number that names a participant is stored as that participant's place, and other numbers
name nobody.
-/

namespace LolCrawler.Record

open Foundation Json

/-- Each participant's place. -/
abbrev Places := Equiv.Perm (Fin 10)

namespace Places

variable (places : Places)

/-- The place that a number of the timeline names. Numbers start at one. -/
def named (pid : Int64) : Option (Fin 10) :=
  if named : 1 ≤ pid.toInt ∧ pid.toInt ≤ 10 then
    some (places ⟨(pid.toInt - 1).toNat, by omega⟩)
  else none

/-- The place that a key of a text names. A key that is no number names nobody. -/
def keyed (key : String) : Option (Fin 10) := places.named ((parseI64 key.toList).getD 0)

/-- Nobody is 255. -/
def stored : Option (Fin 10) → UInt32
  | some place => UInt32.ofNat place.val
  | none => 255

/-- A column of ten. A place has what the last entry says whose key names it, or zero. -/
structure ColumnOf (entries : List (String × Value)) (amount : Value → UInt32)
    (column : List UInt32) : Prop where
  ten : column.length = 10
  last : ∀ before key pf after place, entries = before ++ (key, pf) :: after →
    places.keyed key = some place → (∀ later ∈ after, places.keyed later.1 ≠ some place) →
    column[place.val]? = some (amount pf)
  absent : ∀ place : Fin 10, (∀ entry ∈ entries, places.keyed entry.1 ≠ some place) →
    column[place.val]? = some 0

/-- A frame has the gold, the experience, the creeps and the damage of everyone in their place. -/
structure FrameOf (minute : Nat) (frame : Value) (mf : MinuteFrame) : Prop where
  minute : mf.minute = UInt32.ofNat minute
  totalGold : places.ColumnOf (frame.entries ["participantFrames"])
    (fun pf => asU32 (pf.i "totalGold")) mf.totalGold
  xp : places.ColumnOf (frame.entries ["participantFrames"])
    (fun pf => asU32 (pf.i "xp")) mf.xp
  cs : places.ColumnOf (frame.entries ["participantFrames"])
    (fun pf => asU32 (pf.i "minionsKilled" + pf.i "jungleMinionsKilled")) mf.cs
  dmgToChamps : places.ColumnOf (frame.entries ["participantFrames"])
    (fun pf => asU32 (((pf.follow ["damageStats"]).map
      (·.i "totalDamageDoneToChampions")).getD 0)) mf.dmgToChamps

/-- A bit of the mask is set if an assistant is in its place. -/
structure KillOf (e : Value) (kill : KillEvent) : Prop where
  killer : kill.killer = stored (places.named (e.i "killerId"))
  victim : kill.victim = stored (places.named (e.i "victimId"))
  assists : ∀ bit, kill.assistMask.toNat.testBit bit = true ↔
    ∃ a ∈ e.elements ["assistingParticipantIds"], ∃ place,
      places.named (a.asI64.getD 0) = some place ∧ place.val = bit

/-- Nobody is stored for a plate. -/
def ObjectiveOf (e : Value) (objective : ObjectiveEvent) : Prop :=
  objective.killer = if e.s "type" = "TURRET_PLATE_DESTROYED" then stored none
    else stored (places.named (e.i "killerId"))

/-- A ward is its creator's until it is killed. -/
def WardOf (e : Value) (ward : WardEvent) : Prop :=
  ward.participant = stored (places.named (e.i (if e.s "type" = "WARD_PLACED" then "creatorId"
    else "killerId")))

end Places

def isKill (e : Value) : Bool := e.s "type" = "CHAMPION_KILL"

def isObjective (e : Value) : Bool :=
  e.s "type" ∈ ["ELITE_MONSTER_KILL", "BUILDING_KILL", "TURRET_PLATE_DESTROYED"]

def isWard (e : Value) : Bool := e.s "type" ∈ ["WARD_PLACED", "WARD_KILL"]

/-- The events of the frames, in their order. -/
def eventsOf (frames : List Value) : List Value := frames.flatMap (·.elements ["events"])

/-- The timeline of these frames, with everyone in their place. -/
structure Places.Follows (places : Places) (frames : List Value) (tl : TimelineLite) : Prop where
  length : tl.frames.length = frames.length
  perMinute : ∀ minute frame mf, frames[minute]? = some frame → tl.frames[minute]? = some mf →
    places.FrameOf minute frame mf
  kills : List.Forall₂ places.KillOf ((eventsOf frames).filter isKill) tl.kills
  objectives : List.Forall₂ places.ObjectiveOf ((eventsOf frames).filter isObjective)
    tl.objectives
  wards : List.Forall₂ places.WardOf ((eventsOf frames).filter isWard) tl.wards

/-! ## The table -/

/-- The table takes each participant to its place. -/
def Tabulates (table : List Nat) (places : Places) : Prop :=
  ∀ member : Fin 10, table[member.val]? = some (places member).val

section Table

variable {table : List Nat} {places : Places}

/-- A number of a participant is mapped to its place. -/
theorem mapPid_eq (tabulates : Tabulates table places) (pid : Int64) :
    mapPid table pid = Places.stored (places.named pid) := by
  have bounds : (1 ≤ pid ∧ pid ≤ 10) ↔ 1 ≤ pid.toInt ∧ pid.toInt ≤ 10 := by
    rw [Int64.le_iff_toInt_le, Int64.le_iff_toInt_le]
    rfl
  rw [mapPid, Places.named]
  by_cases inside : 1 ≤ pid.toInt ∧ pid.toInt ≤ 10
  · have index : (pid - 1).toInt = pid.toInt - 1 := by
      rw [Int64.toInt_sub, show (1 : Int64).toInt = 1 from rfl, Int.bmod_eq_of_le]
      · omega
      · omega
    have entry := tabulates ⟨(pid.toInt - 1).toNat, by omega⟩
    rw [if_pos (bounds.mpr inside), dif_pos inside, index, List.getD_eq_getElem?_getD, entry]
    rfl
  · rw [if_neg fun named => inside (bounds.mp named), dif_neg inside]
    rfl

/-- A place is stored as less than ten. -/
theorem stored_lt (place : Option (Fin 10)) :
    Places.stored place < 10 ↔ place.isSome := by
  cases place with
  | none => decide
  | some place =>
      have below := place.isLt
      refine iff_of_true ?_ rfl
      rw [Places.stored, UInt32.lt_iff_toNat_lt, UInt32.toNat_ofNat', Nat.mod_eq_of_lt (by omega)]
      exact below

/-- A place is stored as itself. -/
theorem toNat_stored (place : Fin 10) : (Places.stored (some place)).toNat = place.val := by
  have below := place.isLt
  rw [Places.stored, UInt32.toNat_ofNat', Nat.mod_eq_of_lt (by omega)]

/-! ## Frames -/

/-- The players of a frame are its `participantFrames`. -/
theorem players_eq (frame : Value) : players frame = frame.entries ["participantFrames"] := by
  rw [players, Value.entries_eq, Value.follow_one]

/-- The events of a frame are its `events`. -/
theorem events_eq (frame : Value) : events frame = frame.elements ["events"] := by
  rw [events, Value.elements_eq, Value.follow_one]

/-- The events of the frames are those of the timeline. -/
theorem flatMap_events (frames : List Value) : frames.flatMap events = eventsOf frames :=
  List.flatMap_congr fun frame _ => events_eq frame

/-- Write what an entry says into the place that its key names. -/
def Places.write (places : Places) (amount : Value → UInt32) :
    List UInt32 → String × Value → List UInt32 :=
  writeInto (fun entry => places.keyed entry.1) fun entry => amount entry.2

/-- What the entries leave in a column. -/
theorem columnOf_foldl (amount : Value → UInt32) (entries : List (String × Value)) :
    places.ColumnOf entries amount
      (entries.foldl (places.write amount) (List.replicate 10 0)) := by
  rw [Places.write, foldl_writeInto]
  refine ⟨List.length_ofFn, fun before key pf after place whole mine last => ?_,
    fun place => getElem?_lastWritten_base⟩
  rw [whole]
  exact @getElem?_lastWritten_last _ _ _ _ _ _ before after (key, pf) _ mine last

/-- An entry of a frame is written into the place that its key names. -/
theorem readPlayer_eq (tabulates : Tabulates table places) (mf : MinuteFrame)
    (entry : String × Value) :
    readPlayer table mf entry =
      { mf with
        totalGold := places.write gold mf.totalGold entry
        xp := places.write experience mf.xp entry
        cs := places.write creeps mf.cs entry
        dmgToChamps := places.write damage mf.dmgToChamps entry } := by
  rw [readPlayer, mapPid_eq tabulates]
  cases named : places.named ((parseI64 entry.1.toList).getD 0) with
  | none =>
      have nobody : places.keyed entry.1 = none := named
      simp only [Places.write, writeInto, nobody]
      rfl
  | some place =>
      have somebody : places.keyed entry.1 = some place := named
      have known : ¬ Places.stored (some place) = 255 := by
        intro same
        have below := (stored_lt (some place)).mpr rfl
        rw [same] at below
        exact absurd below (by decide)
      simp only [Places.write, writeInto, somebody, if_neg known, toNat_stored]

/-- The players of a frame are read into the cells of their places. -/
theorem foldl_readPlayer (tabulates : Tabulates table places) (entries : List (String × Value))
    (mf : MinuteFrame) :
    entries.foldl (readPlayer table) mf =
      { mf with
        totalGold := entries.foldl (places.write gold) mf.totalGold
        xp := entries.foldl (places.write experience) mf.xp
        cs := entries.foldl (places.write creeps) mf.cs
        dmgToChamps := entries.foldl (places.write damage) mf.dmgToChamps } := by
  induction entries generalizing mf with
  | nil => rfl
  | cons entry entries ih =>
      rw [List.foldl_cons, readPlayer_eq tabulates, ih]
      rfl

/-- A minute frame has the cells of its frame. -/
theorem minuteFrame_frameOf (tabulates : Tabulates table places) (minute : Nat) (frame : Value) :
    places.FrameOf minute frame (minuteFrame table minute frame) := by
  have damaged : damage = fun pf => asU32 (((pf.follow ["damageStats"]).map
      (·.i "totalDamageDoneToChampions")).getD 0) := by
    funext pf
    rw [damage, Value.follow_one]
  rw [minuteFrame, foldl_readPlayer tabulates, players_eq]
  refine ⟨rfl, columnOf_foldl _ _, columnOf_foldl _ _, columnOf_foldl _ _, ?_⟩
  rw [← damaged]
  exact columnOf_foldl damage _

/-! ## Events -/

/-- A bit of the mask is an assistant's place. -/
theorem testBit_assistMask (tabulates : Tabulates table places) (pids : List Int64) (bit : Nat) :
    (assistMask table pids).toNat.testBit bit = true ↔
      ∃ pid ∈ pids, ∃ place, places.named pid = some place ∧ place.val = bit := by
  have masked : ∀ mask : UInt32,
      (pids.foldl (fun mask pid =>
        if mapPid table pid < 10 then mask ||| (1 <<< mapPid table pid) else mask)
          mask).toNat.testBit bit = true ↔
        mask.toNat.testBit bit = true ∨
          ∃ pid ∈ pids, ∃ place, places.named pid = some place ∧ place.val = bit := by
    induction pids with
    | nil => exact fun mask => (or_iff_left (by simp)).symm
    | cons pid pids ih =>
        intro mask
        rw [List.foldl_cons, ih, mapPid_eq tabulates]
        simp only [List.mem_cons, exists_eq_or_imp]
        rw [← or_assoc]
        refine or_congr_left ?_
        cases named : places.named pid with
        | none =>
            rw [if_neg (by rw [stored_lt]; exact Bool.false_ne_true)]
            exact (or_iff_left fun ⟨_, nobody, _⟩ => (Option.some_ne_none _ nobody.symm).elim).symm
        | some place =>
            rw [if_pos ((stored_lt _).mpr rfl), UInt32.toNat_or, Nat.testBit_or, Bool.or_eq_true]
            refine or_congr_right ?_
            have below := place.isLt
            have shifted : (1 <<< Places.stored (some place) : UInt32).toNat = 2 ^ place.val := by
              have index : place.val % 32 = place.val := Nat.mod_eq_of_lt (by omega)
              have small : 2 ^ place.val < 2 ^ 32 :=
                Nat.pow_lt_pow_right (by omega) (by omega)
              rw [UInt32.toNat_shiftLeft, toNat_stored, index, show (1 : UInt32).toNat = 1 from rfl,
                Nat.one_shiftLeft, Nat.mod_eq_of_lt small]
            rw [shifted, Nat.testBit_two_pow, decide_eq_true_eq]
            refine ⟨fun same => ⟨place, rfl, same⟩, fun there => ?_⟩
            obtain ⟨_, mine, same⟩ := there
            exact Option.some.inj mine ▸ same
  rw [assistMask, masked]
  exact or_iff_right (by simp)

/-- A kill has the places of its event. -/
theorem killEvent_killOf (tabulates : Tabulates table places) (e : Value) :
    places.KillOf e (killEvent table e) where
  killer := mapPid_eq tabulates _
  victim := mapPid_eq tabulates _
  assists := by
    intro bit
    refine (testBit_assistMask tabulates (assists e) bit).trans ?_
    rw [assists, ← Value.follow_one, ← Value.elements_eq]
    simp only [List.mem_map, exists_exists_and_eq_and]

/-- The objectives that an event adds. -/
def objectivesOf (table : List Nat) (e : Value) : List ObjectiveEvent :=
  (readEvent table ⟨[], [], [], []⟩ e).objectives

def wardsOf (table : List Nat) (e : Value) : List WardEvent :=
  (readEvent table ⟨[], [], [], []⟩ e).wards

def killsOf (table : List Nat) (e : Value) : List KillEvent :=
  (readEvent table ⟨[], [], [], []⟩ e).kills

/-- An event only appends. -/
theorem readEvent_appends (table : List Nat) (tl : TimelineLite) (e : Value) :
    readEvent table tl e =
      { tl with
        kills := tl.kills ++ killsOf table e
        objectives := tl.objectives ++ objectivesOf table e
        wards := tl.wards ++ wardsOf table e } := by
  rw [killsOf, objectivesOf, wardsOf, readEvent, readEvent]
  split <;> simp only [List.append_nil, List.nil_append]

/-- The events are read into their lists, in order. -/
theorem foldl_readEvent (table : List Nat) (es : List Value) (tl : TimelineLite) :
    es.foldl (readEvent table) tl =
      { tl with
        kills := tl.kills ++ es.flatMap (killsOf table)
        objectives := tl.objectives ++ es.flatMap (objectivesOf table)
        wards := tl.wards ++ es.flatMap (wardsOf table) } := by
  induction es generalizing tl with
  | nil => simp only [List.foldl_nil, List.flatMap_nil, List.append_nil]
  | cons e es ih =>
      rw [List.foldl_cons, readEvent_appends, ih]
      simp only [List.flatMap_cons, List.append_assoc]

/-- What is read of the frames. -/
theorem foldl_readFrame (table : List Nat) (frames : List (Value × Nat)) (tl : TimelineLite) :
    frames.foldl (readFrame table) tl =
      { frames := tl.frames ++ frames.map fun entry => minuteFrame table entry.2 entry.1
        kills := tl.kills ++ ((frames.map Prod.fst).flatMap events).flatMap (killsOf table)
        objectives := tl.objectives ++
          ((frames.map Prod.fst).flatMap events).flatMap (objectivesOf table)
        wards := tl.wards ++ ((frames.map Prod.fst).flatMap events).flatMap (wardsOf table) } := by
  induction frames generalizing tl with
  | nil => simp only [List.foldl_nil, List.map_nil, List.flatMap_nil, List.append_nil]
  | cons frame frames ih =>
      rw [List.foldl_cons, readFrame, foldl_readEvent, ih]
      simp only [List.map_cons, List.flatMap_cons, List.flatMap_append, List.append_assoc,
        List.singleton_append]

/-- A kill is read as one. -/
theorem killsOf_isKill {e : Value} (kill : isKill e = true) :
    killsOf table e = [killEvent table e] := by
  rw [killsOf, readEvent, of_decide_eq_true kill]
  rfl

/-- Nothing else is read as a kill. -/
theorem killsOf_other {e : Value} (other : isKill e = false) : killsOf table e = [] := by
  have different := of_decide_eq_false other
  rw [killsOf, readEvent]
  split
  · contradiction
  all_goals rfl

/-- An objective is read as one. -/
theorem objectivesOf_isObjective (tabulates : Tabulates table places) {e : Value}
    (objective : isObjective e = true) :
    ∃ event, objectivesOf table e = [event] ∧ places.ObjectiveOf e event := by
  have named := of_decide_eq_true objective
  simp only [List.mem_cons, List.not_mem_nil, or_false] at named
  rcases named with type | type | type
  · refine ⟨monsterEvent table e, by rw [objectivesOf, readEvent, type]; rfl, ?_⟩
    rw [Places.ObjectiveOf, type, if_neg (by decide)]
    exact mapPid_eq tabulates _
  · refine ⟨buildingEvent table e, by rw [objectivesOf, readEvent, type]; rfl, ?_⟩
    rw [Places.ObjectiveOf, type, if_neg (by decide)]
    exact mapPid_eq tabulates _
  · refine ⟨plateEvent e, by rw [objectivesOf, readEvent, type]; rfl, ?_⟩
    rw [Places.ObjectiveOf, type, if_pos rfl]
    rfl

/-- Nothing else is read as an objective. -/
theorem objectivesOf_other {e : Value} (other : isObjective e = false) :
    objectivesOf table e = [] := by
  have different := of_decide_eq_false other
  simp only [List.mem_cons, List.not_mem_nil, or_false, not_or] at different
  rw [objectivesOf, readEvent]
  split
  all_goals first | rfl | simp_all only [not_true_eq_false, false_and, and_false]

/-- A ward is read as one. -/
theorem wardsOf_isWard (tabulates : Tabulates table places) {e : Value}
    (ward : isWard e = true) : ∃ event, wardsOf table e = [event] ∧ places.WardOf e event := by
  have named := of_decide_eq_true ward
  simp only [List.mem_cons, List.not_mem_nil, or_false] at named
  rcases named with type | type
  · refine ⟨placedWard table e, by rw [wardsOf, readEvent, type]; rfl, ?_⟩
    rw [Places.WardOf, type, if_pos rfl]
    exact mapPid_eq tabulates _
  · refine ⟨killedWard table e, by rw [wardsOf, readEvent, type]; rfl, ?_⟩
    rw [Places.WardOf, type, if_neg (by decide)]
    exact mapPid_eq tabulates _

/-- Nothing else is read as a ward. -/
theorem wardsOf_other {e : Value} (other : isWard e = false) : wardsOf table e = [] := by
  have different := of_decide_eq_false other
  simp only [List.mem_cons, List.not_mem_nil, or_false, not_or] at different
  rw [wardsOf, readEvent]
  split
  all_goals first | rfl | simp_all only [not_true_eq_false, false_and, and_false]

/-- **The timeline.** Read with the table of some places, a timeline follows those places. -/
theorem follows (tabulates : Tabulates table places) (frames : List Value) :
    places.Follows frames (frames.zipIdx.foldl (readFrame table) ⟨[], [], [], []⟩) := by
  rw [foldl_readFrame, List.zipIdx_map_fst, flatMap_events]
  refine ⟨?_, fun minute frame mf asked read => ?_, ?_, ?_, ?_⟩
  · rw [List.nil_append, List.length_map, List.length_zipIdx]
  · rw [List.nil_append, List.getElem?_map, List.getElem?_zipIdx, asked, Nat.zero_add] at read
    cases read
    exact minuteFrame_frameOf tabulates minute frame
  · exact forall₂_gather (fun e kill => ⟨_, killsOf_isKill kill, killEvent_killOf tabulates e⟩)
      (fun _ => killsOf_other) _
  · exact forall₂_gather (fun _ => objectivesOf_isObjective tabulates)
      (fun _ => objectivesOf_other) _
  · exact forall₂_gather (fun _ => wardsOf_isWard tabulates) (fun _ => wardsOf_other) _

end Table

end LolCrawler.Record
