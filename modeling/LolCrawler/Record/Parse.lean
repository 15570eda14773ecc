import LolCrawler.Foundation.Slots
import LolCrawler.Json
import LolCrawler.Record

/-! # Reading a match

`parse_match` builds a record from the texts of a match and of its timeline. It orders the
participants by team and position, and the events of the timeline name participants by their
number in the text, so each of those numbers goes through the same table.

The parser of JSON texts is a parameter. References into the list of participants are indexes.
Sums wrap around, as they do in a release build.
-/

namespace LolCrawler.Record

open Foundation Json Server

def schemaVersion : UInt32 := 1

/-- `STAT_FIELDS_V1` -/
def statFields : List String :=
  ["assists", "baronKills", "bountyLevel", "champExperience", "champLevel", "championTransform",
    "consumablesPurchased", "damageDealtToBuildings", "damageDealtToObjectives",
    "damageDealtToTurrets", "damageSelfMitigated", "deaths", "detectorWardsPlaced", "doubleKills",
    "dragonKills", "firstBloodAssist", "firstBloodKill", "firstTowerAssist", "firstTowerKill",
    "gameEndedInEarlySurrender", "gameEndedInSurrender", "goldEarned", "goldSpent",
    "inhibitorKills", "inhibitorTakedowns", "inhibitorsLost", "item0", "item1", "item2", "item3",
    "item4", "item5", "item6", "itemsPurchased", "killingSprees", "kills", "largestCriticalStrike",
    "largestKillingSpree", "largestMultiKill", "longestTimeSpentLiving", "magicDamageDealt",
    "magicDamageDealtToChampions", "magicDamageTaken", "neutralMinionsKilled", "nexusKills",
    "nexusLost", "nexusTakedowns", "objectivesStolen", "objectivesStolenAssists", "pentaKills",
    "physicalDamageDealt", "physicalDamageDealtToChampions", "physicalDamageTaken", "quadraKills",
    "sightWardsBoughtInGame", "spell1Casts", "spell2Casts", "spell3Casts", "spell4Casts",
    "summoner1Casts", "summoner2Casts", "summonerLevel", "teamEarlySurrendered", "timeCCingOthers",
    "timePlayed", "totalAllyJungleMinionsKilled", "totalDamageDealt", "totalDamageDealtToChampions",
    "totalDamageShieldedOnTeammates", "totalDamageTaken", "totalEnemyJungleMinionsKilled",
    "totalHeal", "totalHealsOnTeammates", "totalMinionsKilled", "totalTimeCCDealt",
    "totalTimeSpentDead", "totalUnitsHealed", "tripleKills", "trueDamageDealt",
    "trueDamageDealtToChampions", "trueDamageTaken", "turretKills", "turretTakedowns",
    "turretsLost", "unrealKills", "visionScore", "visionWardsBoughtInGame", "wardsKilled",
    "wardsPlaced", "win"]

def positions : List String := ["TOP", "JUNGLE", "MIDDLE", "BOTTOM", "UTILITY"]

structure ParsedMatch where
  record : MatchRecord
  /-- In the order of the participants. -/
  puuids : List String

inductive ParseError where
  /-- What the parser of the text says. -/
  | json (why : String)
  /-- "no info" -/
  | noInfo
  /-- "no metadata" -/
  | noMetadata
  /-- "bad match id …", or that the number is none. -/
  | badMatchId (matchId : String)
  /-- "no participants" -/
  | noParticipants
  /-- "… participants, want 10" -/
  | participants (count : Nat)
  /-- "participants not grouped by team" -/
  | notGrouped
  /-- "position repair failed" -/
  | positionRepairFailed
  /-- A participant that is in the order is not in the list: a panic. -/
  | panicked
  /-- "no timeline frames" -/
  | noTimelineFrames
deriving DecidableEq

/-- `Context::context` -/
def orFail {α : Type} (error : ParseError) : Option α → Except ParseError α
  | some value => .ok value
  | none => .error error

/-- `n.max(0) as u32` -/
def asU32 (n : Int64) : UInt32 := (max n 0).toUInt64.toUInt32

/-! ## The order of the participants -/

def teamId (team : Nat) : Int64 := if team = 0 then 100 else 200

def members (participants : List Value) (team : Nat) : List Value :=
  (participants.drop (team * 5)).take 5

/-- The slot that a member's position names. -/
def wish (participant : Value) : Option Nat := positions.idxOf? (participant.s "teamPosition")

/-- The slots of a team and the participants in them. -/
def orderTeam (participants : List Value) (team : Nat) : Except ParseError (List (Nat × Nat)) := do
  if (members participants team).any fun p => p.i "teamId" ≠ teamId team then throw .notGrouped
  let slotOf := Slots.repair 5 ((members participants team).map wish)
  slotOf.zipIdx.mapM fun (idx, slot) => do
    return (slot, team * 5 + (← orFail .positionRepairFailed idx))

/-- `ordered` -/
def order (participants : List Value) : Except ParseError (List (Nat × Nat)) := do
  return (← orderTeam participants 0) ++ (← orderTeam participants 1)

/-- The index of the participant that a reference points to. -/
def position (participants : List Value) (reference : Nat) : Option Nat :=
  (List.range participants.length).findIdx? (· == reference)

/-- Each participant's place in the order. -/
def origToSorted (participants : List Value) (ordered : List (Nat × Nat)) :
    Except ParseError (List Nat) :=
  ordered.zipIdx.foldlM (fun table ((_, reference), sortedIdx) => do
    return table.set (← orFail .panicked (position participants reference)) sortedIdx)
    (List.replicate 10 0)

/-! ## A participant -/

def runes (p : Value) : List UInt32 :=
  let styles := (((p.get "perks").bind (·.get "styles")).bind Value.asArray).getD []
  let statPerks := (p.get "perks").bind (·.get "statPerks")
  styles.map (fun style => asU32 (style.i "style")) ++
    styles.flatMap (fun style => (((style.get "selections").bind Value.asArray).getD []).map
      fun sel => asU32 (sel.i "perk")) ++
    statPerks.elim [] fun statPerks =>
      ["offense", "flex", "defense"].map fun k => asU32 (statPerks.i k)

/-- The id of the player is filled in by the storage. -/
def participant (slot : Nat) (p : Value) : Participant where
  playerId := 0
  championId := asU32 (p.i "championId")
  position := UInt32.ofNat slot
  spell1 := asU32 (p.i "summoner1Id")
  spell2 := asU32 (p.i "summoner2Id")
  runes := runes p
  stats := statFields.map p.i

/-! ## The timeline -/

/-- A participant's place by its number, or 255. -/
def mapPid (table : List Nat) (pid : Int64) : UInt32 :=
  if 1 ≤ pid ∧ pid ≤ 10 then UInt32.ofNat (table.getD (pid - 1).toInt.toNat 0) else 255

def emptyFrame (minute : Nat) : MinuteFrame where
  minute := UInt32.ofNat minute
  totalGold := List.replicate 10 0
  xp := List.replicate 10 0
  cs := List.replicate 10 0
  dmgToChamps := List.replicate 10 0

def gold (pf : Value) : UInt32 := asU32 (pf.i "totalGold")

def experience (pf : Value) : UInt32 := asU32 (pf.i "xp")

def creeps (pf : Value) : UInt32 := asU32 (pf.i "minionsKilled" + pf.i "jungleMinionsKilled")

def damage (pf : Value) : UInt32 :=
  asU32 (((pf.get "damageStats").map (·.i "totalDamageDoneToChampions")).getD 0)

/-- One entry of a frame's `participantFrames`. -/
def readPlayer (table : List Nat) (mf : MinuteFrame) (entry : String × Value) : MinuteFrame :=
  let idx := mapPid table ((parseI64 entry.1.toList).getD 0)
  if idx = 255 then mf
  else { mf with
    totalGold := mf.totalGold.set idx.toNat (gold entry.2)
    xp := mf.xp.set idx.toNat (experience entry.2)
    cs := mf.cs.set idx.toNat (creeps entry.2)
    dmgToChamps := mf.dmgToChamps.set idx.toNat (damage entry.2) }

def players (frame : Value) : List (String × Value) :=
  ((frame.get "participantFrames").bind Value.asObject).getD []

def minuteFrame (table : List Nat) (minute : Nat) (frame : Value) : MinuteFrame :=
  (players frame).foldl (readPlayer table) (emptyFrame minute)

def seconds (e : Value) : UInt32 := asU32 (e.i "timestamp" / 1000)

def assists (e : Value) : List Int64 :=
  (((e.get "assistingParticipantIds").bind Value.asArray).getD []).map (·.asI64.getD 0)

def assistMask (table : List Nat) (pids : List Int64) : UInt32 :=
  pids.foldl (fun mask pid =>
    if mapPid table pid < 10 then mask ||| (1 <<< mapPid table pid) else mask) 0

def killEvent (table : List Nat) (e : Value) : KillEvent where
  tS := seconds e
  killer := mapPid table (e.i "killerId")
  victim := mapPid table (e.i "victimId")
  assistMask := assistMask table (assists e)
  x := asU32 (((e.get "position").map (·.i "x")).getD 0)
  y := asU32 (((e.get "position").map (·.i "y")).getD 0)

/-- `objective_kind` of a monster. -/
def monsterKind (e : Value) : UInt32 :=
  match e.s "monsterType" with
  | "DRAGON" => if e.s "monsterSubType" = "ELDER_DRAGON" then 5 else 1
  | "RIFTHERALD" => 2
  | "BARON_NASHOR" => 3
  | "HORDE" => 4
  | "ATAKHAN" => 6
  | _ => 20

/-- `objective_kind` of a building. -/
def buildingKind (e : Value) : UInt32 :=
  match e.s "buildingType" with
  | "TOWER_BUILDING" => 7
  | "INHIBITOR_BUILDING" => 8
  | _ => 21

def plateKind : UInt32 := 9

def parseLane (laneType : String) : UInt32 :=
  match laneType with
  | "TOP_LANE" => 1
  | "MID_LANE" => 2
  | "BOT_LANE" => 3
  | _ => 0

def monsterEvent (table : List Nat) (e : Value) : ObjectiveEvent where
  tS := seconds e
  kind := monsterKind e
  killer := mapPid table (e.i "killerId")
  losingTeam := 0
  lane := 0

def buildingEvent (table : List Nat) (e : Value) : ObjectiveEvent where
  tS := seconds e
  kind := buildingKind e
  killer := mapPid table (e.i "killerId")
  losingTeam := asU32 (e.i "teamId")
  lane := parseLane (e.s "laneType")

/-- Nobody is credited with a plate. -/
def plateEvent (e : Value) : ObjectiveEvent where
  tS := seconds e
  kind := plateKind
  killer := 255
  losingTeam := asU32 (e.i "teamId")
  lane := parseLane (e.s "laneType")

def placedWard (table : List Nat) (e : Value) : WardEvent where
  tS := seconds e
  kind := 1
  participant := mapPid table (e.i "creatorId")

def killedWard (table : List Nat) (e : Value) : WardEvent where
  tS := seconds e
  kind := 2
  participant := mapPid table (e.i "killerId")

def readEvent (table : List Nat) (tl : TimelineLite) (e : Value) : TimelineLite :=
  match e.s "type" with
  | "CHAMPION_KILL" => { tl with kills := tl.kills ++ [killEvent table e] }
  | "ELITE_MONSTER_KILL" => { tl with objectives := tl.objectives ++ [monsterEvent table e] }
  | "BUILDING_KILL" => { tl with objectives := tl.objectives ++ [buildingEvent table e] }
  | "TURRET_PLATE_DESTROYED" => { tl with objectives := tl.objectives ++ [plateEvent e] }
  | "WARD_PLACED" => { tl with wards := tl.wards ++ [placedWard table e] }
  | "WARD_KILL" => { tl with wards := tl.wards ++ [killedWard table e] }
  | _ => tl

def events (frame : Value) : List Value := ((frame.get "events").bind Value.asArray).getD []

def readFrame (table : List Nat) (tl : TimelineLite) (entry : Value × Nat) : TimelineLite :=
  (events entry.1).foldl (readEvent table)
    { tl with frames := tl.frames ++ [minuteFrame table entry.2 entry.1] }

section Texts

variable (fromStr : String → Except String Value)

/-- The frames of a timeline. -/
def timelineFrames (timelineJson : String) : Except ParseError (List Value) := do
  let t ← (fromStr timelineJson).mapError .json
  orFail .noTimelineFrames (((t.get "info").bind (·.get "frames")).bind Value.asArray)

def parseTimeline (timelineJson : String) (table : List Nat) : Except ParseError TimelineLite := do
  let frames ← timelineFrames fromStr timelineJson
  return frames.zipIdx.foldl (readFrame table) ⟨[], [], [], []⟩

/-- The timeline of a match that has one. -/
def timelineOf (timelineJson : Option String) (table : List Nat) :
    Except ParseError (Option TimelineLite) :=
  match timelineJson with
  | some timelineJson => some <$> parseTimeline fromStr timelineJson table
  | none => .ok none

/-- The number of a patch. -/
def patchPart (gameVersion : String) (part : Nat) : UInt32 :=
  (parseU32 (((gameVersion.toList.splitOn '.')[part]?).getD ['0'])).getD 0

def blueWon (teams : Option (List Value)) : Bool :=
  ((teams.bind fun teams => teams.find? fun t => t.i "teamId" = 100).map fun t =>
    ((t.get "win").bind Value.asBool).getD false).getD false

def bans (teams : Option (List Value)) : List UInt32 :=
  (teams.getD []).flatMap fun t =>
    (((t.get "bans").bind Value.asArray).getD []).map fun b => asU32 (b.i "championId")

/-- In seconds. Old matches have it in milliseconds. -/
def duration (info : Value) : Int64 :=
  if info.i "gameDuration" > 30000 then info.i "gameDuration" / 1000 else info.i "gameDuration"

def gameStartMs (info : Value) : Int64 :=
  if info.i "gameStartTimestamp" > 0 then info.i "gameStartTimestamp" else info.i "gameCreation"

/-- The info, the id and the participants of a match. -/
def readMatch (matchJson : String) :
    Except ParseError (Value × (String × UInt64) × List Value) := do
  let m ← (fromStr matchJson).mapError .json
  let info ← orFail .noInfo (m.get "info")
  let metadata ← orFail .noMetadata (m.get "metadata")
  let key ← orFail (.badMatchId (metadata.s "matchId")) (splitMatchId (metadata.s "matchId"))
  let participants ← orFail .noParticipants ((info.get "participants").bind Value.asArray)
  if participants.length ≠ 10 then throw (.participants participants.length)
  return (info, key, participants)

def parseMatch (matchJson : String) (timelineJson : Option String) :
    Except ParseError ParsedMatch := do
  let (info, (platform, gameId), participants) ← readMatch fromStr matchJson
  let teams := (info.get "teams").bind Value.asArray
  let ordered ← order participants
  let table ← origToSorted participants ordered
  let timeline ← timelineOf fromStr timelineJson table
  return {
    record := {
      schemaVersion := schemaVersion
      gameId := gameId
      platform := platform
      queueId := asU32 (info.i "queueId")
      gameStartMs := gameStartMs info
      durationS := asU32 (duration info)
      blueWon := blueWon teams
      gameVersion := info.s "gameVersion"
      patchMajor := patchPart (info.s "gameVersion") 0
      patchMinor := patchPart (info.s "gameVersion") 1
      participants := ordered.map fun (slot, reference) =>
        participant slot (participants.getD reference .null)
      timeline := timeline
      bans := bans teams }
    puuids := ordered.map fun (_, reference) =>
      (participants.getD reference .null).s "puuid" }

end Texts

end LolCrawler.Record
