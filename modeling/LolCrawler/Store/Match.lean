import Mathlib.Data.List.Sort
import LolCrawler.Store.State

/-! # Storing matches

`durable_checkpoint`, `assign_player_ids`, `store_match`, `cohort_add_batch`, `commit`
and `open`, with every operation that can fail, and every write to memory at the
point where the source makes it.
-/

namespace LolCrawler.Store

open Foundation Segment Prog

/-! ## The durable checkpoint -/

/-- The buffered rank snapshots, one by one. The buffer is already drained. -/
def insertRanks : List (Nat × Nat × RankSnap) → Act Unit
  | [] => pure ()
  | (pid, ts, snap) :: rest => do
      change .checkpoint (.insert .ranks) fun tables =>
        { tables with ranks := tables.ranks.insert (pid, ts) snap }
      insertRanks rest

def durableCheckpoint (nowMs : Nat) : Act Unit := do
  beginWrite .checkpoint
  touch .checkpoint (.openTable .metadata)
  change .checkpoint (.insert .metadata) fun tables => { tables with checkpointMs := some nowMs }
  touch .checkpoint (.openTable .ranks)
  let ranks ← gets fun state => state.ram.pendingRanks
  setRam fun ram => { ram with pendingRanks := [] }
  insertRanks ranks
  commitDurable .checkpoint

/-! ## Players -/

/-- The next id goes to a new player. -/
def Ram.issue (ram : Ram) (puuid : String) : Ram :=
  { ram with
    players := ram.players.insert puuid ram.nextPlayerId
    nextPlayerId := ram.nextPlayerId + 1 }

/-- The players' ids, and those of them that are new. -/
def Ram.assign (ram : Ram) : List String → Ram × List Nat × List (String × Nat)
  | [] => (ram, [], [])
  | puuid :: puuids =>
      match ram.players.get puuid with
      | some id =>
          let (ram, ids, new) := ram.assign puuids
          (ram, id :: ids, new)
      | none =>
          let (later, ids, new) := (ram.issue puuid).assign puuids
          (later, ram.nextPlayerId :: ids, (puuid, ram.nextPlayerId) :: new)

/-- A player's row. -/
def insertPlayer (txn : Txn) (puuid : String) (id : Nat) : Act Unit :=
  change txn (.insert .players) fun tables =>
    { tables with players := tables.players.insert puuid id }

def insertPlayers : List (String × Nat) → Act Unit
  | [] => pure ()
  | (puuid, id) :: new => do
      insertPlayer .assign puuid id
      insertPlayers new

def assignPlayerIds (puuids : List String) : Act (List Nat) := do
  let (ram, ids, new) ← gets fun state => state.ram.assign puuids
  setRam fun _ => ram
  if new.isEmpty then pure ids
  else do
    beginWrite .assign
    touch .assign (.openTable .players)
    insertPlayers new
    commitFast .assign
    pure ids

/-! ## Seen games -/

def Ram.bitmap (ram : Ram) (platform : String) : Bitmap := (ram.seen.get platform).getD ∅

def markSeen (origin : Origin) (platform : String) (gameId : UInt64) : Act Unit :=
  setRam fun ram =>
    { ram with
      seen := ram.seen.insert platform (insert (gameId, origin) (ram.bitmap platform))
      dirtyBitmaps := true }

/-! ## The transaction of `store_match` -/

/-- The id of one player of a match. -/
def matchPlayerId (puuid : String) : Act Nat := do
  let ram ← gets State.ram
  match ram.players.get puuid with
  | some id => pure id
  | none => do
      setRam fun ram => ram.issue puuid
      insertPlayer .storeMatch puuid ram.nextPlayerId
      pure ram.nextPlayerId

def matchPlayerIds : List String → Act (List Nat)
  | [] => pure []
  | puuid :: puuids => do
      let id ← matchPlayerId puuid
      let ids ← matchPlayerIds puuids
      pure (id :: ids)

/-- The participants with their player ids. -/
def fillPlayerIds : List Participant → List Nat → List Participant
  | part :: parts, id :: ids => { part with playerId := .ofNat id } :: fillPlayerIds parts ids
  | parts, _ => parts

/-- Counts a player from outside the cohort. The second sighting adopts, unless growth is
paused. -/
def countOutsider (tsMs : Nat) (growthPaused : Bool) (pid : Nat) (puuid : String) :
    Act (List (Nat × String)) := do
  let ram ← gets State.ram
  if pid ∈ ram.cohort then pure []
  else
    let count := (ram.outsiderSeen.get pid).getD 0 + 1
    if !growthPaused && adoptionThreshold ≤ count then do
      setRam fun ram => { ram with outsiderSeen := ram.outsiderSeen.remove pid }
      change .storeMatch (.remove .outsider) fun tables =>
        { tables with outsider := tables.outsider.remove pid }
      setRam fun ram => { ram with cohort := insert pid ram.cohort }
      change .storeMatch (.insert .cohort) fun tables =>
        { tables with cohort := tables.cohort.insert pid (tsMs, cohortSrcAdopted) }
      pure [(pid, puuid)]
    else do
      setRam fun ram => { ram with outsiderSeen := ram.outsiderSeen.insert pid count }
      change .storeMatch (.insert .outsider) fun tables =>
        { tables with outsider := tables.outsider.insert pid count }
      pure []

def countOutsiders (tsMs : Nat) (growthPaused : Bool) :
    List (Nat × String) → Act (List (Nat × String))
  | [] => pure []
  | (pid, puuid) :: rest => do
      let adopted ← countOutsider tsMs growthPaused pid puuid
      let later ← countOutsiders tsMs growthPaused rest
      pure (adopted ++ later)

/-- Player and time, to game and slot. -/
abbrev TlEntry := (Nat × Nat) × (UInt64 × Nat)

/-- A player's games within some times, in order of time. -/
def Tables.timeline (tables : Tables) (pid : Nat) (within : Nat → Bool) :
    List TlEntry :=
  (tables.playerTl.entries.filter fun entry => entry.1.1 = pid && within entry.1.2).insertionSort
    fun first second => first.1.2 ≤ second.1.2

/-- Counts the earlier games of a player, up to the number required. -/
def countBack : List TlEntry → Nat → Act Nat
  | [], count => do
      touch .storeMatch (.next .playerTl)
      pure count
  | _ :: earlier, count => do
      touch .storeMatch (.next .playerTl)
      if historyRequired ≤ count + 1 then pure (count + 1)
      else countBack earlier (count + 1)

/-- How many games each player has before this time. -/
def predecessors (tsMs : Nat) : List Nat → Act (List Nat)
  | [] => pure []
  | pid :: pids => do
      touch .storeMatch (.range .playerTl)
      let earlier ← gets fun state => state.working.timeline pid fun ts => ts < tsMs
      let count ← countBack earlier.reverse 0
      let counts ← predecessors tsMs pids
      pure (count :: counts)

/-- All ten slots are full. -/
def full (progress : List Nat) : Bool := (progress.take 10).all fun count => historyRequired ≤ count

/-- The progress record of a new match: eleven bytes, the last one the flag. -/
def newProgress (counts : List Nat) : List Nat :=
  let progress := counts ++ .replicate (11 - counts.length) 0
  if full progress then progress.set 10 1 else progress

/-- The timeline entries of a match. -/
def writeTimeline (gameId : UInt64) (tsMs : Nat) : Nat → List Nat → Act Unit
  | _, [] => pure ()
  | slot, pid :: pids => do
      change .storeMatch (.insert .playerTl) fun tables =>
        { tables with playerTl := tables.playerTl.insert (pid, tsMs) (gameId, slot) }
      writeTimeline gameId tsMs (slot + 1) pids

/-- One more earlier game in a slot, and whether that makes the record valid. A full slot
stays as it is. -/
def bumpSlot (progress : List Nat) (slot : Nat) : Option (List Nat × Bool) :=
  if historyRequired ≤ progress.getD slot 0 then none
  else
    let bumped := progress.set slot (progress.getD slot 0 + 1)
    if bumped.getD 10 0 = 0 && full bumped then some (bumped.set 10 1, true)
    else some (bumped, false)

/-- A later game gets one more earlier game, and the next one, up to the first that has
enough. Games without slot counts are passed over. -/
def creditLater (platform : String) : List TlEntry → Nat → Act Nat
  | [], newlyValid => do
      touch .storeMatch (.next .playerTl)
      pure newlyValid
  | (_, gameId, slot) :: later, newlyValid => do
      touch .storeMatch (.next .playerTl)
      let found ← ask (.txn .storeMatch (.get .progress)) fun state =>
        state.working.progress.get (platform, gameId)
      match found.filter fun progress => progress.length = 11 with
      | none => creditLater platform later newlyValid
      | some progress =>
          match bumpSlot progress slot with
          | none => pure newlyValid
          | some (bumped, completes) => do
              change .storeMatch (.insert .progress) fun tables =>
                { tables with progress := tables.progress.insert (platform, gameId) bumped }
              creditLater platform later (newlyValid + completes.toNat)

/-- The later games of each player. The first of them starts at `ts_ms + 1`. -/
def creditPlayers (platform : String) (tsMs : Nat) : List Nat → Nat → Act Nat
  | [], newlyValid => pure newlyValid
  | pid :: pids, newlyValid => do
      touch .storeMatch (.range .playerTl)
      let later ← gets fun state =>
        state.working.timeline pid fun ts => (tsMs + 1) % 2 ^ 64 ≤ ts
      let newlyValid ← creditLater platform later newlyValid
      creditPlayers platform tsMs pids newlyValid

def Ram.addValid (ram : Ram) (platform : String) (newlyValid : Nat) : Ram :=
  { ram with
    validSamples := ram.validSamples.insert platform
      ((ram.validSamples.get platform).elim newlyValid (· + newlyValid)) }

def addValidSamples (platform : String) (newlyValid : Nat) : Act Unit :=
  if newlyValid = 0 then pure ()
  else do
    setRam fun ram => ram.addValid platform newlyValid
    touch .storeMatch (.openTable .metadata)
    let total ← gets fun state => (state.ram.validSamples.get platform).getD 0
    change .storeMatch (.insert .metadata) fun tables =>
      { tables with validSamples := tables.validSamples.insert platform total }

/-- The progress of a match and of those after it. -/
def trackProgress (platform : String) (gameId : UInt64) (tsMs : Nat) (pids : List Nat) :
    Act Unit := do
  touch .storeMatch (.openTable .playerTl)
  touch .storeMatch (.openTable .progress)
  let counts ← predecessors tsMs pids
  let progress := newProgress counts
  change .storeMatch (.insert .progress) fun tables =>
    { tables with progress := tables.progress.insert (platform, gameId) progress }
  writeTimeline gameId tsMs 0 pids
  let newlyValid ← creditPlayers platform tsMs pids (full progress).toNat
  addValidSamples platform newlyValid

def isRemake (record : MatchRecord) : Bool := record.durationS < remakeMaxDurationS

/-- What a match adds besides its players. -/
def matchEffects (record : MatchRecord) (puuids : List String) (tsMs : Nat) (growthPaused : Bool)
    (alreadyStored : Bool) (pids : List Nat) : Act (List (Nat × String)) :=
  if isRemake record && !alreadyStored then do
    touch .storeMatch (.openTable .progress)
    change .storeMatch (.insert .progress) fun tables =>
      { tables with progress := tables.progress.insert (record.platform, record.gameId) [] }
    pure []
  else if !alreadyStored then do
    touch .storeMatch (.openTable .outsider)
    touch .storeMatch (.openTable .cohort)
    let adopted ← countOutsiders tsMs growthPaused (pids.zip puuids)
    trackProgress record.platform record.gameId tsMs pids
    pure adopted
  else pure []

/-- The read and the write transaction of `store_match`: the record with its player ids, and
the players it adopted. -/
def matchTxn (record : MatchRecord) (puuids : List String) (tsMs : Nat) (growthPaused : Bool) :
    Act (MatchRecord × List (Nat × String)) := do
  touch .guard .begin
  touch .guard (.openTable .progress)
  let found ← ask (.txn .guard (.get .progress)) fun state =>
    state.tables.progress.get (record.platform, record.gameId)
  beginWrite .storeMatch
  touch .storeMatch (.openTable .players)
  let pids ← matchPlayerIds puuids
  let adopted ← matchEffects record puuids tsMs growthPaused found.isSome pids
  commitFast .storeMatch
  pure ({ record with participants := fillPlayerIds record.participants pids }, adopted)

/-! ## The archive -/

/-- What a call reads off the clock: the time, the date it compares the writer's with, and
the date it opens files for. -/
structure Clock where
  nowMs : Nat
  checked : String
  today : String

variable (codecs : Codecs)

def setWriter (platform : String) (writer : Writer) : Act Unit :=
  setRam fun ram => { ram with writers := ram.writers.insert platform writer }

/-- `flush` of one platform's writer. -/
def flushWriter (platform : String) (writer : Writer) : Act Unit := do
  let block ← onFiles (platform, writer.date) (writer.block.flush codecs)
  setWriter platform { writer with block := block }

/-- `roll`: flushes the old day's block and switches to today's files. -/
def roll (platform today : String) (writer : Writer) : Act Unit := do
  let block ← onFiles (platform, writer.date) (writer.block.flush codecs)
  setWriter platform { writer with block := block }
  onFiles (platform, today) openFiles
  setWriter platform ⟨today, block⟩

/-- A checkpoint and a roll, if the date has changed. -/
def rollIfNeeded (platform : String) (clock : Clock) : Act Unit := do
  match ← gets fun state => state.ram.writers.get platform with
  | none => pure ()
  | some writer =>
      if writer.date = clock.checked then pure ()
      else do
        durableCheckpoint clock.nowMs
        roll codecs platform clock.today writer

/-- The platform's writer, opened if there is none. -/
def openWriter (platform : String) (clock : Clock) : Act Writer := do
  match ← gets fun state => state.ram.writers.get platform with
  | some writer => pure writer
  | none => do
      onFiles (platform, clock.today) openFiles
      setWriter platform ⟨clock.today, .empty⟩
      pure ⟨clock.today, .empty⟩

/-- `append`, and the history of the segment. -/
def appendRecord (platform : String) (writer : Writer) (record : MatchRecord)
    (puuids : List String) : Act Unit := do
  setWriter platform { writer with block := writer.block.append record }
  modify fun state =>
    { state with
      stored := Function.update state.stored (platform, writer.date)
        (state.stored (platform, writer.date) ++ [⟨record, puuids⟩]) }

/-- The record goes to the segment of its platform, and its game is seen. -/
def archive (record : MatchRecord) (puuids : List String) (clock : Clock) : Act Unit := do
  rollIfNeeded codecs record.platform clock
  let writer ← openWriter record.platform clock
  appendRecord record.platform writer record puuids
  markSeen .storeMatch record.platform record.gameId

def storeMatch (record : MatchRecord) (puuids : List String) (tsMs : Nat) (growthPaused : Bool)
    (clock : Clock) : Act (List (Nat × String)) := do
  let (record, adopted) ← matchTxn record puuids tsMs growthPaused
  archive codecs record puuids clock
  pure adopted

/-! ## The cohort -/

def addRankSnapshot (pid tsMs : Nat) (snap : RankSnap) : Act Unit :=
  setRam fun ram => { ram with pendingRanks := ram.pendingRanks ++ [(pid, tsMs, snap)] }

def insertCohort (nowMs source : Nat) : List Nat → Act Unit
  | [] => pure ()
  | pid :: pids => do
      change .cohort (.insert .cohort) fun tables =>
        { tables with cohort := tables.cohort.insert pid (nowMs, source) }
      change .cohort (.remove .outsider) fun tables =>
        { tables with outsider := tables.outsider.remove pid }
      insertCohort nowMs source pids

/-- A player joins the cohort in memory. -/
def Ram.enrol (ram : Ram) (pid : Nat) : Ram :=
  { ram with cohort := insert pid ram.cohort, outsiderSeen := ram.outsiderSeen.remove pid }

def cohortAddBatch (players : List Nat) (source nowMs : Nat) : Act (List Nat) := do
  let new ← gets fun state => players.filter fun pid => pid ∉ state.ram.cohort
  if new.isEmpty then pure new
  else do
    beginWrite .cohort
    touch .cohort (.openTable .cohort)
    touch .cohort (.openTable .outsider)
    insertCohort nowMs source new
    commitFast .cohort
    setRam fun ram => new.foldl Ram.enrol ram
    pure new

/-! ## Commit and open -/

/-- Flushes the writers of these platforms. -/
def flushWriters : List String → Act Unit
  | [] => pure ()
  | platform :: platforms => do
      match ← gets fun state => state.ram.writers.get platform with
      | none => pure ()
      | some writer => flushWriter codecs platform writer
      flushWriters platforms

def insertBitmaps : List (String × Bitmap) → Act Unit
  | [] => pure ()
  | (platform, bitmap) :: rest => do
      change .bitmaps (.insert .metadata) fun tables =>
        { tables with bitmaps := tables.bitmaps.insert platform bitmap }
      insertBitmaps rest

/-- The seen-bitmaps, if any has changed. -/
def commitBitmaps : Act Unit := do
  if ← gets fun state => state.ram.dirtyBitmaps then do
    beginWrite .bitmaps
    touch .bitmaps (.openTable .metadata)
    let seen ← gets fun state => state.ram.seen.entries
    insertBitmaps seen
    commitDurable .bitmaps
    setRam fun ram => { ram with dirtyBitmaps := false }
  else pure ()

/-- `commit`. The writers are flushed in the order given. -/
def commit (nowMs : Nat) (order : List String) : Act Unit := do
  durableCheckpoint nowMs
  flushWriters codecs order
  commitBitmaps

/-- The memory of a store that is opened on these tables. -/
def Ram.load (platforms : List String) (tables : Tables) : Ram where
  players := tables.players
  nextPlayerId := tables.players.entries.foldl (fun next entry => max next (entry.2 + 1)) 1
  seen := platforms.foldl
    (fun seen platform => seen.insert platform ((tables.bitmaps.get platform).getD ∅)) .empty
  writers := .empty
  pendingRanks := []
  dirtyBitmaps := false
  cohort := (tables.cohort.entries.map Prod.fst).toFinset
  outsiderSeen := tables.outsider
  validSamples := platforms.foldl
    (fun totals platform =>
    totals.insert platform ((tables.validSamples.get platform).getD 0)) .empty

/-- The tables that `open` creates, and reads. -/
def openTables : List TableName → Act Unit
  | [] => pure ()
  | table :: tables => do
      touch .openStore (.openTable table)
      openTables tables

/-- `open`, with the enabled platforms. -/
def openStore (platforms : List String) : Act Unit := do
  beginWrite .openStore
  openTables [.players, .metadata, .ranks, .playerTl, .frontier, .frontierIdx, .cohort, .outsider,
    .progress]
  commitDurable .openStore
  touch .openStore .begin
  openTables [.players, .metadata, .cohort, .outsider]
  let tables ← gets State.tables
  setRam fun _ => Ram.load platforms tables

end LolCrawler.Store
