import Mathlib.Data.Finset.Insert
import LolCrawler.Foundation.Steps
import LolCrawler.Foundation.Table
import LolCrawler.Segment.Writer

/-! # The state of the store

The database tables, the fields the store keeps in memory, the segment files, and
the operations on them that can fail. A write transaction works on a copy of the
tables. A fast commit makes the copy current; a durable one also makes it what a
crash falls back to. A transaction that is dropped before its commit changes
nothing but the memory the code has written meanwhile.

Ids, counts and times are natural numbers; `ts_ms + 1` wraps as it does in the
source's `u64`.
-/

namespace LolCrawler.Store

open Foundation Segment

def historyRequired : Nat := 20

def remakeMaxDurationS : UInt32 := 300

def adoptionThreshold : Nat := 2

def cohortSrcAdopted : Nat := 1

def bucketPriority : Nat := 0

def bucketOther : Nat := 1

def deepVisitMs : Nat := 1

structure RankSnap where
  tier : String
  division : String
  lp : Int32
  wins : Int32
  losses : Int32
deriving DecidableEq

structure FrontierTask where
  puuid : String
  lastVisitMs : Nat
deriving DecidableEq

structure FrontierKey where
  platform : String
  bucket : Nat
  dueMs : Nat
deriving DecidableEq

/-- Who put a game into a seen-bitmap. The source keeps the game only. -/
inductive Origin where
  | markSeen
  | storeMatch
deriving DecidableEq

/-- A seen-bitmap. -/
abbrev Bitmap := Finset (UInt64 × Origin)

/-- The tables of the database. `T_META` is split by the kind of its keys. -/
structure Tables where
  players : Table String Nat
  /-- `checkpoint_ms` -/
  checkpointMs : Option Nat
  /-- `valid_samples_{platform}` -/
  validSamples : Table String Nat
  /-- `bitmap_{platform}` -/
  bitmaps : Table String Bitmap
  ranks : Table (Nat × Nat) RankSnap
  /-- Player and time of a game, to the game and the player's slot in it. -/
  playerTl : Table (Nat × Nat) (UInt64 × Nat)
  /-- Platform, bucket, due time and player, to the task. -/
  frontier : Table (String × Nat × Nat × Nat) FrontierTask
  frontierIdx : Table Nat FrontierKey
  /-- Player, to the time and the source of the enrolment. -/
  cohort : Table Nat (Nat × Nat)
  outsider : Table Nat Nat
  /-- Ten slot counts and a flag, or nothing for a remake. -/
  progress : Table (String × UInt64) (List Nat)

def Tables.empty : Tables :=
  ⟨.empty, none, .empty, .empty, .empty, .empty, .empty, .empty, .empty, .empty, .empty⟩

/-- A segment writer: the date its files were opened for, and the block in the making. -/
structure Writer where
  date : String
  block : SegmentWriter

/-- The fields of the store that are kept in memory. -/
structure Ram where
  players : Table String Nat
  nextPlayerId : Nat
  seen : Table String Bitmap
  writers : Table String Writer
  pendingRanks : List (Nat × Nat × RankSnap)
  dirtyBitmaps : Bool
  cohort : Finset Nat
  outsiderSeen : Table Nat Nat
  validSamples : Table String Nat

def Ram.empty : Ram :=
  ⟨.empty, 1, .empty, .empty, [], false, ∅, .empty, .empty⟩

/-- A directory and a date name the files of a segment. -/
abbrev Place := String × String

/-- The files of one segment, and how much of each is synced. -/
structure SegmentFiles where
  files : Files File
  synced : File → Nat

def SegmentFiles.empty : SegmentFiles := ⟨fun _ => none, fun _ => 0⟩

/-- What an operation does to the synced part of the files it works on. -/
def resync (held : SegmentFiles) (op : Op File) : SegmentFiles where
  files := op.apply held.files
  synced := match op with
    | .observe | .touch _ | .write _ _ => held.synced
    | .sync path => Function.update held.synced path ((held.files path).elim 0 List.length)
    | .setLen path len => Function.update held.synced path (min len (held.synced path))
    | .create path | .remove path => Function.update held.synced path 0
    | .rename source target => Function.update held.synced target (held.synced source)

/-- A stored match: its record with the player ids, and the players it was stored for. -/
structure Stored where
  record : MatchRecord
  puuids : List String

/-- The database, the memory and the segments of the store.

The source counts player ids in a `u32`: fewer than `2 ^ 32` players are taken to be seen, and
the exhaustion of the ids is not modelled.

`stored` is a history: the matches given to the writer of a segment, in order, less
those that a crash took back. -/
structure State where
  tables : Tables
  durable : Tables
  /-- The copy that the open write transaction works on. -/
  working : Tables
  ram : Ram
  segments : Place → SegmentFiles
  stored : Place → List Stored

/-- An empty data directory. -/
def State.empty : State :=
  ⟨.empty, .empty, .empty, .empty, fun _ => .empty, fun _ => []⟩

/-! ## Operations that can fail -/

inductive TableName where
  | players | metadata | ranks | playerTl | frontier | frontierIdx | cohort | outsider | progress
deriving DecidableEq

/-- The operations of a transaction. `next` advances an iterator. -/
inductive TxnOp where
  | begin
  | openTable (table : TableName)
  | get (table : TableName)
  | range (table : TableName)
  | next (table : TableName)
  | insert (table : TableName)
  | remove (table : TableName)
  | commit
deriving DecidableEq

/-- The transactions of the store. `guard` is the read transaction of `store_match`. -/
inductive Txn where
  | openStore | checkpoint | assign | guard | storeMatch | cohort | frontier | bitmaps
deriving DecidableEq

/-- Where a call can fail. -/
inductive Site where
  | txn (txn : Txn) (op : TxnOp)
  | files
deriving DecidableEq

/-- A program of the store. -/
abbrev Act := Prog Site State

/-- An operation of a transaction that changes nothing. -/
def touch (txn : Txn) (op : TxnOp) : Act Unit := Prog.step (.txn txn op) id

/-- An operation of a write transaction on its copy of the tables. -/
def change (txn : Txn) (op : TxnOp) (edit : Tables → Tables) : Act Unit :=
  Prog.step (.txn txn op) fun state => { state with working := edit state.working }

def beginWrite (txn : Txn) : Act Unit :=
  Prog.step (.txn txn .begin) fun state => { state with working := state.tables }

/-- The commit of a fast-path transaction: not fsynced. -/
def commitFast (txn : Txn) : Act Unit :=
  Prog.step (.txn txn .commit) fun state => { state with tables := state.working }

/-- The commit of a transaction with immediate durability. -/
def commitDurable (txn : Txn) : Act Unit :=
  Prog.step (.txn txn .commit) fun state =>
    { state with tables := state.working, durable := state.working }

/-- A change of the memory. -/
def setRam (edit : Ram → Ram) : Act Unit :=
  Prog.modify fun state => { state with ram := edit state.ram }

/-- Why a program over files stopped. -/
def haltOf : Stop → Halt Site
  | .crashed => .crashed
  | .failed _ => .failed .files

/-- A program over the files of one segment. -/
def onFiles {α : Type} (place : Place) (action : Fs File α) : Act α := fun course =>
  let held := course.state.segments place
  let (result, after) := action ⟨held.files, course.cut, []⟩
  (result.mapError haltOf,
    { state :=
        { course.state with
          segments := Function.update course.state.segments place
            ⟨after.files, (after.log.foldl resync held).synced⟩ }
      cut := after.cut })

end LolCrawler.Store
