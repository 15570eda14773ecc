import LolCrawler.Contributions.Reloads

/-! # What a crash costs

A flush writes to tables that are durable from the next checkpoint on, it can fail, and a crash can
come at any time. What the counters are about is said by a ledger of the requests: a flush saves
those whose hour was touched since the one before, a checkpoint makes safe what is saved, and a
crash leaves what is safe. The counters, the rings, the pruned hours and the rows follow the ledger
in every run (`crashes_cost_unflushed`).

A flush drains the hours it is to write. If it fails they are not written before they are touched
again. The source waits for the lock of the store between the two. Here they are one step: what is
recorded meanwhile waits for the next flush, a checkpoint in between comes before the flush, and a
crash makes it fail.
-/

namespace LolCrawler.Contributions

open Foundation

/-- The counters in RAM, the rows, and the rows that a crash falls back to. -/
structure DurableBoard where
  stats : Stats
  rows : StatRows
  durable : StatRows

inductive DurableEvent where
  | record (credit : Credit)
  | snapshot (nowMs : Nat)
  | flush (nowMs : Nat) (written : Bool)
  | checkpoint (nowMs : Nat)
  | crash (nowMs : Nat)

def DurableEvent.nowMs : DurableEvent → Nat
  | .record credit => credit.nowMs
  | .snapshot nowMs => nowMs
  | .flush nowMs _ => nowMs
  | .checkpoint nowMs => nowMs
  | .crash nowMs => nowMs

def DurableEvent.credit? : DurableEvent → Option Credit
  | .record credit => some credit
  | _ => none

def DurableEvent.isCrash : DurableEvent → Bool
  | .crash _ => true
  | _ => false

def DurableEvent.fails : DurableEvent → Bool
  | .flush _ written => !written
  | _ => false

namespace DurableBoard

def new : DurableBoard := ⟨.empty, .empty, .empty⟩

def apply (board : DurableBoard) : DurableEvent → DurableBoard
  | .record credit => { board with stats := board.stats.record credit }
  | .snapshot nowMs => { board with stats := (board.stats.snapshot nowMs).2 }
  | .flush _ written =>
      { board with
        stats := board.stats.takeDirty.2
        rows := if written then nodeStatsUpsert board.rows board.stats.takeDirty.1
          else board.rows }
  | .checkpoint _ => { board with durable := board.rows }
  | .crash nowMs =>
      { board with stats := .load (nodeStatsAll board.durable) nowMs, rows := board.durable }

def after (events : List DurableEvent) : DurableBoard := events.foldl apply new

end DurableBoard

/-! ## The ledger -/

/-- The row of a request. -/
def Credit.key (credit : Credit) : UInt32 × Nat := (credit.nodeId, hourOf credit.nowMs)

structure LedgerEntry where
  credit : Credit
  /-- A row holds it. -/
  saved : Bool
  /-- The row is durable. -/
  safe : Bool
  /-- It was recorded since the server was started. -/
  live : Bool

/-- The row becomes durable. -/
def LedgerEntry.secure (entry : LedgerEntry) : LedgerEntry := { entry with safe := entry.saved }

/-- The row is loaded. -/
def LedgerEntry.reload (entry : LedgerEntry) : LedgerEntry :=
  { entry with saved := true, live := false }

/-- The requests that count, and the rows touched since the last flush. -/
structure Ledger where
  entries : List LedgerEntry
  touched : List (UInt32 × Nat)

namespace Ledger

def new : Ledger := ⟨[], []⟩

def covers (ledger : Ledger) (entry : LedgerEntry) : Bool :=
  entry.saved || entry.credit.key ∈ ledger.touched

def save (ledger : Ledger) (entry : LedgerEntry) : LedgerEntry :=
  { entry with saved := ledger.covers entry }

def apply (ledger : Ledger) : DurableEvent → Ledger
  | .record credit =>
      ⟨ledger.entries ++ [⟨credit, false, false, true⟩], credit.key :: ledger.touched⟩
  | .snapshot _ => ledger
  | .flush _ written =>
      ⟨if written then ledger.entries.map ledger.save else ledger.entries, []⟩
  | .checkpoint _ => { ledger with entries := ledger.entries.map LedgerEntry.secure }
  | .crash _ => ⟨(ledger.entries.filter LedgerEntry.safe).map LedgerEntry.reload, []⟩

def after (events : List DurableEvent) : Ledger := events.foldl apply new

/-- The requests of these entries. -/
def credits (ledger : Ledger) (kind : LedgerEntry → Bool) : List Credit :=
  (ledger.entries.filter kind).map LedgerEntry.credit

/-- The requests that count. -/
def kept (ledger : Ledger) : List Credit := ledger.entries.map LedgerEntry.credit

end Ledger

namespace Ledger

variable {ledger : Ledger}

/-- A request counts. -/
theorem kept_record (credit : Credit) :
    (ledger.apply (.record credit)).kept = ledger.kept ++ [credit] := by
  rw [kept, apply, List.map_append]
  rfl

/-- A request is neither saved nor safe yet. -/
theorem credits_record (kind : LedgerEntry → Bool) (credit : Credit) :
    (ledger.apply (.record credit)).credits kind =
      ledger.credits kind ++ if kind ⟨credit, false, false, true⟩ then [credit] else [] := by
  rw [credits, apply, List.filter_append, List.map_append, List.filter_cons]
  congr 1
  split
  · rfl
  · rfl

/-- What is noted of an entry changes, and not its request. -/
theorem credits_map (entries : List LedgerEntry) (change : LedgerEntry → LedgerEntry)
    (same : ∀ entry, (change entry).credit = entry.credit) (touched : List (UInt32 × Nat))
    (kind : LedgerEntry → Bool) :
    (⟨entries.map change, touched⟩ : Ledger).credits kind =
      ((entries.filter fun entry => kind (change entry)).map LedgerEntry.credit) := by
  rw [credits, List.filter_map, List.map_map]
  exact List.map_congr_left fun entry _ => same entry

/-- A change of the entries that keeps their requests. -/
theorem kept_map (entries : List LedgerEntry) (change : LedgerEntry → LedgerEntry)
    (same : ∀ entry, (change entry).credit = entry.credit) (touched : List (UInt32 × Nat)) :
    (⟨entries.map change, touched⟩ : Ledger).kept = entries.map LedgerEntry.credit := by
  rw [kept, List.map_map]
  exact List.map_congr_left fun entry _ => same entry

section Events

variable (ledger : Ledger) (nowMs : Nat)

/-- A flush leaves what counts. -/
theorem kept_flush (written : Bool) :
    (ledger.apply (.flush nowMs written)).kept = ledger.kept := by
  cases written with
  | true => exact kept_map _ ledger.save (fun _ => rfl) []
  | false => rfl

/-- A flush that is written saves what it covers. -/
theorem saved_flush :
    (ledger.apply (.flush nowMs true)).credits LedgerEntry.saved = ledger.credits ledger.covers :=
  credits_map _ ledger.save (fun _ => rfl) [] _

/-- A flush makes nothing safe. -/
theorem safe_flush (written : Bool) :
    (ledger.apply (.flush nowMs written)).credits LedgerEntry.safe =
      ledger.credits LedgerEntry.safe := by
  cases written with
  | true =>
      exact credits_map _ ledger.save (fun _ => rfl) [] _
  | false => rfl

/-- A flush leaves what is live. -/
theorem live_flush (written : Bool) :
    (ledger.apply (.flush nowMs written)).credits LedgerEntry.live =
      ledger.credits LedgerEntry.live := by
  cases written with
  | true =>
      exact credits_map _ ledger.save (fun _ => rfl) [] _
  | false => rfl

/-- A checkpoint leaves what counts. -/
theorem kept_checkpoint : (ledger.apply (.checkpoint nowMs)).kept = ledger.kept :=
  kept_map _ LedgerEntry.secure (fun _ => rfl) _

/-- A checkpoint saves nothing. -/
theorem saved_checkpoint :
    (ledger.apply (.checkpoint nowMs)).credits LedgerEntry.saved =
      ledger.credits LedgerEntry.saved :=
  credits_map _ LedgerEntry.secure (fun _ => rfl) _ _

/-- A checkpoint makes safe what is saved. -/
theorem safe_checkpoint :
    (ledger.apply (.checkpoint nowMs)).credits LedgerEntry.safe =
      ledger.credits LedgerEntry.saved :=
  credits_map _ LedgerEntry.secure (fun _ => rfl) _ _

/-- A checkpoint leaves what is live. -/
theorem live_checkpoint :
    (ledger.apply (.checkpoint nowMs)).credits LedgerEntry.live =
      ledger.credits LedgerEntry.live :=
  credits_map _ LedgerEntry.secure (fun _ => rfl) _ _

/-- A crash leaves what is safe. -/
theorem kept_crash :
    (ledger.apply (.crash nowMs)).kept = ledger.credits LedgerEntry.safe :=
  kept_map _ LedgerEntry.reload (fun _ => rfl) []

/-- A crash leaves of each kind what is safe. -/
theorem credits_crash (kind : LedgerEntry → Bool) :
    (ledger.apply (.crash nowMs)).credits kind = (ledger.entries.filter fun entry =>
      kind entry.reload && entry.safe).map LedgerEntry.credit := by
  rw [← List.filter_filter]
  exact credits_map _ LedgerEntry.reload (fun _ => rfl) [] _

/-- After a crash what counts is saved. -/
theorem saved_crash :
    (ledger.apply (.crash nowMs)).credits LedgerEntry.saved = ledger.credits LedgerEntry.safe :=
  (ledger.credits_crash nowMs _).trans <| congrArg (List.map LedgerEntry.credit) <|
    List.filter_congr fun entry _ => Bool.true_and entry.safe

/-- A crash leaves what is safe as it is. -/
theorem safe_crash :
    (ledger.apply (.crash nowMs)).credits LedgerEntry.safe = ledger.credits LedgerEntry.safe :=
  (ledger.credits_crash nowMs _).trans <| congrArg (List.map LedgerEntry.credit) <|
    List.filter_congr fun entry _ => Bool.and_self entry.safe

/-- After a crash nothing is live. -/
theorem live_crash : (ledger.apply (.crash nowMs)).credits LedgerEntry.live = [] := by
  rw [credits_crash, List.map_eq_nil_iff, List.filter_eq_nil_iff]
  exact fun entry _ => Bool.false_ne_true

end Events

/-- The requests of a kind are among those that count. -/
theorem credits_sublist (ledger : Ledger) (kind : LedgerEntry → Bool) :
    (ledger.credits kind).Sublist ledger.kept := List.filter_sublist.map _

/-- A node without a request has none of any kind. -/
theorem history_credits {nodeId : UInt32} (kind : LedgerEntry → Bool)
    (none : history ledger.kept nodeId = []) : history (ledger.credits kind) nodeId = [] := by
  have inside := ((ledger.credits_sublist kind).filter fun credit => credit.nodeId = nodeId).map
    fun credit => (credit.nowMs, credit.bucket)
  exact List.sublist_nil.mp (none ▸ inside)

/-- What a flush covers of a row: all of it if it was touched, else what was saved. -/
theorem filter_covers (ledger : Ledger) (key : UInt32 × Nat) :
    ((ledger.credits ledger.covers).filter fun credit => credit.key = key) =
      if key ∈ ledger.touched then ledger.kept.filter fun credit => credit.key = key
      else (ledger.credits LedgerEntry.saved).filter fun credit => credit.key = key := by
  rw [credits, credits, kept, List.filter_map, List.filter_map, List.filter_map,
    List.filter_filter, List.filter_filter]
  split
  · next touched =>
      congr 1
      refine List.filter_congr fun entry _ => ?_
      by_cases own : entry.credit.key = key
      · subst own
        simp [covers, touched]
      · simp [own]
  · next apart =>
      congr 1
      refine List.filter_congr fun entry _ => ?_
      by_cases own : entry.credit.key = key
      · subst own
        simp [covers, apart]
      · simp [own]

/-- A request of an hour that was touched is covered. -/
theorem mem_covers {credit : Credit} (counts : credit ∈ ledger.kept)
    (touched : credit.key ∈ ledger.touched) : credit ∈ ledger.credits ledger.covers := by
  obtain ⟨entry, inside, rfl⟩ := List.mem_map.mp counts
  refine List.mem_map_of_mem (List.mem_filter.mpr ⟨inside, ?_⟩)
  rw [covers, decide_eq_true touched, Bool.or_true]

end Ledger

/-- A node has a history if and only if it has a request. -/
theorem history_ne_nil {credits : List Credit} {nodeId : UInt32} :
    history credits nodeId ≠ [] ↔ ∃ credit ∈ credits, credit.nodeId = nodeId := by
  rw [history, Ne, List.map_eq_nil_iff, List.filter_eq_nil_iff]
  push Not
  simp only [decide_eq_true_eq]

/-- What a node earned within an hour is the sum over the requests of that row. -/
theorem sumOn_row (credits : List Credit) (nodeId : UInt32) (hour : Nat) :
    sumOn (fun time => hourOf time = hour) (history credits nodeId) =
      ((credits.filter fun credit => credit.key = (nodeId, hour)).map Credit.bucket).sum := by
  rw [sumOn, history, List.filter_map, List.map_map, List.filter_filter]
  congr 2
  refine List.filter_congr fun credit _ => ?_
  rw [Credit.key, Function.comp_apply]
  simp [Bool.and_comm]

/-- When the first of the requests that wait for a flush was recorded. -/
def DurableEvent.waiting (since : Option Nat) : DurableEvent → Option Nat
  | .record credit => since.or (some credit.nowMs)
  | .snapshot _ => since
  | .flush .. => none
  | .checkpoint _ => since
  | .crash _ => none

/-- A flush comes within a week. -/
def DurableEvent.promptly (since : Option Nat) : DurableEvent → Prop
  | .flush nowMs _ => ∀ first, since = some first → nowMs ≤ first + 168 * hourMs
  | _ => True

/-- No request waits more than a week for a flush. -/
def Prompt : Option Nat → List DurableEvent → Prop
  | _, [] => True
  | since, event :: events => event.promptly since ∧ Prompt (event.waiting since) events

/-! ## Counters between two events -/

/-- The touched hours of a node since then are in RAM. -/
structure Held (since : Option Nat) (ns : NodeStats) (clock : Nat) : Prop where
  held : ∀ hour ∈ ns.dirty, hourOf clock ≤ hour + retainHours * hourMs →
    ∃ b, ns.hours.get hour = some b
  recent : ∀ hour ∈ ns.dirty, ∃ first, since = some first ∧ hourOf first ≤ hour

namespace Held

variable {since : Option Nat} {ns : NodeStats} {clock now : Nat}

/-- Nothing waits for a flush. -/
theorem clean (none : ns.dirty = []) : Held since ns clock := by
  constructor
  · intro hour dirty
    rw [none] at dirty
    cases dirty
  · intro hour dirty
    rw [none] at dirty
    cases dirty

/-- What is held at one time is held at a later one. -/
theorem later (held : Held since ns clock) (ahead : clock ≤ now) : Held since ns now :=
  ⟨fun hour dirty recent => held.held hour dirty
    (Nat.le_trans (Totals.hourOf_mono ahead) recent), held.recent⟩

/-- The first of those that wait is the first. -/
theorem started (held : Held since ns clock) (first : Nat) :
    Held (since.or (some first)) ns clock :=
  ⟨held.held, fun hour dirty => by
    obtain ⟨last, rfl, before⟩ := held.recent hour dirty
    exact ⟨last, rfl, before⟩⟩

/-- A request that is recorded while others wait is held with them. -/
theorem credit {first : Nat} (held : Held (some first) ns clock) {credit : Credit}
    (ahead : clock ≤ credit.nowMs) (after : first ≤ credit.nowMs) :
    Held (some first) (ns.credit credit) credit.nowMs where
  held hour dirty recent := by
    rw [NodeStats.credit]
    dsimp only
    rw [Totals.pruned recent, Table.get_insert]
    split
    · exact ⟨_, rfl⟩
    · next different =>
        rw [NodeStats.credit, List.mem_insert_iff] at dirty
        exact held.held hour (dirty.resolve_left different)
          (Nat.le_trans (Totals.hourOf_mono ahead) recent)
  recent hour dirty := by
    rw [NodeStats.credit, List.mem_insert_iff] at dirty
    rcases dirty with rfl | dirty
    · exact ⟨first, rfl, Totals.hourOf_mono after⟩
    · exact held.recent hour dirty

/-- **Touched hours.** Within a week none of them is pruned. -/
theorem dirty {history : List (Nat × Bucket)} (held : Held since ns clock)
    (totals : Totals ns history clock) (ahead : clock ≤ now)
    (prompt : ∀ first, since = some first → now ≤ first + 168 * hourMs) {hour : Nat}
    (dirty : hour ∈ ns.dirty) :
    ns.hours.get hour = some (sumOn (fun time => hourOf time = hour) history) := by
  obtain ⟨first, same, before⟩ := held.recent hour dirty
  have soon : clock ≤ first + 168 * hourMs := Nat.le_trans ahead (prompt first same)
  have week : hourOf clock ≤ hour + retainHours * hourMs := by
    have moved : hourOf clock ≤ hourOf (first + 168 * hourMs) := Totals.hourOf_mono soon
    have turns : hourOf (first + 168 * hourMs) = hourOf first + 168 * hourMs := by
      rw [hourOf, Nat.add_mul_div_right _ _ (by decide), Nat.add_mul]
      rfl
    have less : 168 * hourMs ≤ retainHours * hourMs := Nat.mul_le_mul_right _ (by decide)
    omega
  obtain ⟨b, found⟩ := held.held hour dirty week
  have sum := totals.hours hour week
  rw [found, Option.getD_some] at sum
  rw [found, sum]

end Held

/-- The requests of a node by the minute. -/
def minutesOf (credits : List Credit) (nodeId : UInt32) : List (Nat × Bucket) :=
  (history credits nodeId).map fun entry => (entry.1 / minuteMs, entry.2)

/-- The board is as the ledger says. -/
structure Tracks (board : DurableBoard) (ledger : Ledger) (since : Option Nat) (clock : Nat) :
    Prop where
  known : Known (fun _ ns history clock => Totals ns history clock ∧ Held since ns clock)
    board.stats ledger.kept clock
  dirty : ∀ nodeId ns, board.stats.get nodeId = some ns →
    ∀ hour, hour ∈ ns.dirty ↔ (nodeId, hour) ∈ ledger.touched
  touched : ∀ key ∈ ledger.touched, ∃ credit ∈ ledger.kept, credit.key = key
  minutes : ∀ nodeId ns, board.stats.get nodeId = some ns →
    ns.minutes.Holds (minutesOf (ledger.credits LedgerEntry.live) nodeId) ∧
      ns.minutes.head ≤ clock / minuteMs
  rows : Flushed board.rows (ledger.credits LedgerEntry.saved)
  durable : Flushed board.durable (ledger.credits LedgerEntry.safe)
  past : ∀ first, since = some first → first ≤ clock

/-- An empty table has nothing. -/
theorem flushed_empty : Flushed .empty [] := ⟨fun _ _ => rfl, nofun⟩

namespace Tracks

variable {board : DurableBoard} {ledger : Ledger} {since : Option Nat} {clock now : Nat}

/-- A touched row is that of a node with counters. -/
theorem counting (tracks : Tracks board ledger since clock) {key : UInt32 × Nat}
    (touched : key ∈ ledger.touched) : ∃ ns, board.stats.get key.1 = some ns := by
  obtain ⟨credit, counts, rfl⟩ := tracks.touched key touched
  cases found : board.stats.get credit.key.1 with
  | some ns => exact ⟨ns, rfl⟩
  | none =>
      have own : credit.nodeId = credit.key.1 := rfl
      exact (history_ne_nil.mpr ⟨credit, counts, own⟩ (tracks.known.unknown _ found)).elim

/-- At the start there is nothing to show. -/
theorem new : Tracks .new .new none 0 :=
  ⟨.empty 0, nofun, nofun, nofun, flushed_empty, flushed_empty, nofun⟩

/-- The board tracks the ledger across **a request** that is recorded. -/
theorem record (tracks : Tracks board ledger since clock) {credit : Credit}
    (ahead : clock ≤ credit.nowMs) :
    Tracks (board.apply (.record credit)) (ledger.apply (.record credit))
      (since.or (some credit.nowMs)) credit.nowMs := by
  obtain ⟨first, started, after⟩ : ∃ first, since.or (some credit.nowMs) = some first ∧
      first ≤ credit.nowMs := by
    cases since with
    | none => exact ⟨_, rfl, Nat.le_refl _⟩
    | some first => exact ⟨first, rfl, Nat.le_trans (tracks.past first rfl) ahead⟩
  have known : Known (fun _ ns history clock =>
      Totals ns history clock ∧ Held (some first) ns clock) board.stats ledger.kept clock := by
    rw [← started]
    exact tracks.known.imp fun _ _ _ both => ⟨both.1, both.2.started credit.nowMs⟩
  -- The counters of the node before, or new ones.
  have before : ∀ hour, hour ∈ ((board.stats.get credit.nodeId).getD .default).dirty ↔
      (credit.nodeId, hour) ∈ ledger.touched := by
    intro hour
    cases found : board.stats.get credit.nodeId with
    | none =>
        constructor
        · nofun
        · intro touched
          obtain ⟨ns, there⟩ := tracks.counting touched
          rw [found] at there
          cases there
    | some ns => exact tracks.dirty _ ns found hour
  have ring : ((board.stats.get credit.nodeId).getD .default).minutes.Holds
        (minutesOf (ledger.credits LedgerEntry.live) credit.nodeId) ∧
      ((board.stats.get credit.nodeId).getD .default).minutes.head ≤ credit.nowMs / minuteMs := by
    cases found : board.stats.get credit.nodeId with
    | none =>
        rw [minutesOf, Ledger.history_credits _ (tracks.known.unknown _ found)]
        exact ⟨.empty 0, Nat.zero_le _⟩
    | some ns =>
        obtain ⟨holds, head⟩ := tracks.minutes _ ns found
        exact ⟨holds, Nat.le_trans head (Nat.div_le_div_right ahead)⟩
  rw [started]
  refine ⟨?_, fun nodeId ns found hour => ?_, fun key touched => ?_, fun nodeId ns found => ?_, ?_,
    ?_, fun last same => by cases same; exact after⟩
  · rw [Ledger.kept_record]
    exact known.record (fun _ => ⟨.default clock, .clean rfl⟩)
      (fun _ _ _ _ both => ⟨both.1.later ahead, both.2.later ahead⟩)
      fun _ _ both => ⟨both.1.credit ahead, both.2.credit ahead after⟩
  · rw [DurableBoard.apply, Stats.record, Table.get_insert] at found
    rw [Ledger.apply, List.mem_cons, Credit.key, Prod.mk.injEq]
    split at found
    · next own =>
        cases found
        rw [NodeStats.credit, List.mem_insert_iff, own, before]
        simp
    · next other =>
        rw [tracks.dirty nodeId ns found hour]
        simp [other]
  · rw [Ledger.kept_record]
    rcases List.mem_cons.mp touched with rfl | touched
    · exact ⟨credit, List.mem_append_right _ (List.mem_singleton_self _), rfl⟩
    · obtain ⟨other, counts, own⟩ := tracks.touched key touched
      exact ⟨other, List.mem_append_left _ counts, own⟩
  · rw [DurableBoard.apply, Stats.record, Table.get_insert] at found
    rw [Ledger.credits_record, if_pos rfl, minutesOf, history_append, List.map_append]
    split at found
    · next own =>
        cases found
        obtain ⟨moved, head⟩ := ring.1.advance ring.2
        have added := moved.add credit.bucket
        rw [head] at added
        rw [own, history_self]
        exact ⟨added, Nat.le_of_eq head⟩
    · next other =>
        obtain ⟨holds, head⟩ := tracks.minutes nodeId ns found
        rw [history_other (Ne.symm other), List.map_nil, List.append_nil]
        exact ⟨holds, Nat.le_trans head (Nat.div_le_div_right ahead)⟩
  · rw [Ledger.credits_record, if_neg Bool.false_ne_true, List.append_nil]
    exact tracks.rows
  · rw [Ledger.credits_record, if_neg Bool.false_ne_true, List.append_nil]
    exact tracks.durable

/-- The board tracks the ledger as time goes on. -/
theorem later (tracks : Tracks board ledger since clock) (ahead : clock ≤ now) :
    Tracks board ledger since now :=
  ⟨tracks.known.imp fun _ _ _ both => ⟨both.1.later ahead, both.2.later ahead⟩, tracks.dirty,
    tracks.touched, fun nodeId ns found => by
      obtain ⟨holds, head⟩ := tracks.minutes nodeId ns found
      exact ⟨holds, Nat.le_trans head (Nat.div_le_div_right ahead)⟩, tracks.rows, tracks.durable,
    fun first same => Nat.le_trans (tracks.past first same) ahead⟩

/-- **A snapshot** shows what is held. -/
theorem snapshot (tracks : Tracks board ledger since clock) (ahead : clock ≤ now) :
    Tracks (board.apply (.snapshot now)) (ledger.apply (.snapshot now)) since now := by
  have later := tracks.later ahead
  have moved : ∀ {nodeId ns}, (board.stats.snapshot now).2.get nodeId = some ns →
      ∃ old, board.stats.get nodeId = some old ∧ ns = old.advance now := by
    intro nodeId ns found
    rw [Stats.snapshot, Table.get_map, Option.map_eq_some_iff] at found
    obtain ⟨old, found, rfl⟩ := found
    exact ⟨old, found, rfl⟩
  refine ⟨?_, fun nodeId ns found => ?_, tracks.touched, fun nodeId ns found => ?_, tracks.rows,
    tracks.durable, later.past⟩
  · exact later.known.snapshot fun _ _ _ both =>
      ⟨both.1.advance now, both.2.held, both.2.recent⟩
  · obtain ⟨old, there, rfl⟩ := moved found
    exact tracks.dirty nodeId old there
  · obtain ⟨old, there, rfl⟩ := moved found
    obtain ⟨holds, head⟩ := later.minutes nodeId old there
    obtain ⟨holds, head⟩ := holds.advance head
    exact ⟨holds, Nat.le_of_eq head⟩

/-- What a flush leaves in RAM. -/
theorem get_takeDirty {stats : Stats} {nodeId : UInt32} {ns : NodeStats}
    (found : stats.takeDirty.2.get nodeId = some ns) :
    ∃ old, stats.get nodeId = some old ∧ ns = { old with dirty := [] } := by
  rw [Stats.takeDirty, Table.get_map, Option.map_eq_some_iff] at found
  obtain ⟨old, found, rfl⟩ := found
  exact ⟨old, found, rfl⟩

/-- **A flush that is written** saves what it covers. -/
theorem written (tracks : Tracks board ledger since clock) (ahead : clock ≤ now)
    (prompt : ∀ first, since = some first → now ≤ first + 168 * hourMs) :
    Flushed (nodeStatsUpsert board.rows board.stats.takeDirty.1)
      (ledger.credits ledger.covers) := by
  have spec := Kept.get_flush ⟨board.stats, board.rows⟩
  have listed : ∀ nodeId hour, (nodeId, hour) ∈ board.stats.takeDirty.1.map Prod.fst ↔
      (nodeId, hour) ∈ ledger.touched := by
    intro nodeId hour
    constructor
    · intro inside
      obtain ⟨row, among, same⟩ := List.mem_map.mp inside
      obtain ⟨ns, found, dirty, -⟩ := Kept.mem_takeDirty.mp among
      rw [same] at found dirty
      exact (tracks.dirty nodeId ns found hour).mp dirty
    · intro touched
      obtain ⟨ns, found⟩ := tracks.counting touched
      have dirty := (tracks.dirty nodeId ns found hour).mpr touched
      obtain ⟨-, totals, held⟩ := tracks.known.known nodeId ns found
      exact List.mem_map.mpr ⟨((nodeId, hour), _), Kept.mem_takeDirty.mpr
        ⟨ns, found, dirty, held.dirty totals ahead prompt dirty⟩, rfl⟩
  constructor
  · intro nodeId hour
    rw [sumOn_row, ledger.filter_covers]
    split
    · next touched =>
        obtain ⟨ns, found⟩ := tracks.counting touched
        have dirty := (tracks.dirty nodeId ns found hour).mpr touched
        obtain ⟨-, totals, held⟩ := tracks.known.known nodeId ns found
        have row := (spec nodeId hour).1 ((listed nodeId hour).mpr touched)
        rw [found, Option.bind_some, held.dirty totals ahead prompt dirty] at row
        rw [← sumOn_row]
        exact congrArg (fun row => row.getD 0) row
    · next apart =>
        have row := (spec nodeId hour).2 fun inside => apart ((listed nodeId hour).mp inside)
        rw [← sumOn_row, ← tracks.rows.hours nodeId hour]
        exact congrArg (fun row => row.getD 0) row
  · intro nodeId hour b found
    rw [history_ne_nil]
    by_cases touched : (nodeId, hour) ∈ ledger.touched
    · obtain ⟨credit, counts, own⟩ := tracks.touched _ touched
      rw [← own] at touched
      exact ⟨credit, Ledger.mem_covers counts touched, congrArg Prod.fst own⟩
    · have row := (spec nodeId hour).2 fun inside => touched ((listed nodeId hour).mp inside)
      have before : board.rows.get (nodeId, hour) = some b := row.symm.trans found
      obtain ⟨credit, inside, own⟩ := history_ne_nil.mp (tracks.rows.known nodeId hour b before)
      obtain ⟨entry, among, rfl⟩ := List.mem_map.mp inside
      obtain ⟨there, saved⟩ := List.mem_filter.mp among
      refine ⟨entry.credit, List.mem_map_of_mem (List.mem_filter.mpr ⟨there, ?_⟩), own⟩
      rw [Ledger.covers, saved, Bool.true_or]

/-- The board tracks the ledger across **a flush**, whether its rows are written or not. -/
theorem flush (tracks : Tracks board ledger since clock) (ahead : clock ≤ now) (written : Bool)
    (prompt : ∀ first, since = some first → now ≤ first + 168 * hourMs) :
    Tracks (board.apply (.flush now written)) (ledger.apply (.flush now written)) none now := by
  have later := tracks.later ahead
  refine ⟨⟨fun nodeId absent => ?_, fun nodeId ns found => ?_⟩, fun nodeId ns found hour => ?_,
    nofun, fun nodeId ns found => ?_, ?_, ?_, nofun⟩
  · rw [DurableBoard.apply, Stats.takeDirty, Table.get_map, Option.map_eq_none_iff] at absent
    rw [Ledger.kept_flush]
    exact tracks.known.unknown nodeId absent
  · obtain ⟨old, there, rfl⟩ := get_takeDirty found
    obtain ⟨some, totals, -⟩ := later.known.known nodeId old there
    rw [Ledger.kept_flush]
    exact ⟨some, ⟨totals.total, totals.hours⟩, .clean rfl⟩
  · obtain ⟨old, -, rfl⟩ := get_takeDirty found
    exact iff_of_false List.not_mem_nil List.not_mem_nil
  · obtain ⟨old, there, rfl⟩ := get_takeDirty found
    rw [Ledger.live_flush]
    exact later.minutes nodeId old there
  · cases written with
    | true =>
        rw [Ledger.saved_flush]
        exact tracks.written ahead prompt
    | false => exact tracks.rows
  · rw [Ledger.safe_flush]
    exact tracks.durable

/-- **A checkpoint** makes the rows durable. -/
theorem checkpoint (tracks : Tracks board ledger since clock) (ahead : clock ≤ now) :
    Tracks (board.apply (.checkpoint now)) (ledger.apply (.checkpoint now)) since now := by
  have later := tracks.later ahead
  refine ⟨?_, later.dirty, ?_, ?_, ?_, ?_, later.past⟩
  · rw [Ledger.kept_checkpoint]
    exact later.known
  · rw [Ledger.kept_checkpoint]
    exact tracks.touched
  · rw [Ledger.live_checkpoint]
    exact later.minutes
  · rw [Ledger.saved_checkpoint]
    exact tracks.rows
  · rw [Ledger.safe_checkpoint]
    exact tracks.rows

/-- The rings start empty. -/
theorem load_minutes (rows : List StatRow) (nowMs : Nat) {nodeId : UInt32} {ns : NodeStats}
    (found : (Stats.load rows nowMs).get nodeId = some ns) :
    ns.minutes = .empty (nowMs / minuteMs) := by
  have all : ∀ nodeId ns, (Stats.load rows nowMs).get nodeId = some ns →
      ns.minutes.slots = 0 ∧ ns.minutes.head = nowMs / minuteMs := by
    refine List.foldlRecOn rows (Stats.loadRow nowMs) (motive := fun stats => ∀ nodeId ns,
      stats.get nodeId = some ns → ns.minutes.slots = 0 ∧ ns.minutes.head = nowMs / minuteMs)
      (fun nodeId ns found => ?_) fun stats before row _ nodeId ns found => ?_
    · rw [Table.get_empty] at found
      cases found
    · rw [Stats.loadRow, Table.get_insert] at found
      split at found
      · cases found
        refine ⟨?_, rfl⟩
        cases known : stats.get row.1.1 with
        | none => rfl
        | some old => exact (before row.1.1 old known).1
      · exact before nodeId ns found
  obtain ⟨slots, head⟩ := all nodeId ns found
  rw [SlotRing.empty, ← slots, ← head]

/-- **A crash** leaves what is safe. -/
theorem crash (tracks : Tracks board ledger since clock) (nowMs : Nat) :
    Tracks (board.apply (.crash nowMs)) (ledger.apply (.crash nowMs)) none nowMs := by
  have loaded := @Kept.load ⟨board.stats, board.durable⟩ _ tracks.durable nowMs
  refine ⟨⟨fun nodeId absent => ?_, fun nodeId ns found => ?_⟩, fun nodeId ns found hour => ?_,
    nofun, fun nodeId ns found => ?_, ?_, ?_, nofun⟩
  · rw [Ledger.kept_crash]
    exact loaded.known.unknown nodeId absent
  · obtain ⟨some, reloadable⟩ := loaded.known.known nodeId ns found
    rw [Ledger.kept_crash]
    exact ⟨some, reloadable.totals,
      .clean ((load_spec board.durable.distinct nodeId).2 ns found).2.dirty⟩
  · rw [((load_spec board.durable.distinct nodeId).2 ns found).2.dirty]
    exact iff_of_false List.not_mem_nil List.not_mem_nil
  · rw [Ledger.live_crash, load_minutes _ nowMs found]
    exact ⟨.empty _, Nat.le_refl _⟩
  · rw [Ledger.saved_crash]
    exact tracks.durable
  · rw [Ledger.safe_crash]
    exact tracks.durable

/-- **Each event** takes the board and the ledger the same way. -/
theorem apply (tracks : Tracks board ledger since clock) (event : DurableEvent)
    (ahead : clock ≤ event.nowMs) (promptly : event.promptly since) :
    Tracks (board.apply event) (ledger.apply event) (event.waiting since) event.nowMs := by
  cases event with
  | record credit => exact tracks.record ahead
  | snapshot nowMs => exact tracks.snapshot ahead
  | flush nowMs written => exact tracks.flush ahead written promptly
  | checkpoint nowMs => exact tracks.checkpoint ahead
  | crash nowMs => exact tracks.crash nowMs

/-- The board tracks the ledger through any events in the order of their times. -/
theorem events {events : List DurableEvent} (tracks : Tracks board ledger since clock)
    (ordered : (clock :: events.map DurableEvent.nowMs ++ [now]).Pairwise (· ≤ ·))
    (prompt : Prompt since events) :
    ∃ since', Tracks (events.foldl .apply board) (events.foldl .apply ledger) since' now := by
  induction events generalizing board ledger since clock with
  | nil =>
      have ahead := (List.pairwise_cons.mp ordered).1 now (List.mem_singleton_self _)
      exact ⟨since, tracks.later ahead⟩
  | cons event events ih =>
      rw [List.map_cons, List.cons_append, List.cons_append, List.pairwise_cons] at ordered
      have ahead := ordered.1 event.nowMs List.mem_cons_self
      exact ih (tracks.apply event ahead prompt.1) ordered.2 prompt.2

/-- **A snapshot** shows what counts. -/
theorem shown (tracks : Tracks board ledger since now) {windows : NodeWindows}
    (shown : windows ∈ (board.stats.snapshot now).1) :
    windows.m60 = counted (ledger.credits LedgerEntry.live) windows.nodeId
        (fun time => now / minuteMs < time / minuteMs + 60) ∧
      windows.h24 = counted ledger.kept windows.nodeId
        (fun time => now / hourMs < time / hourMs + 24) ∧
      windows.d7 = counted ledger.kept windows.nodeId
        (fun time => now / hourMs < time / hourMs + 168) ∧
      windows.all = counted ledger.kept windows.nodeId fun _ => true := by
  obtain ⟨nodeId, ns, found, rfl⟩ := Stats.mem_snapshot shown
  obtain ⟨-, totals, -⟩ := tracks.known.known nodeId ns found
  obtain ⟨holds, head⟩ := tracks.minutes nodeId ns found
  obtain ⟨holds, head⟩ := holds.advance head
  have moved := totals.advance now
  simp only [NodeStats.windows, ← sumOn_history]
  refine ⟨?_, moved.windowHours (Nat.le_refl _) (by decide) (by decide),
    moved.windowHours (Nat.le_refl _) (by decide) (by decide), moved.total⟩
  rw [NodeStats.windowM60, NodeStats.advance, holds.total, minutesOf,
    sumOn_map fun time => time / minuteMs, head]

end Tracks

/-! ## What the ledger keeps -/

namespace Ledger

variable {ledger : Ledger} {events : List DurableEvent}

/-- The requests among the events. -/
def requests (events : List DurableEvent) : List Credit := events.filterMap DurableEvent.credit?

/-- No event counts a request that it was not given. -/
theorem kept_apply (ledger : Ledger) (event : DurableEvent) :
    (ledger.apply event).kept.Sublist (ledger.kept ++ event.credit?.toList) := by
  cases event with
  | record credit => rw [kept_record, DurableEvent.credit?, Option.toList_some]
  | snapshot nowMs => exact List.sublist_append_left _ _
  | flush nowMs written =>
      rw [kept_flush]
      exact List.sublist_append_left _ _
  | checkpoint nowMs =>
      rw [kept_checkpoint]
      exact List.sublist_append_left _ _
  | crash nowMs =>
      rw [kept_crash]
      exact (credits_sublist _ _).trans (List.sublist_append_left _ _)

/-- Nothing counts twice. -/
theorem kept_sublist (events : List DurableEvent) (ledger : Ledger) :
    (events.foldl apply ledger).kept.Sublist (ledger.kept ++ requests events) := by
  induction events generalizing ledger with
  | nil => exact List.sublist_append_left _ _
  | cons event events ih =>
      have step := (kept_apply ledger event).append (List.Sublist.refl (requests events))
      have total : ledger.kept ++ event.credit?.toList ++ requests events =
          ledger.kept ++ requests (event :: events) := by
        rw [List.append_assoc, requests, requests, List.filterMap_cons]
        congr 1
        cases event.credit? with
        | none => rfl
        | some credit => rfl
      exact (ih (ledger.apply event)).trans (total ▸ step)

/-- What is safe is saved. -/
def Sane (ledger : Ledger) : Prop := ∀ entry ∈ ledger.entries, entry.safe → entry.saved

/-- After any event what is safe is saved. -/
theorem sane_apply (sane : ledger.Sane) (event : DurableEvent) : (ledger.apply event).Sane := by
  intro entry inside safe
  cases event with
  | record credit =>
      rcases List.mem_append.mp inside with old | new
      · exact sane entry old safe
      · rw [List.mem_singleton.mp new] at safe
        cases safe
  | snapshot nowMs => exact sane entry inside safe
  | flush nowMs written =>
      cases written with
      | true =>
          obtain ⟨old, there, rfl⟩ := List.mem_map.mp inside
          exact Bool.or_eq_true_iff.mpr (.inl (sane old there safe))
      | false => exact sane entry inside safe
  | checkpoint nowMs =>
      obtain ⟨old, there, rfl⟩ := List.mem_map.mp inside
      exact safe
  | crash nowMs =>
      obtain ⟨old, there, rfl⟩ := List.mem_map.mp inside
      rfl

/-- After any sequence of events what is safe is saved. -/
theorem sane_events (sane : ledger.Sane) (events : List DurableEvent) :
    (events.foldl apply ledger).Sane :=
  List.foldlRecOn events apply (motive := Sane) sane fun _ sane event _ => sane_apply sane event

/-- Entries of one kind are among those of a wider kind. -/
theorem credits_mono {entries : List LedgerEntry} {kind wider : LedgerEntry → Bool}
    (implied : ∀ entry ∈ entries, kind entry = true → wider entry = true) :
    ((entries.filter kind).map LedgerEntry.credit).Sublist
      ((entries.filter wider).map LedgerEntry.credit) := by
  induction entries with
  | nil => exact .slnil
  | cons entry entries ih =>
      rw [List.forall_mem_cons] at implied
      have rest := ih implied.2
      rw [List.filter_cons, List.filter_cons]
      by_cases first : kind entry = true
      · rw [if_pos first, if_pos (implied.1 first)]
        exact rest.cons_cons _
      · rw [if_neg first]
        split
        · exact rest.cons _
        · exact rest

/-- What is saved stays saved until a crash. -/
theorem saved_apply (ledger : Ledger) {event : DurableEvent} (up : event.isCrash = false) :
    (ledger.credits LedgerEntry.saved).Sublist
      ((ledger.apply event).credits LedgerEntry.saved) := by
  cases event with
  | record credit =>
      rw [credits_record]
      exact List.sublist_append_left _ _
  | snapshot nowMs => exact .refl _
  | flush nowMs written =>
      cases written with
      | true =>
          rw [saved_flush]
          exact credits_mono fun entry _ saved => Bool.or_eq_true_iff.mpr (.inl saved)
      | false => exact .refl _
  | checkpoint nowMs => rw [saved_checkpoint]
  | crash nowMs => cases up

/-- An event takes nothing from what is safe. -/
theorem safe_apply (sane : ledger.Sane) (event : DurableEvent) :
    (ledger.credits LedgerEntry.safe).Sublist
      ((ledger.apply event).credits LedgerEntry.safe) := by
  cases event with
  | record credit =>
      rw [credits_record]
      exact List.sublist_append_left _ _
  | snapshot nowMs => exact .refl _
  | flush nowMs written => rw [safe_flush]
  | checkpoint nowMs =>
      rw [safe_checkpoint]
      exact credits_mono sane
  | crash nowMs => rw [safe_crash]

/-- **Safe from here on.** What a flush covers is kept for good by the next checkpoint. -/
theorem covered_kept {before between later : List DurableEvent} {flushed checked : Nat}
    (up : ∀ event ∈ between, event.isCrash = false) :
    ((after before).credits (after before).covers).Sublist
      (after (before ++
        .flush flushed true :: (between ++ .checkpoint checked :: later))).kept := by
  have sane : ∀ events, (after events).Sane := sane_events nofun
  have saved : ((after before).credits (after before).covers).Sublist
      ((between.foldl apply ((after before).apply (.flush flushed true))).credits
        LedgerEntry.saved) := by
    rw [← saved_flush _ flushed]
    exact List.foldlRecOn between apply (motive := fun ledger =>
      (((after before).apply (.flush flushed true)).credits LedgerEntry.saved).Sublist
        (ledger.credits LedgerEntry.saved)) (.refl _)
      fun ledger kept event inside => kept.trans (saved_apply ledger (up event inside))
  have safe := List.foldlRecOn later apply (motive := fun ledger => ledger.Sane ∧
    ((after before).credits (after before).covers).Sublist (ledger.credits LedgerEntry.safe))
    (b := (between.foldl apply ((after before).apply (.flush flushed true))).apply
      (.checkpoint checked))
    ⟨?_, ?_⟩ fun ledger both event _ =>
      ⟨sane_apply both.1 event, both.2.trans (safe_apply both.1 event)⟩
  · have split : after (before ++
          .flush flushed true :: (between ++ .checkpoint checked :: later)) =
        later.foldl apply ((between.foldl apply ((after before).apply (.flush flushed true))).apply
          (.checkpoint checked)) := by
      rw [after, List.foldl_append, List.foldl_cons, List.foldl_append, List.foldl_cons]
      rfl
    rw [split]
    exact safe.2.trans (credits_sublist _ _)
  · exact sane_apply (sane_events (sane_apply (sane before) _) between) _
  · rw [safe_checkpoint]
    exact saved

/-- While no flush fails, a flush covers everything. -/
theorem covers_all {events : List DurableEvent}
    (never : ∀ event ∈ events, event.fails = false) :
    (after events).credits (after events).covers = (after events).kept := by
  have all : ∀ entry ∈ (after events).entries, (after events).covers entry = true := by
    refine List.foldlRecOn events apply (motive := fun ledger =>
      ∀ entry ∈ ledger.entries, ledger.covers entry = true)
      (b := new) nofun ?_
    intro ledger covered event inside entry there
    cases event with
    | record credit =>
        rw [covers, Bool.or_eq_true_iff, decide_eq_true_eq]
        rcases List.mem_append.mp there with old | new
        · rcases Bool.or_eq_true_iff.mp (covered entry old) with saved | touched
          · exact .inl saved
          · exact .inr (List.mem_cons_of_mem _ (of_decide_eq_true touched))
        · rw [List.mem_singleton.mp new]
          exact .inr List.mem_cons_self
    | snapshot nowMs => exact covered entry there
    | flush nowMs written =>
        cases written with
        | true =>
            obtain ⟨old, among, rfl⟩ := List.mem_map.mp there
            exact Bool.or_eq_true_iff.mpr (.inl (covered old among))
        | false => cases never _ inside
    | checkpoint nowMs =>
        obtain ⟨old, among, rfl⟩ := List.mem_map.mp there
        exact covered old among
    | crash nowMs =>
        obtain ⟨old, among, rfl⟩ := List.mem_map.mp there
        rfl
  rw [credits, List.filter_eq_self.mpr all]
  rfl

end Ledger

/-- **Crashes.** At times in order and with prompt flushes, whether they are written or not and
whenever the server crashes, the leaderboard shows exactly the requests that count by the ledger:
over 24 and 168 hours and of all time, and over 60 minutes those since the start. No request counts
twice. What a written flush covers counts for good from the next checkpoint on, unless a crash comes
between the two; and as long as no flush has failed, a flush covers every request that counts. -/
theorem crashes_cost_unflushed (events : List DurableEvent) (nowMs : Nat)
    (ordered : (events.map DurableEvent.nowMs ++ [nowMs]).Pairwise (· ≤ ·))
    (prompt : Prompt none events) :
    (∀ nodeId,
      nodeId ∈ ((DurableBoard.after events).stats.snapshot nowMs).1.map NodeWindows.nodeId ↔
        ∃ credit ∈ (Ledger.after events).kept, credit.nodeId = nodeId) ∧
      (∀ windows ∈ ((DurableBoard.after events).stats.snapshot nowMs).1,
        windows.m60 = counted ((Ledger.after events).credits LedgerEntry.live) windows.nodeId
          (fun time => nowMs / minuteMs < time / minuteMs + 60) ∧
        windows.h24 = counted (Ledger.after events).kept windows.nodeId
          (fun time => nowMs / hourMs < time / hourMs + 24) ∧
        windows.d7 = counted (Ledger.after events).kept windows.nodeId
          (fun time => nowMs / hourMs < time / hourMs + 168) ∧
        windows.all = counted (Ledger.after events).kept windows.nodeId fun _ => true) ∧
      (Ledger.after events).kept.Sublist (Ledger.requests events) ∧
      ∀ before between later flushed checked,
        events = before ++ .flush flushed true :: (between ++ .checkpoint checked :: later) →
        (∀ event ∈ between, event.isCrash = false) →
          ((Ledger.after before).credits (Ledger.after before).covers).Sublist
              (Ledger.after events).kept ∧
            ((∀ event ∈ before, event.fails = false) →
              (Ledger.after before).kept.Sublist (Ledger.after events).kept) := by
  obtain ⟨since, tracks⟩ := Tracks.new.events
    (List.pairwise_cons.mpr ⟨fun _ _ => Nat.zero_le _, ordered⟩) prompt
  refine ⟨fun nodeId => ?_, fun windows => tracks.shown, Ledger.kept_sublist events .new, ?_⟩
  · rw [Stats.map_snapshot]
    exact tracks.known.mem_iff nodeId
  · intro before between later flushed checked same up
    rw [same]
    have covered := @Ledger.covered_kept before between later flushed checked up
    refine ⟨covered, fun never => ?_⟩
    rw [Ledger.covers_all never] at covered
    exact covered

/-- Of two requests in two hours, the second waits for a flush that fails, and a crash takes it. -/
def unflushed : List DurableEvent :=
  [.record ⟨7, true, 1000⟩, .flush 60000 true, .checkpoint 61000, .record ⟨7, false, 3600000⟩,
    .flush 3660000 false, .flush 3720000 true, .checkpoint 3721000, .crash 3722000]

/-- The flush of the one request fails, and the row is lost with the crash. -/
theorem crashes_cost_unflushed_failed :
    Prompt none unflushed ∧
      ∃ windows ∈ ((DurableBoard.after unflushed).stats.snapshot 3723000).1,
        windows.nodeId = 7 ∧ windows.m60 = 0 ∧ windows.all = ⟨1, 1⟩ := by
  have ordered : (unflushed.map DurableEvent.nowMs ++ [3723000]).Pairwise (· ≤ ·) := by decide
  have prompt : Prompt none unflushed := by
    refine ⟨trivial, ?_, trivial, trivial, ?_, nofun, trivial, trivial, trivial⟩
    · rintro _ ⟨⟩
      decide
    · rintro _ ⟨⟩
      decide
  obtain ⟨listed, shown, -, -⟩ := crashes_cost_unflushed unflushed 3723000 ordered prompt
  obtain ⟨windows, there, same⟩ := List.mem_map.mp
    ((listed 7).mpr ⟨⟨7, true, 1000⟩, by decide, rfl⟩)
  obtain ⟨m60, -, -, all⟩ := shown windows there
  rw [same] at m60 all
  exact ⟨prompt, windows, there, same, m60, all⟩

end LolCrawler.Contributions
