import Mathlib.Data.List.Permutation
import LolCrawler.Broker.Credits
import LolCrawler.Contributions.Crashes
import LolCrawler.Server.Enroll

/-! # The leaderboard that nodes see

`/v1/stats` joins a snapshot of the counters with the report of the registry and sorts by requests.
The broker credits a node for each job whose answer is accepted, the flusher and the checkpoints of
the store run beside it, and after a crash the registry and the counters are loaded again. In every
run each node is shown with what it has earned (`leaderboard_exact`).

The unix clock does not go back. Node ids are those of a `u32`.
-/

namespace LolCrawler

/-- What the registry reports of a node. -/
structure NodeReport where
  id : Nat
  name : String
  completed : Nat
  auditsPass : Nat
  auditsHardFail : Nat
  auditsSoftFail : Nat
  keyBad : Bool
  /-- Since the node was last seen. -/
  idleSecs : Option Nat

def NodeRt.report (node : NodeRt) (id now : Nat) : NodeReport where
  id := id
  name := node.name
  completed := node.completed
  auditsPass := node.auditsPass
  auditsHardFail := node.auditsHardFail
  auditsSoftFail := node.auditsSoftFail
  keyBad := node.keyBad
  idleSecs := node.lastSeen.map fun seen => (now - seen) / 1000

/-- The nodes by name, `listed` in the order the node map yields them. -/
def Registry.report (listed : Registry) (now : Nat) : List NodeReport :=
  (listed.map fun entry => entry.2.report entry.1 now).mergeSort fun a b => a.name ≤ b.name

def Registry.nameOf (registry : Registry) (id : Nat) : String :=
  ((registry.find? fun entry => entry.1 = id).map fun entry => entry.2.name).getD
    ("node#" ++ toString id)

namespace Server

open Foundation

open Contributions (Bucket Credit DurableBoard DurableEvent Known Ledger LedgerEntry NodeWindows
  Tracks counted hourMs minuteMs)

/-- One counter over the four windows. -/
structure WindowCounts where
  m60 : Nat
  h24 : Nat
  d7 : Nat
  all : Nat
deriving DecidableEq

structure NodeStatsEntry where
  name : String
  online : Bool
  requests : WindowCounts
  fullMatches : WindowCounts
deriving DecidableEq

structure StatsResponse where
  you : String
  nodes : List NodeStatsEntry
  generatedMs : Nat

def windowCounts (windows : NodeWindows) (counter : Bucket → Nat) : WindowCounts :=
  ⟨counter windows.m60, counter windows.h24, counter windows.d7, counter windows.all⟩

/-- A row of the board. -/
def statsEntry (windows : Option NodeWindows) (report : NodeReport) : NodeStatsEntry where
  name := report.name
  online := report.idleSecs.any fun idle => idle < 120
  requests := (windows.map fun found => windowCounts found Bucket.requests).getD ⟨0, 0, 0, 0⟩
  fullMatches := (windows.map fun found => windowCounts found Bucket.fullMatches).getD ⟨0, 0, 0, 0⟩

/-- By requests, then by name. -/
def ranksBefore (a b : NodeStatsEntry) : Bool :=
  b.requests.all < a.requests.all || (a.requests.all = b.requests.all && a.name ≤ b.name)

/-- The response of `stats`, `now` on the clock of the registry. -/
def statsResponse (snapshot : List NodeWindows) (listed registry : Registry)
    (node nowMs now : Nat) : StatsResponse where
  you := registry.nameOf node
  nodes := ((listed.report now).map fun report =>
    statsEntry (snapshot.find? fun windows => windows.nodeId = UInt32.ofNat report.id)
      report).mergeSort ranksBefore
  generatedMs := nowMs

/-! ## The server beside its store -/

/-- The broker and the counters. `ledger`, `since` and `clock` are history: the requests that count,
when the first of those that wait for a flush was, and the time. -/
structure Front where
  broker : Broker
  board : DurableBoard
  ledger : Ledger
  since : Option Nat
  clock : Nat

inductive FrontEvent where
  | call (call : Call)
  | snapshot (nowMs : Nat)
  | flush (nowMs : Nat) (written : Bool)
  | checkpoint (nowMs : Nat)
  /-- The server starts again, with these nodes. -/
  | crash (nowMs : Nat) (nodes : List (Nat × NodeRec))

/-- The ids of a call are those of nodes. -/
def FrontEvent.sized : FrontEvent → Bool
  | .call (.complete node ..) => node < UInt32.size
  | _ => true

/-- A request as the counters have it. -/
def creditOf (entry : Nat × Bool × Nat) : Credit := ⟨UInt32.ofNat entry.1, entry.2.1, entry.2.2⟩

namespace Front

def new : Front := ⟨.new, .new, .new, none, 0⟩

def advance (front : Front) (event : DurableEvent) : Front :=
  { front with
    board := front.board.apply event
    ledger := front.ledger.apply event
    since := event.waiting front.since
    clock := event.nowMs }

def allowed (front : Front) (event : DurableEvent) : Prop :=
  front.clock ≤ event.nowMs ∧ event.promptly front.since

/-- What an event is to the counters: a call may credit a node. -/
def counting (front : Front) (broker : Broker) : FrontEvent → Option DurableEvent
  | .call _ => ((broker.stats.drop front.broker.stats.length).head?.map creditOf).map .record
  | .snapshot nowMs => some (.snapshot nowMs)
  | .flush nowMs written => some (.flush nowMs written)
  | .checkpoint nowMs => some (.checkpoint nowMs)
  | .crash nowMs _ => some (.crash nowMs)

section Steps

variable {Value : Type} [DecidableEq Value] (fromStr : String → Option Value)

/-- The broker after an event. -/
def turns (front : Front) (broker : Broker) : FrontEvent → Prop
  | .call call => Broker.Step fromStr front.broker call broker
  | .crash _ nodes => broker = { Broker.new with registry := Enrollment.load nodes }
  | _ => broker = front.broker

def Step (front : Front) (event : FrontEvent) (next : Front) : Prop :=
  event.sized ∧ front.turns fromStr next.broker event ∧
    match front.counting next.broker event with
    | none => next = { front with broker := next.broker }
    | some counted => front.allowed counted ∧
        next = { front.advance counted with broker := next.broker }

end Steps

/-- What a node has earned: of the requests that count, those of the last hour since the start. -/
def earned (front : Front) (id nowMs : Nat) : NodeWindows where
  nodeId := UInt32.ofNat id
  m60 := counted (front.broker.stats.map creditOf) (UInt32.ofNat id) fun time =>
    nowMs / minuteMs < time / minuteMs + 60
  h24 := counted front.ledger.kept (UInt32.ofNat id) fun time => nowMs / hourMs < time / hourMs + 24
  d7 := counted front.ledger.kept (UInt32.ofNat id) fun time => nowMs / hourMs < time / hourMs + 168
  all := counted front.ledger.kept (UInt32.ofNat id) fun _ => true

end Front

/-! ## Invariant -/

/-- The counters are those of the ledger, and its requests since the start those of the broker. -/
structure Shows (front : Front) : Prop where
  tracks : Tracks front.board front.ledger front.since front.clock
  live : front.ledger.credits LedgerEntry.live = front.broker.stats.map creditOf
  ids : ∀ entry ∈ front.broker.stats, entry.1 < UInt32.size
  sound : Broker.Sound front.broker []
  settled : Broker.Settled front.broker

namespace Shows

variable {Value : Type} [DecidableEq Value] {fromStr : String → Option Value}
variable {front next : Front}

/-- At the start there is nothing to show. -/
theorem new : Shows .new :=
  ⟨.new, rfl, nofun, Broker.sound_new, Broker.settled_new⟩

/-- A call credits nobody, or a node for an answer. -/
theorem call (shows : Shows front) {call : Call} (sized : (FrontEvent.call call).sized)
    (step : Broker.Step fromStr front.broker call next.broker)
    (counted : match front.counting next.broker (.call call) with
      | none => next = { front with broker := next.broker }
      | some counted => front.allowed counted ∧
          next = { front.advance counted with broker := next.broker }) : Shows next := by
  have sound := Broker.step_sound fromStr shows.sound step
  have settled := Broker.step_settled fromStr shows.sound shows.settled step
  have silent : next.broker.stats = front.broker.stats → Shows next := by
    intro same
    have none : front.counting next.broker (.call call) = none := by
      rw [Front.counting, same, List.drop_length]
      rfl
    rw [none] at counted
    rw [counted]
    refine ⟨shows.tracks, ?_, ?_, sound, settled⟩
    · exact shows.live.trans (congrArg (List.map creditOf) same.symm)
    · rw [same]
      exact shows.ids
  rcases Broker.step_credits fromStr shows.sound step with same | ⟨id, name, rfl⟩ |
    ⟨node, result, nowUnixMs, job, body, rfl, -, delivered⟩
  · exact silent same.stats
  · have unchanged : (front.broker.apply fromStr (.enrollRuntime id name)).stats =
        front.broker.stats := rfl
    exact silent ((congrArg Broker.stats step.2).trans unchanged)
  · obtain ⟨entry, own, stats⟩ : ∃ entry, entry.1 = node ∧
        next.broker.stats = front.broker.stats ++ [entry] :=
      ⟨_, rfl, (congrArg Broker.stats delivered).trans (Broker.deliver_stats fromStr _ job)⟩
    have some : front.counting next.broker (.call (.complete node result nowUnixMs)) =
        some (.record (creditOf entry)) := by
      rw [Front.counting, stats, List.drop_left]
      rfl
    rw [some] at counted
    obtain ⟨⟨ahead, promptly⟩, is⟩ := counted
    rw [is]
    refine ⟨shows.tracks.apply _ ahead promptly, ?_, fun other inside => ?_, sound, settled⟩
    · refine (Ledger.credits_record LedgerEntry.live (creditOf entry)).trans ?_
      rw [if_pos rfl, shows.live, stats, List.map_append]
      rfl
    · rw [stats, List.mem_append, List.mem_singleton] at inside
      rcases inside with before | rfl
      · exact shows.ids other before
      · rw [own]
        exact of_decide_eq_true sized

/-- **One step** leaves the board showing what was earned. -/
theorem step {event : FrontEvent} (shows : Shows front)
    (step : front.Step fromStr event next) : Shows next := by
  obtain ⟨sized, turns, counted⟩ := step
  cases event with
  | call call => exact shows.call sized turns counted
  | snapshot nowMs =>
      obtain ⟨⟨ahead, promptly⟩, is⟩ := counted
      rw [is, turns]
      exact ⟨shows.tracks.apply _ ahead promptly, shows.live, shows.ids, shows.sound,
        shows.settled⟩
  | flush nowMs written =>
      obtain ⟨⟨ahead, promptly⟩, is⟩ := counted
      rw [is, turns]
      exact ⟨shows.tracks.apply _ ahead promptly,
        (Ledger.live_flush _ nowMs written).trans shows.live, shows.ids, shows.sound, shows.settled⟩
  | checkpoint nowMs =>
      obtain ⟨⟨ahead, promptly⟩, is⟩ := counted
      rw [is, turns]
      exact ⟨shows.tracks.apply _ ahead promptly,
        (Ledger.live_checkpoint _ nowMs).trans shows.live, shows.ids, shows.sound, shows.settled⟩
  | crash nowMs nodes =>
      obtain ⟨⟨ahead, promptly⟩, is⟩ := counted
      rw [is, turns]
      have empty := Broker.settled_new
      exact ⟨shows.tracks.apply _ ahead promptly, Ledger.live_crash _ nowMs, nofun,
        Broker.sound_new.congr ⟨rfl, rfl, rfl, rfl, rfl⟩,
        ⟨empty.unused, empty.asked, empty.pending, empty.told, empty.counts⟩⟩

/-- A run from the start keeps the pages. -/
theorem run {events : List FrontEvent} (run : Run (Front.Step fromStr) .new events front) :
    Shows front :=
  run.invariant Shows (fun _ _ _ shows step => shows.step step) .new

end Shows

/-! ## The board -/

/-- Different numbers of a `u32` are different. -/
theorem ofNat_inj {first second : Nat} (one : first < UInt32.size) (two : second < UInt32.size)
    (same : UInt32.ofNat first = UInt32.ofNat second) : first = second := by
  have values := congrArg UInt32.toNat same
  rw [UInt32.toNat_ofNat_of_lt' one, UInt32.toNat_ofNat_of_lt' two] at values
  exact values

/-- The order of rows is transitive. -/
theorem ranksBefore_trans (a b c : NodeStatsEntry) (first : ranksBefore a b = true)
    (second : ranksBefore b c = true) : ranksBefore a c = true := by
  simp only [ranksBefore, Bool.or_eq_true, Bool.and_eq_true, decide_eq_true_eq] at first second ⊢
  rcases first with more | ⟨same, before⟩
  · rcases second with more' | ⟨same', -⟩
    · omega
    · omega
  · rcases second with more' | ⟨same', before'⟩
    · omega
    · exact .inr ⟨same.trans same', String.le_trans before before'⟩

/-- Two rows can be compared. -/
theorem ranksBefore_total (a b : NodeStatsEntry) : (ranksBefore a b || ranksBefore b a) = true := by
  simp only [ranksBefore, Bool.or_eq_true, Bool.and_eq_true, decide_eq_true_eq]
  rcases Nat.lt_trichotomy a.requests.all b.requests.all with less | same | more
  · exact .inr (.inl less)
  · rcases String.le_total a.name b.name with before | after
    · exact .inl (.inr ⟨same, before⟩)
    · exact .inr (.inr ⟨same.symm, after⟩)
  · exact .inl (.inl more)

/-- A node without a request counts nothing. -/
theorem counted_none {credits : List Credit} {nodeId : UInt32} (times : Nat → Bool)
    (absent : ∀ credit ∈ credits, credit.nodeId ≠ nodeId) : counted credits nodeId times = 0 := by
  have requests : credits.countP (fun credit => credit.nodeId = nodeId && times credit.nowMs) = 0 :=
    List.countP_eq_zero.mpr fun credit inside => by simp [absent credit inside]
  have fullMatches : credits.countP (fun credit =>
      credit.nodeId = nodeId && times credit.nowMs && credit.isMatch) = 0 :=
    List.countP_eq_zero.mpr fun credit inside => by simp [absent credit inside]
  rw [counted, requests, fullMatches]
  rfl

/-- **A row** is what the node has earned, also if it has no counters. -/
theorem Shows.row {front : Front} (shows : Shows front) {nowMs : Nat} (later : front.clock ≤ nowMs)
    (report : NodeReport) :
    statsEntry ((front.board.stats.snapshot nowMs).1.find? fun windows =>
        windows.nodeId = UInt32.ofNat report.id) report =
      statsEntry (some (front.earned report.id nowMs)) report := by
  have tracks := shows.tracks.later later
  cases found : (front.board.stats.snapshot nowMs).1.find? fun windows =>
      windows.nodeId = UInt32.ofNat report.id with
  | some windows =>
      have own : windows.nodeId = UInt32.ofNat report.id :=
        of_decide_eq_true (List.find?_some (p := fun windows : NodeWindows =>
          decide (windows.nodeId = UInt32.ofNat report.id)) found)
      obtain ⟨m60, h24, d7, all⟩ := tracks.shown (List.mem_of_find?_eq_some found)
      rw [own, shows.live] at m60
      rw [own] at h24 d7 all
      have same : windows = front.earned report.id nowMs := by
        rw [Front.earned, ← m60, ← h24, ← d7, ← all, ← own]
      rw [same]
  | none =>
      have absent : ∀ credit ∈ front.ledger.kept, credit.nodeId ≠ UInt32.ofNat report.id := by
        intro credit inside own
        have listed := (tracks.known.mem_iff (UInt32.ofNat report.id)).mpr ⟨credit, inside, own⟩
        rw [← Contributions.Stats.map_snapshot _ nowMs] at listed
        obtain ⟨windows, there, same⟩ := List.mem_map.mp listed
        have none := List.find?_eq_none.mp found windows there
        exact none (decide_eq_true same)
      have recent : ∀ credit ∈ front.broker.stats.map creditOf,
          credit.nodeId ≠ UInt32.ofNat report.id := by
        intro credit inside
        rw [← shows.live] at inside
        exact absent credit ((Ledger.credits_sublist _ _).subset inside)
      rw [Front.earned, counted_none _ recent, counted_none _ absent, counted_none _ absent,
        counted_none _ absent]
      rfl

/-- The requests of all time are the jobs answered since the start and what counts from before. -/
theorem Shows.all {front : Front} (shows : Shows front) (nowMs : Nat) {id : Nat}
    (sized : id < UInt32.size) : (front.earned id nowMs).all.requests =
      front.broker.answered id + (front.ledger.credits fun entry => !entry.live).countP
        fun credit => credit.nodeId = UInt32.ofNat id := by
  have live : (front.ledger.credits LedgerEntry.live).countP
      (fun credit => credit.nodeId = UInt32.ofNat id) = front.broker.answered id := by
    rw [shows.live, ← shows.settled.counts, Broker.credits, List.countP_map]
    refine List.countP_congr fun entry inside => ?_
    rw [Function.comp_apply, decide_eq_true_eq, decide_eq_true_eq]
    constructor
    · exact ofNat_inj (shows.ids entry inside) sized
    · exact congrArg UInt32.ofNat
  have split : front.ledger.kept.countP (fun credit => credit.nodeId = UInt32.ofNat id) =
      (front.ledger.credits LedgerEntry.live).countP (fun credit =>
        credit.nodeId = UInt32.ofNat id) +
      (front.ledger.credits fun entry => !entry.live).countP fun credit =>
        credit.nodeId = UInt32.ofNat id := by
    rw [Ledger.kept, Ledger.credits, Ledger.credits, List.countP_map, List.countP_map,
      List.countP_map]
    exact List.countP_eq_countP_filter_add ..
  rw [← live, ← split]
  exact List.countP_congr fun credit _ => by simp

section Results

variable {Value : Type} [DecidableEq Value] (fromStr : String → Option Value)

/-- **The leaderboard.** In every run of broker calls, snapshots, flushes, checkpoints and crashes,
the response shows each node of the registry once, with exactly what it has earned, by requests and
then by name. All its requests are the jobs that it has answered since the server was started, each
once, and those that count from before. -/
theorem leaderboard_exact {events : List FrontEvent} {front : Front}
    (run : Run (Front.Step fromStr) .new events front) (listed registry : Registry)
    (node nowMs now : Nat) (later : front.clock ≤ nowMs)
    (sized : ∀ entry ∈ listed, entry.1 < UInt32.size) :
    (statsResponse (front.board.stats.snapshot nowMs).1 listed registry node nowMs
        now).nodes.Pairwise (fun a b => ranksBefore a b = true) ∧
      (statsResponse (front.board.stats.snapshot nowMs).1 listed registry node nowMs now).nodes.Perm
        (listed.map fun entry => statsEntry (some (front.earned entry.1 nowMs))
          (entry.2.report entry.1 now)) ∧
      ∀ entry ∈ listed, (front.earned entry.1 nowMs).all.requests =
        front.broker.answered entry.1 + (front.ledger.credits fun entry => !entry.live).countP
          fun credit => credit.nodeId = UInt32.ofNat entry.1 := by
  have shows := Shows.run run
  refine ⟨?_, ?_, fun entry inside => shows.all nowMs (sized entry inside)⟩
  · exact List.pairwise_mergeSort ranksBefore_trans ranksBefore_total _
  · refine (List.mergeSort_perm _ _).trans ?_
    have reports := (List.mergeSort_perm (listed.map fun entry => entry.2.report entry.1 now)
      fun a b => a.name ≤ b.name).map fun report =>
        statsEntry ((front.board.stats.snapshot nowMs).1.find? fun windows =>
          windows.nodeId = UInt32.ofNat report.id) report
    refine reports.trans (List.Perm.of_eq ?_)
    rw [List.map_map]
    exact List.map_congr_left fun entry _ => shows.row later (entry.2.report entry.1 now)

end Results

/-- The second of two nodes answers a fetch. -/
def servedCalls : List Call :=
  [.fetch "europe" "match-v5.match" "/x" 0,
    .takeJobs ⟨2, fun _ => 0, 5, 5, fun _ => false⟩ ["europe"],
    .complete 2 ⟨1, .ok, some "1", none⟩ 7]

def served (calls : Nat) : Broker :=
  (servedCalls.take calls).foldl (Broker.apply (some : String → Option String))
    { Broker.new with registry := Enrollment.load [(1, ⟨"a", "h", 0⟩), (2, ⟨"b", "k", 0⟩)] }

/-- It is shown first, and the other one, without a request, after it. -/
theorem leaderboard_exact_served : ∃ front : Front, front.broker = served 3 ∧
    (statsResponse (front.board.stats.snapshot 8).1 (served 3).registry (served 3).registry 1 8
      8).nodes = [statsEntry (some (front.earned 2 8)) ⟨2, "b", 1, 0, 0, 0, false, none⟩,
        statsEntry (some (front.earned 1 8)) ⟨1, "a", 0, 0, 0, 0, false, none⟩] ∧
    (front.earned 2 8).all.requests = 1 ∧ (front.earned 1 8).all.requests = 0 := by
  let started : Front := { Front.new.advance (.crash 0) with broker := served 0 }
  let front : Front := { started.advance (.record ⟨2, true, 7⟩) with broker := served 3 }
  let asked : Front := { started with broker := served 1 }
  let handed : Front := { started with broker := served 2 }
  have starts : Front.Step (some : String → Option String) .new
      (.crash 0 [(1, ⟨"a", "h", 0⟩), (2, ⟨"b", "k", 0⟩)]) started :=
    ⟨rfl, rfl, ⟨Nat.le_refl _, trivial⟩, rfl⟩
  have asks : Front.Step (some : String → Option String) started
      (.call (.fetch "europe" "match-v5.match" "/x" 0)) asked := ⟨rfl, ⟨trivial, rfl⟩, rfl⟩
  have hands : Front.Step (some : String → Option String) asked
      (.call (.takeJobs ⟨2, fun _ => 0, 5, 5, fun _ => false⟩ ["europe"])) handed := by
    refine ⟨rfl, ⟨?_, rfl⟩, rfl⟩
    exact Broker.enumerates_host (by decide) fun other distinct =>
      Function.update_of_ne distinct ..
  have answers : Front.Step (some : String → Option String) handed
      (.call (.complete 2 ⟨1, .ok, some "1", none⟩ 7)) front :=
    ⟨rfl, ⟨trivial, rfl⟩, ⟨Nat.zero_le _, trivial⟩, rfl⟩
  have run := Run.cons starts (.cons asks (.cons hands (.cons answers (.nil front))))
  obtain ⟨sorted, rows, all⟩ := leaderboard_exact some run (served 3).registry (served 3).registry
    1 8 8 (by decide) (by decide)
  have first : (served 3).answered 1 = 0 := by decide
  have second : (served 3).answered 2 = 1 := by decide
  have idle : (front.earned 1 8).all.requests = 0 :=
    (all _ List.mem_cons_self).trans first
  have busy : (front.earned 2 8).all.requests = 1 :=
    (all _ (List.mem_cons_of_mem _ List.mem_cons_self)).trans second
  refine ⟨front, rfl, ?_, busy, idle⟩
  rcases List.perm_pair.mp rows with same | same
  · rw [same, List.pairwise_pair] at sorted
    exact absurd sorted (by simp [ranksBefore, statsEntry, windowCounts, idle, busy])
  · exact same

end Server

end LolCrawler
