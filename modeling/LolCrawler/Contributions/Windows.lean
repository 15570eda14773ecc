import Mathlib.Data.UInt
import LolCrawler.Foundation.Tally

/-! # The leaderboard

The counters of a node are a ring of minutes for the last hour, buckets of hours for a
week, and a total. The ring clears the minutes it skips, and hours are pruned by how many
there are (`Stats.record`), while windows ask for them by age (`windowHours`). At times
in order every window counts exactly the requests in it (`windows_exact`).

Times are milliseconds. The counters do not overflow.
-/

namespace LolCrawler.Contributions

open Foundation

def minuteMs : Nat := 60000

def hourMs : Nat := 3600000

/-- Hour buckets kept in RAM: the window of a week plus the partial current hour. -/
def retainHours : Nat := 169

@[ext] structure Bucket where
  requests : Nat
  fullMatches : Nat
deriving DecidableEq

namespace Bucket

instance : Zero Bucket := ⟨⟨0, 0⟩⟩

instance : Add Bucket := ⟨fun b o => ⟨b.requests + o.requests, b.fullMatches + o.fullMatches⟩⟩

/-- An empty bucket has no requests. -/
@[simp] theorem requests_zero : (0 : Bucket).requests = 0 := rfl

/-- An empty bucket has no matches. -/
@[simp] theorem fullMatches_zero : (0 : Bucket).fullMatches = 0 := rfl

/-- The requests of two buckets are added up. -/
@[simp] theorem requests_add (b o : Bucket) : (b + o).requests = b.requests + o.requests := rfl

/-- The matches of two buckets are added up. -/
@[simp] theorem fullMatches_add (b o : Bucket) :
    (b + o).fullMatches = b.fullMatches + o.fullMatches := rfl

instance : AddCommMonoid Bucket where
  add_assoc a b c := Bucket.ext (Nat.add_assoc _ _ _) (Nat.add_assoc _ _ _)
  zero_add b := Bucket.ext (Nat.zero_add _) (Nat.zero_add _)
  add_zero _ := rfl
  add_comm a b := Bucket.ext (Nat.add_comm _ _) (Nat.add_comm _ _)
  nsmul := nsmulRec

end Bucket

structure NodeStats where
  total : Bucket
  /-- The last 60 minutes. -/
  minutes : SlotRing 60 Bucket
  /-- The counts of the last hours, by when they start. -/
  hours : Table Nat Bucket
  /-- The hours touched since the last flush. -/
  dirty : List Nat

def NodeStats.default : NodeStats := ⟨0, .empty 0, .empty, []⟩

/-- Moves the ring to this time. -/
def NodeStats.advance (ns : NodeStats) (nowMs : Nat) : NodeStats :=
  { ns with minutes := ns.minutes.advance (nowMs / minuteMs) }

def NodeStats.windowM60 (ns : NodeStats) : Bucket := ∑ slot, ns.minutes.slots slot

/-- The current partial hour and the `n - 1` before it. -/
def NodeStats.windowHours (ns : NodeStats) (nowMs n : Nat) : Bucket :=
  sumOn (fun hour => (nowMs / hourMs - (n - 1)) * hourMs ≤ hour) ns.hours.entries

structure NodeWindows where
  nodeId : UInt32
  m60 : Bucket
  h24 : Bucket
  d7 : Bucket
  all : Bucket
deriving DecidableEq

def NodeStats.windows (ns : NodeStats) (nodeId : UInt32) (nowMs : Nat) : NodeWindows where
  nodeId := nodeId
  m60 := ns.windowM60
  h24 := ns.windowHours nowMs 24
  d7 := ns.windowHours nowMs 168
  all := ns.total

abbrev Stats := Table UInt32 NodeStats

/-- A completed request, and when it was recorded. -/
structure Credit where
  nodeId : UInt32
  isMatch : Bool
  nowMs : Nat
deriving DecidableEq

def Credit.bucket (credit : Credit) : Bucket := ⟨1, credit.isMatch.toNat⟩

/-- When the hour of a time starts. -/
def hourOf (nowMs : Nat) : Nat := nowMs / hourMs * hourMs

/-- Keeps the hours of the last week when there are too many. -/
def pruneHours (hour : Nat) (hours : Table Nat Bucket) : Table Nat Bucket :=
  if retainHours < hours.entries.length then
    hours.restrict fun other => hour - retainHours * hourMs ≤ other
  else hours

def NodeStats.credit (ns : NodeStats) (credit : Credit) : NodeStats :=
  let hour := hourOf credit.nowMs
  { total := ns.total + credit.bucket
    minutes := (ns.advance credit.nowMs).minutes.add credit.bucket
    hours := pruneHours hour
      (ns.hours.insert hour ((ns.hours.get hour).getD 0 + credit.bucket))
    dirty := ns.dirty.insert hour }

/-- One completed request of a node. -/
def Stats.record (stats : Stats) (credit : Credit) : Stats :=
  stats.insert credit.nodeId (((stats.get credit.nodeId).getD .default).credit credit)

/-- The windows of every node, once its ring has moved on. -/
def Stats.snapshot (stats : Stats) (nowMs : Nat) : List NodeWindows × Stats :=
  let stats : Stats := stats.map fun ns => ns.advance nowMs
  (stats.entries.map fun entry => entry.2.windows entry.1 nowMs, stats)

/-- A snapshot has a row for each node with counters. -/
theorem Stats.map_snapshot (stats : Stats) (nowMs : Nat) :
    (stats.snapshot nowMs).1.map NodeWindows.nodeId = stats.entries.map Prod.fst := by
  rw [Stats.snapshot, Table.map, List.map_map, List.map_map]
  rfl

/-- A row of a snapshot is read off the counters of its node. -/
theorem Stats.mem_snapshot {stats : Stats} {nowMs : Nat} {windows : NodeWindows}
    (shown : windows ∈ (stats.snapshot nowMs).1) :
    ∃ nodeId ns, stats.get nodeId = some ns ∧
      windows = (ns.advance nowMs).windows nodeId nowMs := by
  obtain ⟨moved, inside, rfl⟩ := List.mem_map.mp shown
  obtain ⟨entry, among, rfl⟩ := List.mem_map.mp inside
  exact ⟨entry.1, entry.2, Table.get_eq_some.mpr among, rfl⟩

/-! ## The credits of a node -/

/-- The requests of a node, by time. -/
def history (credits : List Credit) (nodeId : UInt32) : List (Nat × Bucket) :=
  (credits.filter fun credit => credit.nodeId = nodeId).map
    fun credit => (credit.nowMs, credit.bucket)

/-- How many of the requests of a node, and of its matches, are at these times. -/
def counted (credits : List Credit) (nodeId : UInt32) (times : Nat → Bool) : Bucket where
  requests := credits.countP fun credit => credit.nodeId = nodeId && times credit.nowMs
  fullMatches := credits.countP fun credit =>
    credit.nodeId = nodeId && times credit.nowMs && credit.isMatch

/-- The history of a node is that of each part. -/
theorem history_append (credits other : List Credit) (nodeId : UInt32) :
    history (credits ++ other) nodeId = history credits nodeId ++ history other nodeId := by
  rw [history, List.filter_append, List.map_append]
  rfl

/-- A request is in the history of its node. -/
theorem history_self (credit : Credit) :
    history [credit] credit.nodeId = [(credit.nowMs, credit.bucket)] := by
  rw [history, List.filter_cons_of_pos (by simp)]
  rfl

/-- A request is in no other history. -/
theorem history_other {credit : Credit} {nodeId : UInt32} (different : credit.nodeId ≠ nodeId) :
    history [credit] nodeId = [] := by
  rw [history, List.filter_cons_of_neg (by simpa using different)]
  rfl

/-- Sums of buckets count requests. -/
theorem sumOn_history (credits : List Credit) (nodeId : UInt32) (times : Nat → Bool) :
    sumOn times (history credits nodeId) = counted credits nodeId times := by
  induction credits with
  | nil => rfl
  | cons credit credits ih =>
      have rest : history (credit :: credits) nodeId =
          history [credit] nodeId ++ history credits nodeId :=
        history_append [credit] credits nodeId
      rw [rest, sumOn_append, ih]
      by_cases here : credit.nodeId = nodeId
      · subst here
        rw [history_self, sumOn_singleton]
        ext
        · simp only [counted, List.countP_cons, decide_true, Bool.true_and, Bucket.requests_add]
          split
          · exact Nat.add_comm _ _
          · exact Nat.zero_add _
        · simp only [counted, List.countP_cons, decide_true, Bool.true_and, Bucket.fullMatches_add]
          split
          · next inside =>
              rw [inside, Bool.true_and, Credit.bucket, Nat.add_comm]
              cases credit.isMatch with
              | false => rfl
              | true => rfl
          · next outside =>
              rw [Bool.not_eq_true] at outside
              rw [outside]
              exact Nat.zero_add _
      · rw [history_other here, sumOn_nil, zero_add]
        ext
        · simp [counted, here]
        · simp [counted, here]

/-! ## What the counters hold -/

/-- The total and the hours of the last week are those of the history. -/
structure Totals (ns : NodeStats) (history : List (Nat × Bucket)) (clock : Nat) : Prop where
  total : ns.total = sumOn (fun _ => true) history
  hours : ∀ hour, hourOf clock ≤ hour + retainHours * hourMs →
    (ns.hours.get hour).getD 0 = sumOn (fun time => hourOf time = hour) history

namespace Totals

variable {ns : NodeStats} {history : List (Nat × Bucket)} {clock now : Nat}

/-- New counters count nothing. -/
theorem default (clock : Nat) : Totals .default [] clock := ⟨rfl, fun _ _ => rfl⟩

/-- Hours are in order. -/
theorem hourOf_mono (ahead : clock ≤ now) : hourOf clock ≤ hourOf now :=
  Nat.mul_le_mul_right _ (Nat.div_le_div_right ahead)

/-- The totals are right at any later time. -/
theorem later (totals : Totals ns history clock) (ahead : clock ≤ now) :
    Totals ns history now where
  total := totals.total
  hours hour recent := totals.hours hour (Nat.le_trans (hourOf_mono ahead) recent)

/-- The ring moves on, and the totals stay. -/
theorem advance (totals : Totals ns history clock) (nowMs : Nat) :
    Totals (ns.advance nowMs) history clock :=
  ⟨totals.total, totals.hours⟩

/-- What is pruned is older than a week. -/
theorem pruned {hours : Table Nat Bucket} {hour other : Nat}
    (recent : hour ≤ other + retainHours * hourMs) :
    (pruneHours hour hours).get other = hours.get other := by
  rw [pruneHours]
  split
  · rw [Table.get_restrict, if_pos (decide_eq_true (Nat.sub_le_of_le_add recent))]
  · rfl

/-- The totals stay right when a request is credited. -/
theorem credit (totals : Totals ns history clock) {credit : Credit}
    (ahead : clock ≤ credit.nowMs) :
    Totals (ns.credit credit) (history ++ [(credit.nowMs, credit.bucket)]) credit.nowMs where
  total := by
    rw [sumOn_append, sumOn_singleton, if_pos rfl, ← totals.total]
    rfl
  hours hour recent := by
    have before := totals.hours hour (Nat.le_trans (hourOf_mono ahead) recent)
    rw [sumOn_append, sumOn_singleton, ← before, NodeStats.credit]
    dsimp only
    rw [pruned recent, Table.get_insert]
    by_cases here : hour = hourOf credit.nowMs
    · subst here
      simp
    · rw [if_neg here, if_neg (by simpa using Ne.symm here), add_zero]

/-- **Hours by age.** A window of at most a week asks for no hour that was pruned. -/
theorem windowHours (totals : Totals ns history clock) (ahead : clock ≤ now) {n : Nat}
    (positive : 1 ≤ n) (week : n ≤ 168) :
    ns.windowHours now n =
      sumOn (fun time => now / hourMs < time / hourMs + n) history := by
  have start := hourOf_mono ahead
  have keys : ns.windowHours now n =
      sumOn (fun hour => (now / hourMs - (n - 1)) * hourMs ≤ hour)
        (history.map fun entry => (hourOf entry.1, entry.2)) := by
    apply sumOn_congr
    intro hour inside
    rw [Table.sumOn_key, totals.hours, sumOn_map]
    rw [decide_eq_true_eq, Nat.sub_mul] at inside
    rw [hourOf] at start ⊢
    rw [hourOf] at start
    have enough : (n - 1) * hourMs ≤ retainHours * hourMs :=
      Nat.mul_le_mul_right _ (by rw [retainHours]; omega)
    omega
  rw [keys, sumOn_map]
  apply sumOn_keys
  intro entry _
  rw [decide_eq_decide, hourOf, Nat.mul_le_mul_right_iff (by decide)]
  generalize now / hourMs = last
  generalize entry.1 / hourMs = hour
  omega

end Totals

/-- Between two calls, the counters of a node. -/
structure Counts (ns : NodeStats) (history : List (Nat × Bucket)) (clock : Nat) : Prop where
  totals : Totals ns history clock
  minutes : ns.minutes.Holds (history.map fun entry => (entry.1 / minuteMs, entry.2))
  head : ns.minutes.head ≤ clock / minuteMs

namespace Counts

variable {ns : NodeStats} {history : List (Nat × Bucket)} {clock now : Nat}

/-- New rings count nothing. -/
theorem default (clock : Nat) : Counts .default [] clock :=
  ⟨.default clock, .empty 0, Nat.zero_le _⟩

/-- The counters are right at any later time. -/
theorem later (counts : Counts ns history clock) (ahead : clock ≤ now) : Counts ns history now :=
  ⟨counts.totals.later ahead, counts.minutes,
    Nat.le_trans counts.head (Nat.div_le_div_right ahead)⟩

/-- Advancing reaches the present minute and keeps the counters right. -/
theorem advance (counts : Counts ns history clock) (ahead : clock ≤ now) :
    Counts (ns.advance now) history now ∧ (ns.advance now).minutes.head = now / minuteMs := by
  have before : ns.minutes.head ≤ now / minuteMs :=
    Nat.le_trans counts.head (Nat.div_le_div_right ahead)
  obtain ⟨holds, head⟩ := counts.minutes.advance before
  exact ⟨⟨(counts.totals.later ahead).advance now, holds, Nat.le_of_eq head⟩, head⟩

/-- A request is counted in both rings. -/
theorem credit (counts : Counts ns history clock) {credit : Credit}
    (ahead : clock ≤ credit.nowMs) :
    Counts (ns.credit credit) (history ++ [(credit.nowMs, credit.bucket)]) credit.nowMs := by
  obtain ⟨moved, head⟩ := counts.advance ahead
  refine ⟨counts.totals.credit ahead, ?_, ?_⟩
  · have added := moved.minutes.add credit.bucket
    rw [head] at added
    rw [List.map_append]
    exact added
  · exact Nat.le_of_eq head

/-- The window of an hour has the requests of its minutes. -/
theorem windowM60 (counts : Counts ns history clock) (ahead : clock ≤ now) :
    (ns.advance now).windowM60 =
      sumOn (fun time => now / minuteMs < time / minuteMs + 60) history := by
  obtain ⟨moved, head⟩ := counts.advance ahead
  rw [NodeStats.windowM60, moved.minutes.total, sumOn_map (fun time => time / minuteMs), head]

end Counts

/-! ## Runs -/

inductive Call where
  | record (credit : Credit)
  | snapshot (nowMs : Nat)

def Call.nowMs : Call → Nat
  | .record credit => credit.nowMs
  | .snapshot nowMs => nowMs

def Call.credit? : Call → Option Credit
  | .record credit => some credit
  | .snapshot _ => none

def Stats.call (stats : Stats) : Call → Stats
  | .record credit => stats.record credit
  | .snapshot nowMs => (stats.snapshot nowMs).2

/-- The requests among the calls. -/
def requests (calls : List Call) : List Credit := calls.filterMap Call.credit?

/-- The counters after these calls. -/
def Stats.after (calls : List Call) : Stats := calls.foldl Stats.call .empty

/-- A node is known by its first request, and its counters keep to a property of histories. -/
structure Known (holds : UInt32 → NodeStats → List (Nat × Bucket) → Nat → Prop) (stats : Stats)
    (credits : List Credit) (clock : Nat) : Prop where
  unknown : ∀ nodeId, stats.get nodeId = none → history credits nodeId = []
  known : ∀ nodeId ns, stats.get nodeId = some ns →
    history credits nodeId ≠ [] ∧ holds nodeId ns (history credits nodeId) clock

namespace Known

variable {holds : UInt32 → NodeStats → List (Nat × Bucket) → Nat → Prop} {stats : Stats}
  {credits : List Credit} {clock now : Nat}

/-- Without counters nobody is known. -/
theorem empty (clock : Nat) : Known holds .empty [] clock :=
  ⟨fun _ _ => rfl, nofun⟩

/-- What is known may be weakened. -/
theorem imp {other : UInt32 → NodeStats → List (Nat × Bucket) → Nat → Prop}
    (known : Known holds stats credits clock)
    (implied : ∀ nodeId ns history, holds nodeId ns history clock →
      other nodeId ns history now) : Known other stats credits now :=
  ⟨known.unknown, fun nodeId ns found =>
    (known.known nodeId ns found).imp_right (implied nodeId ns _)⟩

/-- A request changes the counters of its node. -/
theorem record (known : Known holds stats credits clock) {credit : Credit}
    (first : stats.get credit.nodeId = none → holds credit.nodeId .default [] clock)
    (later : ∀ nodeId ns history, nodeId ≠ credit.nodeId → holds nodeId ns history clock →
      holds nodeId ns history credit.nowMs)
    (credited : ∀ ns history, holds credit.nodeId ns history clock →
      holds credit.nodeId (ns.credit credit) (history ++ [(credit.nowMs, credit.bucket)])
        credit.nowMs) :
    Known holds (stats.record credit) (credits ++ [credit]) credit.nowMs := by
  have before : holds credit.nodeId ((stats.get credit.nodeId).getD .default)
      (history credits credit.nodeId) clock := by
    cases found : stats.get credit.nodeId with
    | none =>
        rw [known.unknown _ found]
        exact first found
    | some ns => exact (known.known _ ns found).2
  refine ⟨fun nodeId absent => ?_, fun nodeId ns found => ?_⟩
  · rw [Stats.record, Table.get_insert] at absent
    split at absent
    · cases absent
    · next different =>
        rw [history_append, known.unknown _ absent, history_other (Ne.symm different)]
        rfl
  · rw [Stats.record, Table.get_insert] at found
    rw [history_append]
    split at found
    · next same =>
        subst same
        cases found
        rw [history_self]
        exact ⟨List.append_ne_nil_of_right_ne_nil _ (List.cons_ne_nil _ _), credited _ _ before⟩
    · next different =>
        rw [history_other (Ne.symm different), List.append_nil]
        obtain ⟨some, here⟩ := known.known nodeId ns found
        exact ⟨some, later _ _ _ different here⟩

/-- A snapshot moves every ring. -/
theorem snapshot (known : Known holds stats credits clock)
    (advanced : ∀ nodeId ns history, holds nodeId ns history clock →
      holds nodeId (ns.advance now) history now) :
    Known holds (stats.snapshot now).2 credits now := by
  refine ⟨fun nodeId absent => ?_, fun nodeId ns found => ?_⟩
  · rw [Stats.snapshot, Table.get_map, Option.map_eq_none_iff] at absent
    exact known.unknown nodeId absent
  · rw [Stats.snapshot, Table.get_map, Option.map_eq_some_iff] at found
    obtain ⟨ns, found, rfl⟩ := found
    obtain ⟨some, here⟩ := known.known nodeId ns found
    exact ⟨some, advanced _ _ _ here⟩

/-- The nodes with requests are those with counters. -/
theorem mem_iff (known : Known holds stats credits clock) (nodeId : UInt32) :
    nodeId ∈ stats.entries.map Prod.fst ↔ ∃ credit ∈ credits, credit.nodeId = nodeId := by
  have listed : history credits nodeId ≠ [] ↔ ∃ credit ∈ credits, credit.nodeId = nodeId := by
    rw [history, Ne, List.map_eq_nil_iff, List.filter_eq_nil_iff]
    push Not
    simp only [decide_eq_true_eq]
  rw [← listed]
  constructor
  · intro listed
    obtain ⟨entry, inside, rfl⟩ := List.mem_map.mp listed
    exact (known.known entry.1 entry.2 (Table.get_eq_some.mpr inside)).1
  · intro some
    cases found : stats.get nodeId with
    | none => exact (some (known.unknown nodeId found)).elim
    | some ns => exact List.mem_map.mpr ⟨_, Table.get_eq_some.mp found, rfl⟩

end Known

/-- Every node's counters stay right across one call. -/
theorem Known.call {stats : Stats} {credits : List Credit} {clock : Nat}
    (known : Known (fun _ => Counts) stats credits clock) {call : Call}
    (ahead : clock ≤ call.nowMs) :
    Known (fun _ => Counts) (stats.call call) (credits ++ call.credit?.toList) call.nowMs := by
  cases call with
  | record credit =>
      exact known.record (fun _ => .default clock) (fun _ _ _ _ counts => counts.later ahead)
        fun _ _ counts => counts.credit ahead
  | snapshot nowMs =>
      rw [Call.credit?, Option.toList_none, List.append_nil]
      exact known.snapshot fun _ _ _ counts => (counts.advance ahead).1

/-- Every node's counters stay right through any calls in the order of their times. -/
theorem Known.calls {calls : List Call} {stats : Stats} {credits : List Credit} {clock : Nat}
    (known : Known (fun _ => Counts) stats credits clock)
    (ordered : (clock :: calls.map Call.nowMs).Pairwise (· ≤ ·)) :
    ∃ last, (∀ now, (∀ call ∈ calls, call.nowMs ≤ now) → clock ≤ now → last ≤ now) ∧
      Known (fun _ => Counts) (calls.foldl Stats.call stats)
        (credits ++ calls.filterMap Call.credit?) last := by
  induction calls generalizing stats credits clock with
  | nil =>
      refine ⟨clock, fun _ _ ahead => ahead, ?_⟩
      rw [List.filterMap_nil, List.append_nil]
      exact known
  | cons call calls ih =>
      rw [List.map_cons, List.pairwise_cons] at ordered
      obtain ⟨last, least, after⟩ :=
        ih (known.call (ordered.1 call.nowMs List.mem_cons_self)) ordered.2
      refine ⟨last, fun now past _ => ?_, ?_⟩
      · exact least now (fun other inside => past other (List.mem_cons_of_mem _ inside))
          (past call List.mem_cons_self)
      · have credited : credits ++ (call :: calls).filterMap Call.credit? =
            credits ++ call.credit?.toList ++ calls.filterMap Call.credit? := by
          rw [List.append_assoc]
          congr 1
          cases call with
          | record credit => rfl
          | snapshot nowMs => rfl
        rw [credited]
        exact after

/-- **Windows.** After any calls at times in order, a snapshot shows every node that has a request
once, and counts exactly its requests and matches of the last 60 minutes, of the last 24 and 168
hours, and of all time. -/
theorem windows_exact (calls : List Call) (nowMs : Nat)
    (ordered : (calls.map Call.nowMs ++ [nowMs]).Pairwise (· ≤ ·)) :
    (((Stats.after calls).snapshot nowMs).1.map NodeWindows.nodeId).Nodup ∧
      (∀ nodeId, nodeId ∈ ((Stats.after calls).snapshot nowMs).1.map NodeWindows.nodeId ↔
        ∃ credit ∈ requests calls, credit.nodeId = nodeId) ∧
      ∀ windows ∈ ((Stats.after calls).snapshot nowMs).1,
        windows.m60 = counted (requests calls) windows.nodeId
          (fun time => nowMs / minuteMs < time / minuteMs + 60) ∧
        windows.h24 = counted (requests calls) windows.nodeId
          (fun time => nowMs / hourMs < time / hourMs + 24) ∧
        windows.d7 = counted (requests calls) windows.nodeId
          (fun time => nowMs / hourMs < time / hourMs + 168) ∧
        windows.all = counted (requests calls) windows.nodeId fun _ => true := by
  rw [List.pairwise_append] at ordered
  obtain ⟨ordered, -, ended⟩ := ordered
  obtain ⟨clock, least, known⟩ := (Known.empty 0 : Known (fun _ => Counts) .empty [] 0).calls
    (List.pairwise_cons.mpr ⟨fun _ _ => Nat.zero_le _, ordered⟩)
  change Known (fun _ => Counts) (Stats.after calls) (requests calls) clock at known
  have ahead : clock ≤ nowMs := least nowMs
    (fun call inside => ended _ (List.mem_map_of_mem inside) nowMs (List.mem_singleton_self _))
    (Nat.zero_le _)
  rw [Stats.map_snapshot]
  refine ⟨Table.distinct _, known.mem_iff, fun windows shown => ?_⟩
  obtain ⟨nodeId, ns, found, rfl⟩ := Stats.mem_snapshot shown
  have counts := (known.known nodeId ns found).2
  have totals := (counts.advance ahead).1.totals
  have credited : ∀ times, sumOn times (history (requests calls) nodeId) =
      counted (requests calls) nodeId times := sumOn_history _ _
  simp only [NodeStats.windows, ← credited]
  exact ⟨counts.windowM60 ahead, totals.windowHours (Nat.le_refl _) (by decide) (by decide),
    totals.windowHours (Nat.le_refl _) (by decide) (by decide), totals.total⟩

/-- One node sends at the end of an hour and in the next. -/
def twoHours : List Call :=
  [.record ⟨1, true, 3599999⟩, .snapshot 3600000, .record ⟨1, false, 7100000⟩]

/-- The first request is more than 60 minutes old. -/
theorem windows_exact_twoHours :
    (twoHours.map Call.nowMs ++ [7200000]).Pairwise (· ≤ ·) ∧
      ∃ windows ∈ ((Stats.after twoHours).snapshot 7200000).1,
        windows.nodeId = 1 ∧ windows.m60 = ⟨1, 0⟩ ∧ windows.h24 = ⟨2, 1⟩ := by
  have ordered : (twoHours.map Call.nowMs ++ [7200000]).Pairwise (· ≤ ·) := by decide
  obtain ⟨-, listed, counts⟩ := windows_exact twoHours 7200000 ordered
  obtain ⟨windows, shown, same⟩ := List.mem_map.mp
    ((listed 1).mpr ⟨⟨1, true, 3599999⟩, by decide, rfl⟩)
  obtain ⟨m60, h24, -, -⟩ := counts windows shown
  rw [same] at m60 h24
  exact ⟨ordered, windows, shown, same, m60, h24⟩

end LolCrawler.Contributions
