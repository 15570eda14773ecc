import LolCrawler.Contributions.Windows

/-! # The leaderboard on disk

The hours touched since the last flush go to disk as they stand (`takeDirty`,
`nodeStatsUpsert`), and a server that starts reads them all back (`Stats.load`): totals
from all of history, hours from the recent slice only. A dirty hour that is pruned before
it is flushed is lost, so flushes must not be more than a week apart.

A row holds the bucket itself and not its bytes.
-/

namespace LolCrawler.Contributions

open Foundation

/-- The table of the node stats: a bucket for each node and hour. -/
abbrev StatRows := Table (UInt32 × Nat) Bucket

abbrev StatRow := (UInt32 × Nat) × Bucket

/-- A row from disk. -/
def Stats.loadRow (nowMs : Nat) (stats : Stats) (row : StatRow) : Stats :=
  let ns := (stats.get row.1.1).getD .default
  let cutoff := (nowMs / hourMs - retainHours) * hourMs
  stats.insert row.1.1
    { ns with
      total := ns.total + row.2
      hours := if cutoff ≤ row.1.2 then ns.hours.insert row.1.2 row.2 else ns.hours
      minutes := { ns.minutes with head := nowMs / minuteMs } }

/-- Rebuilds from every row on disk. -/
def Stats.load (rows : List StatRow) (nowMs : Nat) : Stats :=
  rows.foldl (Stats.loadRow nowMs) .empty

def NodeStats.dirtyRows (nodeId : UInt32) (ns : NodeStats) : List StatRow :=
  ns.dirty.filterMap fun hour => (ns.hours.get hour).map fun b => ((nodeId, hour), b)

/-- Drains dirty hour buckets as absolute values ready to upsert. -/
def Stats.takeDirty (stats : Stats) : List StatRow × Stats :=
  (stats.entries.flatMap fun entry => entry.2.dirtyRows entry.1,
    stats.map fun ns => { ns with dirty := [] })

/-- Upserts dirty hour buckets. -/
def nodeStatsUpsert (table : StatRows) (rows : List StatRow) : StatRows :=
  rows.foldl (fun table row => table.insert row.1 row.2) table

/-- All persisted stats buckets. -/
def nodeStatsAll (table : StatRows) : List StatRow := table.entries

/-- The counters in RAM, and the rows on disk. -/
structure Leaderboard where
  stats : Stats
  rows : StatRows

def Leaderboard.new : Leaderboard := ⟨.empty, .empty⟩

def Leaderboard.flush (board : Leaderboard) : Leaderboard :=
  ⟨board.stats.takeDirty.2, nodeStatsUpsert board.rows board.stats.takeDirty.1⟩

/-- The last flush of a server that stops, and the start of the next one. -/
def Leaderboard.restart (board : Leaderboard) (nowMs : Nat) : Leaderboard :=
  { board.flush with stats := .load (nodeStatsAll board.flush.rows) nowMs }

inductive BoardEvent where
  | record (credit : Credit)
  | flush (nowMs : Nat)
  | restart (nowMs : Nat)

namespace BoardEvent

def nowMs : BoardEvent → Nat
  | .record credit => credit.nowMs
  | .flush nowMs => nowMs
  | .restart nowMs => nowMs

def credit? : BoardEvent → Option Credit
  | .record credit => some credit
  | _ => none

def isRestart : BoardEvent → Bool
  | .restart _ => true
  | _ => false

end BoardEvent

def Leaderboard.apply (board : Leaderboard) : BoardEvent → Leaderboard
  | .record credit => { board with stats := board.stats.record credit }
  | .flush _ => board.flush
  | .restart nowMs => board.restart nowMs

def Leaderboard.after (events : List BoardEvent) : Leaderboard := events.foldl .apply .new

/-- The requests among the events. -/
def creditsOf (events : List BoardEvent) : List Credit := events.filterMap BoardEvent.credit?

/-- No flush is more than a week after the one before it, or after the first request if there was
none: `since` is when the last of these was. -/
def Timely : Option Nat → List BoardEvent → Prop
  | _, [] => True
  | since, .record credit :: events => Timely (since.or (some credit.nowMs)) events
  | since, .flush nowMs :: events =>
      (∀ last, since = some last → nowMs ≤ last + 168 * hourMs) ∧ Timely (some nowMs) events
  | since, .restart nowMs :: events =>
      (∀ last, since = some last → nowMs ≤ last + 168 * hourMs) ∧ Timely (some nowMs) events

/-- The windows that a restart is to preserve, as a snapshot shows them. -/
def Stats.shown (stats : Stats) (nowMs : Nat) (nodeId : UInt32) :
    Option (Bucket × Bucket × Bucket) :=
  ((stats.snapshot nowMs).1.find? fun windows => windows.nodeId = nodeId).map
    fun windows => (windows.h24, windows.d7, windows.all)

/-! ## Loading -/

/-- What loading makes of the rows of a node. -/
structure Loaded (nowMs : Nat) (rows : List StatRow) (nodeId : UInt32) (ns : NodeStats) : Prop where
  total : ns.total = sumOn (fun key => key.1 = nodeId) rows
  hours : ∀ hour, (ns.hours.get hour).getD 0 =
    if (nowMs / hourMs - retainHours) * hourMs ≤ hour then
      sumOn (fun key => key = (nodeId, hour)) rows
    else 0
  dirty : ns.dirty = []

/-- A key without a row has nothing. -/
theorem sumOn_absent {rows : List StatRow} {key : UInt32 × Nat}
    (absent : key ∉ rows.map Prod.fst) : sumOn (fun other => other = key) rows = 0 := by
  have none : rows.filter (fun row => row.1 = key) = [] := by
    rw [List.filter_eq_nil_iff]
    intro row inside same
    exact absent (List.mem_map.mpr ⟨row, inside, of_decide_eq_true same⟩)
  rw [sumOn, none]
  rfl

namespace Loaded

variable {nowMs : Nat} {rows : List StatRow} {nodeId : UInt32} {ns : NodeStats}

/-- A node without rows is loaded with nothing. -/
theorem default (none : ∀ row ∈ rows, row.1.1 ≠ nodeId) : Loaded nowMs rows nodeId .default := by
  have empty : ∀ keys : UInt32 × Nat → Bool, (∀ key, keys key = true → key.1 = nodeId) →
      sumOn keys rows = 0 := by
    intro keys own
    have filtered : rows.filter (fun row => keys row.1) = [] := by
      rw [List.filter_eq_nil_iff]
      exact fun row inside kept => none row inside (own row.1 kept)
    rw [sumOn, filtered]
    rfl
  refine ⟨(empty _ fun key same => of_decide_eq_true same).symm, fun hour => ?_, rfl⟩
  rw [empty _ fun key same => by rw [of_decide_eq_true same], ite_self]
  rfl

/-- Loading a new row of this node adds its bucket to the node. -/
theorem add (loaded : Loaded nowMs rows nodeId ns) {hour : Nat} {b : Bucket}
    (new : (nodeId, hour) ∉ rows.map Prod.fst) :
    Loaded nowMs (rows ++ [((nodeId, hour), b)]) nodeId
      { ns with
        total := ns.total + b
        hours := if (nowMs / hourMs - retainHours) * hourMs ≤ hour then ns.hours.insert hour b
          else ns.hours
        minutes := { ns.minutes with head := nowMs / minuteMs } } where
  total := by
    have own : decide (nodeId = nodeId) = true := decide_eq_true rfl
    rw [sumOn_append, sumOn_singleton, ← loaded.total, if_pos own]
  hours other := by
    have before := loaded.hours other
    rw [sumOn_append, sumOn_singleton]
    dsimp only
    by_cases here : other = hour
    · subst here
      have own : decide ((nodeId, other) = (nodeId, other)) = true := decide_eq_true rfl
      rw [sumOn_absent new, if_pos own, zero_add]
      split
      · rw [Table.get_insert_self]
        rfl
      · next old =>
          rw [if_neg old] at before
          exact before
    · have apart : ¬ (decide ((nodeId, hour) = (nodeId, other)) = true) := by
        simpa using Ne.symm here
      rw [if_neg apart, add_zero, ← before]
      split
      · rw [Table.get_insert_of_ne _ _ here]
      · rfl
  dirty := loaded.dirty

/-- Loading a row of another node does not touch this one. -/
theorem other (loaded : Loaded nowMs rows nodeId ns) {row : StatRow}
    (different : row.1.1 ≠ nodeId) :
    Loaded nowMs (rows ++ [row]) nodeId ns where
  total := by
    rw [sumOn_append, sumOn_singleton, if_neg (by simpa using different), add_zero, loaded.total]
  hours hour := by
    have apart : ¬ (decide (row.1 = (nodeId, hour)) = true) := fun same => by
      rw [of_decide_eq_true same] at different
      exact different rfl
    rw [sumOn_append, sumOn_singleton, if_neg apart, add_zero, loaded.hours]
  dirty := loaded.dirty

end Loaded

/-- **Loading.** The nodes are those of the rows, each with its rows. -/
theorem load_spec {nowMs : Nat} {rows : List StatRow} (distinct : (rows.map Prod.fst).Nodup)
    (nodeId : UInt32) :
    ((Stats.load rows nowMs).get nodeId = none → ∀ row ∈ rows, row.1.1 ≠ nodeId) ∧
      ∀ ns, (Stats.load rows nowMs).get nodeId = some ns →
        (∃ row ∈ rows, row.1.1 = nodeId) ∧ Loaded nowMs rows nodeId ns := by
  induction rows using List.reverseRecOn with
  | nil => exact ⟨fun _ => nofun, nofun⟩
  | append_singleton rows row ih =>
      rw [List.map_append, List.nodup_append] at distinct
      obtain ⟨distinct, -, apart⟩ := distinct
      obtain ⟨absent, present⟩ := ih distinct
      have last : Stats.load (rows ++ [row]) nowMs = (Stats.load rows nowMs).loadRow nowMs row := by
        rw [Stats.load, List.foldl_append]
        rfl
      rw [last, Stats.loadRow, Table.get_insert]
      by_cases here : nodeId = row.1.1
      · rw [if_pos here]
        refine ⟨nofun, fun ns found => ⟨⟨row, by simp, here.symm⟩, ?_⟩⟩
        have before : Loaded nowMs rows nodeId
            (((Stats.load rows nowMs).get nodeId).getD .default) := by
          cases known : (Stats.load rows nowMs).get nodeId with
          | none => exact .default (absent known)
          | some ns => exact (present ns known).2
        subst here
        cases found
        refine before.add fun inside => ?_
        exact apart _ inside _ (List.mem_singleton_self _) rfl
      · rw [if_neg here]
        constructor
        · intro unknown other inside
          rcases List.mem_append.mp inside with inside | same
          · exact absent unknown other inside
          · rw [List.mem_singleton.mp same]
            exact Ne.symm here
        · intro ns found
          obtain ⟨⟨other, inside, own⟩, loaded⟩ := present ns found
          exact ⟨⟨other, List.mem_append_left _ inside, own⟩, loaded.other (Ne.symm here)⟩

/-! ## Flushing -/

/-- What the counters and the rows of a node hold between two flushes. -/
structure Reloadable (rows : StatRows) (since : Option Nat) (nodeId : UInt32) (ns : NodeStats)
    (history : List (Nat × Bucket)) (clock : Nat) : Prop where
  totals : Totals ns history clock
  clean : ∀ hour, hour ∉ ns.dirty →
    (rows.get (nodeId, hour)).getD 0 = sumOn (fun time => hourOf time = hour) history
  held : ∀ hour ∈ ns.dirty, hourOf clock ≤ hour + retainHours * hourMs →
    ∃ b, ns.hours.get hour = some b
  recent : ∀ hour ∈ ns.dirty, ∃ last, since = some last ∧ hourOf last ≤ hour

namespace Reloadable

variable {rows : StatRows} {since : Option Nat} {nodeId : UInt32} {ns : NodeStats}
  {history : List (Nat × Bucket)} {clock now : Nat}

/-- A node without rows can be reloaded. -/
theorem default (empty : ∀ hour, rows.get (nodeId, hour) = none) (since : Option Nat)
    (clock : Nat) : Reloadable rows since nodeId .default [] clock :=
  ⟨.default clock, fun hour _ => by rw [empty]; rfl, nofun, nofun⟩

/-- What can be reloaded at one time can be at a later one. -/
theorem later (reloadable : Reloadable rows since nodeId ns history clock) (ahead : clock ≤ now) :
    Reloadable rows since nodeId ns history now :=
  ⟨reloadable.totals.later ahead, reloadable.clean,
    fun hour dirty recent => reloadable.held hour dirty
      (Nat.le_trans (Totals.hourOf_mono ahead) recent), reloadable.recent⟩

/-- The first of those that wait is the first. -/
theorem started (reloadable : Reloadable rows since nodeId ns history clock) (first : Nat) :
    Reloadable rows (since.or (some first)) nodeId ns history clock :=
  ⟨reloadable.totals, reloadable.clean, reloadable.held, fun hour dirty => by
    obtain ⟨last, rfl, before⟩ := reloadable.recent hour dirty
    exact ⟨last, rfl, before⟩⟩

/-- A request makes its hour dirty. -/
theorem credit {last : Nat} (reloadable : Reloadable rows (some last) nodeId ns history clock)
    {credit : Credit} (ahead : clock ≤ credit.nowMs) (after : last ≤ credit.nowMs) :
    Reloadable rows (some last) nodeId (ns.credit credit)
      (history ++ [(credit.nowMs, credit.bucket)]) credit.nowMs where
  totals := reloadable.totals.credit ahead
  clean hour clean := by
    rw [NodeStats.credit, List.mem_insert_iff, not_or] at clean
    have apart : ¬ (decide (hourOf credit.nowMs = hour) = true) := by
      simpa using Ne.symm clean.1
    rw [sumOn_append, sumOn_singleton, if_neg apart, add_zero, reloadable.clean hour clean.2]
  held hour dirty recent := by
    rw [NodeStats.credit]
    dsimp only
    rw [Totals.pruned recent, Table.get_insert]
    split
    · exact ⟨_, rfl⟩
    · next different =>
        rw [NodeStats.credit, List.mem_insert_iff] at dirty
        exact reloadable.held hour (dirty.resolve_left different)
          (Nat.le_trans (Totals.hourOf_mono ahead) recent)
  recent hour dirty := by
    rw [NodeStats.credit, List.mem_insert_iff] at dirty
    rcases dirty with rfl | dirty
    · exact ⟨last, rfl, Totals.hourOf_mono after⟩
    · exact reloadable.recent hour dirty

/-- **Dirty hours.** Within a week of the last flush none of them is pruned. -/
theorem dirty (reloadable : Reloadable rows since nodeId ns history clock) (ahead : clock ≤ now)
    (timely : ∀ last, since = some last → now ≤ last + 168 * hourMs) {hour : Nat}
    (dirty : hour ∈ ns.dirty) :
    ns.hours.get hour = some (sumOn (fun time => hourOf time = hour) history) := by
  obtain ⟨last, same, before⟩ := reloadable.recent hour dirty
  have soon := timely last same
  have week : hourOf now ≤ hour + retainHours * hourMs := by
    have moved : hourOf now ≤ hourOf (last + 168 * hourMs) := Totals.hourOf_mono soon
    have turns : hourOf (last + 168 * hourMs) = hourOf last + 168 * hourMs := by
      rw [hourOf, Nat.add_mul_div_right _ _ (by decide), Nat.add_mul]
      rfl
    have less : 168 * hourMs ≤ retainHours * hourMs := Nat.mul_le_mul_right _ (by decide)
    omega
  have still := Nat.le_trans (Totals.hourOf_mono ahead) week
  obtain ⟨b, found⟩ := reloadable.held hour dirty still
  have sum := reloadable.totals.hours hour still
  rw [found, Option.getD_some] at sum
  rw [found, sum]

end Reloadable

/-- The rows hold all hours of all nodes. -/
structure Flushed (rows : StatRows) (credits : List Credit) : Prop where
  hours : ∀ nodeId hour, (rows.get (nodeId, hour)).getD 0 =
    sumOn (fun time => hourOf time = hour) (history credits nodeId)
  known : ∀ nodeId hour b, rows.get (nodeId, hour) = some b → history credits nodeId ≠ []

namespace Flushed

variable {rows : StatRows} {credits : List Credit}

/-- The rows of a node add up to its requests. -/
theorem total (flushed : Flushed rows credits) (nodeId : UInt32) :
    sumOn (fun key => key.1 = nodeId) rows.entries =
      sumOn (fun _ => true) (history credits nodeId) := by
  have keyed : sumOn (fun key => key.1 = nodeId) rows.entries =
      sumOn (fun key => key.1 = nodeId)
        ((history credits nodeId).map fun entry => ((nodeId, hourOf entry.1), entry.2)) := by
    apply sumOn_congr
    intro key own
    obtain ⟨other, hour⟩ := key
    obtain rfl : other = nodeId := of_decide_eq_true own
    rw [Table.sumOn_key, flushed.hours, sumOn_map fun time => (other, hourOf time)]
    apply sumOn_keys
    intro entry _
    simp
  rw [keyed, sumOn_map fun time => (nodeId, hourOf time)]
  apply sumOn_keys
  intro entry _
  simp

/-- A node with requests has a row. -/
theorem exists_row (flushed : Flushed rows credits) {nodeId : UInt32}
    (some : history credits nodeId ≠ []) : ∃ row ∈ rows.entries, row.1.1 = nodeId := by
  by_contra none
  push Not at none
  have empty : rows.entries.filter (fun row => decide (row.1.1 = nodeId)) = [] := by
    rw [List.filter_eq_nil_iff]
    exact fun row inside own => none row inside (of_decide_eq_true own)
  have total := flushed.total nodeId
  rw [sumOn, empty, sumOn_history] at total
  have requests := congrArg Bucket.requests total
  change 0 = credits.countP _ at requests
  rw [eq_comm, List.countP_eq_zero] at requests
  apply some
  rw [history, List.map_eq_nil_iff, List.filter_eq_nil_iff]
  intro credit inside
  have here := requests credit inside
  simpa using here

end Flushed

/-- Between two events. -/
structure Kept (board : Leaderboard) (credits : List Credit) (since : Option Nat) (clock : Nat) :
    Prop where
  known : Known (Reloadable board.rows since) board.stats credits clock
  rows : ∀ nodeId hour b, board.rows.get (nodeId, hour) = some b → history credits nodeId ≠ []
  past : ∀ last, since = some last → last ≤ clock

namespace Kept

variable {board : Leaderboard} {credits : List Credit} {since : Option Nat} {clock now : Nat}

/-- At the start nothing is kept. -/
theorem new : Kept .new [] none 0 :=
  ⟨.empty 0, nofun, nofun⟩

/-- The board keeps its requests when **a request** is recorded. -/
theorem record (kept : Kept board credits since clock) {credit : Credit}
    (ahead : clock ≤ credit.nowMs) :
    Kept { board with stats := board.stats.record credit } (credits ++ [credit])
      (since.or (some credit.nowMs)) credit.nowMs := by
  obtain ⟨last, started, after⟩ : ∃ last, since.or (some credit.nowMs) = some last ∧
      last ≤ credit.nowMs := by
    cases since with
    | none => exact ⟨_, rfl, Nat.le_refl _⟩
    | some last => exact ⟨last, rfl, Nat.le_trans (kept.past last rfl) ahead⟩
  have known : Known (Reloadable board.rows (some last)) board.stats credits clock := by
    rw [← started]
    exact kept.known.imp fun _ _ _ reloadable => reloadable.started credit.nowMs
  have rows : ∀ nodeId hour b, board.rows.get (nodeId, hour) = some b →
      history (credits ++ [credit]) nodeId ≠ [] := by
    intro nodeId hour b found
    rw [history_append]
    exact List.append_ne_nil_of_left_ne_nil (kept.rows nodeId hour b found) _
  rw [started]
  refine ⟨?_, rows, fun last' same => by cases same; exact after⟩
  refine known.record (fun unknown => ?_) (fun _ _ _ _ reloadable => reloadable.later ahead)
    fun _ _ reloadable => reloadable.credit ahead after
  apply Reloadable.default
  intro hour
  cases found : board.rows.get (credit.nodeId, hour) with
  | none => rfl
  | some b => exact (kept.rows _ hour b found (kept.known.unknown _ unknown)).elim

/-- A flush writes exactly the dirty hours of each node, with their buckets. -/
theorem mem_takeDirty {stats : Stats} {row : StatRow} :
    row ∈ stats.takeDirty.1 ↔ ∃ ns, stats.get row.1.1 = some ns ∧ row.1.2 ∈ ns.dirty ∧
      ns.hours.get row.1.2 = some row.2 := by
  rw [Stats.takeDirty, List.mem_flatMap]
  constructor
  · rintro ⟨⟨nodeId, ns⟩, inside, among⟩
    obtain ⟨hour, dirty, found⟩ := List.mem_filterMap.mp among
    obtain ⟨b, held, rfl⟩ := Option.map_eq_some_iff.mp found
    exact ⟨ns, Table.get_eq_some.mpr inside, dirty, held⟩
  · rintro ⟨ns, found, dirty, held⟩
    refine ⟨(row.1.1, ns), Table.get_eq_some.mp found, List.mem_filterMap.mpr ⟨row.1.2, dirty, ?_⟩⟩
    rw [held]
    rfl

/-- What a flush leaves in a row. -/
theorem get_flush (board : Leaderboard) (nodeId : UInt32) (hour : Nat) :
    ((nodeId, hour) ∈ board.stats.takeDirty.1.map Prod.fst →
      board.flush.rows.get (nodeId, hour) =
        (board.stats.get nodeId).bind fun ns => ns.hours.get hour) ∧
      ((nodeId, hour) ∉ board.stats.takeDirty.1.map Prod.fst →
        board.flush.rows.get (nodeId, hour) = board.rows.get (nodeId, hour)) := by
  have told : ∀ row ∈ board.stats.takeDirty.1,
      ((board.stats.get row.1.1).bind fun ns => ns.hours.get row.1.2) = some row.2 := by
    intro row inside
    obtain ⟨ns, found, -, held⟩ := mem_takeDirty.mp inside
    rw [found]
    exact held
  have folded := Table.get_foldl_entries
    (fun key : UInt32 × Nat => (board.stats.get key.1).bind fun ns => ns.hours.get key.2) told
    board.rows (nodeId, hour)
  exact ⟨fun written => folded.trans (if_pos written), fun kept => folded.trans (if_neg kept)⟩

/-- **A flush.** If it comes in time, the rows hold everything. -/
theorem flush (kept : Kept board credits since clock) (ahead : clock ≤ now)
    (timely : ∀ last, since = some last → now ≤ last + 168 * hourMs) :
    Flushed board.flush.rows credits ∧ Kept board.flush credits (some now) now := by
  have flushed : Flushed board.flush.rows credits := by
    refine ⟨fun nodeId hour => ?_, fun nodeId hour b found => ?_⟩
    · obtain ⟨changed, unchanged⟩ := get_flush board nodeId hour
      by_cases written : (nodeId, hour) ∈ board.stats.takeDirty.1.map Prod.fst
      · rw [changed written]
        obtain ⟨row, inside, same⟩ := List.mem_map.mp written
        obtain ⟨ns, found, dirty, -⟩ := mem_takeDirty.mp inside
        rw [same] at found dirty
        rw [found, Option.bind_some,
          (kept.known.known nodeId ns found).2.dirty ahead timely dirty]
        rfl
      · rw [unchanged written]
        cases found : board.stats.get nodeId with
        | none =>
            rw [kept.known.unknown nodeId found]
            cases held : board.rows.get (nodeId, hour) with
            | none => rfl
            | some b =>
                exact (kept.rows nodeId hour b held (kept.known.unknown nodeId found)).elim
        | some ns =>
            have reloadable := (kept.known.known nodeId ns found).2
            apply reloadable.clean
            intro dirty
            apply written
            exact List.mem_map.mpr ⟨((nodeId, hour), _), mem_takeDirty.mpr
              ⟨ns, found, dirty, reloadable.dirty ahead timely dirty⟩, rfl⟩
    · obtain ⟨changed, unchanged⟩ := get_flush board nodeId hour
      by_cases written : (nodeId, hour) ∈ board.stats.takeDirty.1.map Prod.fst
      · rw [changed written] at found
        obtain ⟨ns, known, -⟩ := Option.bind_eq_some_iff.mp found
        exact (kept.known.known nodeId ns known).1
      · rw [unchanged written] at found
        exact kept.rows nodeId hour b found
  refine ⟨flushed, ?_, flushed.known, fun last same => by cases same; exact Nat.le_refl _⟩
  refine ⟨fun nodeId absent => ?_, fun nodeId ns found => ?_⟩
  · rw [Leaderboard.flush, Stats.takeDirty, Table.get_map, Option.map_eq_none_iff] at absent
    exact kept.known.unknown nodeId absent
  · rw [Leaderboard.flush, Stats.takeDirty, Table.get_map, Option.map_eq_some_iff] at found
    obtain ⟨ns, found, rfl⟩ := found
    obtain ⟨known, reloadable⟩ := kept.known.known nodeId ns found
    have totals := reloadable.totals.later ahead
    exact ⟨known, ⟨totals.total, totals.hours⟩, fun hour _ => flushed.hours nodeId hour, nofun,
      nofun⟩

/-- **A restart.** What is loaded from full rows holds everything again. -/
theorem load (flushed : Flushed board.rows credits) (nowMs : Nat) :
    Kept { board with stats := .load (nodeStatsAll board.rows) nowMs } credits (some nowMs)
      nowMs := by
  refine ⟨⟨fun nodeId absent => ?_, fun nodeId ns found => ?_⟩, flushed.known,
    fun last same => by cases same; exact Nat.le_refl _⟩
  · by_contra some
    obtain ⟨row, inside, own⟩ := flushed.exists_row some
    exact (load_spec board.rows.distinct nodeId).1 absent row inside own
  · obtain ⟨⟨row, inside, own⟩, loaded⟩ := (load_spec board.rows.distinct nodeId).2 ns found
    subst own
    have held : board.rows.get (row.1.1, row.1.2) = some row.2 := Table.get_eq_some.mpr inside
    refine ⟨flushed.known _ _ _ held, ⟨?_, fun hour recent => ?_⟩,
      fun hour _ => flushed.hours _ hour, fun hour dirty => ?_, fun hour dirty => ?_⟩
    · rw [loaded.total]
      exact flushed.total _
    · have cutoff : (nowMs / hourMs - retainHours) * hourMs ≤ hour := by
        rw [hourOf] at recent
        rw [Nat.sub_mul]
        exact Nat.sub_le_of_le_add recent
      rw [loaded.hours, if_pos cutoff]
      exact (Table.sumOn_key _ _).trans (flushed.hours _ hour)
    · rw [loaded.dirty] at dirty
      cases dirty
    · rw [loaded.dirty] at dirty
      cases dirty

end Kept

/-! ## Runs -/

/-- The windows of a node that is known. -/
theorem Stats.shown_eq (stats : Stats) (nowMs : Nat) (nodeId : UInt32) :
    stats.shown nowMs nodeId = (stats.get nodeId).map fun ns =>
      (ns.windowHours nowMs 24, ns.windowHours nowMs 168, ns.total) := by
  rw [Stats.shown, Stats.snapshot, Table.map, List.map_map, List.find?_map, Option.map_map,
    Table.get, Option.map_map]
  rfl

/-- The windows that the requests of a node give. -/
def shownBy (credits : List Credit) (nowMs : Nat) (nodeId : UInt32) :
    Option (Bucket × Bucket × Bucket) :=
  if history credits nodeId = [] then none
  else some (sumOn (fun time => nowMs / hourMs < time / hourMs + 24) (history credits nodeId),
    sumOn (fun time => nowMs / hourMs < time / hourMs + 168) (history credits nodeId),
    sumOn (fun _ => true) (history credits nodeId))

/-- A row that is shown is of a known node. -/
theorem Known.shown {holds : UInt32 → NodeStats → List (Nat × Bucket) → Nat → Prop}
    {stats : Stats} {credits : List Credit} {clock now : Nat}
    (known : Known holds stats credits clock) (ahead : clock ≤ now)
    (totals : ∀ nodeId ns history, holds nodeId ns history clock → Totals ns history clock)
    (nodeId : UInt32) : stats.shown now nodeId = shownBy credits now nodeId := by
  rw [Stats.shown_eq, shownBy]
  cases found : stats.get nodeId with
  | none =>
      rw [if_pos (known.unknown nodeId found)]
      rfl
  | some ns =>
      obtain ⟨some, here⟩ := known.known nodeId ns found
      have counts := totals _ _ _ here
      rw [if_neg some, Option.map_some, counts.windowHours ahead (by decide) (by decide),
        counts.windowHours ahead (by decide) (by decide), counts.total]

/-- The board keeps its requests through any events in the order of their times. -/
theorem Kept.events {events : List BoardEvent} {board : Leaderboard} {credits : List Credit}
    {since : Option Nat} {clock now : Nat} (kept : Kept board credits since clock)
    (ordered : (clock :: events.map BoardEvent.nowMs ++ [now]).Pairwise (· ≤ ·))
    (timely : Timely since events) :
    ∃ last since', last ≤ now ∧
      Kept (events.foldl .apply board) (credits ++ creditsOf events) since' last ∧
      ∀ others, Timely since (events ++ others) → Timely since' others := by
  induction events generalizing board credits since clock with
  | nil =>
      refine ⟨clock, since, ?_, ?_, fun _ timely => timely⟩
      · exact (List.pairwise_cons.mp ordered).1 now (List.mem_singleton_self _)
      · rw [creditsOf, List.filterMap_nil, List.append_nil]
        exact kept
  | cons event events ih =>
      rw [List.map_cons, List.cons_append, List.cons_append, List.pairwise_cons] at ordered
      have ahead := ordered.1 event.nowMs List.mem_cons_self
      cases event with
      | record credit =>
          have after := ih (kept.record ahead) ordered.2 timely
          rw [List.append_assoc] at after
          exact after
      | flush nowMs =>
          obtain ⟨last, since', before, after, onward⟩ :=
            ih (kept.flush ahead timely.1).2 ordered.2 timely.2
          exact ⟨last, since', before, after, fun others rest => onward others rest.2⟩
      | restart nowMs =>
          obtain ⟨last, since', before, after, onward⟩ :=
            ih (Kept.load (kept.flush ahead timely.1).1 nowMs) ordered.2 timely.2
          exact ⟨last, since', before, after, fun others rest => onward others rest.2⟩

/-- Events that are timely were timely before. -/
theorem timely_append {since : Option Nat} {events other : List BoardEvent}
    (timely : Timely since (events ++ other)) : Timely since events := by
  induction events generalizing since with
  | nil => exact trivial
  | cons event events ih =>
      cases event with
      | record credit => exact ih timely
      | flush nowMs => exact ⟨timely.1, ih timely.2⟩
      | restart nowMs => exact ⟨timely.1, ih timely.2⟩

/-- The requests are all that a run without restarts shares with the run. -/
theorem creditsOf_filter (events : List BoardEvent) :
    creditsOf (events.filter fun event => !event.isRestart) = creditsOf events := by
  induction events with
  | nil => rfl
  | cons event events ih =>
      cases event with
      | record credit => exact congrArg (credit :: ·) ih
      | flush nowMs => exact ih
      | restart nowMs => exact ih

/-- Without restarts the counters need no flush. -/
theorem Known.events {events : List BoardEvent} {board : Leaderboard} {credits : List Credit}
    {clock now : Nat} (known : Known (fun _ => Totals) board.stats credits clock)
    (ordered : (clock :: events.map BoardEvent.nowMs ++ [now]).Pairwise (· ≤ ·))
    (restarts : ∀ event ∈ events, event.isRestart = false) :
    ∃ last, last ≤ now ∧ Known (fun _ => Totals) (events.foldl Leaderboard.apply board).stats
      (credits ++ creditsOf events) last := by
  induction events generalizing board credits clock with
  | nil =>
      refine ⟨clock, (List.pairwise_cons.mp ordered).1 now (List.mem_singleton_self _), ?_⟩
      rw [creditsOf, List.filterMap_nil, List.append_nil]
      exact known
  | cons event events ih =>
      rw [List.map_cons, List.cons_append, List.cons_append, List.pairwise_cons] at ordered
      rw [List.forall_mem_cons] at restarts
      have ahead := ordered.1 event.nowMs List.mem_cons_self
      cases event with
      | record credit =>
          have recorded : Known (fun _ => Totals)
              ({ board with stats := board.stats.record credit } : Leaderboard).stats
              (credits ++ [credit]) credit.nowMs :=
            known.record (fun _ => .default clock) (fun _ _ _ _ totals => totals.later ahead)
              fun _ _ totals => totals.credit ahead
          have after := ih recorded ordered.2 restarts.2
          rw [List.append_assoc] at after
          exact after
      | flush nowMs =>
          have flushed : Known (fun _ => Totals) board.flush.stats credits nowMs := by
            refine ⟨fun nodeId absent => ?_, fun nodeId ns found => ?_⟩
            · rw [Leaderboard.flush, Stats.takeDirty, Table.get_map,
                Option.map_eq_none_iff] at absent
              exact known.unknown nodeId absent
            · rw [Leaderboard.flush, Stats.takeDirty, Table.get_map,
                Option.map_eq_some_iff] at found
              obtain ⟨ns, found, rfl⟩ := found
              obtain ⟨some, totals⟩ := known.known nodeId ns found
              have still := totals.later ahead
              exact ⟨some, still.total, still.hours⟩
          exact ih flushed ordered.2 restarts.2
      | restart nowMs => cases restarts.1

/-- The requests of all time are those of the history. -/
theorem shownBy_total (credits : List Credit) (nowMs : Nat) (nodeId : UInt32) :
    (shownBy credits nowMs nodeId).elim 0 (fun shown => shown.2.2) =
      sumOn (fun _ => true) (history credits nodeId) := by
  rw [shownBy]
  split
  · next none =>
      rw [none]
      rfl
  · rfl

/-- **Restarts.** At times in order and with timely flushes, a run shows the same windows and totals
as the run without its restarts, at any time after its events. If its last event is a flush or a
restart, the rows of every node add up to the total that is shown. -/
theorem restarts_preserve (events : List BoardEvent) (nowMs : Nat)
    (ordered : (events.map BoardEvent.nowMs ++ [nowMs]).Pairwise (· ≤ ·))
    (timely : Timely none events) :
    (∀ nodeId, (Leaderboard.after events).stats.shown nowMs nodeId =
      (Leaderboard.after (events.filter fun event => !event.isRestart)).stats.shown nowMs nodeId) ∧
    ∀ before last, events = before ++ [last] → last.credit? = none →
      ∀ nodeId, sumOn (fun key => key.1 = nodeId) (Leaderboard.after events).rows.entries =
        ((Leaderboard.after events).stats.shown nowMs nodeId).elim 0 fun shown => shown.2.2 := by
  have start : (0 :: events.map BoardEvent.nowMs ++ [nowMs]).Pairwise (· ≤ ·) :=
    List.pairwise_cons.mpr ⟨fun _ _ => Nat.zero_le _, ordered⟩
  obtain ⟨clock, since, ahead, kept, -⟩ := Kept.new.events start timely
  have shown : ∀ nodeId, (Leaderboard.after events).stats.shown nowMs nodeId =
      shownBy (creditsOf events) nowMs nodeId :=
    kept.known.shown ahead fun _ _ _ reloadable => reloadable.totals
  constructor
  · intro nodeId
    have thinned : (0 :: (events.filter fun event => !event.isRestart).map BoardEvent.nowMs ++
        [nowMs]).Pairwise (· ≤ ·) := by
      refine start.sublist (List.Sublist.append (List.Sublist.cons_cons 0 ?_) (List.Sublist.refl _))
      exact List.filter_sublist.map _
    have never : ∀ event ∈ events.filter fun event => !event.isRestart,
        event.isRestart = false := by
      intro event inside
      simpa using (List.mem_filter.mp inside).2
    have empty : Known (fun _ => Totals) Leaderboard.new.stats [] 0 := .empty 0
    obtain ⟨clock', ahead', known⟩ := empty.events thinned never
    rw [creditsOf_filter] at known
    rw [shown, Leaderboard.after, known.shown ahead' (fun _ _ _ totals => totals)]
    rfl
  · rintro before last rfl flushes nodeId
    rw [shown, shownBy_total]
    have inner := (List.pairwise_append.mp ordered).1
    rw [List.map_append, List.map_singleton] at inner
    obtain ⟨clock', since', ahead', kept', onward⟩ := Kept.new.events
      (List.pairwise_cons.mpr ⟨fun _ _ => Nat.zero_le _, inner⟩) (timely_append timely)
    have rest := onward [last] timely
    have credited : creditsOf (before ++ [last]) = creditsOf before := by
      rw [creditsOf, List.filterMap_append, List.filterMap_cons_none flushes, List.filterMap_nil,
        List.append_nil]
      rfl
    have after : Leaderboard.after (before ++ [last]) =
        (before.foldl .apply Leaderboard.new).apply last := by
      rw [Leaderboard.after, List.foldl_append]
      rfl
    rw [credited, after]
    cases last with
    | record credit => cases flushes
    | flush nowMs => exact (kept'.flush ahead' rest.1).1.total nodeId
    | restart nowMs => exact (kept'.flush ahead' rest.1).1.total nodeId

/-- A server runs for two days, and is restarted in the middle of an hour. -/
def restarted : List BoardEvent :=
  [.record ⟨7, true, 1000⟩, .restart 2000, .record ⟨7, false, 3000⟩, .flush 90000000]

/-- The requests before and after a restart are shown and saved. -/
theorem restarts_preserve_restarted :
    Timely none restarted ∧
      (Leaderboard.after restarted).stats.shown 90000000 7 = some (⟨0, 0⟩, ⟨2, 1⟩, ⟨2, 1⟩) ∧
      sumOn (fun key => key.1 = 7) (Leaderboard.after restarted).rows.entries = ⟨2, 1⟩ := by
  have timely : Timely none restarted := by
    refine ⟨?_, ?_, trivial⟩
    · rintro _ ⟨⟩
      decide
    · rintro _ ⟨⟩
      decide
  obtain ⟨same, rows⟩ := restarts_preserve restarted 90000000 (by decide) timely
  have shown : (Leaderboard.after restarted).stats.shown 90000000 7 =
      some (⟨0, 0⟩, ⟨2, 1⟩, ⟨2, 1⟩) := by
    rw [same]
    decide +kernel
  refine ⟨timely, shown, ?_⟩
  rw [rows [.record ⟨7, true, 1000⟩, .restart 2000, .record ⟨7, false, 3000⟩] (.flush 90000000) rfl
    rfl 7, shown]
  rfl

/-- A request in each of 171 hours, and the first flush behind them. -/
def neverFlushed : List BoardEvent :=
  (List.range 171).map (fun hour => .record ⟨7, false, hour * hourMs⟩) ++ [.flush (170 * hourMs)]

/-- There are no two flushes that are far apart, and the request of the first hour is lost. -/
theorem late_flush_loses :
    (neverFlushed.map BoardEvent.nowMs).Pairwise (· ≤ ·) ∧
      (neverFlushed.filter fun event => event.credit?.isNone).length = 1 ∧
      (((Leaderboard.after neverFlushed).stats.get 7).map fun ns => ns.total.requests) = some 171 ∧
      (sumOn (fun key => key.1 = 7)
        (Leaderboard.after neverFlushed).rows.entries).requests = 170 := by
  decide +kernel

end LolCrawler.Contributions
