import LolCrawler.Foundation.Endures
import LolCrawler.Store.Frontier

/-! # The steps of a transaction

What holds of every step of a transaction, and is kept by sequencing, holds of the transaction.
Each of them is taken apart here, once for all such properties (`Transacts`): that nothing but
a cut stops it, what it leaves alone, and what it does not make durable.
-/

namespace LolCrawler.Store

open Foundation Segment Prog

/-- A property of the steps of fast transactions, of these edits of the tables, and of these
changes of the memory. -/
structure Transacts (edits : (Tables → Tables) → Prop) (memory : (Ram → Ram) → Prop)
    (holds : (α : Type) → Act α → Prop) : Prop extends Sequential holds where
  begin : ∀ txn, holds Unit (beginWrite txn)
  touch : ∀ txn op, holds Unit (touch txn op)
  change : ∀ txn op edit, edits edit → holds Unit (change txn op edit)
  remember : ∀ edit, memory edit → holds Unit (setRam edit)
  commit : ∀ txn, holds Unit (commitFast txn)

/-- Any edit of the tables, or any change of the memory. -/
def Any {α : Type} (_ : α → α) : Prop := True

/-- The tables of the players and the bitmaps stay. -/
def SparesPlayers (edit : Tables → Tables) : Prop :=
  ∀ tables, (edit tables).players = tables.players ∧ (edit tables).bitmaps = tables.bitmaps

/-- The writers and the seen games stay. -/
def SparesArchive (edit : Ram → Ram) : Prop :=
  ∀ ram, (edit ram).writers = ram.writers ∧ (edit ram).seen = ram.seen

/-- Any edit of the tables will do. -/
theorem edits_any : ∀ edit : Tables → Tables, SparesPlayers edit → Any edit := fun _ _ => trivial

/-- Any edit of the memory will do. -/
theorem memory_any : ∀ edit : Ram → Ram, SparesArchive edit → Any edit := fun _ _ => trivial

namespace Transacts

variable {edits : (Tables → Tables) → Prop} {memory : (Ram → Ram) → Prop}
  {holds : (α : Type) → Act α → Prop}

/-- A question to the database is made within a transaction. -/
theorem ask (steps : Transacts edits memory holds) {α : Type} (txn : Txn) (op : TxnOp)
    (part : State → α) : holds α (Prog.ask (.txn txn op) part) :=
  steps.bind (steps.touch txn op) fun _ => steps.gets part

/-! ## The frontier and the cohort -/

section Frontier

variable (steps : Transacts edits memory holds)
  (spares : ∀ edit, SparesPlayers edit → edits edit)

include steps spares

/-- A task is written with its index. -/
theorem insertTask (platform : String) (bucket dueMs pid : Nat) (task : FrontierTask) :
    holds Unit (insertTask platform bucket dueMs pid task) :=
  steps.bind (steps.change _ _ _ (spares _ fun _ => ⟨rfl, rfl⟩)) fun _ =>
    steps.change _ _ _ (spares _ fun _ => ⟨rfl, rfl⟩)

/-- A task is taken from the frontier. -/
theorem removeTask (pid : Nat) (existing : Option FrontierKey) :
    holds Unit (removeTask pid existing) := by
  unfold Store.removeTask
  cases existing with
  | none => exact steps.pure _
  | some key => exact steps.change _ _ _ (spares _ fun _ => ⟨rfl, rfl⟩)

/-- A push is one transaction. -/
theorem frontierPush (platform : String) (bucket dueMs pid : Nat) (task : FrontierTask) :
    holds Unit (frontierPush platform bucket dueMs pid task) := by
  refine steps.bind (steps.begin _) fun _ => steps.bind (steps.touch _ _) fun _ =>
    steps.bind (steps.touch _ _) fun _ => steps.bind (steps.ask _ _ _) fun existing => ?_
  split
  · exact steps.pure _
  · exact steps.bind (removeTask steps spares _ _) fun _ =>
      steps.bind (insertTask steps spares _ _ _ _ _) fun _ => steps.commit _

/-- The tasks of a batch are pushed one by one. -/
theorem pushTasks (platform : String) (bucket dueMs : Nat) (items : List (Nat × FrontierTask)) :
    holds Unit (pushTasks platform bucket dueMs items) := by
  induction items with
  | nil => exact steps.pure _
  | cons item items ih =>
      refine steps.bind (steps.ask _ _ _) fun existing => ?_
      split
      · exact ih
      · exact steps.bind (removeTask steps spares _ _) fun _ =>
          steps.bind (insertTask steps spares _ _ _ _ _) fun _ => ih

/-- A batch is one transaction. -/
theorem frontierPushBatch (platform : String) (bucket dueMs : Nat)
    (items : List (Nat × FrontierTask)) :
    holds Unit (frontierPushBatch platform bucket dueMs items) := by
  unfold Store.frontierPushBatch
  split
  · exact steps.pure _
  · exact steps.bind (steps.begin _) fun _ => steps.bind (steps.touch _ _) fun _ =>
      steps.bind (steps.touch _ _) fun _ => steps.bind (pushTasks steps spares _ _ _ _) fun _ =>
        steps.commit _

/-- The buckets are looked at in order. -/
theorem popBuckets (platform : String) (nowMs : Nat) (buckets : List Nat) :
    holds _ (popBuckets platform nowMs buckets) := by
  induction buckets with
  | nil => exact steps.pure _
  | cons bucket buckets ih =>
      refine steps.bind (steps.touch _ _) fun _ => steps.bind (steps.touch _ _) fun _ =>
        steps.bind (steps.gets _) fun first => ?_
      cases first with
      | none => exact ih
      | some entry =>
          exact steps.bind (steps.change _ _ _ (spares _ fun _ => ⟨rfl, rfl⟩)) fun _ =>
            steps.bind (steps.change _ _ _ (spares _ fun _ => ⟨rfl, rfl⟩)) fun _ => steps.pure _

/-- A pop is one transaction. -/
theorem frontierPopDue (platform : String) (nowMs : Nat) :
    holds _ (frontierPopDue platform nowMs) :=
  steps.bind (steps.begin _) fun _ => steps.bind (steps.touch _ _) fun _ =>
    steps.bind (steps.touch _ _) fun _ => steps.bind (popBuckets steps spares _ _ _) fun _ =>
      steps.bind (steps.commit _) fun _ => steps.pure _

/-- The stranded are pushed, each platform in a batch of its own. -/
theorem pushStranded (nowMs : Nat) (items : List (String × Nat × FrontierTask))
    (platforms : List String) : holds Unit (pushStranded nowMs items platforms) := by
  induction platforms with
  | nil => exact steps.pure _
  | cons platform platforms ih =>
      exact steps.bind (frontierPushBatch steps spares _ _ _ _) fun _ => ih

/-- The reconciliation reads, and pushes the stranded. -/
theorem frontierReconcile (platforms : List String) (nowMs : Nat) :
    holds Nat (frontierReconcile platforms nowMs) := by
  refine steps.bind (steps.touch _ _) fun _ => steps.bind (steps.touch _ _) fun _ =>
    steps.bind (steps.touch _ _) fun _ => steps.bind (steps.ask _ _ _) fun stranded => ?_
  split
  · exact steps.pure _
  · exact steps.bind (steps.touch _ _) fun _ => steps.bind (steps.touch _ _) fun _ =>
      steps.bind (steps.touch _ _) fun _ => steps.bind (steps.ask _ _ _) fun _ =>
        steps.bind (pushStranded steps spares _ _ _) fun _ => steps.pure _

/-- The tasks are written anew. -/
theorem deepen (nowMs : Nat) (entries : List ((String × Nat × Nat × Nat) × FrontierTask)) :
    holds Unit (deepen nowMs entries) := by
  induction entries with
  | nil => exact steps.pure _
  | cons entry entries ih =>
      exact steps.bind (steps.change _ _ _ (spares _ fun _ => ⟨rfl, rfl⟩)) fun _ =>
        steps.bind (insertTask steps spares _ _ _ _ _) fun _ => ih

/-- The backfill is one transaction. -/
theorem frontierBackfillReset (nowMs : Nat) : holds Nat (frontierBackfillReset nowMs) :=
  steps.bind (steps.touch _ _) fun _ => steps.bind (steps.touch _ _) fun _ =>
    steps.bind (steps.ask _ _ _) fun _ => steps.bind (steps.begin _) fun _ =>
      steps.bind (steps.touch _ _) fun _ => steps.bind (steps.touch _ _) fun _ =>
        steps.bind (deepen steps spares _ _) fun _ => steps.bind (steps.commit _) fun _ =>
          steps.pure _

/-- The new members are written. -/
theorem insertCohort (nowMs source : Nat) (new : List Nat) :
    holds Unit (insertCohort nowMs source new) := by
  induction new with
  | nil => exact steps.pure _
  | cons pid new ih =>
      exact steps.bind (steps.change _ _ _ (spares _ fun _ => ⟨rfl, rfl⟩)) fun _ =>
        steps.bind (steps.change _ _ _ (spares _ fun _ => ⟨rfl, rfl⟩)) fun _ => ih

/-- An enrolment is one transaction, and changes the memory after it. -/
theorem cohortAddBatch (enrols : ∀ new, memory fun ram => List.foldl Ram.enrol ram new)
    (players : List Nat) (source nowMs : Nat) : holds _ (cohortAddBatch players source nowMs) := by
  refine steps.bind (steps.gets _) fun new => ?_
  split
  · exact steps.pure _
  · exact steps.bind (steps.begin _) fun _ => steps.bind (steps.touch _ _) fun _ =>
      steps.bind (steps.touch _ _) fun _ => steps.bind (insertCohort steps spares _ _ _) fun _ =>
        steps.bind (steps.commit _) fun _ => steps.bind (steps.remember _ (enrols _)) fun _ =>
          steps.pure _

end Frontier

/-! ## The players -/

section Players

variable (steps : Transacts Any memory holds)

include steps

/-- The new players are written. -/
theorem insertPlayers (new : List (String × Nat)) : holds Unit (insertPlayers new) := by
  induction new with
  | nil => exact steps.pure _
  | cons entry new ih => exact steps.bind (steps.change _ _ _ trivial) fun _ => ih

/-- The assignment of ids is one transaction, and changes the memory before it ends. -/
theorem assignPlayerIds (any : ∀ edit, memory edit) (puuids : List String) :
    holds _ (assignPlayerIds puuids) := by
  refine steps.bind (steps.gets _) fun assigned => steps.bind (steps.remember _ (any _)) fun _ => ?_
  split
  · exact steps.pure _
  · exact steps.bind (steps.begin _) fun _ => steps.bind (steps.touch _ _) fun _ =>
      steps.bind (insertPlayers steps _) fun _ => steps.bind (steps.commit _) fun _ => steps.pure _

end Players

/-! ## The transaction of a match -/

section Match

variable (steps : Transacts Any memory holds) (spares : ∀ edit, SparesArchive edit → memory edit)

include steps spares

/-- A player of a match is looked up, or is new. -/
theorem matchPlayerId (puuid : String) : holds Nat (matchPlayerId puuid) := by
  refine steps.bind (steps.gets _) fun ram => ?_
  split
  · exact steps.pure _
  · exact steps.bind (steps.remember _ (spares _ fun _ => ⟨rfl, rfl⟩)) fun _ =>
      steps.bind (steps.change _ _ _ trivial) fun _ => steps.pure _

/-- So are the players one by one. -/
theorem matchPlayerIds (puuids : List String) : holds _ (matchPlayerIds puuids) := by
  induction puuids with
  | nil => exact steps.pure _
  | cons puuid puuids ih =>
      exact steps.bind (matchPlayerId steps spares _) fun _ => steps.bind ih fun _ => steps.pure _

/-- An outsider is counted. -/
theorem countOutsider (tsMs : Nat) (growthPaused : Bool) (pid : Nat) (puuid : String) :
    holds _ (countOutsider tsMs growthPaused pid puuid) := by
  refine steps.bind (steps.gets _) fun ram => ?_
  split
  · exact steps.pure _
  · simp only
    split
    · exact steps.bind (steps.remember _ (spares _ fun _ => ⟨rfl, rfl⟩)) fun _ =>
        steps.bind (steps.change _ _ _ trivial) fun _ =>
          steps.bind (steps.remember _ (spares _ fun _ => ⟨rfl, rfl⟩)) fun _ =>
            steps.bind (steps.change _ _ _ trivial) fun _ => steps.pure _
    · exact steps.bind (steps.remember _ (spares _ fun _ => ⟨rfl, rfl⟩)) fun _ =>
        steps.bind (steps.change _ _ _ trivial) fun _ => steps.pure _

/-- Outsiders are counted one by one. -/
theorem countOutsiders (tsMs : Nat) (growthPaused : Bool) (players : List (Nat × String)) :
    holds _ (countOutsiders tsMs growthPaused players) := by
  induction players with
  | nil => exact steps.pure _
  | cons player players ih =>
      exact steps.bind (countOutsider steps spares _ _ _ _) fun _ => steps.bind ih fun _ =>
        steps.pure _

omit spares in
/-- The games before are counted back. -/
theorem countBack (earlier : List TlEntry) (count : Nat) : holds Nat (countBack earlier count) := by
  induction earlier generalizing count with
  | nil => exact steps.bind (steps.touch _ _) fun _ => steps.pure _
  | cons entry earlier ih =>
      refine steps.bind (steps.touch _ _) fun _ => ?_
      split
      · exact steps.pure _
      · exact ih _

omit spares in
/-- The games before are read for each player. -/
theorem predecessors (tsMs : Nat) (pids : List Nat) : holds _ (predecessors tsMs pids) := by
  induction pids with
  | nil => exact steps.pure _
  | cons pid pids ih =>
      exact steps.bind (steps.touch _ _) fun _ => steps.bind (steps.gets _) fun _ =>
        steps.bind (countBack steps _ _) fun _ => steps.bind ih fun _ => steps.pure _

omit spares in
/-- The rows of the timeline are written. -/
theorem writeTimeline (gameId : UInt64) (tsMs slot : Nat) (pids : List Nat) :
    holds Unit (writeTimeline gameId tsMs slot pids) := by
  induction pids generalizing slot with
  | nil => exact steps.pure _
  | cons pid pids ih => exact steps.bind (steps.change _ _ _ trivial) fun _ => ih _

omit spares in
/-- The later games are credited. -/
theorem creditLater (platform : String) (later : List TlEntry) (newlyValid : Nat) :
    holds Nat (creditLater platform later newlyValid) := by
  induction later generalizing newlyValid with
  | nil => exact steps.bind (steps.touch _ _) fun _ => steps.pure _
  | cons entry later ih =>
      refine steps.bind (steps.touch _ _) fun _ => steps.bind (steps.ask _ _ _) fun found => ?_
      split
      · exact ih _
      · split
        · exact steps.pure _
        · exact steps.bind (steps.change _ _ _ trivial) fun _ => ih _

omit spares in
/-- The players are credited one by one. -/
theorem creditPlayers (platform : String) (tsMs : Nat) (pids : List Nat) (newlyValid : Nat) :
    holds Nat (creditPlayers platform tsMs pids newlyValid) := by
  induction pids generalizing newlyValid with
  | nil => exact steps.pure _
  | cons pid pids ih =>
      exact steps.bind (steps.touch _ _) fun _ => steps.bind (steps.gets _) fun _ =>
        steps.bind (creditLater steps _ _ _) fun _ => ih _

/-- The valid samples are added. -/
theorem addValidSamples (platform : String) (newlyValid : Nat) :
    holds Unit (addValidSamples platform newlyValid) := by
  unfold Store.addValidSamples
  split
  · exact steps.pure _
  · exact steps.bind (steps.remember _ (spares _ fun _ => ⟨rfl, rfl⟩)) fun _ =>
      steps.bind (steps.touch _ _) fun _ => steps.bind (steps.gets _) fun _ =>
        steps.change _ _ _ trivial

/-- The progress of a match is written. -/
theorem trackProgress (platform : String) (gameId : UInt64) (tsMs : Nat) (pids : List Nat) :
    holds Unit (trackProgress platform gameId tsMs pids) :=
  steps.bind (steps.touch _ _) fun _ => steps.bind (steps.touch _ _) fun _ =>
    steps.bind (predecessors steps _ _) fun _ => steps.bind (steps.change _ _ _ trivial) fun _ =>
      steps.bind (writeTimeline steps _ _ _ _) fun _ =>
        steps.bind (creditPlayers steps _ _ _ _) fun _ => addValidSamples steps spares _ _

/-- The effects of a match are written, unless it is stored already. -/
theorem matchEffects (record : MatchRecord) (puuids : List String) (tsMs : Nat)
    (growthPaused alreadyStored : Bool) (pids : List Nat) :
    holds _ (matchEffects record puuids tsMs growthPaused alreadyStored pids) := by
  unfold Store.matchEffects
  split
  · exact steps.bind (steps.touch _ _) fun _ => steps.bind (steps.change _ _ _ trivial) fun _ =>
      steps.pure _
  · split
    · exact steps.bind (steps.touch _ _) fun _ => steps.bind (steps.touch _ _) fun _ =>
        steps.bind (countOutsiders steps spares _ _ _) fun _ =>
          steps.bind (trackProgress steps spares _ _ _ _) fun _ => steps.pure _
    · exact steps.pure _

/-- The transaction of a match. -/
theorem matchTxn (record : MatchRecord) (puuids : List String) (tsMs : Nat)
    (growthPaused : Bool) : holds _ (matchTxn record puuids tsMs growthPaused) :=
  steps.bind (steps.touch _ _) fun _ => steps.bind (steps.touch _ _) fun _ =>
    steps.bind (steps.ask _ _ _) fun _ => steps.bind (steps.begin _) fun _ =>
      steps.bind (steps.touch _ _) fun _ => steps.bind (matchPlayerIds steps spares _) fun _ =>
        steps.bind (matchEffects steps spares _ _ _ _ _ _) fun _ =>
          steps.bind (steps.commit _) fun _ => steps.pure _

end Match

end Transacts

/-! ## Properties of all their steps -/

/-- Unless they are cut, transactions end, and a failure further ahead stays ahead. -/
theorem paced_steps : Transacts Any Any fun (α : Type) (program : Act α) => Paced program where
  toSequential := Paced.sequential
  begin _ := .step _ _
  touch _ _ := .step _ _
  change _ _ _ _ := .step _ _
  remember _ _ := .modify _
  commit _ := .step _ _

/-- Nothing but a crash stops a transaction none of whose steps fail. -/
theorem sturdy_steps : Transacts Any Any fun (α : Type) (program : Act α) => Sturdy program where
  toSequential := Sturdy.sequential
  begin _ := .step _ _
  touch _ _ := .step _ _
  change _ _ _ _ := .step _ _
  remember _ _ := fun _ => Endures.modify trivial
  commit _ := .step _ _

/-- A relation that every step moves along. -/
theorem leaves_steps {relation : State → State → Prop} [Std.Refl relation]
    [IsTrans State relation] {edits : (Tables → Tables) → Prop} {memory : (Ram → Ram) → Prop}
    (begins : ∀ state, relation state { state with working := state.tables })
    (changes : ∀ state edit, edits edit →
      relation state { state with working := edit state.working })
    (remembers : ∀ state edit, memory edit → relation state { state with ram := edit state.ram })
    (commits : ∀ state, relation state { state with tables := state.working }) :
    Transacts edits memory fun (α : Type) (program : Act α) => Leaves relation program where
  toSequential := Leaves.sequential relation
  begin _ := .step _ begins
  touch _ _ := .step _ fun state => Std.Refl.refl state
  change _ _ edit allowed := .step _ fun state => changes state edit allowed
  remember edit allowed := .modify fun state => remembers state edit allowed
  commit _ := .step _ commits

/-- Opening tables changes nothing. -/
theorem openTables_leaves {relation : State → State → Prop} [Std.Refl relation]
    [IsTrans State relation] (tables : List TableName) : Leaves relation (openTables tables) := by
  induction tables with
  | nil => exact .pure _
  | cons table tables ih =>
      have first : Leaves relation (touch .openStore (.openTable table)) :=
        .step _ fun state => Std.Refl.refl state
      exact first.bind fun _ => ih

/-- A relation that changes of one segment's files move along. -/
theorem onFiles_leaves {α : Type} {relation : State → State → Prop} (place : Place)
    (action : Fs File α) (moves : ∀ (state : State) held,
      relation state { state with segments := Function.update state.segments place held }) :
    Leaves relation (onFiles place action) := by
  intro before cut
  rcases run : onFiles place action ⟨before, cut⟩ with ⟨halt | value, after⟩
  all_goals
    have same : after.state = (onFiles place action ⟨before, cut⟩).2.state := by rw [run]
    show relation before after.state
    rw [same]
    exact moves _ _

end LolCrawler.Store
