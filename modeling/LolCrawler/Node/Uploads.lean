import Mathlib.Data.List.Nodup
import LolCrawler.Node.Process

/-! # What becomes of a result

Every task that has put its result on the channel is in one place: the channel, the loop of
the uploader, or the list of the results that the uploader is done with. The results leave in
the order in which they came, each is what `execute` returned, and one is dropped only when
fifteen requests for it have failed and 301 seconds have passed since the first
(`results_in_one_place`).
-/

namespace LolCrawler.Node

open Foundation

/-! ## What a step does to the results -/

/-- What a step does to the channel and the uploader, with what it relies on. -/
inductive UploadMove (process next : Process) : ProcessEvent → Prop where
  | idle {event : ProcessEvent} (channel : next.channel = process.channel)
      (upload : next.upload = process.upload) (finished : next.finished = process.finished)
      (sent : ∀ id, (id < next.spawned.length ∧ next.tasks id = .sent) ↔
        (id < process.spawned.length ∧ process.tasks id = .sent)) : UploadMove process next event
  | send (id : Nat) (result : JobResult) (returned : process.returned id = some result)
      (counted : process.tasks id = .counted)
      (done : next = { process with
        tasks := Function.update process.tasks id .sent
        channel := process.channel ++ [(id, result)] }) : UploadMove process next (.send id)
  | takeUp (id now : Nat) (result : JobResult) (rest : List (Nat × JobResult))
      (free : process.upload = none) (first : process.channel = (id, result) :: rest)
      (done : next = { process with
        channel := rest
        upload := some ⟨id, result, 1, 0, none, 0, now, now⟩ }) :
      UploadMove process next (.takeUp now)
  | finish {event : ProcessEvent} (upload : Upload) (ending : Finish)
      (there : process.upload = some upload) (done : next = process.finish upload ending)
      (dropped : ∀ last now, ending = .dropped last now →
        last = upload ∧ 300 ≤ upload.waited ∧ upload.clock ≤ now)
      (acknowledged : ending = .acknowledged → event = .posted) : UploadMove process next event
  | sleep (upload : Upload) (now : Nat) (there : process.upload = some upload)
      (later : upload.clock ≤ now) (early : upload.waited < 300)
      (done : next = { process with
        upload := some { upload with
          asleep := some (now + fromSecs upload.delay)
          clock := now } }) :
      UploadMove process next (.postFailed now)
  | repost (upload : Upload) (wake now : Nat) (there : process.upload = some upload)
      (asleep : upload.asleep = some wake) (awake : wake ≤ now)
      (done : next = { process with
        upload := some { upload with
          waited := upload.waited + upload.delay
          delay := min (upload.delay * 2) 30
          asleep := none
          sleeps := upload.sleeps + 1
          clock := now } }) : UploadMove process next (.repost now)

section Steps

variable {process next : Process} {event : ProcessEvent}

/-- A step of the loop does nothing to the uploads. -/
theorem Process.atHead_uploads {inner : WorkerEvent} {stage : Worker → Stage}
    (done : process.atHead inner stage = some next) : UploadMove process next event := by
  unfold Process.atHead at done
  split at done
  · obtain ⟨worker, step, rfl⟩ := Option.map_eq_some_iff.mp done
    exact .idle rfl rfl rfl fun id => Iff.rfl
  · cases done

/-- A spawn does nothing to the uploads. -/
theorem Process.spawn_uploads (done : process.spawn = some next) :
    UploadMove process next event := by
  unfold Process.spawn at done
  split at done
  · next received rest stage =>
      obtain ⟨worker, step, rfl⟩ := Option.map_eq_some_iff.mp done
      refine .idle rfl rfl rfl fun id => ?_
      change (id < (process.spawned ++ [received]).length ∧
        Function.update process.tasks process.spawned.length Task.running id = .sent) ↔ _
      rw [List.length_append, List.length_singleton, Function.update_apply]
      split
      · next last =>
          rw [last]
          exact iff_of_false (fun here => by cases here.2) fun here => Nat.lt_irrefl _ here.1
      · next other =>
          constructor
          · intro here
            exact ⟨by omega, here.2⟩
          · intro here
            exact ⟨Nat.lt_succ_of_lt here.1, here.2⟩
  · cases done

/-- A count does nothing to the uploads. -/
theorem Process.count_uploads {id : Nat} (done : process.count id = some next) :
    UploadMove process next event := by
  unfold Process.count at done
  split at done
  · next call result there returned running =>
      cases done
      refine .idle rfl rfl rfl fun other => ?_
      change (other < process.spawned.length ∧
        Function.update process.tasks id Task.counted other = .sent) ↔ _
      rw [Function.update_apply]
      split
      · next same =>
          rw [same, running]
          exact iff_of_false (fun here => by cases here.2) fun here => by cases here.2
      · exact Iff.rfl
  · cases done

/-- A task that is done sends its result. -/
theorem Process.send_uploads {id : Nat} (done : process.send id = some next) :
    UploadMove process next (.send id) := by
  unfold Process.send at done
  split at done
  · next result returned counted =>
      cases done
      exact .send id result returned counted rfl
  · cases done

/-- The uploader takes up the first result. -/
theorem Process.takeUp_uploads {now : Nat} (done : process.takeUp now = some next) :
    UploadMove process next (.takeUp now) := by
  unfold Process.takeUp at done
  split at done
  · next id result rest free first =>
      cases done
      exact .takeUp id now result rest free first rfl
  · cases done

/-- The requests of the uploader end only while it has a result. -/
theorem Process.answered_uploads {after : Upload → Option Process}
    (done : process.answered after = some next)
    (move : ∀ upload later, process.upload = some upload → after upload = some later →
      UploadMove process later event) : UploadMove process next event := by
  unfold Process.answered at done
  split at done
  · next upload there =>
      split at done
      · exact move upload next there done
      · cases done
  · cases done

/-- A post that failed is the end of the upload, or it sleeps. -/
theorem Process.postFailed_uploads {now : Nat} (done : process.postFailed now = some next) :
    UploadMove process next (.postFailed now) := by
  refine Process.answered_uploads done fun upload later there made => ?_
  split at made
  · next clock =>
      split at made
      · next enough =>
          cases made
          refine .finish upload _ there rfl (fun last time same => ?_) nofun
          cases same
          exact ⟨rfl, enough, clock⟩
      · next early =>
          cases made
          exact .sleep upload now there clock (Nat.lt_of_not_le early) rfl
  · cases made

/-- An upload that has slept is posted again. -/
theorem Process.repost_uploads {now : Nat} (done : process.repost now = some next) :
    UploadMove process next (.repost now) := by
  unfold Process.repost at done
  split at done
  · next upload there =>
      split at done
      · next wake asleep =>
          split at done
          · next awake =>
              cases done
              exact .repost upload wake now there asleep awake rfl
          · cases done
      · cases done
  · cases done

/-- Each step of a process moves the uploads in one of these ways. -/
theorem Process.step_uploads (step : ProcessStep process event next) :
    UploadMove process next event := by
  obtain ⟨step, -⟩ := step.acts
  cases event with
  | look => exact Process.atHead_uploads step
  | wake mtime fresh => exact Process.atHead_uploads step
  | installed => exact Process.atHead_uploads step
  | spawn => exact Process.spawn_uploads step
  | count id => exact Process.count_uploads step
  | send id => exact Process.send_uploads step
  | takeUp now => exact Process.takeUp_uploads step
  | postFailed now => exact Process.postFailed_uploads step
  | repost now => exact Process.repost_uploads step
  | call id now act =>
      obtain ⟨worker, made, rfl⟩ := Option.map_eq_some_iff.mp step
      exact .idle rfl rfl rfl fun id => Iff.rfl
  | posted =>
      refine Process.answered_uploads step fun upload later there made => ?_
      cases made
      exact .finish upload .acknowledged there rfl (by simp) fun _ => rfl
  | postRefused =>
      refine Process.answered_uploads step fun upload later there made => ?_
      cases made
      exact .finish upload .refused there rfl (by simp) (by simp)
  | exit now =>
      rw [Process.exit_eq step]
      exact .idle rfl rfl rfl fun id => Iff.rfl
  | killed =>
      cases step
      exact .idle rfl rfl rfl fun id => Iff.rfl
  | leave now =>
      rw [Process.act] at step
      split at step
      · cases step
        exact .idle rfl rfl rfl fun id => Iff.rfl
      · cases step
        exact .idle rfl rfl rfl fun id => Iff.rfl
      · cases step
  | poll | reply jobs | pollFailed | pace =>
      rw [Process.act] at step
      split at step
      · cases step
        exact .idle rfl rfl rfl fun id => Iff.rfl
      · cases step

/-- A call that has returned takes no further step. -/
theorem Process.returned_stable (move : TaskMove process next) {id : Nat} {result : JobResult}
    (returned : process.returned id = some result) : next.returned id = some result := by
  unfold Process.returned at returned ⊢
  obtain ⟨call, there, told⟩ := Option.bind_eq_some_iff.mp returned
  cases move with
  | idle same => rw [same.calls, there, Option.bind_some, told]
  | spawn received rest stage free calls =>
      have other : id ≠ process.spawned.length := by
        intro same
        rw [same, free] at there
        cases there
      rw [calls, Function.update_of_ne other, there, Option.bind_some, told]
  | call own now act current found done =>
      by_cases same : id = own
      · rw [same, found, Option.some.injEq] at there
        rw [there] at done
        unfold Executor.advance at done
        cases phase : call.phase with
        | returned last =>
            rw [phase] at done
            cases done
        | _ =>
            rw [phase] at told
            cases told
      · obtain ⟨changed, advanced⟩ := advance_advanced done
        rw [advanced.calls, Function.update_of_ne same]
        exact returned
  | count own current found running last _ worker => rw [worker, there, Option.bind_some, told]
  | send own counted last _ worker => rw [worker, there, Option.bind_some, told]

end Steps

/-! ## Where the results are -/

/-- The tasks whose results the uploader is done with, has, or will have, in this order. -/
def Process.handed (process : Process) : List Nat :=
  process.finished.map Prod.fst ++ process.upload.toList.map Upload.task ++
    process.channel.map Prod.fst

/-- The sleeps of the uploader so far, and the clock. -/
structure Upload.Paced (upload : Upload) : Prop where
  delay : upload.delay = doubled 30 upload.sleeps
  waited : upload.waited = slept 30 upload.sleeps
  /-- It goes to sleep only before it has waited for 300 seconds. -/
  early : ∀ count, count < upload.sleeps → slept 30 count < 300
  sleeping : ∀ wake, upload.asleep = some wake →
    upload.waited < 300 ∧ upload.clock + fromSecs upload.delay ≤ wake
  elapsed : upload.since + fromSecs upload.waited ≤ upload.clock

/-- An upload is dropped when its fifteenth request has failed. -/
def Finish.Late : Finish → Prop
  | .dropped upload now =>
      upload.sleeps = 14 ∧ upload.waited = 301 ∧ upload.since + fromSecs 301 ≤ now
  | _ => True

/-- The results that are sent, and where they are. -/
structure Held (process : Process) : Prop where
  once : process.handed.Nodup
  sent : ∀ id, id ∈ process.handed ↔ id < process.spawned.length ∧ process.tasks id = .sent
  waits : ∀ id result, (id, result) ∈ process.channel → process.returned id = some result
  uploading : ∀ upload, process.upload = some upload →
    process.returned upload.task = some upload.result ∧ upload.Paced
  late : ∀ id ending, (id, ending) ∈ process.finished → ending.Late

namespace Upload.Paced

variable {upload : Upload}

/-- A new upload is paced. -/
theorem start (task : Nat) (result : JobResult) (now : Nat) :
    Upload.Paced ⟨task, result, 1, 0, none, 0, now, now⟩ where
  delay := rfl
  waited := rfl
  early count none := absurd none (Nat.not_lt_zero count)
  sleeping wake asleep := by cases asleep
  elapsed := by
    change now + 0 * 1000000000 ≤ now
    omega

/-- An upload that goes to sleep is paced. -/
theorem sleep (paced : upload.Paced) {now : Nat} (later : upload.clock ≤ now)
    (early : upload.waited < 300) :
    Upload.Paced { upload with asleep := some (now + fromSecs upload.delay), clock := now } where
  delay := paced.delay
  waited := paced.waited
  early := paced.early
  sleeping wake asleep := by
    cases asleep
    exact ⟨early, Nat.le_refl _⟩
  elapsed := paced.elapsed.trans later

/-- An upload that wakes is paced. -/
theorem repost (paced : upload.Paced) {wake now : Nat} (asleep : upload.asleep = some wake)
    (awake : wake ≤ now) :
    Upload.Paced { upload with
      waited := upload.waited + upload.delay
      delay := min (upload.delay * 2) 30
      asleep := none
      sleeps := upload.sleeps + 1
      clock := now } where
  delay := by
    change min (upload.delay * 2) 30 = doubled 30 (upload.sleeps + 1)
    rw [paced.delay, doubled_succ]
  waited := by
    change upload.waited + upload.delay = slept 30 (upload.sleeps + 1)
    rw [paced.waited, paced.delay, slept]
  early count before := by
    rcases Nat.lt_succ_iff_lt_or_eq.mp before with earlier | last
    · exact paced.early count earlier
    · rw [last, ← paced.waited]
      exact (paced.sleeping wake asleep).1
  sleeping wake asleep := by cases asleep
  elapsed := by
    have elapsed := paced.elapsed
    have wakes := (paced.sleeping wake asleep).2
    calc upload.since + fromSecs (upload.waited + upload.delay)
        = upload.since + fromSecs upload.waited + fromSecs upload.delay := by
          rw [fromSecs, Nat.add_mul, ← Nat.add_assoc]
          rfl
      _ ≤ upload.clock + fromSecs upload.delay := Nat.add_le_add_right elapsed _
      _ ≤ now := wakes.trans awake

/-- The fourteenth sleep is the last. -/
theorem late (paced : upload.Paced) (enough : 300 ≤ upload.waited) {now : Nat}
    (later : upload.clock ≤ now) : Finish.Late (.dropped upload now) := by
  have thirty : 0 < 30 := Nat.succ_pos 29
  have thirteenth : slept 30 13 = 271 := rfl
  have fourteenth : slept 30 14 = 301 := rfl
  have most : ¬ 14 < upload.sleeps := by
    intro more
    have early := paced.early 14 more
    omega
  have least : 13 < upload.sleeps := by
    rw [← slept_lt_iff thirty, ← paced.waited]
    omega
  have sleeps : upload.sleeps = 14 := by omega
  have waited : upload.waited = 301 := by rw [paced.waited, sleeps, fourteenth]
  have elapsed := paced.elapsed
  rw [waited] at elapsed
  unfold Finish.Late
  exact ⟨sleeps, waited, elapsed.trans later⟩

end Upload.Paced

namespace Held

variable {process next : Process} {event : ProcessEvent}

/-- At the start nothing is held. -/
theorem new (key : String) (keyMtime : Option Nat) : Held (.new key keyMtime) where
  once := List.nodup_nil
  sent id := iff_of_false List.not_mem_nil fun here => Nat.not_lt_zero _ here.1
  waits id result inside := by cases inside
  uploading upload there := by cases there
  late id ending inside := by cases inside

/-- The results stay where they are. -/
theorem idle (held : Held process) (move : TaskMove process next)
    (channel : next.channel = process.channel) (upload : next.upload = process.upload)
    (finished : next.finished = process.finished)
    (sent : ∀ id, (id < next.spawned.length ∧ next.tasks id = .sent) ↔
      (id < process.spawned.length ∧ process.tasks id = .sent)) : Held next := by
  have handed : next.handed = process.handed := by
    unfold Process.handed
    rw [channel, upload, finished]
  constructor
  · rw [handed]
    exact held.once
  · intro id
    rw [handed, held.sent id]
    exact (sent id).symm
  · intro id result inside
    rw [channel] at inside
    exact Process.returned_stable move (held.waits id result inside)
  · intro current there
    rw [upload] at there
    obtain ⟨returned, paced⟩ := held.uploading current there
    exact ⟨Process.returned_stable move returned, paced⟩
  · intro id ending inside
    rw [finished] at inside
    exact held.late id ending inside

/-- A result that is sent is held by the channel. -/
theorem send (held : Held process) {id : Nat} {result : JobResult}
    (returned : process.returned id = some result) (counted : process.tasks id = .counted)
    (spawned : id < process.spawned.length) :
    Held { process with
      tasks := Function.update process.tasks id .sent
      channel := process.channel ++ [(id, result)] } := by
  have absent : id ∉ process.handed := by
    intro inside
    have sent := ((held.sent id).mp inside).2
    rw [counted] at sent
    cases sent
  have handed : Process.handed { process with
      tasks := Function.update process.tasks id .sent
      channel := process.channel ++ [(id, result)] } = process.handed ++ [id] := by
    unfold Process.handed
    rw [List.map_append, ← List.append_assoc]
    rfl
  constructor
  · rw [handed, ← List.concat_eq_append]
    exact held.once.concat absent
  · intro other
    rw [handed, List.mem_append, List.mem_singleton, held.sent other]
    change _ ↔ other < process.spawned.length ∧
      Function.update process.tasks id Task.sent other = .sent
    rw [Function.update_apply]
    split
    · next same =>
        rw [same]
        exact iff_of_true (.inr rfl) ⟨spawned, rfl⟩
    · next different => exact or_iff_left different
  · intro other last inside
    rcases List.mem_append.mp inside with before | new
    · exact held.waits other last before
    · cases List.mem_singleton.mp new
      exact returned
  · exact held.uploading
  · exact held.late

/-- A result that is taken up is held by the uploader. -/
theorem takeUp (held : Held process) {id now : Nat} {result : JobResult}
    {rest : List (Nat × JobResult)} (free : process.upload = none)
    (first : process.channel = (id, result) :: rest) :
    Held { process with
      channel := rest
      upload := some ⟨id, result, 1, 0, none, 0, now, now⟩ } := by
  have handed : Process.handed { process with
      channel := rest
      upload := some ⟨id, result, 1, 0, none, 0, now, now⟩ } = process.handed := by
    unfold Process.handed
    rw [free, first]
    simp
  constructor
  · rw [handed]
    exact held.once
  · intro other
    rw [handed]
    exact held.sent other
  · intro other last inside
    refine held.waits other last ?_
    rw [first]
    exact List.mem_cons_of_mem _ inside
  · intro upload there
    cases there
    refine ⟨held.waits id result ?_, .start id result now⟩
    rw [first]
    exact List.mem_cons_self
  · exact held.late

/-- An upload that ends is held by its ending. -/
theorem finish (held : Held process) {upload : Upload} {ending : Finish}
    (there : process.upload = some upload) (late : ending.Late) :
    Held (process.finish upload ending) := by
  have handed : (process.finish upload ending).handed = process.handed := by
    unfold Process.handed Process.finish
    rw [there]
    simp
  constructor
  · rw [handed]
    exact held.once
  · intro other
    rw [handed]
    exact held.sent other
  · exact held.waits
  · intro current here
    cases here
  · intro id last inside
    rcases List.mem_append.mp inside with before | new
    · exact held.late id last before
    · cases List.mem_singleton.mp new
      exact late

/-- The uploader goes on with the same result. -/
theorem pace (held : Held process) {upload changed : Upload}
    (there : process.upload = some upload) (task : changed.task = upload.task)
    (result : changed.result = upload.result) (paced : changed.Paced) :
    Held { process with upload := some changed } := by
  have handed : Process.handed { process with upload := some changed } = process.handed := by
    unfold Process.handed
    rw [there, Option.toList_some, Option.toList_some, List.map_singleton, List.map_singleton, task]
  constructor
  · rw [handed]
    exact held.once
  · intro other
    rw [handed]
    exact held.sent other
  · exact held.waits
  · intro current here
    cases here
    rw [task, result]
    exact ⟨(held.uploading upload there).1, paced⟩
  · exact held.late

/-- **One step** keeps every result in one place. -/
theorem step (held : Held process) (tracked : Tracked process)
    (step : ProcessStep process event next) : Held next := by
  cases Process.step_uploads step with
  | idle channel upload finished sent =>
      exact held.idle (Process.step_tasks step) channel upload finished sent
  | send id result returned counted done =>
      obtain ⟨call, there, -⟩ := Option.bind_eq_some_iff.mp returned
      obtain ⟨received, found, -⟩ := tracked.spawned_of_call there
      rw [done]
      exact held.send returned counted (List.getElem?_eq_some_iff.mp found).choose
  | takeUp id now result rest free first done =>
      rw [done]
      exact held.takeUp free first
  | finish upload ending there done dropped acknowledged =>
      rw [done]
      refine held.finish there ?_
      cases ending with
      | dropped last now =>
          obtain ⟨same, enough, later⟩ := dropped last now rfl
          rw [same]
          exact (held.uploading upload there).2.late enough later
      | acknowledged => exact trivial
      | refused => exact trivial
  | sleep upload now there later early done =>
      rw [done]
      exact held.pace there rfl rfl ((held.uploading upload there).2.sleep later early)
  | repost upload wake now there asleep awake done =>
      rw [done]
      exact held.pace there rfl rfl ((held.uploading upload there).2.repost asleep awake)

end Held

/-- The results leave in the order in which they came. -/
theorem Process.handed_prefix {process next : Process} {event : ProcessEvent}
    (step : ProcessStep process event next) :
    process.handed <+: next.handed ∧ process.finished <+: next.finished := by
  unfold Process.handed
  cases Process.step_uploads step with
  | idle channel upload finished sent =>
      rw [channel, upload, finished]
      exact ⟨List.prefix_rfl, List.prefix_rfl⟩
  | send id result returned counted done =>
      rw [done, List.map_append, ← List.append_assoc]
      exact ⟨List.prefix_append _ _, List.prefix_rfl⟩
  | takeUp id now result rest free first done =>
      rw [done, free, first]
      simp
  | finish upload ending there done dropped acknowledged =>
      rw [done, there]
      simp [Process.finish]
  | sleep upload now there later early done =>
      rw [done, there]
      exact ⟨List.prefix_rfl, List.prefix_rfl⟩
  | repost upload wake now there asleep awake done =>
      rw [done, there]
      exact ⟨List.prefix_rfl, List.prefix_rfl⟩

/-- **Throughout a run** every result is held in one place. -/
theorem held_run {key : String} {keyMtime : Option Nat} {events : List ProcessEvent}
    {process : Process} (run : Run ProcessStep (.new key keyMtime) events process) :
    Tracked process ∧ Held process :=
  run.invariant (fun process => Tracked process ∧ Held process)
    (fun _ _ _ held step => ⟨held.1.step step, held.2.step held.1 step⟩)
    ⟨.new key keyMtime, .new key keyMtime⟩

/-- What the call of a task has returned, by the retry policy. -/
theorem Tracked.settled {process : Process} (tracked : Tracked process) {id : Nat}
    {result : JobResult} (returned : process.returned id = some result) :
    ∃ received, process.spawned[id]? = some received ∧
      (judge received.job).settle (process.endings id) = .error result := by
  obtain ⟨call, there, told⟩ := Option.bind_eq_some_iff.mp returned
  obtain ⟨received, found, job⟩ := tracked.spawned_of_call there
  refine ⟨received, found, ?_⟩
  rw [job]
  refine (tracked.told.made id call there).returned ?_
  cases phase : call.phase with
  | returned last =>
      rw [phase] at told
      cases told
      rfl
  | _ =>
      rw [phase] at told
      cases told

/-- **Where the results are.** In every run of a process, a result that a task has put on the
channel is in exactly one place, and the results leave in the order in which they came. What waits
or is posted is what the retry policy makes of how the requests for that job ended. A result is
dropped only after fifteen requests and 301 seconds. -/
theorem results_in_one_place {key : String} {keyMtime : Option Nat} {events : List ProcessEvent}
    {process : Process} (run : Run ProcessStep (.new key keyMtime) events process) :
    process.handed.Nodup ∧
    (∀ id, id ∈ process.handed ↔ id < process.spawned.length ∧ process.tasks id = .sent) ∧
    (∀ event next, ProcessStep process event next →
      process.handed <+: next.handed ∧ process.finished <+: next.finished) ∧
    (∀ id result, (id, result) ∈ process.channel ++
        process.upload.toList.map (fun upload => (upload.task, upload.result)) →
      ∃ received, process.spawned[id]? = some received ∧
        (judge received.job).settle (process.endings id) = .error result) ∧
    ∀ id upload now, (id, .dropped upload now) ∈ process.finished →
      upload.sleeps = 14 ∧ upload.waited = 301 ∧ upload.since + fromSecs 301 ≤ now := by
  obtain ⟨tracked, held⟩ := held_run run
  refine ⟨held.once, held.sent, fun event next => Process.handed_prefix, ?_, ?_⟩
  · intro id result inside
    rcases List.mem_append.mp inside with waits | posted
    · exact tracked.settled (held.waits id result waits)
    · obtain ⟨upload, there, same⟩ := List.mem_map.mp posted
      cases same
      exact tracked.settled (held.uploading upload (Option.mem_toList.mp there)).1
  · exact fun id upload now inside => held.late id _ inside

def onlyJob : Received := ⟨⟨7, "euw1", "league-by-puuid", "/path", 150000⟩, 0⟩

def notFound : Response := ⟨404, "404 Not Found", none, none, none, false, .ok ""⟩

/-- A job that finds nothing, and a server that cannot be reached any more. -/
def unreachable : List ProcessEvent :=
  [.look, .poll, .reply [onlyJob], .spawn, .pace,
    .call 0 0 (.acquire 10), .call 0 0 (.acquire 10), .call 0 0 .send,
    .call 0 1000 (.answer notFound), .call 0 1000 .adopt, .call 0 1000 .adopt,
    .call 0 1000 .conclude, .count 0, .send 0, .takeUp 0] ++
  (List.range 14).flatMap (fun sleeps =>
    [.postFailed (fromSecs (slept 30 sleeps)), .repost (fromSecs (slept 30 (sleeps + 1)))]) ++
  [.postFailed (fromSecs 301)]

/-- The result is dropped. -/
theorem results_in_one_place_dropped : ∃ process upload,
    Run ProcessStep (.new "key" none) unreachable process ∧ process.handed = [0] ∧
    (0, .dropped upload (fromSecs 301)) ∈ process.finished ∧ upload.waited = 301 := by
  have done : (follow Process.step (fun _ _ => true) (.new "key" none) unreachable).any
      fun process => process.handed = [0] && process.finished.any fun entry =>
        match entry with
        | (0, .dropped _ now) => now = fromSecs 301
        | _ => false := by
    decide
  obtain ⟨process, run, found⟩ := run_of_follow done
  rw [Bool.and_eq_true, decide_eq_true_eq, List.any_eq_true] at found
  obtain ⟨handed, ⟨id, ending⟩, inside, dropped⟩ := found
  have steps := run.mono fun _ _ _ step => step.1
  split at dropped
  · next upload now same =>
      cases same
      rw [of_decide_eq_true dropped] at inside
      exact ⟨process, upload, steps, handed, inside,
        ((results_in_one_place steps).2.2.2.2 0 upload _ inside).2.1⟩
  · cases dropped

end LolCrawler.Node
