import LolCrawler.Broker.Offers
import LolCrawler.Fleet.Delivery

/-! # Bodies come from Riot

A fetch asks for a path on a host, and what resolves it has been on a long way: a reply to a
poll, a call of the executor, the channel and the uploader of a process, and a request that may
come late. What resolves it is still what Riot has answered to a request of some process for the
job with its id. If that job is from this life of the server, it is the job of the fetch
(`bodies_from_riot`). The ids of another life are given again, so an answer of that life may
resolve another fetch (`stale_body_resolves`).
-/

namespace LolCrawler

open Foundation

namespace Node

/-- The jobs that the replies of the server have brought. -/
def Process.Has (process : Process) (received : Received) : Prop :=
  received ∈ process.spawned ∨ ∃ jobs, process.stage = .spawning jobs ∧ received ∈ jobs

section Steps

variable {process next : Process} {event : ProcessEvent} {received : Received}

/-- Who is spawned was there before. -/
theorem Process.spawned_before (step : ProcessStep process event next)
    (inside : received ∈ next.spawned) : process.Has received := by
  cases Process.step_tasks step with
  | idle same =>
      rw [same.spawned] at inside
      exact .inl inside
  | spawn first rest stage free calls endings inflight tasks spawned =>
      rw [spawned] at inside
      rcases List.mem_append.mp inside with before | new
      · exact .inl before
      · rw [List.mem_singleton.mp new]
        exact .inr ⟨_, stage, List.mem_cons_self⟩
  | call id now act call there done endings inflight tasks spawned =>
      rw [spawned] at inside
      exact .inl inside
  | count id call there running result returned worker endings inflight tasks spawned =>
      rw [spawned] at inside
      exact .inl inside
  | send id counted result returned worker endings inflight tasks spawned =>
      rw [spawned] at inside
      exact .inl inside

/-- Jobs come only with a reply. -/
theorem Process.has_before (step : ProcessStep process event next) (has : next.Has received) :
    process.Has received ∨ ∃ jobs, event = .reply jobs ∧ received ∈ jobs := by
  rcases has with inside | ⟨jobs, spawning, inside⟩
  · exact .inl (Process.spawned_before step inside)
  · cases Process.step_loop step with
    | aside stage inflight => exact .inl (.inr ⟨jobs, stage.symm.trans spawning, inside⟩)
    | settles stage inflight =>
        rw [spawning] at stage
        cases stage
    | polls stage inflight =>
        rw [spawning] at stage
        cases stage
    | replied pending told polling stage inflight =>
        rw [spawning] at stage
        cases stage
        exact .inr ⟨jobs, rfl, inside⟩
    | spawns first rest before stage inflight =>
        rw [spawning] at stage
        cases stage
        exact .inl (.inr ⟨_, before, List.mem_cons_of_mem _ inside⟩)

end Steps

/-- What a process posts for a task, Riot has said to one of its requests. -/
theorem Tracked.vouched {process : Process} (tracked : Tracked process) {id : Nat}
    {result : JobResult} (returned : process.returned id = some result) :
    ∃ received, process.spawned[id]? = some received ∧
      ∃ ending ∈ process.endings id, Vouched received.job ending result := by
  obtain ⟨received, found, settled⟩ := tracked.settled returned
  obtain ⟨used, ending, inside, judged⟩ := Policy.settle_error settled
  exact ⟨received, found, ending, inside, judge_vouched judged⟩

end Node

namespace Fleet

variable {fleet next : Fleet} {event : FleetEvent}

/-- The host, the method and the path of a job. -/
def target (job : Job) : String × String × String := (job.host, job.method, job.path)

/-- A job of this life is what the fetch of its id asks for, if it is the job of a fetch. -/
structure Fits (fleet : Fleet) (received : Node.Received) : Prop where
  life : received.life ≤ fleet.life
  live : received.life = fleet.life → received.job.id < fleet.broker.nextId
  asked : received.life = fleet.life → ∀ wanted, fleet.asked received.job.id = some wanted →
    wanted = target received.job

/-- The jobs are what the fetches of this life ask for, at the broker and with the processes. -/
structure Faithful (fleet : Fleet) : Prop where
  fresh : ∀ id, fleet.broker.nextId ≤ id → fleet.asked id = none
  offers : ∀ id job, fleet.broker.offer id = some job → ∀ wanted, fleet.asked id = some wanted →
    wanted = target job
  has : ∀ id received, (fleet.processes id).Has received → fleet.Fits received
  replies : ∀ reply ∈ fleet.replies, ∀ received ∈ reply.jobs, fleet.Fits received

section Steps

variable {Value : Type} [DecidableEq Value] (fromStr : String → Option Value)

/-- In the same life, ids are given and not taken back, and fetches are asked under new ids. -/
theorem Fits.later {received : Node.Received} (fits : fleet.Fits received)
    (life : next.life = fleet.life) (nextId : fleet.broker.nextId ≤ next.broker.nextId)
    (asked : ∀ id, id < fleet.broker.nextId → next.asked id = fleet.asked id) :
    next.Fits received where
  life := life ▸ fits.life
  live same := Nat.lt_of_lt_of_le (fits.live (same.trans life)) nextId
  asked same wanted found := by
    rw [asked _ (fits.live (same.trans life))] at found
    exact fits.asked (same.trans life) wanted found

namespace Faithful

/-- At the start every body is from the server. -/
theorem new (nodeOf : Nat → Nat) (key : Nat → String) (keyMtime : Nat → Option Nat) :
    Faithful (.new nodeOf key keyMtime) where
  fresh id above := rfl
  offers id job found := by cases found
  has id received has := by
    rcases has with inside | ⟨jobs, spawning, -⟩
    · cases inside
    · cases spawning
  replies reply inside := by cases inside

/-- The broker moves on, and no fetch is asked. -/
theorem broker (faithful : fleet.Faithful) (offers : Broker.Offers next.broker fleet.broker)
    (processes : next.processes = fleet.processes) (life : next.life = fleet.life)
    (asked : next.asked = fleet.asked)
    (replies : ∀ reply ∈ next.replies, reply ∉ fleet.replies → ∀ received ∈ reply.jobs,
      next.Fits received) : next.Faithful where
  fresh id above := by
    rw [asked]
    exact faithful.fresh id (Nat.le_trans offers.nextId above)
  offers id job found wanted there := by
    rw [asked] at there
    rcases offers.old id job found with before | new
    · exact faithful.offers id job before wanted there
    · rw [faithful.fresh id new] at there
      cases there
  has id received has := by
    rw [processes] at has
    exact (faithful.has id received has).later life offers.nextId fun _ _ => congrFun asked _
  replies reply inside received job := by
    by_cases old : reply ∈ fleet.replies
    · exact (faithful.replies reply old received job).later life offers.nextId
        fun _ _ => congrFun asked _
    · exact replies reply inside old received job

/-- The fleet stays faithful across a step of one process. -/
theorem process (faithful : fleet.Faithful) {id : Nat} {process : Node.Process}
    {inner : Node.ProcessEvent} (broker : next.broker = fleet.broker)
    (processes : next.processes = Function.update fleet.processes id process)
    (life : next.life = fleet.life) (asked : next.asked = fleet.asked)
    (step : Node.ProcessStep (fleet.processes id) inner process)
    (replies : ∀ reply ∈ next.replies, reply ∈ fleet.replies)
    (told : ∀ jobs, inner = .reply jobs → ∀ received ∈ jobs, fleet.Fits received) :
    next.Faithful := by
  have later : ∀ {received : Node.Received}, fleet.Fits received → next.Fits received := by
    intro received fits
    refine fits.later life (Nat.le_of_eq ?_) fun _ _ => congrFun asked _
    rw [broker]
  constructor
  · rw [broker, asked]
    exact faithful.fresh
  · rw [broker, asked]
    exact faithful.offers
  · intro owner received has
    rw [processes, Function.update_apply] at has
    split at has
    · rcases Node.Process.has_before step has with before | ⟨jobs, same, inside⟩
      · exact later (faithful.has id received before)
      · exact later (told jobs same received inside)
    · exact later (faithful.has owner received has)
  · exact fun reply inside received job =>
      later (faithful.replies reply (replies reply inside) received job)

/-- The fleet stays faithful when the server answers a poll. -/
theorem work (faithful : fleet.Faithful) (sound : Broker.Sound fleet.broker []) {index : Nat}
    {request : WorkRequest} {poll : Broker.Poll} {hosts : List String} (distinct : hosts.Nodup)
    (late : Bool) : (fleet.work index request poll hosts late).Faithful := by
  have offers := Broker.takeJobs_offers fleet.broker poll hosts
  unfold Fleet.work
  dsimp only
  split
  · exact faithful.broker offers rfl rfl rfl fun reply inside absent => absurd inside absent
  · refine faithful.broker offers rfl rfl rfl fun reply inside absent received job => ?_
    rcases List.mem_append.mp inside with old | new
    · exact absurd old absent
    · cases List.mem_singleton.mp new
      obtain ⟨handed, there, rfl⟩ := List.mem_map.mp job
      have offered := Broker.takeJobs_offer fleet.broker poll distinct handed there
      obtain ⟨state, live, -⟩ := Option.map_eq_some_iff.mp offered
      exact ⟨Nat.le_refl _, fun _ => Nat.lt_of_lt_of_le (sound.fresh _ state live) offers.nextId,
        fun _ => faithful.offers handed.id handed offered⟩

/-- A fetch keeps the fleet faithful. -/
theorem fetch (faithful : fleet.Faithful) (host method path : String) (now : Nat) :
    Faithful { fleet with
      broker := fleet.broker.fetch host method path now
      asked := Function.update fleet.asked fleet.broker.nextId (some (host, method, path)) } := by
  have offers := Broker.fetch_offers fleet.broker host method path now
  have before : ∀ id, id < fleet.broker.nextId → Function.update fleet.asked fleet.broker.nextId
      (some (host, method, path)) id = fleet.asked id :=
    fun id below => Function.update_of_ne (Nat.ne_of_lt below) _ _
  constructor
  · intro id above
    have other : id ≠ fleet.broker.nextId := Nat.ne_of_gt above
    change Function.update fleet.asked fleet.broker.nextId (some (host, method, path)) id = none
    rw [Function.update_of_ne other]
    exact faithful.fresh id (Nat.le_of_lt above)
  · intro id job found wanted there
    change Function.update fleet.asked fleet.broker.nextId (some (host, method, path)) id =
      some wanted at there
    by_cases own : id = fleet.broker.nextId
    · rw [own, Function.update_self, Option.some.injEq] at there
      rw [own] at found
      rw [Broker.fetch_offer fleet.broker host method path now, Option.some.injEq] at found
      rw [← there, ← found]
      rfl
    · rw [Function.update_of_ne own] at there
      rcases offers.old id job found with old | new
      · exact faithful.offers id job old wanted there
      · rw [faithful.fresh id new] at there
        cases there
  · exact fun id received has => (faithful.has id received has).later rfl offers.nextId before
  · exact fun reply inside received job =>
      (faithful.replies reply inside received job).later rfl offers.nextId before

/-- What is left of an earlier life is not of this one. -/
theorem restart (faithful : fleet.Faithful) :
    Faithful { fleet with
      broker := .new, requests := [], life := fleet.life + 1, asked := fun _ => none } := by
  have earlier : ∀ {received : Node.Received}, fleet.Fits received →
      Fits { fleet with
        broker := .new, requests := [], life := fleet.life + 1, asked := fun _ => none } received :=
    fun fits => ⟨Nat.le_succ_of_le fits.life,
      fun same => absurd (Nat.le_of_eq same.symm) (Nat.not_le_of_lt (Nat.lt_succ_of_le fits.life)),
      fun same => absurd (Nat.le_of_eq same.symm) (Nat.not_le_of_lt (Nat.lt_succ_of_le fits.life))⟩
  exact ⟨fun id above => rfl, fun id job found => (by cases found),
    fun id received has => earlier (faithful.has id received has),
    fun reply inside received job => earlier (faithful.replies reply inside received job)⟩

/-- **One step** keeps the fleet faithful. -/
theorem step (faithful : fleet.Faithful) (brokered : fleet.Brokered fromStr)
    (step : Step fromStr fleet event next) : next.Faithful := by
  obtain ⟨done, admissible⟩ := step
  obtain ⟨calls, run⟩ := brokered
  cases step_moves fromStr done with
  | @process id inner process quiet step =>
      refine faithful.process rfl rfl rfl rfl step (fun reply inside => inside) fun jobs same => ?_
      rw [same] at quiet
      cases quiet
  | poll ready step =>
      exact faithful.process rfl rfl rfl rfl step (fun reply inside => inside) nofun
  | @reply index reply process there current step =>
      refine faithful.process rfl rfl rfl rfl step
        (fun other left => List.mem_of_mem_eraseIdx left) fun jobs same => ?_
      cases same
      exact faithful.replies reply (List.mem_of_getElem? there)
  | @post id event inner process upload step sends uploads =>
      refine faithful.process rfl rfl rfl rfl step (fun reply inside => inside) fun jobs same => ?_
      rw [same] at sends
      rcases sends with ⟨now, other⟩ | ⟨now, other⟩
      · cases other
      · cases other
  | acknowledge there current step =>
      exact faithful.process rfl rfl rfl rfl step (fun reply inside => inside) nofun
  | work there => exact faithful.work (Broker.run_sound fromStr run) admissible.1 _
  | result there =>
      exact faithful.broker (Broker.complete_offers fromStr _ _ _ _) rfl rfl rfl
        fun reply inside absent => absurd inside absent
  | @server call own =>
      cases call with
      | fetch host method path now => exact faithful.fetch host method path now
      | takeJobs poll hosts => cases own
      | complete node result nowUnixMs => cases own
      | sweep now expired stale =>
          exact faithful.broker
            (Broker.apply_offers fromStr fleet.broker (.sweep now expired stale))
            rfl rfl rfl fun reply inside absent => absurd inside absent
      | enrollRuntime id name =>
          exact faithful.broker (Broker.apply_offers fromStr fleet.broker (.enrollRuntime id name))
            rfl rfl rfl fun reply inside absent => absurd inside absent
      | touch id now =>
          exact faithful.broker (Broker.apply_offers fromStr fleet.broker (.touch id now))
            rfl rfl rfl fun reply inside absent => absurd inside absent
  | restart => exact faithful.restart

end Faithful

/-- Riot has said this to a request that a process made for a job with this id. -/
structure FromRiot (fleet : Fleet) (id : Nat) (content : Option String) (process task : Nat)
    (received : Node.Received) (response : Node.Response) : Prop where
  spawned : (fleet.processes process).spawned[task]? = some received
  named : received.job.id = id
  answered : .ok response ∈ (fleet.processes process).endings task
  tells : response.Says content
  life : received.life ≤ fleet.life
  /-- A job of this life is the job of the fetch. -/
  asked : received.life = fleet.life → ∀ wanted, fleet.asked id = some wanted →
    wanted = target received.job

/-- A result that a process has posted, and that says something. -/
theorem fromRiot_of_post (composed : Composed fromStr fleet) (delivered : fleet.Delivered)
    (faithful : fleet.Faithful) {post : Post} (inside : post ∈ fleet.posts)
    {content : Option String}
    (tells : (∃ body, content = some body ∧ post.result.outcome = .ok ∧
        post.result.body.getD "" = body) ∨
      content = none ∧ post.result.outcome = .notFound) :
    ∃ received response, fleet.FromRiot post.result.id content post.process post.task received
      response := by
  obtain ⟨received, found, ending, ended, vouched⟩ :=
    (composed.tracked post.process).vouched (delivered.posts post inside).2
  have fits := faithful.has post.process received (.inl (List.mem_of_getElem? found))
  have told : ∃ response, ending = .ok response ∧ response.Says content := by
    rcases tells with ⟨body, rfl, outcome, read⟩ | ⟨rfl, outcome⟩
    · obtain ⟨response, text, same, said, whole⟩ := vouched.ok outcome
      rw [whole, Option.getD_some] at read
      rw [← read]
      exact ⟨response, same, said⟩
    · exact vouched.notFound outcome
  obtain ⟨response, rfl, said⟩ := told
  refine ⟨received, response, found, vouched.id.symm, ended, said, fits.life, ?_⟩
  rw [vouched.id]
  exact fits.asked

/-- **Bodies come from Riot.** In every run of a fleet, with any loss, delay and reordering on the
way and any restarts of the server, whatever resolves a fetch with a body or with nothing is what
Riot has answered to a request that some process made for a job with the id of the fetch; and a job
of this life of the server is for the host, the method and the path that the fetch asks for. -/
theorem bodies_from_riot {nodeOf : Nat → Nat} {key : Nat → String} {keyMtime : Nat → Option Nat}
    {events : List FleetEvent} (run : Run (Step fromStr) (.new nodeOf key keyMtime) events fleet)
    (step : Step fromStr fleet event next) {id : Nat} {content : Option String}
    (silent : fleet.broker.channels id = none)
    (resolved : next.broker.channels id = some (.ok content)) :
    ∃ process task received response, fleet.FromRiot id content process task received response := by
  have kept : (Composed fromStr fleet ∧ fleet.Delivered) ∧ fleet.Faithful :=
    run.invariant (fun fleet => (Composed fromStr fleet ∧ fleet.Delivered) ∧ fleet.Faithful)
      (fun _ _ _ kept step => ⟨⟨kept.1.1.step fromStr step, kept.1.2.step fromStr kept.1.1 step⟩,
        kept.2.step fromStr kept.1.1.broker step⟩)
      ⟨⟨.new fromStr nodeOf key keyMtime, .new nodeOf key keyMtime⟩, .new nodeOf key keyMtime⟩
  obtain ⟨⟨composed, delivered⟩, faithful⟩ := kept
  obtain ⟨calls, own⟩ := composed.broker
  have sound := Broker.run_sound fromStr own
  have resolution : ∀ (call : Call) {later : Broker}, Broker.Step fromStr fleet.broker call later →
      later.channels id = some (.ok content) →
        Broker.Resolution fleet.broker call id (.ok content) :=
    fun _ _ called answered => Broker.step_resolves fromStr sound called silent answered
  obtain ⟨done, admissible⟩ := step
  cases step_moves fromStr done with
  | @result index nowUnixMs post there =>
      have inside := List.mem_of_getElem? there
      have way := resolution (.complete (fleet.nodeOf post.process) post.result nowUnixMs)
        ⟨trivial, rfl⟩ resolved
      cases way with
      | ok live accepted outcome =>
          obtain ⟨received, response, origin⟩ := fromRiot_of_post fromStr composed delivered
            faithful inside (.inl ⟨_, rfl, outcome, rfl⟩)
          exact ⟨_, _, received, response, origin⟩
      | notFound live accepted outcome =>
          obtain ⟨received, response, origin⟩ := fromRiot_of_post fromStr composed delivered
            faithful inside (.inr ⟨rfl, outcome⟩)
          exact ⟨_, _, received, response, origin⟩
  | @work index now activeNow dice hosts late request there =>
      have same : (fleet.work index request (fleet.taking request now activeNow dice) hosts
          late).broker =
            (fleet.broker.takeJobs (fleet.taking request now activeNow dice) hosts).1 := by
        unfold Fleet.work
        dsimp only
        split
        · rfl
        · rfl
      rw [same] at resolved
      cases resolution (.takeJobs (fleet.taking request now activeNow dice) hosts)
        ⟨admissible, rfl⟩ resolved
  | @server call own =>
      have way := resolution call ⟨admissible, rfl⟩ resolved
      cases way with
      | ok live accepted outcome => cases own
      | notFound live accepted outcome => cases own
  | process quiet step => exact absurd (silent.symm.trans resolved) nofun
  | poll ready step => exact absurd (silent.symm.trans resolved) nofun
  | reply there current step => exact absurd (silent.symm.trans resolved) nofun
  | post step sends uploads => exact absurd (silent.symm.trans resolved) nofun
  | acknowledge there current step => exact absurd (silent.symm.trans resolved) nofun
  | restart => cases resolved

end Steps

def found : Node.Response := ⟨200, "200 OK", none, none, none, false, .ok "x"⟩

/-- The job is done, and the result is on its way. -/
def posted : List FleetEvent :=
  spawned ++ [.process 0 (.call 0 0 (.acquire 10)), .process 0 (.call 0 0 (.acquire 10)),
    .process 0 (.call 0 0 .send), .process 0 (.call 0 1000 (.answer found)),
    .process 0 (.call 0 1000 .adopt), .process 0 (.call 0 1000 .adopt),
    .process 0 (.call 0 1000 .conclude), .process 0 (.count 0), .process 0 (.send 0), .takeUp 0 0]

/-- The fetch with this id is resolved with this body by the event. -/
def resolves (fleet : Fleet) (event : FleetEvent) (id : Nat) (body : String) : Bool :=
  (fleet.broker.channels id).isNone && (fleet.step (some : String → Option String) event).any
    fun next => match next.broker.channels id with
      | some (.ok (some text)) => text = body
      | _ => false

/-- A body that resolves a fetch is accepted by the broker. -/
theorem of_resolves {fleet : Fleet} {index nowUnixMs id : Nat} {body : String}
    (done : fleet.resolves (.result index nowUnixMs) id body) :
    fleet.broker.channels id = none ∧ ∃ next,
      Step (some : String → Option String) fleet (.result index nowUnixMs) next ∧
      next.broker.channels id = some (.ok (some body)) := by
  unfold resolves at done
  rw [Bool.and_eq_true, Option.isNone_iff_eq_none, Option.any_eq_true] at done
  obtain ⟨silent, next, made, answered⟩ := done
  refine ⟨silent, next, ⟨made, trivial⟩, ?_⟩
  split at answered
  · next text there =>
      rw [there, of_decide_eq_true answered]
  · cases answered

/-- The server is started again, and asks for another path. -/
def restarted : List FleetEvent :=
  [.restart, .server (.fetch "europe" "match-v5.match" "/y" 0)]

/-- The result resolves the fetch, also after the restart. -/
def resolvesTwice (fleet : Fleet) : Bool :=
  fleet.resolves (.result 0 0) 1 "x" &&
    (follow (Fleet.step (some : String → Option String)) (fun _ _ => true) fleet restarted).any
      fun later => later.resolves (.result 0 0) 1 "x" &&
        later.asked 1 = some ("europe", "match-v5.match", "/y")

/-- One post resolves two fetches. -/
theorem posted_run : ∃ fleet,
    Run (Step (some : String → Option String)) idle (polled ++ posted) fleet ∧
      fleet.resolvesTwice := by
  have handed : ∃ fleet, Run (Step (some : String → Option String)) idle polled fleet ∧
      (follow (Fleet.step (some : String → Option String)) (fun _ => plain) fleet posted).any
        resolvesTwice := by
    refine ⟨_, .cons ⟨rfl, trivial⟩ (.cons ⟨rfl, trivial⟩ (.cons ⟨rfl, trivial⟩
      (.cons ⟨rfl, Broker.enumerates_host (by decide) ?_⟩ (.nil _)))), by decide⟩
    exact fun other distinct => Function.update_of_ne distinct ..
  obtain ⟨before, first, rest⟩ := handed
  obtain ⟨fleet, second, there⟩ := run_of_plain _ rest
  exact ⟨fleet, first.append second, there⟩

/-- The body is Riot's. -/
theorem bodies_from_riot_posted : ∃ fleet process task received response,
    Run (Step (some : String → Option String)) idle (polled ++ posted) fleet ∧
      fleet.FromRiot 1 (some "x") process task received response := by
  obtain ⟨fleet, run, there⟩ := posted_run
  rw [resolvesTwice, Bool.and_eq_true] at there
  obtain ⟨silent, next, step, answered⟩ := of_resolves there.1
  obtain ⟨process, task, received, response, origin⟩ := bodies_from_riot _ run step silent answered
  exact ⟨fleet, process, task, received, response, run, origin⟩

/-- After a restart the same result resolves a fetch for another path. -/
theorem stale_body_resolves : ∃ fleet next events,
    Run (Step (some : String → Option String)) idle events fleet ∧
    Step (some : String → Option String) fleet (.result 0 0) next ∧
    fleet.asked 1 = some ("europe", "match-v5.match", "/y") ∧
    fleet.broker.channels 1 = none ∧ next.broker.channels 1 = some (.ok (some "x")) := by
  obtain ⟨fleet, run, there⟩ := posted_run
  rw [resolvesTwice, Bool.and_eq_true] at there
  obtain ⟨later, further, again⟩ := run_of_follow there.2
  rw [Bool.and_eq_true, decide_eq_true_eq] at again
  obtain ⟨silent, next, step, answered⟩ := of_resolves again.1
  have steps : Run (Step (some : String → Option String)) fleet restarted later := by
    cases further with
    | cons first rest =>
        cases rest with
        | cons second rest =>
            cases rest with
            | nil => exact .cons ⟨first.1, trivial⟩ (.cons ⟨second.1, trivial⟩ (.nil _))
  exact ⟨later, next, _, run.append steps, step, again.2, silent, answered⟩

end Fleet

end LolCrawler
