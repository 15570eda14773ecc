import Mathlib
import LolCrawler.Broker.Offers

/-! # Waiting in turn

What is queued goes to the back, and a poll takes from the front. So an entry is behind some of
those that were queued before it and behind no others, and each poll of a node that may run its job
takes as many of these as it has room for: by the time such nodes have asked for one more job than
were queued before it, a poll has taken the entry (`queued_in_turn`). Entries of jobs that are gone
count as well, and leave their queue like the others.

A shutdown clears the queues; it is no call of these runs.
-/

namespace LolCrawler.Broker

open Foundation

/-- The jobs of a host that a call asks for, unless its node is the excluded one. -/
def asks (host : String) (exclude : Option Nat) : Call → Nat
  | .takeJobs poll _ => if exclude = some poll.node then 0 else room poll host
  | _ => 0

def asked (host : String) (exclude : Option Nat) (calls : List Call) : Nat :=
  (calls.map (asks host exclude)).sum

/-- The entry waits behind some of these, and at least so many of them have left. -/
def Behind (entry : Nat × Option Nat) (front : List (Nat × Option Nat)) (gone : Nat)
    (queue : List (Nat × Option Nat)) : Prop :=
  ∃ ahead back, queue = ahead ++ entry :: back ∧ ahead.Sublist front ∧
    ahead.length + gone ≤ front.length

/-- What is queued is behind the entry. -/
theorem Behind.append {entry : Nat × Option Nat} {front queue : List (Nat × Option Nat)}
    {gone : Nat} (waits : Behind entry front gone queue) (new : List (Nat × Option Nat)) :
    Behind entry front gone (queue ++ new) := by
  obtain ⟨ahead, back, rfl, still, left⟩ := waits
  exact ⟨ahead, back ++ new, by simp, still, left⟩

/-- What is kept is in order. -/
theorem pick_sublist (node : Nat) : ∀ (cap : Nat) (queue : List (Nat × Option Nat)),
    (pick node cap queue).2.Sublist queue
  | 0, queue => by
      rw [pick]
  | cap + 1, [] => by
      rw [pick]
  | cap + 1, first :: queue => by
      rw [pick]
      split
      · exact (pick_sublist node (cap + 1) queue).cons_cons first
      · exact (pick_sublist node cap queue).cons first

/-- **A cut** takes the entry, or as many of those before it as there is room for. -/
theorem pick_behind (node : Nat) (entry : Nat × Option Nat) (back : List (Nat × Option Nat)) :
    ∀ (cap : Nat) (ahead : List (Nat × Option Nat)),
      (entry.2 ≠ some node ∧ entry.1 ∈ (pick node cap (ahead ++ entry :: back)).1 ∧
        (pick node cap (ahead ++ entry :: back)).2.Sublist (ahead ++ back)) ∨
        Behind entry ahead (if entry.2 = some node then 0 else cap)
          (pick node cap (ahead ++ entry :: back)).2
  | 0, ahead => by
      rw [pick, ite_self]
      exact .inr ⟨ahead, back, rfl, .refl ahead, Nat.le_refl _⟩
  | cap + 1, [] => by
      rw [List.nil_append, pick]
      by_cases excluded : entry.2 = some node
      · simp only [excluded, ↓reduceIte]
        exact .inr ⟨[], _, rfl, .refl [], Nat.le_refl _⟩
      · rw [if_neg excluded]
        exact .inl ⟨excluded, List.mem_cons_self, pick_sublist node cap back⟩
  | cap + 1, first :: ahead => by
      rw [List.cons_append, pick]
      by_cases passed : first.2 = some node
      · simp only [passed, ↓reduceIte]
        rcases pick_behind node entry back (cap + 1) ahead with
          ⟨may, taken, kept⟩ | ⟨kept, rest, is, still, left⟩
        · exact .inl ⟨may, taken, kept.cons_cons first⟩
        · refine .inr ⟨first :: kept, rest, by rw [is, List.cons_append], still.cons_cons first, ?_⟩
          rw [List.length_cons, List.length_cons]
          omega
      · rw [if_neg passed]
        rcases pick_behind node entry back cap ahead with
          ⟨may, taken, kept⟩ | ⟨kept, rest, is, still, left⟩
        · exact .inl ⟨may, List.mem_cons_of_mem _ taken, kept.cons first⟩
        · refine .inr ⟨kept, rest, is, still.cons first, ?_⟩
          rw [List.length_cons]
          split at left
          · next own =>
              rw [if_pos own]
              omega
          · next own =>
              rw [if_neg own]
              omega

/-- The entry is taken, or stays behind fewer. -/
theorem Behind.pick {node cap gone : Nat} {entry : Nat × Option Nat}
    {front queue : List (Nat × Option Nat)} (waits : Behind entry front gone queue) :
    (entry.2 ≠ some node ∧ entry.1 ∈ (Broker.pick node cap queue).1 ∧
        ∃ ahead back, queue = ahead ++ entry :: back ∧ ahead.Sublist front ∧
          (Broker.pick node cap queue).2.Sublist (ahead ++ back)) ∨
      Behind entry front (gone + if entry.2 = some node then 0 else cap)
        (Broker.pick node cap queue).2 := by
  obtain ⟨ahead, back, rfl, still, left⟩ := waits
  rcases pick_behind node entry back cap ahead with
    ⟨may, taken, kept⟩ | ⟨kept, rest, is, inside, less⟩
  · exact .inl ⟨may, taken, ahead, back, rfl, still, kept⟩
  · exact .inr ⟨kept, rest, is, inside.trans still, by omega⟩

variable {broker next : Broker} {host : String} {entry : Nat × Option Nat}
  {front : List (Nat × Option Nat)} {gone : Nat}

/-! ## Calls that queue -/

/-- The queues grow at the back. -/
def Grows (next broker : Broker) : Prop :=
  ∀ host, ∃ new, next.queue host = broker.queue host ++ new

namespace Grows

/-- The same queues have not shrunk. -/
theorem same (queues : next.queues = broker.queues) : Grows next broker := fun host =>
  ⟨[], by rw [queue, queue, queues, List.append_nil]⟩

/-- Two changes, one after the other, that only queue. -/
theorem trans {last : Broker} (second : Grows last next) (first : Grows next broker) :
    Grows last broker := fun host => by
  obtain ⟨new, one⟩ := first host
  obtain ⟨newer, two⟩ := second host
  exact ⟨new ++ newer, by rw [two, one, List.append_assoc]⟩

/-- Jobs that are dropped leave their entries. -/
theorem drops (drops : Drops next broker) : Grows next broker := same drops.queues

/-- An entry is queued at the back. -/
theorem pushBack (broker : Broker) (host : String) (entry : Nat × Option Nat) :
    Grows (broker.pushBack host entry) broker := fun other => by
  by_cases here : other = host
  · subst here
    refine ⟨[entry], ?_⟩
    rw [queue, pushBack_queues, Function.update_self]
    rfl
  · refine ⟨[], ?_⟩
    rw [queue, pushBack_queues, Function.update_of_ne here, List.append_nil]
    rfl

/-- Who waits stays behind the same. -/
theorem behind (grows : Grows next broker) (waits : Behind entry front gone (broker.queue host)) :
    Behind entry front gone (next.queue host) := by
  obtain ⟨new, is⟩ := grows host
  rw [is]
  exact waits.append new

end Grows

/-- A lease that ends queues at the back. -/
theorem release_grows (broker : Broker) (id : Nat) (countAttempt : Bool) :
    Grows (broker.release id countAttempt) broker := by
  unfold release
  cases live : broker.jobs id with
  | none => exact .same rfl
  | some job =>
      have given : Grows (broker.setJob id (job.unlease countAttempt)) broker := .same rfl
      simp only
      split
      · exact (Grows.drops (drops_abandon _ _ _)).trans given
      · exact (Grows.pushBack _ _ _).trans given

section Results

variable {Value : Type} [DecidableEq Value] (fromStr : String → Option Value)

/-- An answer queues at the back. -/
theorem complete_grows (broker : Broker) (node : Nat) (result : JobResult) (nowUnixMs : Nat) :
    Grows (complete fromStr broker node result nowUnixMs) broker := by
  have completion := complete_completion fromStr broker node result nowUnixMs
  generalize complete fromStr broker node result nowUnixMs = next at completion ⊢
  cases completion with
  | stale refused => exact .same rfl
  | @delivered job body live accepted filed =>
      have table := deliver_sameTable fromStr broker node result job body nowUnixMs
      have resolved := (drops_send (broker.removeJob result.id) job.responder body.response).trans
        (drops_removeJob broker result.id)
      exact .same (table.queues.trans resolved.queues)
  | keyRejected live accepted outcome => exact release_grows (broker.markKeyBad node) _ _
  | @exhausted job live accepted outcome reached =>
      exact (Grows.drops (drops_abandon _ _ _)).trans (.same rfl)
  | @requeued job live accepted outcome within =>
      exact (release_grows _ _ _).trans (.same rfl)

/-- Only a poll takes from a queue. -/
theorem apply_grows (broker : Broker) (call : Call)
    (other : ∀ poll hosts, call ≠ .takeJobs poll hosts) :
    Grows (broker.apply fromStr call) broker := by
  cases call with
  | takeJobs poll hosts => exact (other poll hosts rfl).elim
  | fetch host method path now => exact (Grows.pushBack _ _ _).trans (.same rfl)
  | complete node result nowUnixMs => exact complete_grows fromStr broker node result nowUnixMs
  | sweep now expired stale =>
      have released : Grows (broker.releaseAll expired) broker :=
        List.foldlRecOn expired _ (motive := fun current => Grows current broker) (.same rfl)
          fun current kept id _ => (release_grows current id true).trans kept
      exact (Grows.drops (drops_dropTwins _ stale)).trans released
  | enrollRuntime id name => exact .same rfl
  | touch id now => exact .same rfl

end Results

/-! ## Polls -/

/-- The poll hands out the job, if there still is one. -/
def HandsOut (broker : Broker) (poll : Poll) (hosts : List String) (id : Nat) : Prop :=
  ∀ job, broker.offer id = some job → job ∈ (broker.takeJobs poll hosts).2

/-- The entry, behind some of these, leaves the queue with the poll: what stays was before or after
it, and what joins is new. -/
def Leaves (broker : Broker) (poll : Poll) (hosts : List String) (host : String)
    (entry : Nat × Option Nat) (front : List (Nat × Option Nat)) : Prop :=
  ∃ ahead back kept new, broker.queue host = ahead ++ entry :: back ∧ ahead.Sublist front ∧
    (broker.takeJobs poll hosts).1.queue host = kept ++ new ∧ kept.Sublist (ahead ++ back) ∧
      ∀ twin ∈ new, broker.nextId ≤ twin.1

/-- **A poll** takes the entry, or those before it that it has room for. -/
theorem takeJobs_behind (poll : Poll) {hosts : List String}
    (order : Enumerates hosts fun host => (broker.queues host).isSome)
    (waits : Behind entry front gone (broker.queue host)) :
    (entry.2 ≠ some poll.node ∧ HandsOut broker poll hosts entry.1 ∧
        broker.Leaves poll hosts host entry front) ∨
      Behind entry front (gone + if entry.2 = some poll.node then 0 else room poll host)
        ((broker.takeJobs poll hosts).1.queue host) := by
  have known : host ∈ hosts := by
    rw [order.2]
    by_contra absent
    obtain ⟨ahead, back, is, -, -⟩ := waits
    rw [queue, Option.not_isSome_iff_eq_none.mp absent] at is
    exact List.append_ne_nil_of_right_ne_nil _ (List.cons_ne_nil _ _) is.symm
  obtain ⟨reply, nextId, queues⟩ := takeHosts_spec poll
    (broker.registry.activeNodeOtherThan poll.node poll.activeNow) order.1
    { broker := broker, out := [], newTwins := [] }
  obtain ⟨new, appended, fresh⟩ := createTwins_spec poll (hosts.foldl (takeHost poll
    (broker.registry.activeNodeOtherThan poll.node poll.activeNow))
    { broker := broker, out := [], newTwins := [] }).newTwins (hosts.foldl (takeHost poll
      (broker.registry.activeNodeOtherThan poll.node poll.activeNow))
      { broker := broker, out := [], newTwins := [] }).broker host
  rw [queues, if_pos known] at appended
  rw [nextId] at fresh
  rcases (waits.pick : _ ∨ Behind entry front _ (broker.taken poll host).2) with
    ⟨may, taken, ahead, back, is, inside, kept⟩ | still
  · refine .inl ⟨may, fun job offered => ?_, ahead, back, _, new, is, inside, appended, kept, fresh⟩
    rw [takeJobs, reply, List.nil_append, List.mem_flatMap]
    exact ⟨host, known, List.mem_filterMap.mpr ⟨entry.1, taken, offered⟩⟩
  · refine .inr ?_
    rw [takeJobs, appended]
    exact still.append new

/-! ## Runs -/

section Runs

variable {Value : Type} [DecidableEq Value] (fromStr : String → Option Value)

/-- One call takes the entry, or leaves it behind fewer. -/
theorem step_behind {call : Call} (step : Step fromStr broker call next)
    (waits : Behind entry front gone (broker.queue host)) :
    (∃ poll hosts, call = .takeJobs poll hosts ∧ entry.2 ≠ some poll.node ∧
        HandsOut broker poll hosts entry.1 ∧ broker.Leaves poll hosts host entry front) ∨
      Behind entry front (gone + asks host entry.2 call) (next.queue host) := by
  obtain ⟨order, rfl⟩ := step
  by_cases polls : ∃ poll hosts, call = .takeJobs poll hosts
  · obtain ⟨poll, hosts, rfl⟩ := polls
    rcases takeJobs_behind poll order waits with taken | still
    · exact .inl ⟨poll, hosts, rfl, taken⟩
    · exact .inr still
  · have quiet : asks host entry.2 call = 0 := by
      cases call with
      | takeJobs poll hosts => exact (polls ⟨poll, hosts, rfl⟩).elim
      | fetch | complete | sweep | enrollRuntime | touch => rfl
    rw [quiet, Nat.add_zero]
    exact .inr ((apply_grows fromStr broker call fun poll hosts same =>
      polls ⟨poll, hosts, same⟩).behind waits)

/-- A run takes the entry, or leaves it behind fewer. -/
theorem run_behind {since : Broker} {later : List Call}
    (run : Run (Step fromStr) since later broker)
    (waits : Behind entry front gone (since.queue host)) :
    Behind entry front (gone + asked host entry.2 later) (broker.queue host) ∨
      ∃ calls poll hosts rest mid, later = calls ++ .takeJobs poll hosts :: rest ∧
        Run (Step fromStr) since calls mid ∧ gone + asked host entry.2 calls ≤ front.length ∧
          entry.2 ≠ some poll.node ∧ HandsOut mid poll hosts entry.1 ∧
            mid.Leaves poll hosts host entry front := by
  induction run generalizing gone with
  | nil state => exact .inl waits
  | @cons source mid target call calls step run ih =>
      have total : ∀ rest, gone + asked host entry.2 (call :: rest) =
          gone + asks host entry.2 call + asked host entry.2 rest := fun rest => by
        rw [asked, List.map_cons, List.sum_cons, Nat.add_assoc]
        rfl
      rcases step_behind fromStr step waits with ⟨poll, hosts, rfl, taken⟩ | moved
      · obtain ⟨ahead, back, -, -, left⟩ := waits
        have none : gone + asked host entry.2 [] ≤ front.length := by
          rw [asked, List.map_nil, List.sum_nil]
          omega
        exact .inr ⟨[], poll, hosts, calls, source, rfl, .nil source, none, taken⟩
      · rw [total]
        rcases ih moved with still | ⟨before, poll, hosts, rest, there, rfl, way, less, taken⟩
        · exact .inl still
        · refine .inr ⟨call :: before, poll, hosts, rest, there, rfl, .cons step way, ?_, taken⟩
          rw [total]
          exact less

/-- **Queued jobs get their turn.** In every run: since an entry was queued behind others, either it
still waits behind some of these and no others, and the nodes that may run its job have not asked
for more jobs than have left from before it; or one of their polls has taken it from the queue, when
they had asked for no more jobs than were before it, and that poll was handed the job if there still
was one. There was one if the entry is that of a fetch that had no answer. -/
theorem queued_in_turn {before later : List Call} {since : Broker}
    {ahead back : List (Nat × Option Nat)} (past : Run (Step fromStr) new before since)
    (queued : since.queue host = ahead ++ entry :: back)
    (run : Run (Step fromStr) since later broker) :
    (∃ still behind, broker.queue host = still ++ entry :: behind ∧ still.Sublist ahead ∧
        still.length + asked host entry.2 later ≤ ahead.length) ∨
      ∃ calls poll hosts rest mid, later = calls ++ .takeJobs poll hosts :: rest ∧
        Run (Step fromStr) since calls mid ∧ asked host entry.2 calls ≤ ahead.length ∧
          entry.2 ≠ some poll.node ∧ mid.Leaves poll hosts host entry ahead ∧
          (∀ job, mid.offer entry.1 = some job → job ∈ (mid.takeJobs poll hosts).2) ∧
          (entry.1 ∈ mid.fetches → mid.channels entry.1 = none →
            ∃ job ∈ (mid.takeJobs poll hosts).2, job.id = entry.1) := by
  have waits : Behind entry ahead 0 (since.queue host) :=
    ⟨ahead, back, queued, .refl ahead, Nat.le_refl _⟩
  rcases run_behind fromStr run waits with ⟨still, behind, is, inside, left⟩ |
    ⟨calls, poll, hosts, rest, mid, same, way, less, may, taken, leaves⟩
  · rw [Nat.zero_add] at left
    exact .inl ⟨still, behind, is, inside, left⟩
  · rw [Nat.zero_add] at less
    refine .inr ⟨calls, poll, hosts, rest, mid, same, way, less, may, leaves, taken,
      fun opened silent => ?_⟩
    have sound : Sound mid [] := run_sound fromStr (past.append way)
    obtain ⟨job, live, -⟩ := sound.pending _ opened silent
    have offered : mid.offer entry.1 =
        some ⟨entry.1, job.host, job.method, job.path, leaseMs⟩ := by rw [offer, live]; rfl
    exact ⟨_, taken _ offered, rfl⟩

end Runs

/-- Two fetches wait. -/
def twoFetches : List Call :=
  [.fetch "europe" "match-v5.match" "/x" 0, .fetch "europe" "match-v5.match" "/y" 1]

/-- The later one is handed out to a node that asks for two jobs or more. -/
theorem queued_in_turn_second :
    ∃ job ∈ ((after (some : String → Option String) twoFetches).takeJobs
      ⟨1, fun _ => 0, 5, 5, fun _ => false⟩ ["europe"]).2, job.id = 2 := by
  have past : Run (Step (some : String → Option String)) new twoFetches (after some twoFetches) :=
    .cons ⟨trivial, rfl⟩ <| .cons ⟨trivial, rfl⟩ (.nil _)
  have run : Run (Step (some : String → Option String)) (after some twoFetches)
      [.takeJobs ⟨1, fun _ => 0, 5, 5, fun _ => false⟩ ["europe"]]
      ((after some twoFetches).takeJobs ⟨1, fun _ => 0, 5, 5, fun _ => false⟩ ["europe"]).1 := by
    refine .cons ⟨enumerates_host (by decide) fun other distinct => ?_, rfl⟩ (.nil _)
    exact (Function.update_of_ne distinct ..).trans <| Function.update_of_ne distinct ..
  rcases @queued_in_turn _ "europe" (2, none) _ _ some _ _ _ [(1, none)] [] past (by decide) run
    with
    ⟨still, behind, -, -, less⟩ | ⟨calls, poll, hosts, rest, mid, same, way, -, -, -, -, taken⟩
  · have few : still.length + 8 ≤ 1 := less
    omega
  · cases calls with
    | nil =>
        cases way
        cases same
        exact taken (by decide) (by decide)
    | cons call calls => exact absurd (congrArg List.length same) (by simp)

end LolCrawler.Broker
