import LolCrawler.Fleet.Room

/-! # Results on their way

The server answers a result once it has taken it, and the uploader goes by the answer to the
request that it waits for. So what a process knows to be acknowledged the server has taken. While
the process is there, no result is lost but for the two reasons of the uploader: the server speaks
another version of the protocol, or fifteen requests have failed. When the process ends, what it
still holds is gone, if the uploader was not done (`results_accounted_for`).
-/

namespace LolCrawler

open Foundation

namespace Node

section Steps

variable {process next : Process} {event : ProcessEvent}

/-- Only a result that is taken up makes the uploader go on to another. -/
theorem Process.upload_before (step : ProcessStep process event next)
    (other : ∀ now, event ≠ .takeUp now) {upload : Upload} (there : next.upload = some upload) :
    ∃ before, process.upload = some before ∧ before.task = upload.task := by
  cases Process.step_uploads step with
  | idle channel same finished sent => exact ⟨upload, same.symm.trans there, rfl⟩
  | send id result returned counted done =>
      rw [done] at there
      exact ⟨upload, there, rfl⟩
  | takeUp id now result rest free first done => exact absurd rfl (other now)
  | finish before ending had done dropped acknowledged =>
      rw [done] at there
      cases there
  | sleep before now had later early done =>
      rw [done] at there
      cases there
      exact ⟨before, had, rfl⟩
  | repost before wake now had asleep awake done =>
      rw [done] at there
      cases there
      exact ⟨before, had, rfl⟩

/-- A result is acknowledged only when the answer to the request for it has come. -/
theorem Process.acknowledged_before (step : ProcessStep process event next) {task : Nat}
    (done : (task, Finish.acknowledged) ∈ next.finished) :
    (task, Finish.acknowledged) ∈ process.finished ∨
      event = .posted ∧ ∃ upload, process.upload = some upload ∧ upload.task = task := by
  cases Process.step_uploads step with
  | idle channel same finished sent =>
      rw [finished] at done
      exact .inl done
  | send id result returned counted same =>
      rw [same] at done
      exact .inl done
  | takeUp id now result rest free first same =>
      rw [same] at done
      exact .inl done
  | finish upload ending had same dropped acknowledged =>
      rw [same] at done
      rcases List.mem_append.mp done with before | new
      · exact .inl before
      · cases List.mem_singleton.mp new
        exact .inr ⟨acknowledged rfl, upload, had, rfl⟩
  | sleep upload now had later early same =>
      rw [same] at done
      exact .inl done
  | repost upload wake now had asleep awake same =>
      rw [same] at done
      exact .inl done

end Steps

/-- The process has the result of this task. -/
inductive Process.Holds (process : Process) (task : Nat) : Prop where
  | task (unsent : process.tasks task ≠ .sent)
  | waits (result : JobResult) (inside : (task, result) ∈ process.channel)
  | uploading (upload : Upload) (there : process.upload = some upload)
      (own : upload.task = task)

end Node

namespace Fleet

variable {fleet next : Fleet} {event : FleetEvent}

/-- The number is that of a request for this task: if the uploader waits for it, it has the task. -/
def Requested (fleet : Fleet) (process attempt task : Nat) : Prop :=
  attempt ≤ fleet.attempts process ∧
    (attempt = fleet.attempts process → ∀ upload, (fleet.processes process).upload = some upload →
      upload.task = task)

/-- What is on its way is what a process has sent, and the server has taken what it answers. -/
structure Delivered (fleet : Fleet) : Prop where
  posts : ∀ post ∈ fleet.posts, fleet.Requested post.process post.attempt post.task ∧
    (fleet.processes post.process).returned post.task = some post.result
  acks : ∀ ack ∈ fleet.acks, fleet.Requested ack.process ack.attempt ack.task ∧
    (ack.process, ack.task) ∈ fleet.handled
  acknowledged : ∀ id task, (task, .acknowledged) ∈ (fleet.processes id).finished →
    (id, task) ∈ fleet.handled

section Steps

variable {Value : Type} [DecidableEq Value] (fromStr : String → Option Value)

/-- A step of one process, without another result. -/
theorem Requested.step {id : Nat} {process : Node.Process} {inner : Node.ProcessEvent}
    {owner attempt task : Nat} (requested : fleet.Requested owner attempt task)
    (processes : next.processes = Function.update fleet.processes id process)
    (attempts : next.attempts = fleet.attempts)
    (step : Node.ProcessStep (fleet.processes id) inner process)
    (other : ∀ now, inner ≠ .takeUp now) : next.Requested owner attempt task := by
  obtain ⟨made, current⟩ := requested
  unfold Requested
  rw [attempts, processes]
  refine ⟨made, fun same upload there => ?_⟩
  rw [Function.update_apply] at there
  split at there
  · next own =>
      rw [own] at current same
      obtain ⟨before, had, task⟩ := Node.Process.upload_before step other there
      exact task.symm.trans (current same before had)
  · exact current same upload there

/-- After another request, the ones before are not waited for. -/
theorem Requested.post {id : Nat} {process : Node.Process} {owner attempt task : Nat}
    (requested : fleet.Requested owner attempt task)
    (processes : next.processes = Function.update fleet.processes id process)
    (attempts : next.attempts = Function.update fleet.attempts id (fleet.attempts id + 1)) :
    next.Requested owner attempt task := by
  obtain ⟨made, current⟩ := requested
  unfold Requested
  rw [attempts, processes, Function.update_apply, Function.update_apply]
  split
  · next own =>
      rw [own] at made
      exact ⟨by omega, fun same => by omega⟩
  · exact ⟨made, current⟩

namespace Delivered

/-- At the start nothing is delivered. -/
theorem new (nodeOf : Nat → Nat) (key : Nat → String) (keyMtime : Nat → Option Nat) :
    Delivered (.new nodeOf key keyMtime) where
  posts post inside := by cases inside
  acks ack inside := by cases inside
  acknowledged id task inside := by cases inside

/-- A step of a process returns what it returned. -/
theorem returned (delivered : fleet.Delivered) {id : Nat} {process : Node.Process}
    {inner : Node.ProcessEvent} (step : Node.ProcessStep (fleet.processes id) inner process) :
    ∀ post ∈ fleet.posts,
      (Function.update fleet.processes id process post.process).returned post.task =
        some post.result := by
  intro post inside
  have before := (delivered.posts post inside).2
  rw [Function.update_apply]
  split
  · next own =>
      rw [own] at before
      exact Node.Process.returned_stable (Node.Process.step_tasks step) before
  · exact before

/-- A step of one process that posts nothing. -/
theorem process (delivered : fleet.Delivered) {id : Nat} {process : Node.Process}
    {inner : Node.ProcessEvent}
    (processes : next.processes = Function.update fleet.processes id process)
    (attempts : next.attempts = fleet.attempts)
    (step : Node.ProcessStep (fleet.processes id) inner process)
    (other : ∀ now, inner ≠ .takeUp now) (posts : next.posts = fleet.posts)
    (acks : ∀ ack ∈ next.acks, ack ∈ fleet.acks) (handled : next.handled = fleet.handled)
    (answered : inner = .posted → ∀ upload, (fleet.processes id).upload = some upload →
      (id, upload.task) ∈ fleet.handled) : next.Delivered where
  posts post inside := by
    rw [posts] at inside
    rw [processes]
    exact ⟨(delivered.posts post inside).1.step processes attempts step other,
      delivered.returned step post inside⟩
  acks ack inside := by
    obtain ⟨requested, taken⟩ := delivered.acks ack (acks ack inside)
    rw [handled]
    exact ⟨requested.step processes attempts step other, taken⟩
  acknowledged owner task inside := by
    rw [handled]
    rw [processes, Function.update_apply] at inside
    split at inside
    · next own =>
        rw [own]
        rcases Node.Process.acknowledged_before step inside with before | ⟨posted, upload, had, rfl⟩
        · exact delivered.acknowledged id task before
        · exact answered posted upload had
    · exact delivered.acknowledged owner task inside

/-- Posting a result that its task returned keeps the deliveries right. -/
theorem post (delivered : fleet.Delivered) {id : Nat} {process : Node.Process}
    {inner : Node.ProcessEvent} {upload : Node.Upload}
    (step : Node.ProcessStep (fleet.processes id) inner process) (other : inner ≠ .posted)
    (uploads : process.upload = some upload)
    (returned : process.returned upload.task = some upload.result) :
    Delivered { fleet.setProcess id process with
      attempts := Function.update fleet.attempts id (fleet.attempts id + 1)
      posts := fleet.posts ++ [⟨id, fleet.attempts id + 1, upload.task, upload.result⟩] } := by
  constructor
  · intro post inside
    rcases List.mem_append.mp inside with old | new
    · exact ⟨(delivered.posts post old).1.post rfl rfl, delivered.returned step post old⟩
    · cases List.mem_singleton.mp new
      have last : fleet.attempts id + 1 ≤
          Function.update fleet.attempts id (fleet.attempts id + 1) id := by
        rw [Function.update_self]
      refine ⟨⟨last, fun _ current there => ?_⟩, ?_⟩
      · change (Function.update fleet.processes id process id).upload = some current at there
        rw [Function.update_self, uploads] at there
        cases there
        rfl
      · change (Function.update fleet.processes id process id).returned upload.task = _
        rw [Function.update_self]
        exact returned
  · intro ack inside
    obtain ⟨requested, taken⟩ := delivered.acks ack inside
    exact ⟨requested.post rfl rfl, taken⟩
  · intro owner task inside
    change (task, Node.Finish.acknowledged) ∈
      (Function.update fleet.processes id process owner).finished at inside
    rw [Function.update_apply] at inside
    split at inside
    · next own =>
        rw [own]
        rcases Node.Process.acknowledged_before step inside with before | ⟨posted, -⟩
        · exact delivered.acknowledged id task before
        · exact absurd posted other
    · exact delivered.acknowledged owner task inside

/-- The server takes a result, whatever it makes of it, and answers. -/
theorem take (delivered : fleet.Delivered) {index : Nat} {post : Post}
    (there : fleet.posts[index]? = some post) (nowUnixMs : Nat) :
    (fleet.take fromStr index post nowUnixMs).Delivered where
  posts other left := delivered.posts other (List.mem_of_mem_eraseIdx left)
  acks ack inside := by
    rcases List.mem_append.mp inside with old | new
    · obtain ⟨requested, taken⟩ := delivered.acks ack old
      exact ⟨requested, List.mem_append_left _ taken⟩
    · cases List.mem_singleton.mp new
      exact ⟨(delivered.posts post (List.mem_of_getElem? there)).1,
        List.mem_append_right _ (List.mem_singleton_self _)⟩
  acknowledged id task inside := List.mem_append_left _ (delivered.acknowledged id task inside)

/-- **One step** delivers what is posted. -/
theorem step (delivered : fleet.Delivered) (composed : Composed fromStr fleet)
    (step : Step fromStr fleet event next) : next.Delivered := by
  obtain ⟨done, -⟩ := step
  cases step_moves fromStr done with
  | @process id inner process quiet step =>
      have other : ∀ now, inner ≠ .takeUp now := fun now same => by
        rw [same] at quiet
        cases quiet
      refine delivered.process rfl rfl step other rfl (fun ack inside => inside) rfl fun same => ?_
      rw [same] at quiet
      cases quiet
  | poll ready step =>
      exact delivered.process rfl rfl step nofun rfl (fun ack inside => inside) rfl nofun
  | reply there current step =>
      exact delivered.process rfl rfl step nofun rfl (fun ack inside => inside) rfl nofun
  | @acknowledge index ack process there current step =>
      obtain ⟨requested, taken⟩ := delivered.acks ack (List.mem_of_getElem? there)
      refine delivered.process rfl rfl step nofun rfl
        (fun other left => List.mem_of_mem_eraseIdx left) rfl fun _ upload had => ?_
      rw [requested.2 current upload had]
      exact taken
  | @post id event inner process upload step sends uploads =>
      have returned :=
        (((composed.held id).step (composed.tracked id) step).uploading upload uploads).1
      rcases sends with ⟨now, rfl⟩ | ⟨now, rfl⟩
      · exact delivered.post step nofun uploads returned
      · exact delivered.post step nofun uploads returned
  | result there => exact delivered.take fromStr there _
  | @work index now activeNow dice hosts late request there =>
      unfold Fleet.work
      dsimp only
      split
      · exact ⟨delivered.posts, delivered.acks, delivered.acknowledged⟩
      · exact ⟨delivered.posts, delivered.acks, delivered.acknowledged⟩
  | server own => exact ⟨delivered.posts, delivered.acks, delivered.acknowledged⟩
  | restart => exact ⟨delivered.posts, delivered.acks, delivered.acknowledged⟩

end Delivered

end Steps

end Fleet

end LolCrawler
