import Mathlib.Data.List.Nodup
import LolCrawler.Node.Executor

/-! # The method limit on the wire

A call reserves a slot of the method limiter, waits for the app limiter, and then sends.
The reservations keep to the windows of the method (`slots_limited`). The sends of one
window keep to them as long as their slots are of one window.
-/

namespace LolCrawler.Node

open Foundation

/-- The slot a call holds and has not sent for. -/
def Phase.slot : Phase → Option Nat
  | .app slot _ => some slot
  | .admitted slot => some slot
  | _ => none

/-- A limiter of this history keeps to its windows. -/
def Reserving (specs : List WindowSpec) (windows : Windows) (reserved : List Nat) (clock : Nat) :
    Prop :=
  ∃ limiter : Limiter, Enforced specs limiter ∧ limiter.windows = windows ∧
    limiter.grants = reserved ∧ limiter.clock ≤ clock

namespace Reserving

variable {specs : List WindowSpec} {windows : Windows} {reserved : List Nat} {clock now : Nat}

/-- The reserved slots are within the windows at any later time. -/
theorem later (reserving : Reserving specs windows reserved clock) (ahead : clock ≤ now) :
    Reserving specs windows reserved now := by
  obtain ⟨limiter, enforced, held, granted, before⟩ := reserving
  exact ⟨limiter, enforced, held, granted, Nat.le_trans before ahead⟩

/-- An acquisition reserves a slot now, or none. -/
theorem acquired (reserving : Reserving specs windows reserved clock) {gapMs : Nat} {pace : Bool}
    {wait : Option Nat} {next : Windows}
    (done : acquireOnce pace clock gapMs windows = some (wait, next)) :
    Reserving specs next (wait.elim (reserved ++ [clock]) fun _ => reserved) clock := by
  obtain ⟨limiter, enforced, rfl, rfl, before⟩ := reserving
  refine ⟨limiter.iterated 0 clock next wait, enforced.iterated before done 0, ?_, ?_, ?_⟩
  · cases wait with
    | none => rfl
    | some d => rfl
  · cases wait with
    | none => rfl
    | some d => rfl
  · cases wait with
    | none => exact Nat.le_refl _
    | some d => exact Nat.le_refl _

/-- A cooldown reserves nothing. -/
theorem cooled (reserving : Reserving specs windows reserved clock) (secs : Nat) :
    Reserving specs (cooldown clock secs windows) reserved clock := by
  obtain ⟨limiter, enforced, rfl, rfl, before⟩ := reserving
  exact ⟨_, enforced.cooldown before secs, rfl, rfl, Nat.le_refl _⟩

/-- The reservations keep to every window. -/
theorem capped (reserving : Reserving specs windows reserved clock) {spec : WindowSpec}
    (among : spec ∈ specs) (time : Nat) : within spec.win time reserved ≤ spec.limit := by
  obtain ⟨limiter, enforced, rfl, rfl, -⟩ := reserving
  exact enforced.capped spec among time

/-- The windows are those of the server. -/
theorem fixed (reserving : Reserving specs windows reserved clock) : windows.specs = specs := by
  obtain ⟨limiter, enforced, rfl, rfl, -⟩ := reserving
  exact enforced.fixed

/-- At the start nothing is reserved. -/
theorem new (specs : List WindowSpec) : Reserving specs (.new specs) [] 0 :=
  ⟨.new specs, .new specs, rfl, rfl, Nat.le_refl _⟩

end Reserving

/-- Every request on the wire has a slot of its own, and so has every call that holds one. -/
structure Slots (specs : Endpoint → List WindowSpec) (executor : Executor) : Prop where
  reserving : ∀ endpoint, Reserving (specs endpoint) (executor.method endpoint)
    (executor.reserved endpoint) executor.clock
  sent : ∀ endpoint, ∀ sent ∈ executor.sends endpoint,
    sent.slot < (executor.reserved endpoint).length ∧ sent.time ≤ executor.clock
  distinct : ∀ endpoint, ((executor.sends endpoint).map Sent.slot).Nodup
  held : ∀ id call slot, executor.calls id = some call → call.phase.slot = some slot →
    slot < (executor.reserved call.endpoint).length ∧
      slot ∉ (executor.sends call.endpoint).map Sent.slot
  alone : ∀ id other call rival slot, executor.calls id = some call →
    executor.calls other = some rival → call.endpoint = rival.endpoint →
    call.phase.slot = some slot → rival.phase.slot = some slot → id = other

/-- The method windows a server declares are those of the limiter. -/
def Call.keepsSpecs (call : Call) (specs : List WindowSpec) (act : Act) : Bool :=
  match call.phase, act with
  | .adoptedApp _ response, .adopt =>
      response.methodLimit.all fun declared => declared = [] || declared = specs
  | _, _ => true

def Executor.keepsSpecs (executor : Executor) : ExecutorEvent → Bool
  | .call id _ act =>
      (executor.calls id).all fun call =>
        call.keepsSpecs (executor.method call.endpoint).specs act
  | _ => true

/-- A step under fixed method windows. -/
def FixedStep (executor : Executor) (event : ExecutorEvent) (next : Executor) : Prop :=
  executor.step event = some next ∧ executor.keepsSpecs event

namespace Slots

variable {specs : Endpoint → List WindowSpec} {executor next : Executor} {id now : Nat}
  {call changed : Call}

/-- The slots are kept as time goes on. -/
theorem later (slots : Slots specs executor) (ahead : executor.clock ≤ now) :
    Slots specs { executor with clock := now } where
  reserving endpoint := (slots.reserving endpoint).later ahead
  sent endpoint sent inside :=
    have here := slots.sent endpoint sent inside
    ⟨here.1, Nat.le_trans here.2 ahead⟩
  distinct := slots.distinct
  held := slots.held
  alone := slots.alone

/-- Nobody else has the slot. -/
structure Free (executor : Executor) (id : Nat) (endpoint : Endpoint) (slot : Nat) : Prop where
  reserved : slot < (executor.reserved endpoint).length
  unsent : slot ∉ (executor.sends endpoint).map Sent.slot
  alone : ∀ other rival, executor.calls other = some rival → rival.endpoint = endpoint →
    rival.phase.slot = some slot → other = id

/-- The slot that a call holds is nobody else's. -/
theorem free (slots : Slots specs executor) {slot : Nat} (there : executor.calls id = some call)
    (holds : call.phase.slot = some slot) : Free executor id call.endpoint slot where
  reserved := (slots.held id call slot there holds).1
  unsent := (slots.held id call slot there holds).2
  alone other rival there' same holds' :=
    slots.alone other id rival call slot there' there same holds' holds

/-- A call goes on, with a slot of its own or without one. -/
theorem put (slots : Slots specs executor)
    (free : ∀ slot, changed.phase.slot = some slot → Free executor id changed.endpoint slot) :
    Slots specs (executor.put id changed) := by
  refine ⟨slots.reserving, slots.sent, slots.distinct, fun other rival slot here holds => ?_,
    fun first second one two slot here there same holds holds' => ?_⟩
  · rw [Executor.put_calls, Function.update_apply] at here
    split at here
    · cases here
      exact ⟨(free slot holds).reserved, (free slot holds).unsent⟩
    · exact slots.held other rival slot here holds
  · rw [Executor.put_calls, Function.update_apply] at here there
    split at here
    · next mine =>
        split at there
        · next yours => rw [mine, yours]
        · cases here
          rw [mine]
          exact ((free slot holds).alone second two there same.symm holds').symm
    · split at there
      · next yours =>
          cases there
          rw [yours]
          exact (free slot holds').alone first one here same holds
      · exact slots.alone first second one two slot here there same holds holds'

/-- A call goes on with the slot it holds. -/
theorem keep (slots : Slots specs executor) (there : executor.calls id = some call)
    (same : changed.endpoint = call.endpoint)
    (kept : ∀ slot, changed.phase.slot = some slot → call.phase.slot = some slot) :
    Slots specs (executor.put id changed) := by
  apply slots.put
  intro slot holds
  rw [same]
  exact slots.free there (kept slot holds)

/-- The app limiter has no slots of a method. -/
theorem setApp (slots : Slots specs executor) (host : String) (windows : Windows) :
    Slots specs (executor.setApp host windows) :=
  ⟨slots.reserving, slots.sent, slots.distinct, slots.held, slots.alone⟩

/-- The method limiter changes, with the same reservations. -/
theorem setMethod (slots : Slots specs executor) {endpoint : Endpoint} {windows : Windows}
    (reserving : Reserving (specs endpoint) windows (executor.reserved endpoint) executor.clock) :
    Slots specs (executor.setMethod endpoint windows) := by
  refine ⟨fun other => ?_, slots.sent, slots.distinct, slots.held, slots.alone⟩
  rw [Executor.setMethod_method, Function.update_apply]
  split
  · next same =>
      rw [same]
      exact reserving
  · exact slots.reserving other

/-- Reserving a slot within the windows keeps the slots. -/
theorem reserve (slots : Slots specs executor) {endpoint : Endpoint} {windows : Windows}
    (reserving : Reserving (specs endpoint) windows
      (executor.reserved endpoint ++ [executor.clock]) executor.clock) :
    Slots specs ((executor.setMethod endpoint windows).reserve endpoint executor.clock) := by
  have longer : ∀ other, (executor.reserved other).length ≤
      (((executor.setMethod endpoint windows).reserve endpoint executor.clock).reserved
        other).length := by
    intro other
    rw [Executor.reserve_reserved, Function.update_apply]
    split
    · next same => simp [same]
    · exact Nat.le_refl _
  refine ⟨fun other => ?_, fun other sent inside => ?_, slots.distinct,
    fun id call slot there holds => ?_, slots.alone⟩
  · rw [Executor.reserve_reserved, Executor.reserve_method, Executor.setMethod_method,
      Function.update_apply, Function.update_apply]
    split
    · next same =>
        rw [same]
        exact reserving
    · exact slots.reserving other
  · have here := slots.sent other sent inside
    exact ⟨Nat.lt_of_lt_of_le here.1 (longer other), here.2⟩
  · have here := slots.held id call slot there holds
    exact ⟨Nat.lt_of_lt_of_le here.1 (longer _), here.2⟩

/-- The slot a call has just reserved. -/
theorem newest (slots : Slots specs executor) (id : Nat) (endpoint : Endpoint)
    (windows : Windows) :
    Free ((executor.setMethod endpoint windows).reserve endpoint executor.clock) id endpoint
      (executor.reserved endpoint).length where
  reserved := by simp
  unsent := by
    intro inside
    obtain ⟨sent, among, same⟩ := List.mem_map.mp inside
    have before := (slots.sent endpoint sent among).1
    omega
  alone := by
    intro other rival there same holds
    have before := (slots.held other rival _ there holds).1
    rw [same] at before
    exact absurd before (Nat.lt_irrefl _)

/-- A request goes out for a slot that nobody holds. -/
theorem send (slots : Slots specs executor) (id : Nat) {endpoint : Endpoint} {slot : Nat}
    (free : Free executor id endpoint slot)
    (done : ∀ call, executor.calls id = some call → call.phase.slot = none) :
    Slots specs { executor with
      sends := Function.update executor.sends endpoint
        (executor.sends endpoint ++ [⟨slot, executor.clock⟩]) } := by
  refine ⟨slots.reserving, fun other sent inside => ?_, fun other => ?_,
    fun rid rival taken there holds => ?_, slots.alone⟩
  · simp only [Function.update_apply] at inside
    split at inside
    · next same =>
        rcases List.mem_append.mp inside with inside | last
        · rw [same]
          exact slots.sent endpoint sent inside
        · rw [List.mem_singleton.mp last, same]
          exact ⟨free.reserved, Nat.le_refl _⟩
    · exact slots.sent other sent inside
  · simp only [Function.update_apply]
    split
    · rw [List.map_append, List.nodup_append]
      refine ⟨slots.distinct endpoint, List.nodup_singleton _, fun one among last same equal => ?_⟩
      rw [List.map_singleton, List.mem_singleton] at same
      rw [equal, same] at among
      exact free.unsent among
    · exact slots.distinct other
  · have here := slots.held rid rival taken there holds
    refine ⟨here.1, ?_⟩
    simp only [Function.update_apply]
    split
    · next same =>
        rw [List.map_append, List.mem_append, not_or, ← same]
        refine ⟨here.2, fun last => ?_⟩
        rw [List.map_singleton, List.mem_singleton] at last
        rw [last] at holds
        have mine := free.alone rid rival there same holds
        rw [mine] at there
        rw [done rival there] at holds
        cases holds
    · exact here.2

/-- The branch on the status leaves the call without a slot. -/
theorem branch (slots : Slots specs executor) (id : Nat) (call : Call) (response : Response) :
    Slots specs (executor.branch id executor.clock call response) := by
  have cool : Slots specs (executor.cool executor.clock call response) := by
    rw [Executor.cool]
    split
    · exact slots.setMethod ((slots.reserving call.endpoint).cooled _)
    · exact slots.setApp _ _
  have bad : Slots specs { executor with keyBad := true } :=
    ⟨slots.reserving, slots.sent, slots.distinct, slots.held, slots.alone⟩
  unfold Executor.branch
  dsimp only
  split
  · split
    · exact slots.put fun slot holds => by cases holds
    · exact slots.put fun slot holds => by cases holds
  · split
    · exact slots.put fun slot holds => by cases holds
    · split
      · exact cool.put fun slot holds => by cases holds
      · split
        · exact bad.put fun slot holds => by cases holds
        · split
          · exact slots.put fun slot holds => by cases holds
          · exact slots.put fun slot holds => by cases holds

/-- An acquisition of the method limiter gives the call a new slot, or none. -/
theorem acquireMethod (slots : Slots specs executor) {gapMs : Nat}
    (done : executor.acquireMethod id executor.clock gapMs call = some next) :
    Slots specs next := by
  have reserving := slots.reserving call.endpoint
  rw [Executor.acquireMethod] at done
  split at done
  · cases done
  · next d windows waits =>
      cases done
      have after := reserving.acquired waits
      exact (slots.setMethod after).put fun slot holds => by cases holds
  · next windows sends =>
      cases done
      have after := reserving.acquired sends
      refine (slots.reserve after).put fun slot holds => ?_
      cases holds
      exact slots.newest id call.endpoint windows

/-- An acquisition of the app limiter leaves the call its slot. -/
theorem acquireApp (slots : Slots specs executor) (there : executor.calls id = some call)
    {gapMs slot : Nat} (holds : call.phase.slot = some slot)
    (done : executor.acquireApp id executor.clock gapMs slot call = some next) :
    Slots specs next := by
  rw [Executor.acquireApp] at done
  split at done
  · cases done
  · next d windows waits =>
      cases done
      exact (slots.setApp _ windows).keep there rfl fun other same => holds.trans same
  · next windows sends =>
      cases done
      exact (slots.setApp _ windows).keep there rfl fun other same => holds.trans same

/-- Windows that are adopted are the same, so the slots stay. -/
theorem adoptMethod (slots : Slots specs executor) {key : String} {response : Response}
    (fixed : response.methodLimit.all fun declared =>
      declared = [] || declared = (executor.method call.endpoint).specs) :
    Slots specs (executor.adoptMethod id call key response) := by
  refine (slots.setMethod ?_).put fun slot holds => by cases holds
  cases header : response.methodLimit with
  | none => exact slots.reserving call.endpoint
  | some declared =>
      have same : updateSpecs declared (executor.method call.endpoint) =
          executor.method call.endpoint := by
        rw [header] at fixed
        simp only [Option.all_some, Bool.or_eq_true, decide_eq_true_eq] at fixed
        rcases fixed with rfl | rfl
        · rfl
        · simp [updateSpecs]
      rw [Option.elim_some, same]
      exact slots.reserving call.endpoint

/-- A send uses the slot that the call holds. -/
theorem wire (slots : Slots specs executor) {slot : Nat} (there : executor.calls id = some call)
    (holds : call.phase.slot = some slot) :
    Slots specs (executor.wire id executor.clock slot call) := by
  have free := slots.free there holds
  have waiting : Slots specs (executor.put id
      { call with announced := true, phase := .waiting executor.apiKey }) :=
    slots.put fun slot holds => by cases holds
  refine waiting.send id ⟨free.reserved, free.unsent, ?_⟩ ?_
  · intro other rival there' same holds'
    rw [Executor.put_calls, Function.update_apply] at there'
    split at there'
    · next mine => exact mine
    · exact free.alone other rival there' same holds'
  · intro sender here
    rw [Executor.put_calls, Function.update_self] at here
    cases here
    rfl

/-- An act of a call keeps the slots if it leaves the windows' limits as they are. -/
theorem advance (slots : Slots specs executor) (there : executor.calls id = some call) {act : Act}
    (done : executor.advance id executor.clock call act = some next)
    (fixed : call.keepsSpecs (executor.method call.endpoint).specs act) :
    Slots specs next := by
  unfold Executor.advance at done
  split at done
  · split at done
    · exact slots.acquireMethod done
    · cases done
  · next slot loop gapMs phase =>
      split at done
      · exact slots.acquireApp there (by rw [phase]; rfl) done
      · cases done
  · next slot phase =>
      cases done
      exact slots.wire there (by rw [phase]; rfl)
  · next key response phase =>
      cases done
      have heard : Slots specs { executor with rejected :=
          if response.rejects then executor.rejected ++ [key] else executor.rejected } :=
        ⟨slots.reserving, slots.sent, slots.distinct, slots.held, slots.alone⟩
      exact heard.put fun slot holds => by cases holds
  · cases done
    exact slots.put fun slot holds => by cases holds
  · cases done
    exact (slots.setApp _ _).put fun slot holds => by cases holds
  · next key response phase =>
      cases done
      simp only [Call.keepsSpecs, phase] at fixed
      exact slots.adoptMethod fixed
  · cases done
    exact slots.branch id call _
  · split at done
    · cases done
      unfold Executor.retry
      split
      · exact slots.put fun slot holds => by cases holds
      · exact slots.put fun slot holds => by cases holds
    · cases done
  · cases done

/-- **One step** keeps the slots. -/
theorem step (slots : Slots specs executor) {event : ExecutorEvent}
    (step : FixedStep executor event next) : Slots specs next := by
  obtain ⟨done, fixed⟩ := step
  cases event with
  | execute id job =>
      rw [Executor.step] at done
      split at done
      · cases done
        exact slots.put fun slot holds => by cases holds
      · cases done
  | call id now act =>
      rw [Executor.step] at done
      split at done
      · next call there =>
          split at done
          · next ahead =>
              rw [Executor.keepsSpecs, there] at fixed
              exact (slots.later ahead).advance there done fixed
          · cases done
      · cases done
  | installKey key =>
      cases done
      exact ⟨slots.reserving, slots.sent, slots.distinct, slots.held, slots.alone⟩
  | clearKeyBad =>
      rw [Executor.step] at done
      split at done
      · cases done
        exact ⟨slots.reserving, slots.sent, slots.distinct, slots.held, slots.alone⟩
      · cases done

/-- At the start there are no slots. -/
theorem withSpecs (key : String) (app : String → List WindowSpec)
    (specs : Endpoint → List WindowSpec) : Slots specs (.withSpecs key app specs) where
  reserving endpoint := .new (specs endpoint)
  sent _ _ inside := by cases inside
  distinct _ := .nil
  held _ _ _ there := by cases there
  alone _ _ _ _ _ there := by cases there

end Slots

/-- **The slots.** Calls reserve the slots of a method within its windows, in every run. -/
theorem slots_limited {key : String} {app : String → List WindowSpec}
    {specs : Endpoint → List WindowSpec} {events : List ExecutorEvent} {executor : Executor}
    (run : Run FixedStep (.withSpecs key app specs) events executor) (endpoint : Endpoint) :
    ∀ spec ∈ specs endpoint, ∀ time,
      within spec.win time (executor.reserved endpoint) ≤ spec.limit := by
  have slots : Slots specs executor :=
    run.invariant (Slots specs) (fun _ _ _ held step => held.step step) (.withSpecs key app specs)
  intro spec among time
  exact (slots.reserving endpoint).capped among time

/-! ## From the slots to the wire -/

/-- When a slot was reserved. -/
def Executor.slotTime (executor : Executor) (endpoint : Endpoint) (slot : Nat) : Nat :=
  (executor.reserved endpoint).getD slot 0

/-- The requests of the window that ends now hold slots of one window. -/
def Executor.SlotsTogether (executor : Executor) (endpoint : Endpoint) (wire : List Sent)
    (now : Nat) : Prop :=
  ∀ spec ∈ (executor.method endpoint).specs, ∀ first ∈ wire, ∀ second ∈ wire,
    now < first.time + spec.win → now < second.time + spec.win →
      executor.slotTime endpoint second.slot < executor.slotTime endpoint first.slot + spec.win

instance (executor : Executor) (endpoint : Endpoint) (wire : List Sent) (now : Nat) :
    Decidable (executor.SlotsTogether endpoint wire now) :=
  inferInstanceAs (Decidable (∀ spec ∈ (executor.method endpoint).specs, ∀ first ∈ wire,
    ∀ second ∈ wire, now < first.time + spec.win → now < second.time + spec.win →
      executor.slotTime endpoint second.slot < executor.slotTime endpoint first.slot + spec.win))

/-- A send does not close up with the sends before it. -/
def Executor.steady (executor : Executor) : ExecutorEvent → Bool
  | .call id now act =>
      (executor.calls id).all fun call =>
        match call.phase, act with
        | .admitted slot, .send => executor.SlotsTogether call.endpoint
            (executor.sends call.endpoint ++ [⟨slot, now⟩]) now
        | _, _ => true
  | _ => true

/-- A step under fixed method windows, and steady if it is a send. -/
def SteadyStep (executor : Executor) (event : ExecutorEvent) (next : Executor) : Prop :=
  FixedStep executor event next ∧ executor.steady event

/-- The sends of every window are within its limit. -/
def Limited (specs : Endpoint → List WindowSpec) (executor : Executor) : Prop :=
  ∀ endpoint, ∀ spec ∈ specs endpoint, ∀ time,
    within spec.win time ((executor.sends endpoint).map Sent.time) ≤ spec.limit

section Wire

variable {specs : Endpoint → List WindowSpec} {executor next : Executor} {endpoint : Endpoint}
  {spec : WindowSpec}

/-- The sends of one window are no more than the slots of one window. -/
theorem Slots.within_sends (slots : Slots specs executor) (among : spec ∈ specs endpoint)
    (together : executor.SlotsTogether endpoint (executor.sends endpoint) executor.clock) :
    within spec.win executor.clock ((executor.sends endpoint).map Sent.time) ≤ spec.limit := by
  let recent := (executor.sends endpoint).filter fun sent => executor.clock < sent.time + spec.win
  have counted : within spec.win executor.clock ((executor.sends endpoint).map Sent.time) =
      recent.length := by
    rw [within, List.countP_map, List.countP_eq_length_filter]
    congr 1
    apply List.filter_congr
    intro sent inside
    have before := (slots.sent endpoint sent inside).2
    simp [before]
  have fixed := (slots.reserving endpoint).fixed
  rw [counted]
  cases latest : (recent.map fun sent => executor.slotTime endpoint sent.slot).max? with
  | none =>
      have empty := List.map_eq_nil_iff.mp (List.max?_eq_none_iff.mp latest)
      rw [empty]
      exact Nat.zero_le _
  | some last =>
      obtain ⟨isLast, most⟩ := List.max?_eq_some_iff.mp latest
      obtain ⟨newest, newestHere, rfl⟩ := List.mem_map.mp isLast
      have distinct : (recent.map Sent.slot).Nodup :=
        (slots.distinct endpoint).sublist (List.filter_sublist.map Sent.slot)
      have inside : ∀ slot ∈ recent.map Sent.slot, ∃ time,
          (executor.reserved endpoint)[slot]? = some time ∧
            time ≤ executor.slotTime endpoint newest.slot ∧
            executor.slotTime endpoint newest.slot < time + spec.win := by
        intro slot here
        obtain ⟨sent, recently, rfl⟩ := List.mem_map.mp here
        have earlier := most _ (List.mem_map_of_mem recently)
        obtain ⟨sentHere, still⟩ := List.mem_filter.mp recently
        obtain ⟨newestSent, stillNewest⟩ := List.mem_filter.mp newestHere
        rw [decide_eq_true_eq] at still stillNewest
        have bound := (slots.sent endpoint sent sentHere).1
        have near := together spec (by rw [fixed]; exact among) sent sentHere newest newestSent
          still stillNewest
        have there : (executor.reserved endpoint)[sent.slot]? =
            some (executor.slotTime endpoint sent.slot) := by
          rw [Executor.slotTime, List.getD_eq_getElem?_getD, List.getElem?_eq_getElem bound]
          rfl
        exact ⟨_, there, earlier, near⟩
      have fewer := length_le_within distinct inside
      have capped := (slots.reserving endpoint).capped among
        (executor.slotTime endpoint newest.slot)
      rw [List.length_map] at fewer
      omega

/-- An acquisition of the method limiter sends nothing. -/
theorem acquireMethod_sends {id now gapMs : Nat} {call : Call}
    (done : executor.acquireMethod id now gapMs call = some next) :
    next.sends = executor.sends := by
  rw [Executor.acquireMethod] at done
  split at done
  · cases done
  · cases done
    rfl
  · cases done
    rfl

/-- An acquisition of the app limiter sends nothing. -/
theorem acquireApp_sends {id now gapMs slot : Nat} {call : Call}
    (done : executor.acquireApp id now gapMs slot call = some next) :
    next.sends = executor.sends := by
  rw [Executor.acquireApp] at done
  split at done
  · cases done
  · cases done
    rfl
  · cases done
    rfl

/-- The branch on the status sends nothing. -/
theorem branch_sends (executor : Executor) (id now : Nat) (call : Call) (response : Response) :
    (executor.branch id now call response).sends = executor.sends := by
  have cool : (executor.cool now call response).sends = executor.sends := by
    rw [Executor.cool]
    split
    · rfl
    · rfl
  unfold Executor.branch
  dsimp only
  repeat' split
  all_goals first | rfl | exact cool

/-- Only a send puts a request on the wire. -/
theorem advance_sends {id : Nat} {call : Call} {act : Act}
    (done : executor.advance id executor.clock call act = some next) :
    next.sends = executor.sends ∨ ∃ slot, call.phase = .admitted slot ∧ act = .send ∧
      next = executor.wire id executor.clock slot call := by
  unfold Executor.advance at done
  split at done
  · split at done
    · exact .inl (acquireMethod_sends done)
    · cases done
  · split at done
    · exact .inl (acquireApp_sends done)
    · cases done
  · next slot phase =>
      cases done
      exact .inr ⟨slot, phase, rfl, rfl⟩
  · cases done
    exact .inl rfl
  · cases done
    exact .inl rfl
  · cases done
    exact .inl rfl
  · cases done
    exact .inl rfl
  · cases done
    exact .inl (branch_sends _ _ _ _ _)
  · split at done
    · cases done
      unfold Executor.retry
      split
      · exact .inl rfl
      · exact .inl rfl
    · cases done
  · cases done

/-- A send whose window had room. -/
theorem Limited.wire (limited : Limited specs executor) {id slot : Nat} {call : Call}
    (slots : Slots specs (executor.wire id executor.clock slot call))
    (past : ∀ sent ∈ executor.sends call.endpoint, sent.time ≤ executor.clock)
    (together : executor.SlotsTogether call.endpoint
      (executor.sends call.endpoint ++ [⟨slot, executor.clock⟩]) executor.clock) :
    Limited specs (executor.wire id executor.clock slot call) := by
  intro endpoint spec among time
  have sends : (executor.wire id executor.clock slot call).sends endpoint =
      if endpoint = call.endpoint then
        executor.sends call.endpoint ++ [⟨slot, executor.clock⟩]
      else executor.sends endpoint := by
    rw [Executor.wire, Executor.put_sends]
    exact Function.update_apply _ _ _ _
  by_cases same : endpoint = call.endpoint
  · subst same
    rw [if_pos rfl] at sends
    have here : executor.SlotsTogether call.endpoint
        ((executor.wire id executor.clock slot call).sends call.endpoint) executor.clock := by
      rw [sends]
      exact together
    have room := slots.within_sends among here
    rw [sends] at room ⊢
    by_cases later : executor.clock ≤ time
    · have all : ∀ sent ∈ (executor.sends call.endpoint ++
          [Sent.mk slot executor.clock]).map Sent.time, sent ≤ executor.clock := by
        intro sent inside
        rw [List.map_append, List.mem_append] at inside
        rcases inside with inside | last
        · obtain ⟨before, among, rfl⟩ := List.mem_map.mp inside
          exact past before among
        · exact Nat.le_of_eq (List.mem_singleton.mp last)
      exact Nat.le_trans (within_later all later) room
    · have out : within spec.win time [executor.clock] = 0 := by
        apply List.countP_eq_zero.mpr
        intro sent last
        rw [List.mem_singleton.mp last]
        simp only [decide_eq_true_eq]
        omega
      have before := limited call.endpoint spec among time
      rw [List.map_append, within_append]
      simp only [List.map_cons, List.map_nil]
      omega
  · rw [sends, if_neg same]
    exact limited endpoint spec among time

/-- **One step** keeps the sends limited, if it is steady. -/
theorem Limited.step (limited : Limited specs executor) (slots : Slots specs executor)
    {event : ExecutorEvent} (step : SteadyStep executor event next) : Limited specs next := by
  obtain ⟨⟨done, fixed⟩, steady⟩ := step
  have after := slots.step ⟨done, fixed⟩
  have quiet : next.sends = executor.sends → Limited specs next := by
    intro same
    rw [Limited, same]
    exact limited
  cases event with
  | execute id job =>
      apply quiet
      rw [Executor.step] at done
      split at done
      · cases done
        rfl
      · cases done
  | call id now act =>
      rw [Executor.step] at done
      split at done
      · next call there =>
          split at done
          · next ahead =>
              rcases advance_sends done with same | ⟨slot, phase, rfl, rfl⟩
              · exact quiet same
              · have here : Limited specs { executor with clock := now } := limited
                refine here.wire after (fun sent inside => ?_) ?_
                · exact Nat.le_trans (slots.sent _ sent inside).2 ahead
                · rw [Executor.steady, there, Option.all_some, phase] at steady
                  exact of_decide_eq_true steady
          · cases done
      · cases done
  | installKey key =>
      cases done
      exact limited
  | clearKeyBad =>
      apply quiet
      rw [Executor.step] at done
      split at done
      · cases done
        rfl
      · cases done

end Wire

/-- **The wire.** If every send is steady, the sends of a method are within its windows. -/
theorem sends_limited {key : String} {app : String → List WindowSpec}
    {specs : Endpoint → List WindowSpec} {events : List ExecutorEvent} {executor : Executor}
    (run : Run SteadyStep (.withSpecs key app specs) events executor) (endpoint : Endpoint) :
    ∀ spec ∈ specs endpoint, ∀ time,
      within spec.win time ((executor.sends endpoint).map Sent.time) ≤ spec.limit := by
  have both : Slots specs executor ∧ Limited specs executor := by
    refine run.invariant (fun executor => Slots specs executor ∧ Limited specs executor)
      (fun _ _ _ held step => ⟨held.1.step step.1, held.2.step held.1 step⟩)
      ⟨.withSpecs key app specs, fun _ _ _ _ => Nat.zero_le _⟩
  exact both.2 endpoint

/-- A method with one request in a second, on a host with a hundred. -/
def tightSpecs (endpoint : Endpoint) : List WindowSpec :=
  if endpoint = ("eu", "match") then [⟨1, 1000⟩] else [⟨100, 1000⟩]

def tight : Executor := .withSpecs "key" (fun _ => [⟨100, 1000⟩]) tightSpecs

def jobOf (id : Nat) (method : String) : Job := ⟨id, "eu", method, "", 150000⟩

def overLimit : Response := ⟨429, "429 Too Many Requests", none, none, some 5, false, .ok ""⟩

/-- A call of another method trips the limit of the host. Two calls reserve slots that are a
second apart, and go out together when the cooldown is over. -/
def closingUp : List ExecutorEvent :=
  [.execute 0 (jobOf 0 "league"), .execute 1 (jobOf 1 "match"), .execute 2 (jobOf 2 "match"),
    .call 0 0 (.acquire 10), .call 0 0 (.acquire 10), .call 0 0 .send,
    .call 0 0 (.answer overLimit), .call 0 0 .adopt, .call 0 0 .adopt, .call 0 0 .conclude,
    .call 1 1000000 (.acquire 10), .call 1 1000000 (.acquire 10),
    .call 2 1000000 (.acquire 10), .call 2 1006000000 (.acquire 10),
    .call 2 1006000000 (.acquire 10),
    .call 1 5005000000 (.acquire 10), .call 1 5005000000 .send,
    .call 2 5005000000 (.acquire 10), .call 2 5020000000 (.acquire 10), .call 2 5020000000 .send]

/-- The second call waits on, and its send is more than a second after the first. -/
def spreadOut : List ExecutorEvent :=
  closingUp.take 17 ++ [.call 2 6020000000 (.acquire 10), .call 2 6020000000 .send]

/-- Two steady sends of a method stay within its limit. -/
theorem sends_limited_twice : ∃ executor, Run SteadyStep tight spreadOut executor ∧
    (executor.sends ("eu", "match")).map Sent.time = [5005000000, 6020000000] ∧
    within (fromMillis 1000) 6020000000 ((executor.sends ("eu", "match")).map Sent.time) ≤ 1 := by
  have done : (follow Executor.step
      (fun executor event => executor.keepsSpecs event && executor.steady event) tight
      spreadOut).any fun executor =>
        (executor.sends ("eu", "match")).map Sent.time = [5005000000, 6020000000] := by
    decide
  obtain ⟨executor, run, twice⟩ := run_of_follow done
  have steady : Run SteadyStep tight spreadOut executor := by
    refine run.mono fun source event target step => ?_
    rw [Bool.and_eq_true] at step
    exact ⟨⟨step.1, step.2.1⟩, step.2.2⟩
  exact ⟨executor, steady, of_decide_eq_true twice,
    sends_limited steady ("eu", "match") ⟨1, 1000⟩ (by decide) 6020000000⟩

/-- The two sends are fifteen milliseconds apart. -/
theorem sends_close_up : ¬ ∀ events executor, Run FixedStep tight events executor →
    ∀ endpoint, ∀ spec ∈ tightSpecs endpoint, ∀ time,
      within spec.win time ((executor.sends endpoint).map Sent.time) ≤ spec.limit := by
  intro limited
  have done : (follow Executor.step Executor.keepsSpecs tight closingUp).any fun executor =>
      1 < within (fromMillis 1000) 5020000000
        ((executor.sends ("eu", "match")).map Sent.time) := by
    decide
  obtain ⟨executor, run, more⟩ := run_of_follow done
  have most := limited closingUp executor run ("eu", "match") ⟨1, 1000⟩ (by decide) 5020000000
  exact Nat.not_lt_of_le most (of_decide_eq_true more)

end LolCrawler.Node
