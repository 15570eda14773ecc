import Mathlib.Order.Defs.Unbundled
import LolCrawler.Foundation.Files

/-! # Programs over a state, cut short

A program works on a state. Some of its steps touch the world outside. Any number of
them may fail, and a crash may come before one of them. A program that stops early
leaves the state as it was at that point; nothing is rolled back.

`Meets` describes what a program leaves, however it is cut. A `Total` program ends
unless it is cut, and a `Paced` one can be made to fail anywhere after it (`Fails`).
-/

namespace Foundation

/-- A state, and the cut still ahead. -/
structure Course (State : Type) where
  state : State
  cut : Cut

/-- Why a program stopped early: by a crash, or by the failure of a step of this kind. -/
inductive Halt (Site : Type) where
  | crashed
  | failed (site : Site)
deriving DecidableEq

/-- A program over a state. -/
def Prog (Site State α : Type) : Type := Course State → Except (Halt Site) α × Course State

namespace Prog

variable {Site State α β : Type}

instance : Monad (Prog Site State) where
  pure value := fun course => (.ok value, course)
  bind first second := fun course =>
    match first course with
    | (.ok value, course) => second value course
    | (.error halt, course) => (.error halt, course)

/-- A part of the state. -/
def gets (part : State → α) : Prog Site State α := fun course => (.ok (part course.state), course)

/-- A change that cannot fail. -/
def modify (change : State → State) : Prog Site State Unit := fun course =>
  (.ok (), { course with state := change course.state })

/-- A change that takes effect unless the run is cut here. -/
def step (site : Site) (change : State → State) : Prog Site State Unit := fun course =>
  match course.cut.next with
  | .error none => (.error .crashed, course)
  | .error (some (_, rest)) => (.error (.failed site), { course with cut := rest })
  | .ok cut => (.ok (), ⟨change course.state, cut⟩)

/-- An observation that may fail. -/
def ask (site : Site) (part : State → α) : Prog Site State α := do
  step site id
  gets part

/-- A bind goes on from the value of its first part. -/
theorem bind_of_ok {first : Prog Site State α} {second : α → Prog Site State β}
    {course between : Course State} {mid : α} (run : first course = (.ok mid, between)) :
    (first >>= second) course = second mid between := by
  simp only [bind, run]

/-- A bind halts where its first part halts. -/
theorem bind_of_error {first : Prog Site State α} {second : α → Prog Site State β}
    {course between : Course State} {halt : Halt Site}
    (run : first course = (.error halt, between)) :
    (first >>= second) course = (.error halt, between) := by
  simp only [bind, run]

instance : LawfulMonad (Prog Site State) := LawfulMonad.mk' _
  (fun program => by
    funext course
    simp only [Functor.map]
    rcases program course with ⟨halt | value, after⟩ <;> rfl)
  (fun _ _ => rfl)
  (fun program second third => by
    funext course
    simp only [bind]
    rcases program course with ⟨halt | value, after⟩ <;> rfl)

end Prog

/-! ## What a program leaves -/

/-- Started in `before`, and however it is cut, the program ends as described. -/
def Meets {Site State α : Type} (program : Prog Site State α) (before : State)
    (done : α → State → Prop) (halted : Halt Site → State → Prop) : Prop :=
  ∀ cut, match program ⟨before, cut⟩ with
    | (.ok value, after) => done value after.state
    | (.error halt, after) => halted halt after.state

namespace Meets

variable {Site State α β : Type} {before : State} {done : α → State → Prop}
  {halted : Halt Site → State → Prop}

/-- A program that ends has met its end. -/
theorem ok {program : Prog Site State α} {cut : Cut} {after : Course State} {value : α}
    (meets : Meets program before done halted)
    (run : program ⟨before, cut⟩ = (.ok value, after)) : done value after.state := by
  have here := meets cut
  rwa [run] at here

/-- A program that halts has met its halt. -/
theorem error {program : Prog Site State α} {cut : Cut} {after : Course State} {halt : Halt Site}
    (meets : Meets program before done halted)
    (run : program ⟨before, cut⟩ = (.error halt, after)) : halted halt after.state := by
  have here := meets cut
  rwa [run] at here

/-- What is met may be weakened. -/
theorem mono {program : Prog Site State α} {done' : α → State → Prop}
    {halted' : Halt Site → State → Prop} (meets : Meets program before done halted)
    (fine : ∀ value after, done value after → done' value after)
    (stopped : ∀ halt after, halted halt after → halted' halt after) :
    Meets program before done' halted' := by
  intro cut
  have here := meets cut
  rcases run : program ⟨before, cut⟩ with ⟨halt | value, after⟩
  · rw [run] at here
    exact stopped _ _ here
  · rw [run] at here
    exact fine _ _ here

/-- Both descriptions hold. -/
theorem and {program : Prog Site State α} {done' : α → State → Prop}
    {halted' : Halt Site → State → Prop} (meets : Meets program before done halted)
    (meets' : Meets program before done' halted') :
    Meets program before (fun value after => done value after ∧ done' value after)
      (fun halt after => halted halt after ∧ halted' halt after) := by
  intro cut
  have here := meets cut
  have there := meets' cut
  rcases run : program ⟨before, cut⟩ with ⟨halt | value, after⟩
  · rw [run] at here there
    exact ⟨here, there⟩
  · rw [run] at here there
    exact ⟨here, there⟩

/-- A value is met where it is. -/
theorem pure {value : α} (here : done value before) :
    Meets (Pure.pure value : Prog Site State α) before done halted :=
  fun _ => here

/-- A read is met where it is. -/
theorem gets {part : State → α} (here : done (part before) before) :
    Meets (Prog.gets part) before done halted :=
  fun _ => here

/-- A change is met where it leads. -/
theorem modify {change : State → State} {done : Unit → State → Prop}
    (here : done () (change before)) : Meets (Prog.modify change) before done halted :=
  fun _ => here

/-- A step is met where it leads, and where it is cut. -/
theorem step {site : Site} {change : State → State} {done : Unit → State → Prop}
    (here : done () (change before)) (crashed : halted .crashed before)
    (failed : halted (.failed site) before) :
    Meets (Prog.step site change) before done halted := by
  intro cut
  unfold Prog.step
  rcases cut.next with (_ | written) | cut'
  · exact crashed
  · exact failed
  · exact here

/-- Two parts are met one after the other. -/
theorem bind {first : Prog Site State α} {second : α → Prog Site State β}
    {mid : α → State → Prop} {done : β → State → Prop} (left : Meets first before mid halted)
    (right : ∀ value between, mid value between → Meets (second value) between done halted) :
    Meets (first >>= second) before done halted := by
  intro cut
  have here := left cut
  rcases run : first ⟨before, cut⟩ with ⟨halt | value, between⟩
  · rw [run] at here
    rw [Prog.bind_of_error run]
    exact here
  · rw [run] at here
    rw [Prog.bind_of_ok run]
    exact right value between.state here between.cut

/-- A step and what follows it. -/
theorem step_bind {site : Site} {change : State → State} {second : Unit → Prog Site State α}
    (crashed : halted .crashed before) (failed : halted (.failed site) before)
    (right : Meets (second ()) (change before) done halted) :
    Meets (Prog.step site change >>= second) before done halted := by
  have first : Meets (Prog.step site change) before (fun _ after => after = change before) halted :=
    Meets.step rfl crashed failed
  exact first.bind fun _ _ same => same ▸ right

/-- A read meets what the program behind it meets. -/
theorem gets_bind {part : State → β} {second : β → Prog Site State α}
    (right : Meets (second (part before)) before done halted) :
    Meets (Prog.gets part >>= second) before done halted :=
  fun cut => right cut

/-- A change meets what the program behind it meets from the changed state. -/
theorem modify_bind {change : State → State} {second : Unit → Prog Site State α}
    (right : Meets (second ()) (change before) done halted) :
    Meets (Prog.modify change >>= second) before done halted :=
  fun cut => right cut

/-- A question may end the program, or it meets what the program behind it meets. -/
theorem ask_bind {site : Site} {part : State → β} {second : β → Prog Site State α}
    (crashed : halted .crashed before) (failed : halted (.failed site) before)
    (right : Meets (second (part before)) before done halted) :
    Meets (Prog.ask site part >>= second) before done halted := by
  have first : Meets (Prog.ask site part) before
      (fun value after => value = part before ∧ after = before) halted :=
    Meets.step_bind crashed failed (Meets.gets ⟨rfl, rfl⟩)
  refine first.bind fun value between here => ?_
  obtain ⟨rfl, rfl⟩ := here
  exact right

end Meets

/-! ## What a program leaves alone -/

/-- However it is cut, the program moves the state along the relation. -/
def Leaves {Site State α : Type} (relation : State → State → Prop) (program : Prog Site State α) :
    Prop :=
  ∀ before, Meets program before (fun _ after => relation before after)
    fun _ after => relation before after

namespace Leaves

variable {Site State α β : Type} {relation other : State → State → Prop}

/-- What relates two states may be weakened. -/
theorem mono {program : Prog Site State α} (leaves : Leaves relation program)
    (included : ∀ before after, relation before after → other before after) :
    Leaves other program :=
  fun before => (leaves before).mono (fun _ _ here => included _ _ here)
    fun _ _ here => included _ _ here

/-- The state is related to the one before wherever the program ends. -/
theorem state {program : Prog Site State α} (leaves : Leaves relation program) (before : State)
    (cut : Cut) : relation before (program ⟨before, cut⟩).2.state := by
  have here := leaves before cut
  rcases run : program ⟨before, cut⟩ with ⟨halt | value, after⟩
  · rw [run] at here
    exact here
  · rw [run] at here
    exact here

/-- A change that moves along the relation. -/
theorem modify {change : State → State} (moves : ∀ state, relation state (change state)) :
    Leaves relation (Prog.modify change : Prog Site State Unit) :=
  fun before => Meets.modify (moves before)

/-- A value moves nothing. -/
theorem pure [Std.Refl relation] (value : α) :
    Leaves relation (Pure.pure value : Prog Site State α) :=
  fun before => Meets.pure (Std.Refl.refl before)

/-- A read moves nothing. -/
theorem gets [Std.Refl relation] (part : State → α) :
    Leaves relation (Prog.gets part : Prog Site State α) :=
  fun before => Meets.gets (Std.Refl.refl before)

/-- A step that moves along the relation, or is cut. -/
theorem step [Std.Refl relation] (site : Site) {change : State → State}
    (moves : ∀ state, relation state (change state)) : Leaves relation (Prog.step site change) :=
  fun before => Meets.step (moves before) (Std.Refl.refl before) (Std.Refl.refl before)

/-- Two parts move along a relation that is transitive. -/
theorem bind [IsTrans State relation] {first : Prog Site State α} {second : α → Prog Site State β}
    (left : Leaves relation first) (right : ∀ value, Leaves relation (second value)) :
    Leaves relation (first >>= second) := by
  intro before
  refine (left before).bind fun value between here => ?_
  exact (right value between).mono (fun _ _ later => IsTrans.trans _ _ _ here later)
    fun _ _ later => IsTrans.trans _ _ _ here later

end Leaves

/-! ## Uncut runs -/

/-- Unless it is cut, the program ends. -/
def Total {Site State α : Type} (program : Prog Site State α) : Prop :=
  ∀ before, ∃ value after, program ⟨before, .never⟩ = (.ok value, ⟨after, .never⟩)

/-- Uncut, the program ends with this value in this state. -/
def Ends {Site State α : Type} (program : Prog Site State α) (before : State) (value : α)
    (after : State) : Prop :=
  program ⟨before, .never⟩ = (.ok value, ⟨after, .never⟩)

namespace Ends

variable {Site State α β : Type} {before after : State}

/-- Two parts end one after the other. -/
theorem bind {first : Prog Site State α} {second : α → Prog Site State β} {between : State}
    {mid : α} {value : β} (left : Ends first before mid between)
    (right : Ends (second mid) between value after) :
    Ends (first >>= second) before value after := by
  unfold Ends
  rw [Prog.bind_of_ok left]
  exact right

/-- A program ends in one way. -/
theorem unique {program : Prog Site State α} {after' : State} {value value' : α}
    (one : Ends program before value after) (two : Ends program before value' after') :
    value = value' ∧ after = after' := by
  unfold Ends at one two
  rw [one, Prod.mk.injEq, Except.ok.injEq, Course.mk.injEq] at two
  exact ⟨two.1, two.2.1⟩

/-- The value is not used. -/
theorem discard {program : Prog Site State α}
    (ends : Ends (program >>= fun _ => Pure.pure ()) before () after) :
    ∃ value, Ends program before value after := by
  unfold Ends at ends ⊢
  rcases run : program ⟨before, .never⟩ with ⟨halt | value, between⟩
  · rw [Prog.bind_of_error run] at ends
    cases ends
  · rw [Prog.bind_of_ok run] at ends
    exact ⟨value, congrArg (Prod.mk _) (Prod.mk.inj ends).2⟩

/-- A program that was evaluated without a cut ends as it did. -/
theorem of_eq {program : Prog Site State α} {value : α}
    (result : (program ⟨before, .never⟩).1 = .ok value)
    (cut : (program ⟨before, .never⟩).2.cut = .never) :
    Ends program before value (program ⟨before, .never⟩).2.state := by
  unfold Ends
  rcases run : program ⟨before, .never⟩ with ⟨ending, ⟨state, rest⟩⟩
  rw [run] at result cut
  simp only at result cut
  rw [result, cut]

/-- An uncut run does what the program does however it is cut. -/
theorem meets {program : Prog Site State α} {value : α} {done : α → State → Prop}
    {halted : Halt Site → State → Prop} (ends : Ends program before value after)
    (described : Meets program before done halted) : done value after :=
  described.ok ends

end Ends

/-! ## Failures further ahead -/

/-- Uncut, the program ends. It takes a number of operations that can fail: a failure after these
is still ahead when it has ended. -/
def Paced {Site State α : Type} (program : Prog Site State α) : Prop :=
  ∀ before, ∃ value after steps, Ends program before value after ∧ ∀ later written rest,
    program ⟨before, .fail (steps + later) written rest⟩ =
      (.ok value, ⟨after, .fail later written rest⟩)

namespace Paced

variable {Site State α β : Type}

/-- A paced program ends unless it is cut. -/
theorem total {program : Prog Site State α} (paced : Paced program) : Total program := by
  intro before
  obtain ⟨value, after, steps, ends, -⟩ := paced before
  exact ⟨value, after, ends⟩

/-- A value is paced. -/
theorem pure (value : α) : Paced (Pure.pure value : Prog Site State α) :=
  fun before => ⟨value, before, 0, rfl, fun later _ _ => by rw [Nat.zero_add]; rfl⟩

/-- A read is paced. -/
theorem gets (part : State → α) : Paced (Prog.gets part : Prog Site State α) :=
  fun before => ⟨part before, before, 0, rfl, fun later _ _ => by rw [Nat.zero_add]; rfl⟩

/-- A change is paced. -/
theorem modify (change : State → State) : Paced (Prog.modify change : Prog Site State Unit) :=
  fun before => ⟨(), change before, 0, rfl, fun later _ _ => by rw [Nat.zero_add]; rfl⟩

/-- A step is paced. -/
theorem step (site : Site) (change : State → State) : Paced (Prog.step site change) :=
  fun before => ⟨(), change before, 1, rfl, fun later _ _ => by rw [Nat.add_comm]; rfl⟩

/-- Two parts are paced if each is. -/
theorem bind {first : Prog Site State α} {second : α → Prog Site State β} (left : Paced first)
    (right : ∀ value, Paced (second value)) : Paced (first >>= second) := by
  intro before
  obtain ⟨mid, between, steps, ends, goes⟩ := left before
  obtain ⟨value, after, steps', ends', goes'⟩ := right mid between
  refine ⟨value, after, steps + steps', ends.bind ends', fun later written rest => ?_⟩
  rw [Nat.add_assoc, Prog.bind_of_ok (goes _ _ _), goes']

/-- A question is paced. -/
theorem ask (site : Site) (part : State → α) : Paced (Prog.ask site part) :=
  (step site id).bind fun _ => gets part

/-- What the program ends with, if there is only one thing. -/
theorem ends {program : Prog Site State α} {before after : State} {value : α}
    {halted : Halt Site → State → Prop} (paced : Paced program)
    (meets : Meets program before (fun found between => found = value ∧ between = after) halted) :
    Ends program before value after := by
  obtain ⟨found, between, run⟩ := paced.total before
  obtain ⟨same, here⟩ := meets.ok run
  have there : between = after := here
  rw [← same, ← there]
  exact run

end Paced

/-- The program can fail at a step of this kind, and leave this state. -/
def Fails {Site State α : Type} (program : Prog Site State α) (before : State) (site : Site)
    (after : State) : Prop :=
  ∃ steps, program ⟨before, .fail steps 0 .never⟩ =
    (.error (.failed site), ⟨after, .never⟩)

namespace Fails

variable {Site State α β : Type} {before after : State} {site : Site}

/-- A step can fail where it is. -/
theorem step (site : Site) (change : State → State) (before : State) :
    Fails (Prog.step site change) before site before :=
  ⟨0, rfl⟩

/-- A program fails where its first part fails. -/
theorem left {first : Prog Site State α} (fails : Fails first before site after)
    (second : α → Prog Site State β) : Fails (first >>= second) before site after := by
  obtain ⟨steps, run⟩ := fails
  exact ⟨steps, Prog.bind_of_error run⟩

/-- The first part ends, and then the second one fails. -/
theorem right {first : Prog Site State α} {second : α → Prog Site State β} {between : State}
    {mid : α} (paced : Paced first) (ends : Ends first before mid between)
    (fails : Fails (second mid) between site after) :
    Fails (first >>= second) before site after := by
  obtain ⟨value, state, steps, ends', goes⟩ := paced before
  obtain ⟨rfl, rfl⟩ := ends.unique ends'
  obtain ⟨later, run⟩ := fails
  exact ⟨steps + later, by rw [Prog.bind_of_ok (goes later 0 .never), run]⟩

end Fails

end Foundation
