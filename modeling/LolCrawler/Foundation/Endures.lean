import LolCrawler.Foundation.Steps

/-! # Programs that a crash may stop

Programs whose steps do not fail. Over files, such a program performs a list of operations, or
the first few of them (`Performs`). Over a state it has a triple: what holds when it ends, when
it gives up, and wherever a crash stops it (`Endures`). A property that sequencing keeps
(`Sequential`) is proved of a program once for all such properties; that nothing but a crash
stops a program is one of them (`Sturdy`).
-/

namespace Foundation

/-- The run may crash, and no step fails. -/
def Cut.Benign : Cut → Prop
  | .never | .crash _ => True
  | .fail _ _ _ => False

/-- A run without failures crashes now, or goes on without failures. -/
theorem Cut.Benign.next {cut : Cut} (benign : cut.Benign) :
    cut.next = .error none ∨ ∃ rest, cut.next = .ok rest ∧ rest.Benign := by
  cases cut with
  | never => exact .inr ⟨.never, rfl, trivial⟩
  | crash after =>
      cases after with
      | zero => exact .inl rfl
      | succ after => exact .inr ⟨.crash after, rfl, trivial⟩
  | fail after written rest => exact benign.elim

/-! ## Programs over files -/

/-- Unless an operation fails: the program performs these operations and has this outcome, or
crashes before one of them. -/
def Performs {Path α : Type} [DecidableEq Path] (action : Fs Path α) (files : Files Path)
    (ops : List (Op Path)) (outcome : Except Stop α) : Prop :=
  ∀ (cut : Cut) log, cut.Benign → ∃ done result rest,
    action ⟨files, cut, log⟩ = (result, ⟨done.foldl Op.apply files, rest, log ++ done⟩) ∧
      (done <+: ops ∧ result = .error .crashed ∨ done = ops ∧ result = outcome ∧ rest.Benign)

namespace Performs

variable {Path α β : Type} [DecidableEq Path] {files : Files Path}

/-- A value performs nothing. -/
theorem pure (value : α) : Performs (Pure.pure value) files [] (.ok value) :=
  fun cut log benign => ⟨[], .ok value, cut, by rw [List.append_nil]; rfl, .inr ⟨rfl, rfl, benign⟩⟩

/-- A failure performs nothing. -/
theorem fail (err : Error) : Performs (Fs.fail err : Fs Path α) files [] (.error (.failed err)) :=
  fun cut log benign => ⟨[], _, cut, by rw [List.append_nil]; rfl, .inr ⟨rfl, rfl, benign⟩⟩

/-- A lifted result performs nothing. -/
theorem lift (result : Except Error α) :
    Performs (Fs.lift result) files [] (result.mapError Stop.failed) := by
  cases result with
  | error err => exact .fail err
  | ok value => exact .pure value

/-- An operation on files that it needs is performed. -/
theorem step {op : Op Path} (present : ∀ path ∈ op.needs, (files path).isSome) :
    Performs (Fs.step op) files [op] (.ok ()) := by
  intro cut log benign
  rcases benign.next with stops | ⟨rest, goes, benign⟩
  · refine ⟨[], .error .crashed, cut, ?_, .inl ⟨List.nil_prefix, rfl⟩⟩
    rw [Fs.step, stops, List.append_nil]
    rfl
  · exact ⟨[op], .ok (), rest, Fs.step_eq_ok.mpr ⟨rest, goes, present, rfl⟩,
      .inr ⟨rfl, rfl, benign⟩⟩

/-- Two parts perform their operations one after the other. -/
theorem bind {first : Fs Path α} {second : α → Fs Path β} {ops later : List (Op Path)} {mid : α}
    {outcome : Except Stop β} (left : Performs first files ops (.ok mid))
    (right : Performs (second mid) (ops.foldl Op.apply files) later outcome) :
    Performs (first >>= second) files (ops ++ later) outcome := by
  intro cut log benign
  obtain ⟨done, result, rest, run, ⟨early, rfl⟩ | ⟨rfl, rfl, benign⟩⟩ := left cut log benign
  · exact ⟨done, _, rest, Fs.bind_of_error run, .inl ⟨early.trans (List.prefix_append _ _), rfl⟩⟩
  · obtain ⟨done', result, rest', run', ending⟩ := right rest (log ++ done) benign
    refine ⟨done ++ done', result, rest', ?_, ?_⟩
    · rw [Fs.bind_of_ok run, run', List.foldl_append, List.append_assoc]
    · rcases ending with ⟨early, rfl⟩ | ⟨rfl, rfl, benign⟩
      · exact .inl ⟨(List.prefix_append_right_inj _).mpr early, rfl⟩
      · exact .inr ⟨rfl, rfl, benign⟩

/-- A step and what follows it. -/
theorem step_bind {op : Op Path} {second : Unit → Fs Path α} {later : List (Op Path)}
    {outcome : Except Stop α} (present : ∀ path ∈ op.needs, (files path).isSome)
    (right : Performs (second ()) (op.apply files) later outcome) :
    Performs (Fs.step op >>= second) files (op :: later) outcome :=
  (step present).bind right

/-- An observation is performed in front of what follows. -/
theorem observe_bind {second : Unit → Fs Path α} {later : List (Op Path)}
    {outcome : Except Stop α} (right : Performs (second ()) files later outcome) :
    Performs (Fs.step .observe >>= second) files (.observe :: later) outcome :=
  step_bind (fun _ needed => nomatch needed) right

/-- A read observes. -/
theorem read (path : Path) : Performs (Fs.read path) files [.observe] (.ok (files path)) :=
  observe_bind fun cut log benign =>
    ⟨[], .ok (files path), cut, by rw [List.append_nil]; rfl, .inr ⟨rfl, rfl, benign⟩⟩

/-- A file that is there is opened. -/
theorem openFile {path : Path} {bytes : Bytes} (present : files path = some bytes) :
    Performs (Fs.openFile path) files [.observe] (.ok bytes) := by
  refine (Performs.read path).bind (show Performs _ _ [] _ from ?_)
  rw [present]
  exact .pure bytes

end Performs

/-! ## Properties that sequencing keeps -/

/-- A property of programs that is built up along their sequences. -/
structure Sequential {Site State : Type} (holds : (α : Type) → Prog Site State α → Prop) :
    Prop where
  pure : ∀ {α : Type} (value : α), holds α (Pure.pure value)
  gets : ∀ {α : Type} (part : State → α), holds α (Prog.gets part)
  bind : ∀ {α β : Type} {first : Prog Site State α} {second : α → Prog Site State β},
    holds α first → (∀ value, holds β (second value)) → holds β (first >>= second)

section Sequential

variable {Site State : Type}

/-- What moves along a relation may be put in sequence. -/
theorem Leaves.sequential (relation : State → State → Prop) [Std.Refl relation]
    [IsTrans State relation] :
    Sequential fun (α : Type) (program : Prog Site State α) => Leaves relation program :=
  ⟨Leaves.pure, Leaves.gets, Leaves.bind⟩

/-- What is paced may be put in sequence. -/
theorem Paced.sequential : Sequential fun (α : Type) (program : Prog Site State α) =>
    Paced program :=
  ⟨Paced.pure, Paced.gets, Paced.bind⟩

end Sequential

/-! ## The triple -/

/-- Unless a step fails: the program ends as described, or gives up in a state as described, or
crashes in one. -/
def Endures {Site State α : Type} (program : Prog Site State α) (before : State)
    (done : α → State → Prop) (failed crashed : State → Prop) : Prop :=
  ∀ cut : Cut, cut.Benign → match program ⟨before, cut⟩ with
    | (.ok value, after) => after.cut.Benign ∧ done value after.state
    | (.error .crashed, after) => crashed after.state
    | (.error (.failed _), after) => failed after.state

namespace Endures

variable {Site State α β : Type} {before : State} {done : α → State → Prop}
  {failed crashed : State → Prop}

/-- What a program endures may be weakened. -/
theorem mono {program : Prog Site State α} {done' : α → State → Prop}
    {failed' crashed' : State → Prop} (endures : Endures program before done failed crashed)
    (fine : ∀ value after, done value after → done' value after)
    (worse : ∀ after, failed after → failed' after)
    (worst : ∀ after, crashed after → crashed' after) :
    Endures program before done' failed' crashed' := by
  intro cut benign
  have here := endures cut benign
  rcases run : program ⟨before, cut⟩ with ⟨(_ | site) | value, after⟩
  · rw [run] at here
    exact worst _ here
  · rw [run] at here
    exact worse _ here
  · rw [run] at here
    exact ⟨here.1, fine _ _ here.2⟩

/-- What the program leaves alone is known wherever it ends. -/
theorem leaves {program : Prog Site State α} {relation : State → State → Prop}
    (endures : Endures program before done failed crashed) (leaves : Leaves relation program) :
    Endures program before (fun value after => done value after ∧ relation before after)
      (fun after => failed after ∧ relation before after) crashed := by
  intro cut benign
  have here := endures cut benign
  have there := leaves.state before cut
  rcases run : program ⟨before, cut⟩ with ⟨(_ | site) | value, after⟩
  · rw [run] at here
    exact here
  · rw [run] at here there
    exact ⟨here, there⟩
  · rw [run] at here there
    exact ⟨here.1, here.2, there⟩

/-- A value endures. -/
theorem pure {value : α} (here : done value before) :
    Endures (Pure.pure value : Prog Site State α) before done failed crashed :=
  fun _ benign => ⟨benign, here⟩

/-- A change endures. -/
theorem modify {change : State → State} {done : Unit → State → Prop}
    (here : done () (change before)) :
    Endures (Prog.modify change : Prog Site State Unit) before done failed crashed :=
  fun _ benign => ⟨benign, here⟩

/-- Two parts endure one after the other. -/
theorem bind {first : Prog Site State α} {second : α → Prog Site State β}
    {mid : α → State → Prop} {done : β → State → Prop}
    (left : Endures first before mid failed crashed)
    (right : ∀ value between, mid value between →
      Endures (second value) between done failed crashed) :
    Endures (first >>= second) before done failed crashed := by
  intro cut benign
  have here := left cut benign
  rcases run : first ⟨before, cut⟩ with ⟨(_ | site) | value, between⟩
  · rw [run] at here
    rw [Prog.bind_of_error run]
    exact here
  · rw [run] at here
    rw [Prog.bind_of_error run]
    exact here
  · rw [run] at here
    rw [Prog.bind_of_ok run]
    exact right value between.state here.2 between.cut here.1

/-- A read endures what the program behind it endures. -/
theorem gets_bind {part : State → β} {second : β → Prog Site State α}
    (right : Endures (second (part before)) before done failed crashed) :
    Endures (Prog.gets part >>= second) before done failed crashed :=
  fun cut benign => right cut benign

/-- A change endures what the program behind it endures from the changed state. -/
theorem modify_bind {change : State → State} {second : Unit → Prog Site State α}
    (right : Endures (second ()) (change before) done failed crashed) :
    Endures (Prog.modify change >>= second) before done failed crashed :=
  fun cut benign => right cut benign

/-- An uncut run that does not crash ends or gives up. -/
theorem returns {program : Prog Site State α} {result : Except (Halt Site) α}
    {after : Course State} {kept : State → Prop}
    (endures : Endures program before (fun _ => kept) kept crashed)
    (run : program ⟨before, .never⟩ = (result, after)) (up : result ≠ .error .crashed) :
    kept after.state := by
  have here := endures .never trivial
  rw [run] at here
  rcases result with (_ | site) | value
  · exact (up rfl).elim
  · exact here
  · exact here.2

/-- Where a crash stops a run. -/
theorem crashes {program : Prog Site State α} {point : Nat} {after : Course State}
    (endures : Endures program before done failed crashed)
    (run : program ⟨before, .crash point⟩ = (.error .crashed, after)) : crashed after.state := by
  have here := endures (.crash point) trivial
  rwa [run] at here

end Endures

/-! ## Programs that nothing else stops -/

/-- Unless a step fails, only a crash stops the program. -/
def Sturdy {Site State α : Type} (program : Prog Site State α) : Prop :=
  ∀ before, Endures program before (fun _ _ => True) (fun _ => False) fun _ => True

namespace Sturdy

variable {Site State α : Type}

/-- What is sturdy may be put in sequence. -/
theorem sequential : Sequential fun (α : Type) (program : Prog Site State α) => Sturdy program where
  pure _ := fun _ => Endures.pure trivial
  gets _ := fun _ _ benign => ⟨benign, trivial⟩
  bind left right := fun before => (left before).bind fun value between _ => right value between

/-- A step is sturdy. -/
theorem step (site : Site) (change : State → State) : Sturdy (Prog.step site change) := by
  intro before cut benign
  unfold Prog.step
  rcases benign.next with stops | ⟨rest, goes, benign⟩
  · simp only [stops]
  · simp only [goes]
    exact ⟨benign, trivial⟩

/-- What is known of a program however it is cut. -/
theorem endures {program : Prog Site State α} (sturdy : Sturdy program) {before : State}
    {done : α → State → Prop} {halted : Halt Site → State → Prop} {failed crashed : State → Prop}
    (meets : Meets program before done halted)
    (fallen : ∀ after, halted .crashed after → crashed after) :
    Endures program before done failed crashed := by
  intro cut benign
  have here := meets cut
  have only := sturdy before cut benign
  rcases run : program ⟨before, cut⟩ with ⟨(_ | site) | value, after⟩
  · rw [run] at here
    exact fallen _ here
  · rw [run] at only
    exact only.elim
  · rw [run] at here only
    exact ⟨only.1, here⟩

end Sturdy

end Foundation
