import Mathlib.Logic.Function.Basic
import LolCrawler.Foundation.Errors

/-! # Programs over files, cut short

A program is a sequence of file-system operations, each of which is atomic except
for a failed write, which may leave part of its data. Any number of its operations
may fail, and a crash may come before one of them. The log lists the operations that
took effect.

Two rules carry the proofs. A program that performs only operations of some kind
leaves the other files alone, however it is cut (`Only`). An uninterrupted program
is evaluated step by step (`Runs`).
-/

namespace Foundation

/-- The contents of each file that exists. -/
abbrev Files (Path : Type) := Path → Option Bytes

/-- `set_len`: shortens a file, or fills it up with zeros. -/
def resize (len : Nat) (bytes : Bytes) : Bytes :=
  bytes.take len ++ .replicate (len - bytes.length) 0

/-- Shrinking keeps the front. -/
theorem resize_of_le {len : Nat} {bytes : Bytes} (inside : len ≤ bytes.length) :
    resize len bytes = bytes.take len := by
  rw [resize, Nat.sub_eq_zero_of_le inside, List.replicate_zero, List.append_nil]

/-- The operations of a file system. -/
inductive Op (Path : Type) where
  /-- Opening, seeking, reading and measuring change no contents, nor does syncing where
  nothing depends on it. -/
  | observe
  | sync (path : Path)
  | remove (path : Path)
  | create (path : Path)
  /-- Opening a file for appending creates it if it is missing. -/
  | touch (path : Path)
  | write (path : Path) (data : Bytes)
  | setLen (path : Path) (len : Nat)
  | rename (source target : Path)

namespace Op

variable {Path : Type} [DecidableEq Path]

/-- The operation needs this file. -/
def needs : Op Path → Option Path
  | .observe | .sync _ | .remove _ | .create _ | .touch _ => none
  | .write path _ | .setLen path _ => some path
  | .rename source _ => some source

/-- What the operation does. -/
def apply (files : Files Path) : Op Path → Files Path
  | .observe | .sync _ => files
  | .remove path => Function.update files path none
  | .create path => Function.update files path (some [])
  | .touch path => Function.update files path (some ((files path).getD []))
  | .write path data => Function.update files path ((files path).map (· ++ data))
  | .setLen path len => Function.update files path ((files path).map (resize len))
  | .rename source target =>
      Function.update (Function.update files target (files source)) source none

/-- What the operation leaves when it fails. -/
def leave (files : Files Path) (written : Nat) : Op Path → Files Path
  | .write path data => (Op.write path (data.take written)).apply files
  | _ => files

end Op

/-- What goes wrong in a run, and after how many operations: nothing more, a crash, or the
failure of an operation that writes some bytes, and then the rest. -/
inductive Cut where
  | never
  | crash (after : Nat)
  | fail (after written : Nat) (rest : Cut)
deriving DecidableEq

/-- The cut that remains after one operation, or how that operation is cut: by a
crash, or by a failure that writes some bytes and leaves the rest of the cut ahead. -/
def Cut.next : Cut → Except (Option (Nat × Cut)) Cut
  | .never => .ok .never
  | .crash 0 => .error none
  | .crash (after + 1) => .ok (.crash after)
  | .fail 0 written rest => .error (some (written, rest))
  | .fail (after + 1) written rest => .ok (.fail after written rest)

/-- What is ahead of a run that has done so many operations. -/
def Cut.passed (ops : Nat) : Cut → Cut
  | .never => .never
  | .crash after => .crash (after - ops)
  | .fail after written rest => .fail (after - ops) written rest

/-- How many of the next operations come before the first failure. -/
def Cut.smooth (ops : Nat) : Cut → Nat
  | .never | .crash _ => ops
  | .fail after _ _ => min after ops

/-- Operations that have passed are added up. -/
theorem Cut.passed_passed (cut : Cut) (first second : Nat) :
    (cut.passed first).passed second = cut.passed (first + second) := by
  cases cut with
  | never => rfl
  | crash after => simp only [Cut.passed, Nat.sub_sub]
  | fail after written rest => simp only [Cut.passed, Nat.sub_sub]

/-- Nothing has passed. -/
theorem Cut.passed_zero (cut : Cut) : cut.passed 0 = cut := by
  cases cut <;> rfl

/-- An operation that is done leaves what is behind it. -/
theorem Cut.next_eq_ok {cut rest : Cut} (goes : cut.next = .ok rest) :
    rest = cut.passed 1 ∧ ∀ ops, cut.smooth (ops + 1) = rest.smooth ops + 1 := by
  cases cut with
  | never =>
      cases goes
      exact ⟨rfl, fun _ => rfl⟩
  | crash after =>
      cases after with
      | zero => cases goes
      | succ after =>
          cases goes
          exact ⟨rfl, fun _ => rfl⟩
  | fail after written later =>
      cases after with
      | zero => cases goes
      | succ after =>
          cases goes
          exact ⟨rfl, fun ops => Nat.add_min_add_right after ops 1⟩

/-- Where an operation fails, the first failure is next. -/
theorem Cut.smooth_of_failing {cut rest : Cut} {written : Nat}
    (fails : cut.next = .error (some (written, rest))) (ops : Nat) : cut.smooth ops = 0 := by
  cases cut with
  | never => cases fails
  | crash after =>
      cases after with
      | zero => cases fails
      | succ after => cases fails
  | fail after written later =>
      cases after with
      | zero => exact Nat.zero_min ops
      | succ after => cases fails

/-- The files, the cut still ahead, and the operations done. -/
structure World (Path : Type) where
  files : Files Path
  cut : Cut
  log : List (Op Path)

/-- Why a run stopped. -/
inductive Stop where
  | crashed
  | failed (err : Error)

/-- A program over files. -/
def Fs (Path α : Type) : Type := World Path → Except Stop α × World Path

namespace Fs

variable {Path α β : Type}

instance : Monad (Fs Path) where
  pure value := fun world => (.ok value, world)
  bind first second := fun world =>
    match first world with
    | (.ok value, world) => second value world
    | (.error stop, world) => (.error stop, world)

/-- Fail with an error. -/
def fail (err : Error) : Fs Path α := fun world => (.error (.failed err), world)

/-- A computation that touches no file. -/
def lift : Except Error α → Fs Path α
  | .ok value => pure value
  | .error err => fail err

/-- Attach a context to an error. A crash has none. -/
def context (what : String) (action : Fs Path α) : Fs Path α := fun world =>
  match action world with
  | (.error (.failed err), world) => (.error (.failed (what :: err)), world)
  | result => result

/-- The result, or the error if the action failed. -/
def attempt (action : Fs Path α) : Fs Path (Except Error α) := fun world =>
  match action world with
  | (.ok value, world) => (.ok (.ok value), world)
  | (.error (.failed err), world) => (.ok (.error err), world)
  | (.error .crashed, world) => (.error .crashed, world)

/-- The files as they are. -/
def look : Fs Path (Files Path) := fun world => (.ok world.files, world)

/-! ## Inversion -/

/-- A bind goes on from the value of its first part. -/
theorem bind_of_ok {first : Fs Path α} {second : α → Fs Path β} {world between : World Path}
    {mid : α} (run : first world = (.ok mid, between)) :
    (first >>= second) world = second mid between := by
  simp only [bind, run]

/-- A bind stops where its first part stops. -/
theorem bind_of_error {first : Fs Path α} {second : α → Fs Path β} {world between : World Path}
    {stop : Stop} (run : first world = (.error stop, between)) :
    (first >>= second) world = (.error stop, between) := by
  simp only [bind, run]

/-- A bind ends if and only if both parts end. -/
theorem bind_eq_ok {first : Fs Path α} {second : α → Fs Path β} {world after : World Path}
    {value : β} :
    (first >>= second) world = (.ok value, after) ↔
      ∃ mid between, first world = (.ok mid, between) ∧
      second mid between = (.ok value, after) := by
  rcases run : first world with ⟨stop | mid, between⟩
  · simp [bind_of_error run]
  · simp [bind_of_ok run, and_assoc]

/-- A bind stops in its first part or in its second. -/
theorem bind_eq_error {first : Fs Path α} {second : α → Fs Path β} {world after : World Path}
    {stop : Stop} :
    (first >>= second) world = (.error stop, after) ↔
      first world = (.error stop, after) ∨
        ∃ mid between, first world = (.ok mid, between) ∧
          second mid between = (.error stop, after) := by
  rcases run : first world with ⟨stop | mid, between⟩
  · simp [bind_of_error run]
  · simp [bind_of_ok run, and_assoc]

/-- `pure` changes nothing. -/
theorem pure_eq_ok {value value' : α} {world after : World Path} :
    (pure value : Fs Path α) world = (.ok value', after) ↔ value' = value ∧ after = world := by
  show (Except.ok value, world) = _ ↔ _
  simp [eq_comm]

/-- A lifted result changes nothing. -/
theorem lift_eq_ok {result : Except Error α} {value : α} {world after : World Path} :
    lift result world = (.ok value, after) ↔ result = .ok value ∧ after = world := by
  cases result with
  | error err => simp [lift, fail]
  | ok found =>
      rw [lift, pure_eq_ok, Except.ok.injEq, eq_comm (a := value)]

/-- A stop with a context is a stop without it. -/
theorem context_eq_error {what : String} {action : Fs Path α}
    {world after : World Path} {stop : Stop}
    (run : context what action world = (.error stop, after)) :
    ∃ inner, action world = (.error inner, after) := by
  unfold context at run
  rcases result : action world with ⟨(_ | err) | mid, between⟩
  · rw [result] at run
    cases run
    exact ⟨_, rfl⟩
  · rw [result] at run
    cases run
    exact ⟨_, rfl⟩
  · rw [result] at run
    cases run

/-- A context does not change what ends. -/
theorem context_eq_ok {what : String} {action : Fs Path α} {value : α} {world after : World Path} :
    context what action world = (.ok value, after) ↔ action world = (.ok value, after) := by
  unfold context
  rcases action world with ⟨(_ | err) | mid, between⟩ <;> simp

/-- An attempt that succeeds is the action. -/
theorem attempt_eq_ok {action : Fs Path α} {value : α} {world after : World Path} :
    attempt action world = (.ok (.ok value), after) ↔ action world = (.ok value, after) := by
  unfold attempt
  rcases action world with ⟨(_ | err) | mid, between⟩ <;> simp

section Step

variable [DecidableEq Path]

/-- One operation. -/
def step (op : Op Path) : Fs Path Unit := fun world =>
  match world.cut.next with
  | .error none => (.error .crashed, world)
  | .error (some (written, rest)) =>
      (.error (.failed ["I/O error"]),
        { world with files := op.leave world.files written, cut := rest })
  | .ok cut =>
      if op.needs.all fun path => (world.files path).isSome then
        (.ok (), ⟨op.apply world.files, cut, world.log ++ [op]⟩)
      else (.error (.failed ["No such file or directory"]), { world with cut := cut })

/-- The contents of a file, if it exists. -/
def read (path : Path) : Fs Path (Option Bytes) := do
  step .observe
  let files ← look
  pure (files path)

/-- The contents of a file that must exist. -/
def openFile (path : Path) : Fs Path Bytes := do
  match ← read path with
  | some bytes => pure bytes
  | none => fail ["No such file or directory"]

/-- An operation ends if there is no cut and its files are there, and it is logged. -/
theorem step_eq_ok {op : Op Path} {world after : World Path} :
    step op world = (.ok (), after) ↔
      ∃ cut, world.cut.next = .ok cut ∧ (∀ path ∈ op.needs, (world.files path).isSome) ∧
        after = ⟨op.apply world.files, cut, world.log ++ [op]⟩ := by
  have present : (op.needs.all fun path => (world.files path).isSome) = true ↔
      ∀ path ∈ op.needs, (world.files path).isSome := by
    cases op.needs <;> simp
  unfold step
  rcases world.cut.next with (_ | ⟨written, rest⟩) | cut
  · simp
  · simp
  · simp only [Except.ok.injEq, exists_eq_left', ← present]
    split
    · next here =>
        simp only [here, true_and, Prod.mk.injEq]
        exact eq_comm
    · next absent => simp [absent]

/-- A read finds the file and changes none. -/
theorem read_eq_ok {path : Path} {world after : World Path} {found : Option Bytes}
    (run : read path world = (.ok found, after)) :
    found = world.files path ∧ after.files = world.files := by
  obtain ⟨_, between, first, run⟩ := bind_eq_ok.mp run
  obtain ⟨files, later, second, run⟩ := bind_eq_ok.mp run
  obtain ⟨cut, -, -, rfl⟩ := step_eq_ok.mp first
  cases second
  obtain ⟨rfl, rfl⟩ := pure_eq_ok.mp run
  exact ⟨rfl, rfl⟩

/-- An opened file is there, and none is changed. -/
theorem openFile_eq_ok {path : Path} {world after : World Path} {bytes : Bytes}
    (run : openFile path world = (.ok bytes, after)) :
    world.files path = some bytes ∧ after.files = world.files := by
  obtain ⟨found, between, first, run⟩ := bind_eq_ok.mp run
  obtain ⟨rfl, same⟩ := read_eq_ok first
  cases present : world.files path with
  | none =>
      rw [present] at run
      simp [fail] at run
  | some bytes' =>
      rw [present] at run
      obtain ⟨rfl, rfl⟩ := pure_eq_ok.mp run
      exact ⟨rfl, same⟩

end Step

end Fs

/-! ## Programs that perform operations of one kind -/

/-- The operation leaves this file alone. -/
def Op.Spares {Path : Type} (path : Path) : Op Path → Prop
  | .observe | .sync _ => True
  | .remove other | .create other | .touch other | .write other _ | .setLen other _ => other ≠ path
  | .rename source target => source ≠ path ∧ target ≠ path

section Only

variable {Path : Type}

/-- An operation leaves a file that it spares. -/
theorem Op.Spares.apply [DecidableEq Path] {path : Path} {op : Op Path} (spared : op.Spares path)
    (files : Files Path) : op.apply files path = files path := by
  cases op with
  | observe | sync _ => rfl
  | remove other | create other | touch other | write other _ | setLen other _ =>
      exact Function.update_of_ne (Ne.symm spared) _ _
  | rename source target =>
      rw [Op.apply, Function.update_of_ne (Ne.symm spared.1),
        Function.update_of_ne (Ne.symm spared.2)]

/-- The operation leaves this file alone when it fails. -/
def Op.SparesFailing [DecidableEq Path] (path : Path) (op : Op Path) : Prop :=
  ∀ files written, op.leave files written path = files path

/-- It leaves the file also if it is cut. -/
theorem Op.Spares.failing [DecidableEq Path] {path : Path} {op : Op Path}
    (spared : op.Spares path) : op.SparesFailing path := by
  intro files written
  cases op with
  | write other data => exact Function.update_of_ne (Ne.symm spared) _ _
  | observe | sync _ | remove _ | create _ | touch _ | setLen _ _ | rename _ _ => rfl

variable [DecidableEq Path]

/-- However it is cut, the program performs allowed operations only: a file changes through
them or not at all. -/
structure Only {α : Type} (allowed : Op Path → Prop) (action : Fs Path α) : Prop where
  trace : ∀ world, ∃ ops, (∀ op ∈ ops, allowed op) ∧ (action world).2.log = world.log ++ ops ∧
    ∀ path, (∀ op, allowed op → op.SparesFailing path) → (∀ op ∈ ops, op.Spares path) →
      (action world).2.files path = world.files path

namespace Only

variable {α β : Type} {allowed : Op Path → Prop}

/-- An action that changes neither the files nor the log. -/
theorem of_still {action : Fs Path α} (still : ∀ world, (action world).2 = world) :
    Only allowed action where
  trace world := ⟨[], by simp, by rw [still, List.append_nil], fun _ _ _ => by rw [still]⟩

theorem pure (value : α) : Only allowed (Pure.pure value : Fs Path α) :=
  of_still fun _ => rfl

theorem fail (err : Error) : Only allowed (Fs.fail err : Fs Path α) :=
  of_still fun _ => rfl

theorem look : Only allowed (Fs.look : Fs Path (Files Path)) :=
  of_still fun _ => rfl

theorem lift (result : Except Error α) : Only allowed (Fs.lift result : Fs Path α) := by
  cases result with
  | error err => exact .fail err
  | ok value => exact .pure value

/-- Two actions that leave the same world behind. -/
theorem of_same {action : Fs Path α} {other : Fs Path β}
    (same : ∀ world, (other world).2 = (action world).2) (only : Only allowed action) :
    Only allowed other where
  trace world := by
    rw [same]
    exact only.trace world

/-- A context has no operations of its own. -/
theorem context {what : String} {action : Fs Path α} (only : Only allowed action) :
    Only allowed (Fs.context what action) := by
  refine of_same (fun world => ?_) only
  unfold Fs.context
  rcases action world with ⟨(_ | err) | value, after⟩ <;> rfl

/-- An attempt does what the action does. -/
theorem attempt {action : Fs Path α} (only : Only allowed action) :
    Only allowed (Fs.attempt action) := by
  refine of_same (fun world => ?_) only
  unfold Fs.attempt
  rcases action world with ⟨(_ | err) | value, after⟩ <;> rfl

/-- A bind does what its parts may do. -/
theorem bind {first : Fs Path α} {second : α → Fs Path β} (left : Only allowed first)
    (right : ∀ value, Only allowed (second value)) : Only allowed (first >>= second) where
  trace world := by
    obtain ⟨ops, all, log, spared⟩ := left.trace world
    rcases run : first world with ⟨stop | value, between⟩
    · rw [run] at log spared
      rw [Fs.bind_of_error run]
      exact ⟨ops, all, log, spared⟩
    · obtain ⟨later, all', log', spared'⟩ := (right value).trace between
      rw [run] at log spared
      rw [Fs.bind_of_ok run]
      refine ⟨ops ++ later, ?_, ?_, ?_⟩
      · intro op inside
        rcases List.mem_append.mp inside with inside | inside
        · exact all op inside
        · exact all' op inside
      · rw [log', log, List.append_assoc]
      · intro path failing apart
        rw [spared' path failing fun op inside => apart op (List.mem_append_right _ inside)]
        exact spared path failing fun op inside => apart op (List.mem_append_left _ inside)

/-- A single operation that is allowed does nothing else. -/
theorem step {op : Op Path} (here : allowed op) : Only allowed (Fs.step op) where
  trace world := by
    unfold Fs.step
    split
    · exact ⟨[], by simp, (List.append_nil _).symm, fun _ _ _ => rfl⟩
    · exact ⟨[], by simp, (List.append_nil _).symm, fun _ failing _ => failing op here _ _⟩
    · split
      · refine ⟨[op], by simpa using here, rfl, fun path _ apart => ?_⟩
        exact (apart op List.mem_cons_self).apply _
      · exact ⟨[], by simp, (List.append_nil _).symm, fun _ _ _ => rfl⟩

theorem read (path : Path) (observed : allowed .observe) : Only allowed (Fs.read path) :=
  (Only.step observed).bind fun _ => Only.look.bind fun _ => .pure _

theorem openFile (path : Path) (observed : allowed .observe) : Only allowed (Fs.openFile path) := by
  refine (Only.read path observed).bind fun found => ?_
  cases found with
  | none => exact .fail _
  | some bytes => exact .pure _

/-- What is allowed to do less may do more. -/
theorem mono {other : Op Path → Prop} {action : Fs Path α} (only : Only allowed action)
    (weaker : ∀ op, allowed op → other op) : Only other action where
  trace world := by
    obtain ⟨ops, all, log, spared⟩ := only.trace world
    exact ⟨ops, fun op inside => weaker op (all op inside), log,
      fun path failing => spared path fun op here => failing op (weaker op here)⟩

section Run

variable {action : Fs Path α} {world after : World Path} {result : Except Stop α} {path : Path}

/-- A file that the allowed operations leave alone. -/
theorem files_eq (only : Only allowed action) (run : action world = (result, after))
    (apart : ∀ op, allowed op → op.Spares path) : after.files path = world.files path := by
  obtain ⟨ops, all, -, spared⟩ := only.trace world
  rw [run] at spared
  exact spared path (fun op here => (apart op here).failing) fun op inside =>
    apart op (all op inside)

/-- What the run adds to the log is allowed. -/
theorem allowed_of_mem_log {op : Op Path} (only : Only allowed action)
    (run : action world = (result, after)) (done : op ∈ after.log) :
    op ∈ world.log ∨ allowed op := by
  obtain ⟨ops, all, log, -⟩ := only.trace world
  rw [run] at log
  rw [log] at done
  exact (List.mem_append.mp done).imp_right (all op)

/-- A file that no logged operation touched. -/
theorem files_eq_of_log (only : Only allowed action) (run : action world = (result, after))
    (failing : ∀ op, allowed op → op.SparesFailing path)
    (apart : ∀ op ∈ after.log, op.Spares path) :
    after.files path = world.files path := by
  obtain ⟨ops, -, log, spared⟩ := only.trace world
  rw [run] at log spared
  refine spared path failing fun op inside => apart op ?_
  rw [log]
  exact List.mem_append_right _ inside

end Run

end Only

end Only

/-! ## Counting operations -/

/-- Where it returns a value, the action has done this many operations. -/
def Costs {Path α : Type} (action : Fs Path α) (ops : Nat) : Prop :=
  ∀ world value after, action world = (.ok value, after) → after.cut = world.cut.passed ops

namespace Costs

variable {Path α β : Type}

theorem pure (value : α) : Costs (Pure.pure value : Fs Path α) 0 := by
  intro world found after run
  rw [(Fs.pure_eq_ok.mp run).2, Cut.passed_zero]

theorem fail (err : Error) (ops : Nat) : Costs (Fs.fail err : Fs Path α) ops := by
  intro world found after run
  cases run

theorem look : Costs (Fs.look : Fs Path (Files Path)) 0 := by
  intro world found after run
  cases run
  exact (Cut.passed_zero _).symm

/-- The costs of the parts of a bind are added up. -/
theorem bind {first : Fs Path α} {second : α → Fs Path β} {ops later : Nat}
    (left : Costs first ops) (right : ∀ value, Costs (second value) later) :
    Costs (first >>= second) (ops + later) := by
  intro world value after run
  obtain ⟨mid, between, one, two⟩ := Fs.bind_eq_ok.mp run
  rw [right mid between value after two, left world mid between one, Cut.passed_passed]

/-- A context costs nothing. -/
theorem context {what : String} {action : Fs Path α} {ops : Nat} (costs : Costs action ops) :
    Costs (Fs.context what action) ops :=
  fun world value after run => costs world value after (Fs.context_eq_ok.mp run)

variable [DecidableEq Path]

/-- An operation costs one. -/
theorem step (op : Op Path) : Costs (Fs.step op) 1 := by
  intro world value after run
  obtain ⟨cut, goes, -, rfl⟩ := Fs.step_eq_ok.mp run
  exact (Cut.next_eq_ok goes).1

theorem read (path : Path) : Costs (Fs.read path) 1 :=
  (step _).bind fun _ => look.bind fun _ => pure _

theorem openFile (path : Path) : Costs (Fs.openFile path) 1 := by
  have found : ∀ found : Option Bytes, Costs (match found with
      | some bytes => Pure.pure bytes
      | none => Fs.fail ["No such file or directory"] : Fs Path Bytes) 0 := by
    intro found
    cases found with
    | none => exact fail _ 0
    | some bytes => exact pure bytes
  exact (read path).bind found

end Costs

/-! ## Uninterrupted runs -/

/-- Uninterrupted, the action returns the value and turns the files into `after`. -/
def Runs {Path α : Type} (action : Fs Path α) (files : Files Path) (value : α)
    (after : Files Path) : Prop :=
  ∀ log, ∃ log', action ⟨files, .never, log⟩ = (.ok value, ⟨after, .never, log'⟩)

namespace Runs

variable {Path α β : Type} {files between after : Files Path}

theorem pure (value : α) : Runs (Pure.pure value) files value files :=
  fun log => ⟨log, rfl⟩

theorem look : Runs Fs.look files files files :=
  fun log => ⟨log, rfl⟩

theorem lift {result : Except Error α} {value : α} (ok : result = .ok value) :
    Runs (Fs.lift result) files value files := by
  rw [ok]
  exact .pure value

/-- Two parts run one after the other. -/
theorem bind {first : Fs Path α} {second : α → Fs Path β} {mid : α} {value : β}
    (left : Runs first files mid between) (right : Runs (second mid) between value after) :
    Runs (first >>= second) files value after := by
  intro log
  obtain ⟨log', here⟩ := left log
  obtain ⟨log'', there⟩ := right log'
  exact ⟨log'', Fs.bind_eq_ok.mpr ⟨_, _, here, there⟩⟩

/-- A context does not change a run. -/
theorem context {what : String} {action : Fs Path α} {value : α}
    (runs : Runs action files value after) : Runs (Fs.context what action) files value after := by
  intro log
  obtain ⟨log', here⟩ := runs log
  exact ⟨log', Fs.context_eq_ok.mpr here⟩

/-- An attempt of a run succeeds. -/
theorem attempt {action : Fs Path α} {value : α} (runs : Runs action files value after) :
    Runs (Fs.attempt action) files (.ok value) after := by
  intro log
  obtain ⟨log', here⟩ := runs log
  exact ⟨log', by rw [Fs.attempt, here]⟩

variable [DecidableEq Path]

/-- An operation runs on files that it needs. -/
theorem step {op : Op Path} (present : ∀ path ∈ op.needs, (files path).isSome) :
    Runs (Fs.step op) files () (op.apply files) :=
  fun log => ⟨log ++ [op], Fs.step_eq_ok.mpr ⟨.never, rfl, present, rfl⟩⟩

/-- An observation changes nothing. -/
theorem observe : Runs (Fs.step (.observe : Op Path)) files () files :=
  step (by simp [Op.needs])

/-- A sync changes no file. -/
theorem sync (path : Path) : Runs (Fs.step (.sync path)) files () files :=
  step (by simp [Op.needs])

/-- A read returns the file. -/
theorem read (path : Path) : Runs (Fs.read path) files (files path) files :=
  observe.bind (look.bind (.pure _))

/-- A file that is there can be opened. -/
theorem openFile {path : Path} {bytes : Bytes} (present : files path = some bytes) :
    Runs (Fs.openFile path) files bytes files := by
  refine (Runs.read path).bind ?_
  rw [present]
  exact .pure bytes

end Runs

/-! ## What a crash leaves -/

/-- The files, and what of them is synced. -/
structure Cached (Path : Type) where
  now : Files Path
  safe : Files Path

section Crash

variable {Path : Type}

def Cached.perform [DecidableEq Path] (cached : Cached Path) (op : Op Path) : Cached Path where
  now := op.apply cached.now
  safe :=
    match op with
    | .sync path => Function.update cached.safe path (cached.now path)
    | _ => cached.safe

/-- What these operations have synced, on files that were synced before. -/
def syncedBy [DecidableEq Path] (files : Files Path) (log : List (Op Path)) : Files Path :=
  (log.foldl Cached.perform ⟨files, files⟩).safe

/-- A crash leaves of each file what is synced, and as many of the bytes behind it. -/
def crashLeaves (now safe : Files Path) (kept : Path → Nat) : Files Path := fun path =>
  (now path).map (List.take ((safe path).elim 0 List.length + kept path))

end Crash

end Foundation
