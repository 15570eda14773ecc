import Mathlib.Data.List.Nodup
import Mathlib.Logic.Function.Basic
import Mathlib.Tactic.Simps.Basic
import LolCrawler.Foundation.Lines
import LolCrawler.Foundation.Run

/-! # Invite codes

A text file holds one line per invite: its code, a tab, its label. `create` and `consume`
read the file, and later write it; calls from several threads and processes interleave
between the two. Reads and writes are atomic and do not fail.

`created` and `accepted` are history only: the codes returned by `create`, and the codes
for which `consume` returned true.
-/

namespace LolCrawler.Server

open Foundation

/-- Unambiguous alphabet. -/
def alphabet : Text := "ABCDEFGHJKMNPQRSTUVWXYZ23456789".toList

/-- What the random generator can draw. -/
def drawn (code : Text) : Bool := code.length = 10 && code.all fun c => alphabet.contains c

/-- The line of an invite. -/
def inviteLine (code label : Text) : Text := code ++ '\t' :: label

/-- What `create` writes. -/
def createdContent (content code label : Text) : Text :=
  let content :=
    if content ≠ [] && content.getLast? ≠ some '\n' then content ++ ['\n'] else content
  content ++ (inviteLine code label ++ ['\n'])

/-- `line.split('\t').next() == Some(code.trim())` -/
def matchesCode (code line : Text) : Bool := line.takeWhile (· ≠ '\t') = trim code

/-- Is there a line to consume? -/
def found (content code : Text) : Bool := (lines content).any (matchesCode code)

/-- What `consume` writes. -/
def consumedContent (content code : Text) : Text :=
  let kept := (lines content).filter fun line => !matchesCode code line
  let out := List.intercalate ['\n'] kept
  if out ≠ [] then out ++ ['\n'] else out

/-- A call that has read the file and will write it. -/
inductive InviteCall where
  | create (code label content : Text)
  | consume (code content : Text)
deriving DecidableEq

structure Invites where
  file : Option Text
  calls : Nat → Option InviteCall
  created : List Text
  accepted : List Text

inductive InviteEvent where
  /-- `create` draws a code and reads the file. -/
  | create (id : Nat) (code label : Text)
  /-- `consume` reads the file. -/
  | consume (id : Nat) (code : Text)
  /-- The call writes the file and returns. -/
  | write (id : Nat)
deriving DecidableEq

namespace Invites

/-- No file, and no calls. -/
def new : Invites := ⟨none, fun _ => none, [], []⟩

@[simps]
def put (invites : Invites) (id : Nat) (call : InviteCall) : Invites :=
  { invites with calls := Function.update invites.calls id (some call) }

@[simps]
def returned (invites : Invites) (id : Nat) : Invites :=
  { invites with calls := Function.update invites.calls id none }

def step (invites : Invites) : InviteEvent → Option Invites
  | .create id code label =>
      if invites.calls id = none ∧ drawn code then
        some (invites.put id (.create code label (invites.file.getD [])))
      else none
  | .consume id code =>
      if invites.calls id = none then
        match invites.file with
        | none => some invites
        | some content =>
            if found content code then some (invites.put id (.consume code content))
            else some invites
      else none
  | .write id =>
      match invites.calls id with
      | some (.create code label content) =>
          some ({ invites with
            file := some (createdContent content code label)
            created := invites.created ++ [code] }.returned id)
      | some (.consume code content) =>
          some ({ invites with
            file := some (consumedContent content code)
            accepted := invites.accepted ++ [trim code] }.returned id)
      | none => none

/-- A `consume` of this code, with nobody else at it, returns true. -/
def accepts (invites : Invites) (code : Text) : Bool :=
  invites.file.any fun content => found content code

/-- A call writes over the content it has read. A created code is new, and its label is on
one line. -/
def careful (invites : Invites) : InviteEvent → Bool
  | .write id =>
      match invites.calls id with
      | some (.create code label content) =>
          content = invites.file.getD [] && !invites.created.contains code && !label.contains '\n'
      | some (.consume _ content) => invites.file = some content
      | none => true
  | _ => true

end Invites

/-- What one-time codes are. -/
structure OneTime (invites : Invites) : Prop where
  created : ∀ code ∈ invites.accepted, code ∈ invites.created
  once : invites.accepted.Nodup
  kept : ∀ code ∈ invites.created, code ∉ invites.accepted → invites.accepts code = true

def InviteStep (invites : Invites) (event : InviteEvent) (next : Invites) : Prop :=
  invites.step event = some next

def CarefulStep (invites : Invites) (event : InviteEvent) (next : Invites) : Prop :=
  invites.step event = some next ∧ invites.careful event

/-! ## Lines of invites -/

section Lines

variable {code label : Text}

/-- A code has no blanks. -/
theorem solid_of_drawn (random : drawn code = true) : ∀ c ∈ code, isWhitespace c = false := by
  intro c inside
  simp only [drawn, Bool.and_eq_true, decide_eq_true_eq, List.all_eq_true] at random
  have member : c ∈ alphabet := by simpa using random.2 c inside
  have all : alphabet.all (fun c => !isWhitespace c) = true := by decide
  simpa using List.all_eq_true.mp all c member

/-- A code has no tabs. -/
theorem tab_of_drawn (random : drawn code = true) : '\t' ∉ code := by
  intro inside
  have solid := solid_of_drawn random _ inside
  revert solid
  decide

/-- A code has no line ends. -/
theorem newline_of_drawn (random : drawn code = true) : '\n' ∉ code := by
  intro inside
  have solid := solid_of_drawn random _ inside
  revert solid
  decide

/-- The code is the first field of its line. -/
theorem field_inviteLine (random : drawn code = true) (label : Text) :
    (inviteLine code label).takeWhile (· ≠ '\t') = code := by
  rw [inviteLine, List.takeWhile_append_of_pos, List.takeWhile_cons_of_neg (by simp),
    List.append_nil]
  intro c inside
  have other : c ≠ '\t' := by
    intro same
    rw [same] at inside
    exact tab_of_drawn random inside
  simpa using other

/-- The label of a line loses its carriage return. -/
theorem stripCr_inviteLine (code label : Text) :
    stripCr (inviteLine code label) = inviteLine code (stripCr label) := by
  cases label using List.reverseRecOn with
  | nil => simp [stripCr, inviteLine]
  | append_singleton label last =>
      have shape : inviteLine code (label ++ [last]) = inviteLine code label ++ [last] := by
        simp [inviteLine]
      rw [shape, stripCr, List.getLast?_concat, stripCr, List.getLast?_concat]
      split
      · rw [List.dropLast_concat, List.dropLast_concat]
      · exact shape.symm

/-- A line with a code is one line. -/
theorem single_inviteLine (random : drawn code = true) (single : '\n' ∉ label) :
    '\n' ∉ inviteLine code label := by
  rw [inviteLine, List.mem_append, List.mem_cons, not_or, not_or]
  exact ⟨newline_of_drawn random, by decide, single⟩

/-- A label without its carriage return is one line. -/
theorem single_stripCr (single : '\n' ∉ label) : '\n' ∉ stripCr label := by
  unfold stripCr
  split
  · exact fun inside => single ((List.dropLast_sublist _).subset inside)
  · exact single

end Lines

/-! ## The file -/

/-- The text of a list of codes with their labels. -/
def render (entries : List (Text × Text)) : Text :=
  unlines (entries.map fun entry => inviteLine entry.1 entry.2)

/-- Drawn codes, and labels on one line. -/
def Entries (entries : List (Text × Text)) : Prop :=
  ∀ entry ∈ entries, drawn entry.1 = true ∧ '\n' ∉ entry.2

section File

variable {entries : List (Text × Text)} {code label content : Text}

/-- The lines of the file are those of the invites. -/
theorem Entries.lines_render (sound : Entries entries) :
    lines (render entries) = entries.map fun entry => inviteLine entry.1 (stripCr entry.2) := by
  rw [render, lines_unlines, List.map_map]
  · apply List.map_congr_left
    intro entry inside
    exact stripCr_inviteLine entry.1 entry.2
  · intro line inside
    obtain ⟨entry, member, rfl⟩ := List.mem_map.mp inside
    exact single_inviteLine (sound entry member).1 (sound entry member).2

/-- A line matches its own code and no other. -/
theorem Entries.matches_iff (sound : Entries entries) {entry : Text × Text}
    (inside : entry ∈ entries) (code : Text) :
    matchesCode code (inviteLine entry.1 (stripCr entry.2)) = true ↔ entry.1 = trim code := by
  rw [matchesCode, field_inviteLine (sound entry inside).1, decide_eq_true_eq]

/-- `consume` finds a code exactly if it is among the entries, trimmed. -/
theorem Entries.found_iff (sound : Entries entries) (code : Text) :
    found (render entries) code = true ↔ trim code ∈ entries.map Prod.fst := by
  rw [found, sound.lines_render, List.any_map, List.any_eq_true, List.mem_map]
  apply exists_congr
  intro entry
  apply and_congr_right
  intro inside
  exact sound.matches_iff inside code

/-- `create` adds its entry behind the others. -/
theorem createdContent_render (entries : List (Text × Text)) (code label : Text) :
    createdContent (render entries) code label = render (entries ++ [(code, label)]) := by
  have ends : ¬ (render entries ≠ [] ∧ (render entries).getLast? ≠ some '\n') := by
    intro open'
    rcases unlines_ends (entries.map fun entry => inviteLine entry.1 entry.2) with empty | newline
    · exact open'.1 empty
    · exact open'.2 newline
  have still : (render entries ≠ [] && (render entries).getLast? ≠ some '\n') = false := by
    simpa using ends
  rw [createdContent, still]
  simp [render, unlines]

/-- `consume` takes out the entries of its code and keeps the others, less a `\r` at their end. -/
theorem Entries.consumedContent_render (sound : Entries entries) (code : Text) :
    consumedContent (render entries) code =
      render ((entries.filter fun entry => entry.1 ≠ trim code).map
        fun entry => (entry.1, stripCr entry.2)) := by
  have kept : (lines (render entries)).filter (fun line => !matchesCode code line) =
      (entries.filter fun entry => entry.1 ≠ trim code).map
        fun entry => inviteLine entry.1 (stripCr entry.2) := by
    rw [sound.lines_render, List.filter_map]
    congr 1
    apply List.filter_congr
    intro entry inside
    rw [Bool.eq_iff_iff, Function.comp_apply, Bool.not_eq_true', ← Bool.not_eq_true,
      sound.matches_iff inside code, decide_eq_true_eq]
  rw [consumedContent, kept, render, List.map_map]
  cases remaining : entries.filter fun entry => entry.1 ≠ trim code with
  | nil => rfl
  | cons first rest =>
      have joined := intercalate_newline ((first :: rest).map
        fun entry => inviteLine entry.1 (stripCr entry.2)) (by simp)
      have nonempty : List.intercalate ['\n'] ((first :: rest).map
          fun entry => inviteLine entry.1 (stripCr entry.2)) ≠ [] := by
        cases rest with
        | nil => simp [List.intercalate, inviteLine]
        | cons second rest => simp [List.intercalate, inviteLine]
      rw [if_pos (by simpa using nonempty)]
      exact joined

/-- The invites that are kept, read back, are sound. -/
theorem Entries.stripped (sound : Entries entries) (keep : Text × Text → Bool) :
    Entries ((entries.filter keep).map fun entry => (entry.1, stripCr entry.2)) := by
  intro entry inside
  obtain ⟨old, kept, rfl⟩ := List.mem_map.mp inside
  have before := sound old (List.mem_of_mem_filter kept)
  exact ⟨before.1, single_stripCr before.2⟩

end File

/-! ## One call after the other -/

/-- What a call knows that has read the file. -/
def InviteCall.Sound : InviteCall → Prop
  | .create code _ _ => drawn code = true
  | .consume code content => found content code = true

/-- The file holds the codes that were created and not accepted. -/
structure Outstanding (invites : Invites) (entries : List (Text × Text)) : Prop where
  file : invites.file.getD [] = render entries
  sound : Entries entries
  codes : entries.map Prod.fst = invites.created.filter fun code => !invites.accepted.contains code
  distinct : invites.created.Nodup
  accepted : ∀ code ∈ invites.accepted, code ∈ invites.created
  once : invites.accepted.Nodup
  calls : ∀ id call, invites.calls id = some call → call.Sound

namespace Outstanding

variable {invites next : Invites} {entries : List (Text × Text)} {id : Nat} {call : InviteCall}

/-- A call that begins changes no invite. -/
theorem put (outstanding : Outstanding invites entries) (sound : call.Sound) :
    Outstanding (invites.put id call) entries := by
  refine ⟨outstanding.file, outstanding.sound, outstanding.codes, outstanding.distinct,
    outstanding.accepted, outstanding.once, fun other rival there => ?_⟩
  rw [Invites.put_calls, Function.update_apply] at there
  split at there
  · cases there
    exact sound
  · exact outstanding.calls other rival there

/-- A call that returns changes no invite. -/
theorem returned (outstanding : Outstanding invites entries) (id : Nat) :
    Outstanding (invites.returned id) entries := by
  refine ⟨outstanding.file, outstanding.sound, outstanding.codes, outstanding.distinct,
    outstanding.accepted, outstanding.once, fun other rival there => ?_⟩
  rw [Invites.returned_calls, Function.update_apply] at there
  split at there
  · cases there
  · exact outstanding.calls other rival there

/-- A new code is outstanding. -/
theorem create (outstanding : Outstanding invites entries) {code label : Text}
    (random : drawn code = true) (single : '\n' ∉ label) (new : code ∉ invites.created) :
    Outstanding
      { invites with
        file := some (createdContent (invites.file.getD []) code label)
        created := invites.created ++ [code] }
      (entries ++ [(code, label)]) := by
  have unknown : code ∉ invites.accepted := fun inside => new (outstanding.accepted code inside)
  refine ⟨?_, ?_, ?_, ?_, ?_, outstanding.once, outstanding.calls⟩
  · rw [Option.getD_some, outstanding.file, createdContent_render]
  · intro entry inside
    rcases List.mem_append.mp inside with inside | last
    · exact outstanding.sound entry inside
    · rw [List.mem_singleton.mp last]
      exact ⟨random, single⟩
  · rw [List.map_append, List.filter_append, outstanding.codes]
    simp [unknown]
  · rw [List.nodup_append]
    refine ⟨outstanding.distinct, List.nodup_singleton _, fun one inside last same equal => ?_⟩
    rw [equal, List.mem_singleton.mp same] at inside
    exact new inside
  · intro other inside
    exact List.mem_append_left _ (outstanding.accepted other inside)

/-- An accepted code is outstanding no more. -/
theorem consume (outstanding : Outstanding invites entries) {code content : Text}
    (file : invites.file = some content) (there : found content code = true) :
    Outstanding
      { invites with
        file := some (consumedContent content code)
        accepted := invites.accepted ++ [trim code] }
      ((entries.filter fun entry => entry.1 ≠ trim code).map
        fun entry => (entry.1, stripCr entry.2)) := by
  have same : content = render entries := by
    rw [← outstanding.file, file]
    rfl
  have open' : trim code ∈ invites.created.filter fun code => !invites.accepted.contains code := by
    rw [same, outstanding.sound.found_iff, outstanding.codes] at there
    exact there
  obtain ⟨known, unused⟩ := List.mem_filter.mp open'
  have new : trim code ∉ invites.accepted := by simpa using unused
  refine ⟨?_, outstanding.sound.stripped _, ?_, outstanding.distinct, ?_, ?_, outstanding.calls⟩
  · rw [Option.getD_some, same, outstanding.sound.consumedContent_render]
  · have codes := congrArg (List.filter fun other => other ≠ trim code) outstanding.codes
    rw [List.filter_map, List.filter_filter] at codes
    rw [List.map_map]
    refine Eq.trans ?_ (codes.trans ?_)
    · rfl
    · apply List.filter_congr
      intro other inside
      by_cases equal : other = trim code
      · simp [equal]
      · simp [equal]
  · intro other inside
    rcases List.mem_append.mp inside with inside | last
    · exact outstanding.accepted other inside
    · rw [List.mem_singleton.mp last]
      exact known
  · rw [List.nodup_append]
    refine ⟨outstanding.once, List.nodup_singleton _, fun one inside last equal same => ?_⟩
    rw [same, List.mem_singleton.mp equal] at inside
    exact new inside

/-- **One step** leaves the outstanding invites. -/
theorem step {event : InviteEvent} (outstanding : Outstanding invites entries)
    (step : CarefulStep invites event next) : ∃ entries, Outstanding next entries := by
  obtain ⟨done, careful⟩ := step
  cases event with
  | create id code label =>
      rw [Invites.step] at done
      split at done
      · next allowed =>
          cases done
          exact ⟨entries, outstanding.put allowed.2⟩
      · cases done
  | consume id code =>
      rw [Invites.step] at done
      split at done
      · split at done
        · cases done
          exact ⟨entries, outstanding⟩
        · split at done
          · next there =>
              cases done
              exact ⟨entries, outstanding.put there⟩
          · cases done
            exact ⟨entries, outstanding⟩
      · cases done
  | write id =>
      rw [Invites.step] at done
      rw [Invites.careful] at careful
      split at done
      · next code label content there =>
          cases done
          rw [there] at careful
          simp only [Bool.and_eq_true, decide_eq_true_eq, Bool.not_eq_true',
            List.contains_eq_mem, decide_eq_false_iff_not] at careful
          obtain ⟨⟨rfl, new⟩, single⟩ := careful
          exact ⟨_, (outstanding.create (outstanding.calls id _ there) single new).returned id⟩
      · next code content there =>
          cases done
          rw [there] at careful
          have file := of_decide_eq_true careful
          exact ⟨_, (outstanding.consume file (outstanding.calls id _ there)).returned id⟩
      · cases done

/-- At the start no invite is outstanding. -/
theorem new : Outstanding .new [] :=
  ⟨rfl, fun _ inside => (List.not_mem_nil inside).elim, rfl, .nil,
    fun _ inside => (List.not_mem_nil inside).elim, .nil, fun _ _ there => by cases there⟩

/-- Outstanding invites have been redeemed once at most. -/
theorem oneTime (outstanding : Outstanding invites entries) : OneTime invites := by
  refine ⟨outstanding.accepted, outstanding.once, fun code inside unused => ?_⟩
  have open' : code ∈ entries.map Prod.fst := by
    rw [outstanding.codes, List.mem_filter]
    exact ⟨inside, by simpa using unused⟩
  obtain ⟨entry, member, same⟩ := List.mem_map.mp open'
  have solid : trim code = code := by
    rw [← same]
    exact trim_eq_self (solid_of_drawn (outstanding.sound entry member).1)
  have there : found (invites.file.getD []) code = true := by
    rw [outstanding.file, outstanding.sound.found_iff, solid]
    exact open'
  cases file : invites.file with
  | none =>
      rw [file] at there
      cases there
  | some content =>
      rw [file] at there
      rw [Invites.accepts, file]
      exact there

end Outstanding

/-- **Invites.** When every call writes over what it has read, draws a new code and gives it a
label on one line, codes are one-time. -/
theorem invites_one_time {events : List InviteEvent} {invites : Invites}
    (run : Run CarefulStep .new events invites) : OneTime invites := by
  have held : ∃ entries, Outstanding invites entries := by
    refine run.invariant (fun invites => ∃ entries, Outstanding invites entries)
      (fun source event target held step => ?_) ⟨[], .new⟩
    obtain ⟨entries, outstanding⟩ := held
    exact outstanding.step step
  obtain ⟨entries, outstanding⟩ := held
  exact outstanding.oneTime

def firstCode : Text := "ABCDEFGHJK".toList

def secondCode : Text := "MNPQRSTUVW".toList

/-- One invite, and the enrollment with it. -/
def invited : List InviteEvent :=
  [.create 0 firstCode "alice".toList, .write 0, .consume 1 (' ' :: firstCode), .write 1]

/-- One invite is created and redeemed, and accepted once. -/
theorem invites_one_time_once : ∃ invites, Run CarefulStep .new invited invites ∧
    invites.accepted = [firstCode] ∧ OneTime invites := by
  have done : (follow Invites.step Invites.careful .new invited).any fun invites =>
      invites.accepted = [firstCode] := by
    decide
  obtain ⟨invites, run, accepted⟩ := run_of_follow done
  exact ⟨invites, run, of_decide_eq_true accepted, invites_one_time run⟩

/-- Two enrollments read the file before either writes it. -/
def spentTwice : List InviteEvent :=
  [.create 0 firstCode [], .write 0, .consume 1 firstCode, .consume 2 firstCode, .write 1, .write 2]

/-- Two invites read the file before either writes it. -/
def overwritten : List InviteEvent :=
  [.create 0 firstCode [], .create 1 secondCode [], .write 0, .write 1]

/-- The label goes on behind the line. -/
def forged : List InviteEvent :=
  [.create 0 firstCode "alice\nbob".toList, .write 0, .consume 1 "bob".toList, .write 1]

/-- A code is accepted twice, a code is lost, and a code is accepted that nobody created. -/
theorem invites_not_one_time :
    (∃ invites, Run InviteStep .new spentTwice invites ∧ ¬ invites.accepted.Nodup) ∧
    (∃ invites, Run InviteStep .new overwritten invites ∧ firstCode ∈ invites.created ∧
      firstCode ∉ invites.accepted ∧ invites.accepts firstCode = false) ∧
    ∃ invites, Run InviteStep .new forged invites ∧
      ∃ code ∈ invites.accepted, code ∉ invites.created := by
  have first : (follow Invites.step (fun _ _ => true) .new spentTwice).any fun invites =>
      ¬ invites.accepted.Nodup := by
    decide
  have second : (follow Invites.step (fun _ _ => true) .new overwritten).any fun invites =>
      firstCode ∈ invites.created ∧ firstCode ∉ invites.accepted ∧
        invites.accepts firstCode = false := by
    decide
  have third : (follow Invites.step (fun _ _ => true) .new forged).any fun invites =>
      ∃ code ∈ invites.accepted, code ∉ invites.created := by
    decide
  obtain ⟨twice, run₁, found₁⟩ := run_of_follow first
  obtain ⟨lost, run₂, found₂⟩ := run_of_follow second
  obtain ⟨forge, run₃, found₃⟩ := run_of_follow third
  exact ⟨⟨twice, run₁.mono fun _ _ _ step => step.1, of_decide_eq_true found₁⟩,
    ⟨lost, run₂.mono fun _ _ _ step => step.1, of_decide_eq_true found₂⟩,
    ⟨forge, run₃.mono fun _ _ _ step => step.1, of_decide_eq_true found₃⟩⟩

end LolCrawler.Server
