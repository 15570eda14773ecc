import LolCrawler.Record.Parse
import LolCrawler.Server.Visit
import LolCrawler.Store.Cohort
import LolCrawler.Store.Faults

/-! # Fetching a match

A match is asked for by its id, and what a node returns for it is parsed and stored. The text
names its own match. Nothing compares that with the id that was asked for, and so a match is
stored as asked exactly when the two agree (`stored_as_asked_iff`).
-/

namespace LolCrawler.Server

open Foundation Segment Store Prog Json Record

def fetchTimelines : Bool := false

def rawSamplePermille : UInt64 := 10

/-- What comes back for a match: the texts, if there are any, or that a fetch failed. -/
structure Answers where
  matchRaw : Except String (Option String)
  timelineRaw : Except String (Option String)
  /-- The raw sample is written. -/
  sampled : Bool

inductive FetchError where
  | badMatchId
  | client (why : String)
  | rawSample
deriving DecidableEq

/-- The texts that are parsed: the match's, and its timeline's. -/
def Answers.texts (answers : Answers) : Except FetchError (Option String × Option String) :=
  if fetchTimelines then do
    return (← answers.matchRaw.mapError .client, ← answers.timelineRaw.mapError .client)
  else do
    return (← answers.matchRaw.mapError .client, none)

section Fetch

variable (codecs : Codecs) (fromStr : String → Except String Value) (region : String)
  (growthPaused : Bool) (clock : Clock)

/-- A parsed text, as it is stored. -/
def toMatch (parsed : ParsedMatch) : Match where
  record := parsed.record
  puuids := parsed.puuids
  tsMs := (max parsed.record.gameStartMs 0).toUInt64.toNat
  growthPaused := growthPaused

/-- The match is of the queue and of the platform that are crawled. -/
def wanted (parsed : ParsedMatch) : Bool :=
  parsed.record.queueId = rankedQueueId && parsed.record.platform = region

/-- `fetch_and_store_match`. Whether a record was stored, or an error that is not the
store's. -/
def fetchAndStoreMatch (matchId : String) (answers : Answers) : Act (Except FetchError Bool) :=
  match splitMatchId matchId, answers.texts with
  | none, _ => pure (.error .badMatchId)
  | some _, .error why => pure (.error why)
  | some (platform, gameId), .ok (none, _) => do
      markSeen .markSeen platform gameId
      pure (.ok false)
  | some (platform, gameId), .ok (some matchJson, timelineJson) =>
      match parseMatch fromStr matchJson timelineJson with
      | .error _ => do
          markSeen .markSeen platform gameId
          pure (.ok false)
      | .ok parsed =>
          if !wanted region parsed then do
            markSeen .markSeen platform gameId
            pure (.ok false)
          else do
            let given := toMatch growthPaused parsed
            let adopted ← storeMatch codecs given.record given.puuids given.tsMs
              given.growthPaused clock
            if gameId % 1000 < rawSamplePermille && !answers.sampled then
              pure (.error .rawSample)
            else do
              pushAdopted region clock.nowMs adopted
              pure (.ok true)

/-- The match is seen, and every new record carries its number. -/
structure StoredAsAsked (before after : State) (platform : String) (gameId : UInt64) : Prop where
  seen : after.ram.isSeen platform gameId = true
  appended : ∀ place, ∃ new, after.stored place = before.stored place ++ new ∧
    ∀ stored ∈ new, stored.record.gameId = gameId

/-- A text that gets stored is of the match that was asked for. -/
def NamesAsked (ram : Ram) (platform : String) (gameId : UInt64) (answers : Answers) : Prop :=
  ∀ matchJson timelineJson parsed, answers.texts = .ok (some matchJson, timelineJson) →
    parseMatch fromStr matchJson timelineJson = .ok parsed → wanted region parsed = true →
    parsed.record.gameId = gameId ∧ (platform = region ∨ ram.isSeen platform gameId = true)

/-! ## What is stored -/

/-- Marking a match stores nothing. -/
theorem storedAsAsked_mark (state : State) (platform : String) (gameId : UInt64) :
    StoredAsAsked state { state with ram := state.ram.mark .markSeen platform gameId } platform
      gameId where
  seen := isSeen_mark.mpr (.inr rfl)
  appended := fun _ => ⟨[], (List.append_nil _).symm, fun _ inside => nomatch inside⟩

/-- The memory and the archive are the same. -/
def SameArchive (before after : State) : Prop :=
  after.ram = before.ram ∧ after.stored = before.stored

instance : Std.Refl SameArchive := ⟨fun _ => ⟨rfl, rfl⟩⟩

instance : IsTrans State SameArchive :=
  ⟨fun _ _ _ one two => ⟨two.1.trans one.1, two.2.trans one.2⟩⟩

/-- The steps of a transaction that leaves the memory alone. -/
theorem sameArchive_steps :
    Transacts Any (fun edit => edit = id) fun (α : Type) (program : Act α) =>
    Leaves SameArchive program :=
  leaves_steps (fun _ => ⟨rfl, rfl⟩) (fun _ _ _ => ⟨rfl, rfl⟩) (fun _ _ same => ⟨same ▸ rfl, rfl⟩)
    fun _ => ⟨rfl, rfl⟩

/-- A match is stored under its own number, and is seen under its own id. -/
structure StoredAs (parsed : ParsedMatch) (before after : State) : Prop where
  seen : ∀ platform gameId, after.ram.isSeen platform gameId = true ↔
    before.ram.isSeen platform gameId = true ∨
      (platform, gameId) = (parsed.record.platform, parsed.record.gameId)
  appended : ∃ place stored, after.stored =
    Function.update before.stored place (before.stored place ++ [stored]) ∧
      stored.record.gameId = parsed.record.gameId

theorem StoredAs.archive {parsed : ParsedMatch} {before between after : State}
    (stored : StoredAs parsed before between) (same : SameArchive between after) :
    StoredAs parsed before after := by
  obtain ⟨ram, kept⟩ := same
  refine ⟨fun platform gameId => ?_, ?_⟩
  · rw [ram]
    exact stored.seen platform gameId
  · rw [kept]
    exact stored.appended

theorem storeMatch_storedAs (parsed : ParsedMatch) (state : State) :
    Meets (storeMatch codecs parsed.record parsed.puuids (toMatch growthPaused parsed).tsMs
      growthPaused clock) state (fun _ after => StoredAs parsed state after) fun _ _ => True := by
  have leaves := storeMatch_meets codecs (toMatch growthPaused parsed) clock state
  have appends := @storeMatch_appends codecs (toMatch growthPaused parsed) clock state
  refine (leaves.and appends).mono (fun _ after here => ?_) fun _ _ _ => trivial
  obtain ⟨⟨between, archiving, rfl⟩, place, appended⟩ := here
  exact ⟨fun platform gameId => isSeen_of_leaves archiving, place, _, appended, rfl⟩

/-- A match that is stored is stored as asked when it is the one that was asked for. -/
theorem StoredAs.asked_iff {parsed : ParsedMatch} {before after : State} {platform : String}
    {gameId : UInt64} (stored : StoredAs parsed before after) :
    StoredAsAsked before after platform gameId ↔ parsed.record.gameId = gameId ∧
      (platform = parsed.record.platform ∨ before.ram.isSeen platform gameId = true) := by
  obtain ⟨own, record, appended, number⟩ := stored.appended
  constructor
  · intro asked
    obtain ⟨new, same, carry⟩ := asked.appended own
    rw [appended, Function.update_self] at same
    have one := List.append_cancel_left same
    refine ⟨?_, ?_⟩
    · rw [← number]
      exact carry record (one ▸ List.mem_singleton_self _)
    · rcases (stored.seen _ _).mp asked.seen with seen | same
      · exact .inr seen
      · exact .inl (congrArg Prod.fst same)
  · intro asked
    obtain ⟨same, here⟩ := asked
    refine ⟨(stored.seen _ _).mpr ?_, fun place => ?_⟩
    · rcases here with platform | seen
      · rw [platform, same]
        exact .inr rfl
      · exact .inl seen
    · rw [appended]
      by_cases there : place = own
      · subst there
        refine ⟨[record], Function.update_self .., fun stored inside => ?_⟩
        rw [List.mem_singleton.mp inside, number, same]
      · refine ⟨[], ?_, fun _ inside => nomatch inside⟩
        rw [Function.update_of_ne there, List.append_nil]

/-! ## What is asked for -/

/-- When a text gets stored, it names the match in question. -/
theorem namesAsked_iff {answers : Answers} {ram : Ram} {platform : String} {gameId : UInt64}
    {matchJson : String} {timelineJson : Option String} {parsed : ParsedMatch}
    (texts : answers.texts = .ok (some matchJson, timelineJson))
    (parse : parseMatch fromStr matchJson timelineJson = .ok parsed) :
    NamesAsked fromStr region ram platform gameId answers ↔ (wanted region parsed = true →
      parsed.record.gameId = gameId ∧
        (platform = region ∨ ram.isSeen platform gameId = true)) := by
  refine ⟨fun names => names _ _ _ texts parse, fun names _ _ _ same found => ?_⟩
  rw [texts] at same
  cases same
  rw [parse] at found
  cases found
  exact names

/-- However it is cut: a fetch that returns has stored its match as asked, or it has stored
another one. -/
theorem fetchAndStoreMatch_meets {matchId platform : String} {gameId : UInt64} (answers : Answers)
    (state : State) (split : splitMatchId matchId = some (platform, gameId)) :
    Meets (fetchAndStoreMatch codecs fromStr region growthPaused clock matchId answers) state
      (fun result after => ∀ stored, result = .ok stored →
        (StoredAsAsked state after platform gameId ↔
          NamesAsked fromStr region state.ram platform gameId answers)) fun _ _ => True := by
  have marks : NamesAsked fromStr region state.ram platform gameId answers →
      Meets (do
        markSeen .markSeen platform gameId
        pure (.ok false) : Act (Except FetchError Bool)) state
        (fun result after => ∀ stored, result = .ok stored →
          (StoredAsAsked state after platform gameId ↔
            NamesAsked fromStr region state.ram platform gameId answers)) fun _ _ => True := by
    intro names
    unfold markSeen setRam
    exact Meets.modify_bind (Meets.pure fun _ _ =>
      iff_of_true (storedAsAsked_mark state platform gameId) names)
  rw [fetchAndStoreMatch, split]
  cases texts : answers.texts with
  | error why => exact Meets.pure fun _ failed => nomatch failed
  | ok found =>
      obtain ⟨matchJson, timelineJson⟩ := found
      cases matchJson with
      | none =>
          refine marks fun _ _ _ other => ?_
          rw [texts] at other
          cases other
      | some matchJson =>
          cases parse : parseMatch fromStr matchJson timelineJson with
          | error why =>
              simp only [parse]
              refine marks fun _ _ _ same found => ?_
              rw [texts] at same
              cases same
              rw [parse] at found
              cases found
          | ok parsed =>
              rw [namesAsked_iff fromStr region texts parse] at marks ⊢
              simp only [parse]
              cases keep : wanted region parsed with
              | false =>
                  rw [keep] at marks
                  exact marks fun same => (Bool.false_ne_true same).elim
              | true =>
                  have home : parsed.record.platform = region := by
                    rw [wanted, Bool.and_eq_true] at keep
                    exact of_decide_eq_true keep.2
                  have asked : ∀ after, StoredAs parsed state after →
                      (StoredAsAsked state after platform gameId ↔ (true = true →
                        parsed.record.gameId = gameId ∧
                          (platform = region ∨ state.ram.isSeen platform gameId = true))) := by
                    intro after stored
                    rw [stored.asked_iff, home]
                    exact ⟨fun here _ => here, fun here => here rfl⟩
                  refine (storeMatch_storedAs codecs growthPaused clock parsed state).bind
                    fun adopted between stored => ?_
                  split
                  · exact Meets.pure fun _ failed => nomatch failed
                  · have leaves := pushAdopted_steps sameArchive_steps edits_any region clock.nowMs
                      adopted
                    have pushed := (leaves between).mono (fun _ _ same => same) fun _ _ _ => trivial
                    exact pushed.bind fun _ after same => Meets.pure fun _ _ =>
                      asked after (stored.archive same)

/-- **A fetched match.** When a fetch returns, however the run is cut later, the match is stored as
asked exactly when a text that gets stored names it. -/
theorem stored_as_asked_iff {matchId platform : String} {gameId : UInt64} {answers : Answers}
    {state : State} {cut : Cut} {stored : Bool}
    (split : splitMatchId matchId = some (platform, gameId))
    (returned : (fetchAndStoreMatch codecs fromStr region growthPaused clock matchId answers
      ⟨state, cut⟩).1 = .ok (.ok stored)) :
    StoredAsAsked state (fetchAndStoreMatch codecs fromStr region growthPaused clock matchId answers
        ⟨state, cut⟩).2.state platform gameId ↔
      NamesAsked fromStr region state.ram platform gameId answers :=
  (fetchAndStoreMatch_meets codecs fromStr region growthPaused clock answers state split).ok
    (Prod.ext returned rfl) stored rfl

end Fetch

/-! ## Another match -/

/-- The text of the match with this id. -/
def bodyOf (matchId : String) : Value :=
  .object [("metadata", .object [("matchId", .string matchId)]),
    ("info", .object [("queueId", .number (.posInt 420)), ("participants", .array
      ((List.replicate 5 (.object [("teamId", .number (.posInt 100))])) ++
        List.replicate 5 (.object [("teamId", .number (.posInt 200))])))])]

/-- Texts are the ids of their matches. -/
def bodies (text : String) : Except String Value := .ok (bodyOf text)

def answering (text : String) : Answers := ⟨.ok (some text), .ok none, true⟩

def fetchClock : Clock := ⟨5, "2025-01-01", "2025-01-01"⟩

/-- A fetch of match 7 of the platform, on a new store. -/
def fetchSeven (answers : Answers) :=
  fetchAndStoreMatch shortCodecs bodies "EUW1" false fetchClock "EUW1_7" answers
    ⟨opened ["EUW1"], .never⟩

/-- The match that was asked for comes back. -/
theorem stored_as_asked_iff_seven :
    StoredAsAsked (opened ["EUW1"]) (fetchSeven (answering "EUW1_7")).2.state "EUW1" 7 ↔
      NamesAsked bodies "EUW1" (opened ["EUW1"]).ram "EUW1" 7 (answering "EUW1_7") := by
  have split : splitMatchId "EUW1_7" = some ("EUW1", 7) := by decide +kernel
  have returned : (fetchSeven (answering "EUW1_7")).1 = .ok (.ok true) := by decide +kernel
  unfold fetchSeven at returned ⊢
  exact stored_as_asked_iff shortCodecs bodies "EUW1" false fetchClock split returned

/-- A node answers with match 8. It is stored, and match 7 is not seen. -/
theorem other_match_stored :
    (fetchSeven (answering "EUW1_8")).1 = .ok (.ok true) ∧
      (fetchSeven (answering "EUW1_8")).2.state.ram.isSeen "EUW1" 7 = false ∧
      ¬ StoredAsAsked (opened ["EUW1"]) (fetchSeven (answering "EUW1_8")).2.state "EUW1" 7 := by
  have unseen : (fetchSeven (answering "EUW1_8")).2.state.ram.isSeen "EUW1" 7 = false := by
    decide +kernel
  refine ⟨by decide +kernel, unseen, fun asked => ?_⟩
  have seen := asked.seen
  rw [unseen] at seen
  cases seen

end LolCrawler.Server
