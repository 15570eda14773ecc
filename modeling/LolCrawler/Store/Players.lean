import LolCrawler.Store.Match

/-! # Player ids

A player keeps the id it was given, and no two players share one: the next id is
above all that were issued.
-/

namespace LolCrawler.Store

open Foundation

/-- The rows of new players. -/
def addPlayers (players : Table String Nat) (new : List (String × Nat)) : Table String Nat :=
  new.foldl (fun players entry => players.insert entry.1 entry.2) players

/-- Known players keep their ids. -/
def Keeps (before after : Ram) : Prop :=
  ∀ puuid id, before.players.get puuid = some id → after.players.get puuid = some id

/-- A player was unknown, and is not any more. -/
def Ahead (puuids : List String) (before after : Ram) : Prop :=
  ∃ puuid ∈ puuids, before.players.get puuid = none ∧ (after.players.get puuid).isSome

/-- A list of more players is ahead as well. -/
theorem Ahead.cons {puuids : List String} {before after : Ram} (puuid : String)
    (ahead : Ahead puuids before after) : Ahead (puuid :: puuids) before after := by
  obtain ⟨other, inside, unknown, held⟩ := ahead
  exact ⟨other, List.mem_cons_of_mem _ inside, unknown, held⟩

/-- A known player has the known id. -/
theorem assign_known {ram : Ram} {puuid : String} {id : Nat} (puuids : List String)
    (known : ram.players.get puuid = some id) :
    ram.assign (puuid :: puuids) =
      ((ram.assign puuids).1, id :: (ram.assign puuids).2.1, (ram.assign puuids).2.2) := by
  rw [Ram.assign, known]

/-- A new player has the next id. -/
theorem assign_new {ram : Ram} {puuid : String} (puuids : List String)
    (new : ram.players.get puuid = none) :
    ram.assign (puuid :: puuids) =
      (((ram.issue puuid).assign puuids).1, ram.nextPlayerId ::
      ((ram.issue puuid).assign puuids).2.1,
        (puuid, ram.nextPlayerId) :: ((ram.issue puuid).assign puuids).2.2) := by
  rw [Ram.assign, new]

/-- A new id takes none away. -/
theorem keeps_issue {ram : Ram} {puuid : String} (new : ram.players.get puuid = none) :
    Keeps ram (ram.issue puuid) := by
  intro other id known
  have different : other ≠ puuid := by
    rintro rfl
    rw [known] at new
    cases new
  rw [Ram.issue, Table.get_insert_of_ne _ _ different, known]

/-- New ids take none away. -/
theorem keeps_assign (ram : Ram) (puuids : List String) : Keeps ram (ram.assign puuids).1 := by
  induction puuids generalizing ram with
  | nil => exact fun _ _ known => known
  | cons puuid puuids ih =>
      cases found : ram.players.get puuid with
      | some id =>
          rw [assign_known puuids found]
          exact ih ram
      | none =>
          rw [assign_new puuids found]
          exact fun other id known => ih _ other id (keeps_issue found other id known)

/-- Nobody is new: nothing is assigned. -/
theorem assign_of_known {ram : Ram} {puuids : List String}
    (known : ∀ puuid ∈ puuids, (ram.players.get puuid).isSome) :
    (ram.assign puuids).1 = ram ∧ (ram.assign puuids).2.2 = [] := by
  induction puuids with
  | nil => exact ⟨rfl, rfl⟩
  | cons puuid puuids ih =>
      obtain ⟨id, found⟩ := Option.isSome_iff_exists.mp (known puuid List.mem_cons_self)
      rw [assign_known puuids found]
      exact ih fun other inside => known other (List.mem_cons_of_mem _ inside)

/-- Every player has an id. -/
theorem length_assign (ram : Ram) (puuids : List String) :
    (ram.assign puuids).2.1.length = puuids.length := by
  induction puuids generalizing ram with
  | nil => rfl
  | cons puuid puuids ih =>
      cases found : ram.players.get puuid with
      | some id => rw [assign_known puuids found, List.length_cons, List.length_cons, ih]
      | none => rw [assign_new puuids found, List.length_cons, List.length_cons, ih]

/-- No two players share an id, and the next one is unused. -/
structure Issued (players : Table String Nat) (next : Nat) : Prop where
  injective : ∀ {first second id}, players.get first = some id → players.get second = some id →
    first = second
  fresh : ∀ {puuid id}, players.get puuid = some id → id < next

/-- The next id is issued to the player alone. -/
theorem Issued.issue {ram : Ram} (issued : Issued ram.players ram.nextPlayerId) (puuid : String) :
    Issued (ram.issue puuid).players (ram.issue puuid).nextPlayerId where
  injective := by
    intro first second id one two
    simp only [Ram.issue, Table.get_insert] at one two
    split at one
    · next here =>
        split at two
        · next there => rw [here, there]
        · cases one
          exact absurd (issued.fresh two) (Nat.lt_irrefl _)
    · split at two
      · cases two
        exact absurd (issued.fresh one) (Nat.lt_irrefl _)
      · exact issued.injective one two
  fresh := by
    intro other id known
    simp only [Ram.issue, Table.get_insert] at known
    split at known
    · cases known
      exact Nat.lt_succ_self _
    · exact Nat.lt_succ_of_lt (issued.fresh known)

/-- The next ids are issued to the players alone. -/
theorem Issued.assign {ram : Ram} (issued : Issued ram.players ram.nextPlayerId)
    (puuids : List String) :
    Issued (ram.assign puuids).1.players (ram.assign puuids).1.nextPlayerId := by
  induction puuids generalizing ram with
  | nil => exact issued
  | cons puuid puuids ih =>
      cases found : ram.players.get puuid with
      | some id =>
          rw [assign_known puuids found]
          exact ih issued
      | none =>
          rw [assign_new puuids found]
          exact ih (issued.issue puuid)

/-- The memory and the tables get the same rows. -/
theorem players_assign (ram : Ram) (puuids : List String) :
    (ram.assign puuids).1.players = addPlayers ram.players (ram.assign puuids).2.2 := by
  induction puuids generalizing ram with
  | nil => rfl
  | cons puuid puuids ih =>
      cases found : ram.players.get puuid with
      | some id =>
          rw [assign_known puuids found]
          exact ih ram
      | none =>
          rw [assign_new puuids found]
          exact ih (ram.issue puuid)

/-- Each player of a call is known by the id the call returns. -/
theorem get_assign {ram : Ram} {puuids : List String} {slot : Nat} {puuid : String}
    (inside : puuids[slot]? = some puuid) :
    (ram.assign puuids).2.1[slot]? = (ram.assign puuids).1.players.get puuid := by
  induction puuids generalizing ram slot with
  | nil => simp at inside
  | cons first puuids ih =>
      cases found : ram.players.get first with
      | some id =>
          rw [assign_known puuids found]
          cases slot with
          | zero =>
              cases inside
              rw [List.getElem?_cons_zero, keeps_assign ram puuids _ _ found]
          | succ slot => exact ih inside
      | none =>
          rw [assign_new puuids found]
          cases slot with
          | zero =>
              cases inside
              have here : (ram.issue puuid).players.get puuid = some ram.nextPlayerId := by
                simp [Ram.issue]
              rw [List.getElem?_cons_zero, keeps_assign _ puuids _ _ here]
          | succ slot => exact ih inside

/-- Different players get different ids. -/
theorem nodup_assign {ram : Ram} (issued : Issued ram.players ram.nextPlayerId)
    {puuids : List String} (distinct : puuids.Nodup) : (ram.assign puuids).2.1.Nodup := by
  rw [List.nodup_iff_injective_getElem]
  intro first second same
  have inside : ∀ slot : Fin (ram.assign puuids).2.1.length, slot.val < puuids.length := by
    intro slot
    rw [← length_assign ram puuids]
    exact slot.isLt
  have known : ∀ slot : Fin (ram.assign puuids).2.1.length,
      (ram.assign puuids).1.players.get (puuids.get ⟨slot.val, inside slot⟩) =
        some (ram.assign puuids).2.1[slot.val] := by
    intro slot
    have takes : puuids[slot.val]? = some (puuids.get ⟨slot.val, inside slot⟩) :=
      List.getElem?_eq_getElem (inside slot)
    rw [← get_assign takes]
    exact List.getElem?_eq_getElem slot.isLt
  have puuid := (issued.assign puuids).injective (known first) ((known second).trans
    (congrArg some same.symm))
  exact Fin.ext (Fin.mk.inj (distinct.injective_get puuid))

/-- Everything but the players and the next id is as it was. -/
theorem assign_rest (ram : Ram) (puuids : List String) :
    (ram.assign puuids).1 =
      { ram with
        players := (ram.assign puuids).1.players
        nextPlayerId := (ram.assign puuids).1.nextPlayerId } := by
  induction puuids generalizing ram with
  | nil => rfl
  | cons puuid puuids ih =>
      cases found : ram.players.get puuid with
      | some id =>
          rw [assign_known puuids found]
          exact ih ram
      | none =>
          rw [assign_new puuids found]
          exact ih (ram.issue puuid)

/-! ## Memory and table -/

/-- The memory and the table have the same players. -/
def SamePlayers (ram : Ram) (players : Table String Nat) : Prop :=
  ∀ puuid, ram.players.get puuid = players.get puuid

section Same

variable {ram : Ram} {players : Table String Nat}

/-- The table of the players is about its rows alone. -/
theorem get_addPlayers_congr {first second : Table String Nat}
    (same : ∀ puuid, first.get puuid = second.get puuid) (new : List (String × Nat))
    (puuid : String) : (addPlayers first new).get puuid = (addPlayers second new).get puuid := by
  induction new generalizing first second with
  | nil => exact same puuid
  | cons entry new ih =>
      refine ih fun other => ?_
      rw [Table.get_insert, Table.get_insert, same]

/-- Memory and table are given the same new players. -/
theorem SamePlayers.assign (same : SamePlayers ram players) (puuids : List String) :
    SamePlayers (ram.assign puuids).1 (addPlayers players (ram.assign puuids).2.2) := by
  rw [SamePlayers, players_assign]
  exact get_addPlayers_congr same _

/-- The rows of known players stay. -/
theorem SamePlayers.keeps (same : SamePlayers ram players) (puuids : List String)
    {puuid : String} {pid : Nat} (known : players.get puuid = some pid) :
    (addPlayers players (ram.assign puuids).2.2).get puuid = some pid := by
  rw [← same] at known
  rw [← same.assign puuids]
  exact keeps_assign ram puuids puuid pid known

/-- The players of a call have rows. -/
theorem SamePlayers.assigned (same : SamePlayers ram players) {puuids : List String}
    {slot pid : Nat} (takes : (ram.assign puuids).2.1[slot]? = some pid) :
    ∃ puuid, puuids[slot]? = some puuid ∧
      (addPlayers players (ram.assign puuids).2.2).get puuid = some pid := by
  have short : slot < puuids.length := by
    rw [← length_assign ram puuids]
    exact (List.getElem?_eq_some_iff.mp takes).1
  refine ⟨puuids[slot], List.getElem?_eq_getElem short, ?_⟩
  rw [← same.assign puuids, ← get_assign (List.getElem?_eq_getElem short), takes]

end Same

end LolCrawler.Store
