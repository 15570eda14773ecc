import Mathlib.Data.List.Dedup
import Mathlib.Data.List.Perm.Subperm
import LolCrawler.Store.Counting

/-! # The games of a run

What is true of a run of `store_match` calls, said without the store: which games
it holds, and how many of a player's lie before a time (`earlier`).
-/

namespace LolCrawler.Store

open Foundation

/-- The match is no remake. -/
def Match.real (given : Match) : Bool := !isRemake given.record

/-- What the calls of a run agree on. -/
structure Consistent (calls : List Match) : Prop where
  ten : ∀ given ∈ calls, given.puuids.length = 10
  distinct : ∀ given ∈ calls, given.puuids.Nodup
  /-- The caller clamps an `i64`. -/
  inRange : ∀ given ∈ calls, given.tsMs + 1 < 2 ^ 64
  /-- A match id always comes with the same players, duration and time. -/
  same : ∀ first ∈ calls, ∀ second ∈ calls, first.key = second.key →
    first.puuids = second.puuids ∧ first.record.durationS = second.record.durationS ∧
      first.tsMs = second.tsMs
  /-- No player has two games at one time. -/
  apart : ∀ first ∈ calls, ∀ second ∈ calls, ∀ puuid ∈ first.puuids, puuid ∈ second.puuids →
    first.key ≠ second.key → first.tsMs ≠ second.tsMs
  /-- A player's games are all on one platform. Remakes do not matter. -/
  platform : ∀ first ∈ calls, ∀ second ∈ calls, first.real = true → second.real = true →
    ∀ puuid ∈ first.puuids, puuid ∈ second.puuids → first.record.platform = second.record.platform

/-- The game counts for this player before this time. -/
def Match.counts (puuid : String) (tsMs : Nat) (given : Match) : Bool :=
  given.real && given.puuids.contains puuid && decide (given.tsMs < tsMs)

/-- The number of a player's games before a time: distinct ones, and no remakes. -/
def earlier (calls : List Match) (puuid : String) (tsMs : Nat) : Nat :=
  ((calls.filter (Match.counts puuid tsMs)).map Match.key).dedup.length

/-! ## Counting distinct values -/

/-- Two ways to tell the elements of a list apart give the same number of distinct ones. -/
theorem length_dedup_map_congr {α β γ : Type} [DecidableEq β] [DecidableEq γ] {first : α → β}
    {second : α → γ} {items : List α}
    (same : ∀ a ∈ items, ∀ b ∈ items, first a = first b ↔ second a = second b) :
    (items.map first).dedup.length = (items.map second).dedup.length := by
  induction items with
  | nil => rfl
  | cons item items ih =>
      have rest := ih fun a there b here =>
        same a (List.mem_cons_of_mem _ there) b (List.mem_cons_of_mem _ here)
      have iff : first item ∈ items.map first ↔ second item ∈ items.map second := by
        simp only [List.mem_map]
        constructor
        · rintro ⟨other, inside, equal⟩
          exact ⟨other, inside,
            (same other (List.mem_cons_of_mem _ inside) item List.mem_cons_self).mp equal⟩
        · rintro ⟨other, inside, equal⟩
          exact ⟨other, inside,
            (same other (List.mem_cons_of_mem _ inside) item List.mem_cons_self).mpr equal⟩
      rw [List.map_cons, List.map_cons]
      by_cases inside : first item ∈ items.map first
      · rw [List.dedup_cons_of_mem inside, List.dedup_cons_of_mem (iff.mp inside), rest]
      · rw [List.dedup_cons_of_notMem inside, List.dedup_cons_of_notMem (mt iff.mpr inside),
          List.length_cons, List.length_cons, rest]

theorem length_dedup_le {α : Type} [DecidableEq α] {first second : List α}
    (inside : first ⊆ second) : first.dedup.length ≤ second.dedup.length := by
  apply List.Subperm.length_le
  apply List.subperm_of_subset (List.nodup_dedup first)
  intro item there
  rw [List.mem_dedup] at there ⊢
  exact inside there

theorem length_dedup_append {α : Type} [DecidableEq α] {items : List α} {item : α} :
    (items ++ [item]).dedup.length = items.dedup.length + if item ∈ items then 0 else 1 := by
  have swapped : (items ++ [item]).dedup.Perm (item :: items).dedup :=
    (List.perm_append_singleton item items).dedup
  rw [swapped.length_eq]
  split
  · next inside => rw [List.dedup_cons_of_mem inside]; rfl
  · next outside => rw [List.dedup_cons_of_notMem outside, List.length_cons]

/-! ## Games of a kind -/

/-- The number of distinct games of a kind. -/
def distinctGames (calls : List Match) (kind : Match → Bool) : Nat :=
  ((calls.filter kind).map Match.key).dedup.length

section Kind

variable {calls : List Match} {given : Match} {kind : Match → Bool}

/-- One more call adds a game if it is of the kind and not counted yet. -/
theorem distinctGames_append :
    distinctGames (calls ++ [given]) kind = distinctGames calls kind +
      if kind given = true ∧ given.key ∉ (calls.filter kind).map Match.key then 1 else 0 := by
  unfold distinctGames
  rw [List.filter_append, List.map_append]
  by_cases counts : kind given = true
  · rw [List.filter_cons_of_pos counts, List.filter_nil, List.map_singleton, length_dedup_append]
    by_cases inside : given.key ∈ (calls.filter kind).map Match.key
    · rw [if_pos inside, if_neg fun both => both.2 inside]
    · rw [if_neg inside, if_pos ⟨counts, inside⟩]
  · rw [List.filter_cons_of_neg counts, List.filter_nil, List.map_nil, List.append_nil,
      if_neg fun both => counts both.1]
    rfl

/-- A new game counts once if it is of the kind. -/
theorem distinctGames_append_new (new : ∀ game ∈ calls, game.key ≠ given.key) :
    distinctGames (calls ++ [given]) kind = distinctGames calls kind + (kind given).toNat := by
  rw [distinctGames_append]
  congr 1
  have outside : given.key ∉ (calls.filter kind).map Match.key := by
    intro inside
    obtain ⟨game, there, same⟩ := List.mem_map.mp inside
    exact new game (List.mem_filter.mp there).1 same
  cases counted : kind given <;> simp [outside]

/-- A game that is stored again. -/
theorem distinctGames_append_again {game : Match} (there : game ∈ calls)
    (same : game.key = given.key) (alike : kind game = kind given) :
    distinctGames (calls ++ [given]) kind = distinctGames calls kind := by
  rw [distinctGames_append, if_neg, Nat.add_zero]
  rintro ⟨counts, outside⟩
  apply outside
  exact List.mem_map.mpr ⟨game, List.mem_filter.mpr ⟨there, alike.trans counts⟩, same⟩

end Kind

/-! ## Earlier games -/

section Earlier

variable {calls : List Match} {given : Match} {puuid : String} {tsMs : Nat}

theorem earlier_mono {tsMs' : Nat} (later : tsMs ≤ tsMs') :
    earlier calls puuid tsMs ≤ earlier calls puuid tsMs' := by
  apply length_dedup_le
  apply List.map_subset
  intro game there
  simp only [List.mem_filter, Match.counts, Bool.and_eq_true, decide_eq_true_eq] at there ⊢
  exact ⟨there.1, there.2.1, Nat.lt_of_lt_of_le there.2.2 later⟩

/-- A new game is one more earlier game if it counts for the player. -/
theorem earlier_append_new (new : ∀ game ∈ calls, game.key ≠ given.key) :
    earlier (calls ++ [given]) puuid tsMs =
      earlier calls puuid tsMs + (given.counts puuid tsMs).toNat :=
  distinctGames_append_new new

/-- A game that is stored again. -/
theorem earlier_append_again (consistent : Consistent (calls ++ [given]))
    {game : Match} (there : game ∈ calls) (same : game.key = given.key) :
    earlier (calls ++ [given]) puuid tsMs = earlier calls puuid tsMs := by
  obtain ⟨players, duration, time⟩ := consistent.same game (by simp [there]) given (by simp) same
  apply distinctGames_append_again there same
  rw [Match.counts, Match.counts, Match.real, Match.real, isRemake, isRemake, players,
    duration, time]

end Earlier

end LolCrawler.Store
