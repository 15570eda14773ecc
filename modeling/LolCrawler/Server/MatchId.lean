import Mathlib.Algebra.Ring.Nat
import Mathlib.Data.String.Basic

/-! # Match ids

The id of a match is its platform and its number on the platform, joined by an underscore.
-/

namespace LolCrawler.Server

/-- `str::parse` for a `u64`: an optional sign, and digits. -/
def parseU64 (text : List Char) : Option UInt64 :=
  let digits := match text with
    | '+' :: rest => rest
    | _ => text
  let value := digits.foldl (fun value digit => 10 * value + (digit.toNat - '0'.toNat)) 0
  if !digits.isEmpty && digits.all Char.isDigit && value < 2 ^ 64 then some (UInt64.ofNat value)
  else none

/-- `split_match_id` -/
def splitMatchId (matchId : String) : Option (String × UInt64) :=
  match matchId.toList.span (· ≠ '_') with
  | (_, []) => none
  | (platform, _ :: num) => (parseU64 num).map fun num => (String.ofList platform, num)

end LolCrawler.Server
