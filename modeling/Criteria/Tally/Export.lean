import Criteria.Tally

/-!
# Tallies as text

The text form in which counters are collected: a line of help, a line with the
type and a line with the value for each, and at the end the share of joins that
were found, with four decimal places.
-/

namespace Criteria.Tally

/-- The three lines of one quantity. -/
def entry (type name help value : String) : String :=
  "# HELP predicate_builder_" ++ name ++ " " ++ help ++ "\n" ++
    "# TYPE predicate_builder_" ++ name ++ " " ++ type ++ "\n" ++
    "predicate_builder_" ++ name ++ " " ++ value ++ "\n"

/-- The counters with their names and what they count. -/
def counters (t : Tally) : List (String × String × Nat) :=
  [("builds_total", "Total number of predicate builds", t.builds),
    ("builds_failed_total", "Number of failed builds", t.failedBuilds),
    ("fragments_evaluated_total", "Predicate fragments evaluated", t.evaluated),
    ("fragments_skipped_total", "Fragments that produced no constraint", t.skipped),
    ("freezes_total", "Accumulators frozen to contradiction", t.freezes),
    ("join_cache_hits_total", "Join cache hits", t.joins.hits),
    ("joins_created_total", "Join traversals created", t.joins.created),
    ("fetch_cache_hits_total", "Fetch cache hits", t.fetches.hits),
    ("fetches_created_total", "Fetch traversals created", t.fetches.created)]

/-- The whole text. -/
def exportText (t : Tally) : String :=
  let counts := t.counters.map fun (name, help, n) => entry "counter" name help (toString n)
  let (num, den) := t.joinHitRate.ratio
  "".intercalate counts ++
    entry "gauge" "join_cache_hit_rate" "Join cache hit rate (0-1)" (Decimal.fixed 4 num den)

end Criteria.Tally
