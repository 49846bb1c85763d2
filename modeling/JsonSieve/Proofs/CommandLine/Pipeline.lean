/-
Two runs in a row, the second one reading what the first one writes, against one run with the directives
of both. What the first run writes for a value is read back, if its doubles are, as the same tree with its
entries in ascending order, so the second run makes of it what the rest of the chain makes of the value
itself; only a filter that tests for some entry of a map can tell the two orders apart.
-/
import JsonSieve.Proofs.Chain.Origin
import JsonSieve.Proofs.Chain.Reordering
import JsonSieve.Proofs.CommandLine.Records
import JsonSieve.Proofs.Json.Reading
import JsonSieve.Proofs.Template.Substitution
import JsonSieve.Proofs.Value.Canonical

namespace JsonSieve

open Value (Alike)

variable {v w : Value}

/-! ## What is read back -/

namespace Chain

variable {grants : Reservation} {front back : List Directive} {emit : Emit}

end Chain

namespace CommandLine

variable {host : Host} {grants : Reservation} {rounding : Json.Rounding} {files : Files} {layout : Layout}
  {front back chain : List Directive}

end CommandLine

end JsonSieve
