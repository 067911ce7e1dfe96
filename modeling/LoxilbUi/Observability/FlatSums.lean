import LoxilbUi.Library.PlainObject
import LoxilbUi.Observability.Snapshot

-- observability/selectors.ts: the flat projection of a scrape, one sum for each name of a sample. The
-- sums are those of doubles, rounded at each step.

namespace Observability

-- What stands under a name: a sum, or the text of an inherited member with the texts of numbers behind it.
inductive Flat
  | sum (v : Value)
  | text (member : String) (added : List ℚ)
  deriving DecidableEq

-- `(flat[name] ?? 0) + value`
def plus (held : PlainObject.Read Flat) (value : ℚ) : Flat :=
  match held with
  | .absent                   => .sum <| (Value.finite 0).add (.finite value)
  | .own (.sum v)             => .sum <| v.add (.finite value)
  | .own (.text member added) => .text member (added ++ [value])
  | .inherited member         => .text member [value]

-- A value that is not finite is skipped.
def accumulate (flat : Dict Flat) (name : String) (value : Value) : Dict Flat :=
  match value with
  | .finite q => PlainObject.assign flat name <| plus (PlainObject.read flat name) q
  | _         => flat

def projectFlatSums (snapshot : MetricsSnapshot) : Dict Flat :=
  snapshot.families.entries.foldl (fun flat (_, family) =>
    family.samples.foldl (fun flat s => accumulate flat s.name s.value) flat) .empty

end Observability
