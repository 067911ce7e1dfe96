import LoxilbUi.Connector.OpResultAdapter
import LoxilbUi.Library.JsDouble
import Mathlib.Algebra.BigOperators.Group.List.Lemmas

-- types/observability.ts and observability/selectors.ts: a scrape of the metrics endpoint with the labels
-- kept, and the selectors that read it. The arithmetic of the selectors is exact; numbers that are not
-- finite stay apart.

namespace Observability

open OpResultAdapter

inductive Value
  | finite (q : ℚ)
  | infinity (negative : Bool)
  | nan
  deriving DecidableEq

abbrev Labels :=
  Dict String

structure MetricSample where
  name   : String
  labels : Labels
  value  : Value

structure MetricFamily where
  name    : String
  samples : List MetricSample

structure MetricsSnapshot where
  receivedAtMs : ℚ
  -- Whether the body held a sample at all.
  available    : Bool
  failure      : Option OpResult
  families     : Dict MetricFamily

namespace Value

-- The double nearest to a number.
def ofRat (q : ℚ) : Value :=
  match JsNumber.nearestDouble q with
  | some v => finite v
  | none   => infinity (q < 0)

-- `+`
def add : Value → Value → Value
  | nan, _ | _, nan                              => nan
  | infinity a, infinity b                       => if a = b then infinity a else nan
  | infinity a, finite _ | finite _, infinity a  => infinity a
  | finite a, finite b                           => ofRat (a + b)

-- `*`
def mul : Value → Value → Value
  | nan, _ | _, nan                             => nan
  | infinity a, infinity b                      => infinity (a != b)
  | infinity a, finite q | finite q, infinity a => if q = 0 then nan else infinity (a != decide (q < 0))
  | finite a, finite b                          => ofRat (a * b)

def isFinite : Value → Bool
  | finite _ => true
  | _        => false

-- `a > b` of a finite `a`.
def exceeded (a : ℚ) : Value → Bool
  | finite b          => b < a
  | infinity negative => negative
  | nan               => false

-- What a sample adds to a sum.
def part : Value → ℚ
  | finite q => q
  | _        => 0

end Value

def selectSamples (snapshot : MetricsSnapshot) (familyName : String) : List MetricSample :=
  match snapshot.families.get? familyName with
  | some family => family.samples
  | none        => []

structure AggregateResult where
  -- `none` where not one sample is finite.
  value             : Option ℚ
  finiteSamples     : Nat
  excludedNonFinite : Nat

-- The sum, and how many samples are in it and how many are left out.
def tally (acc : ℚ × Nat × Nat) (s : MetricSample) : ℚ × Nat × Nat :=
  let (sum, finite, excluded) := acc
  match s.value with
  | .finite q => (sum + q, finite + 1, excluded)
  | _         => (sum, finite, excluded + 1)

def aggregateSum (samples : List MetricSample) : AggregateResult :=
  let (sum, finite, excluded) := samples.foldl tally (0, 0, 0)
  ⟨if finite > 0 then some sum else none, finite, excluded⟩

end Observability
