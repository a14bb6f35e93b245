import PgKronika.CheckedArith

/-! Half-open time spans, normalized coverage and the attribution at boundaries. -/
namespace PgKronika

/-- A half-open span that is not empty. -/
structure CoverageSpan where
  fromUs : Int64
  toUs : Int64
  lt : fromUs < toUs
  deriving DecidableEq

def CoverageSpan.new (fromUs toUs : Int64) : Option CoverageSpan :=
  if h : fromUs < toUs then some ⟨fromUs,toUs,h⟩ else none

/-- Sorted, disjoint spans that do not touch. -/
structure Coverage where
  spans : List CoverageSpan
  normalized : spans.Pairwise fun a b => a.toUs < b.fromUs

def Coverage.empty : Coverage := ⟨[],.nil⟩

inductive BoundaryQuality
  | contained
  | endpointAttributedCrossBoundary
  | modeledHold
  | mixed
  | unknown
  deriving DecidableEq

end PgKronika
