/-!
Half-open ranges of addresses.
-/

namespace PowerLift

structure Span where
  start : UInt32
  stop : UInt32
deriving DecidableEq, Inhabited

namespace Span

def isEmpty (span : Span) : Bool :=
  span.stop ≤ span.start

def contains (span : Span) (address : UInt32) : Bool :=
  span.start ≤ address && address < span.stop

/-- Joins to the first span all that begin inside it, and goes on with the next. The spans come
ordered by start. -/
def mergeFrom (first : Span) : List Span → List Span
  | [] => [first]
  | span :: rest =>
    if span.start < first.stop then mergeFrom { first with stop := max first.stop span.stop } rest
    else first :: mergeFrom span rest

/-- The spans by start, with those that overlap joined. Spans that only touch stay apart. -/
def mergeOverlapping (spans : List Span) : List Span :=
  match spans.mergeSort fun a b => a.start ≤ b.start with
  | [] => []
  | first :: rest => mergeFrom first rest

end Span

end PowerLift
