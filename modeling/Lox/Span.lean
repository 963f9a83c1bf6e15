/-!
# Byte ranges of a source text

A `Span` is the half-open range of bytes `[start, stop)` that a token, an expression or an error
occupies in a source text encoded in UTF-8. `Span.union` is the smallest range that covers two of
them, `Span.length` the number of bytes covered, which is zero for a range whose end lies before
its start.
-/

set_option autoImplicit false
set_option relaxedAutoImplicit false

namespace Lox

/-- The bytes from `start` up to, and not including, `stop`. -/
structure Span where
  start : Nat
  stop : Nat
deriving DecidableEq, Repr

namespace Span

/-- The empty range at the start of the text, where things without a place of their own are put. -/
def origin : Span := ⟨0, 0⟩

instance : Inhabited Span := ⟨origin⟩

/-- The number of bytes covered; a range that ends before it starts covers none. -/
def length (span : Span) : Nat := span.stop - span.start

/-- The smallest range that covers both. -/
def union (first second : Span) : Span :=
  ⟨min first.start second.start, max first.stop second.stop⟩

end Span

end Lox
