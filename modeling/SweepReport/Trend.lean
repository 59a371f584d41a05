import SweepReport.Scalar

/-! Trends: polynomials in a mapped variable, as weights of a basis that a three-term recurrence
builds. -/
namespace SweepReport
variable {α : Type} [Scalar α]

/-- One basis polynomial's weight, and what leads from it and the one before to the next:
`next = (t - alpha) * this - beta * before`. -/
structure Term (α : Type) where
  weight : α
  alpha : α
  beta : α

/-- The mapped variable is `t = (x - offset) / scale`. Terms stand lowest degree first. -/
structure Trend (α : Type) where
  terms : List (Term α)
  offset : α
  scale : α

@[inline] def recur (t alpha beta prev cur : α) : α := (t - alpha) * cur - beta * prev

namespace Trend

def degree (p : Trend α) : Nat := p.terms.length - 1

@[inline] def mapped (p : Trend α) (x : α) : α := (x - p.offset) / p.scale

@[specialize] def evalTerms (t : α) : List (Term α) → α → α → α → α
  | [], _, _, sum => sum
  | τ :: τs, prev, cur, sum =>
    evalTerms t τs cur (recur t τ.alpha τ.beta prev cur) (sum + τ.weight * cur)

@[specialize] def eval (p : Trend α) (x : α) : α :=
  evalTerms (p.mapped x) p.terms Scalar.zero Scalar.one Scalar.zero

end Trend
end SweepReport
