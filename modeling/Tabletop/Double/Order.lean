/-! The greater and the lesser of two numbers. -/

namespace Tabletop.Double

/-- The lesser of two numbers; what is no number does not count, and of two equal ones the second is
taken. -/
def least (a b : Float) : Float := if a < b || b.isNaN then a else b

/-- The greater of two numbers; what is no number does not count, and of two equal ones the second
is taken. -/
def greatest (a b : Float) : Float := if b < a || b.isNaN then a else b

end Tabletop.Double
