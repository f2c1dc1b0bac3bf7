import Tabletop.Double.Remainder

/-! Angles in degrees. -/

namespace Tabletop.Double

def pi : Float := 3.141592653589793

def radians (degrees : Float) : Float := degrees * (pi / 180.0)

def degrees (radians : Float) : Float := radians * 57.29577951308232

/-- The same direction within one turn. -/
def withinTurn (degrees : Float) : Float := modulo degrees 360.0

end Tabletop.Double
