/-!
# PartProgram.Number.Fault

What can go wrong in arithmetic on measured numbers. Everything else is a number: a sum may
overflow to infinity and a difference of infinities is not a number, and neither is a fault until
a whole number is asked of it.
-/

namespace PartProgram.Number

inductive Fault where
  /-- a whole number was asked of a value that is not a number -/
  | notANumber
  /-- a whole number was asked of an infinite value -/
  | infinite
  /-- a finite number whose square is not finite -/
  | squareOverflow
  | divisionByZero
deriving DecidableEq, Repr

def Fault.message : Fault → String
  | .notANumber => "cannot convert float NaN to integer"
  | .infinite => "cannot convert float infinity to integer"
  | .squareOverflow => "(34, 'Numerical result out of range')"
  | .divisionByZero => "float division by zero"

end PartProgram.Number
