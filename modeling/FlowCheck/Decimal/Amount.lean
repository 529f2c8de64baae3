import FlowCheck.Decimal.Shortest

/-!
# Amounts

A configured limit or budget.  It is nearly always a whole number, but a configuration may also set
it to a truth value, which counts as one or zero, or to a real number.  Comparing a whole quantity
with an amount needs only the integers next to it.
-/

namespace FlowCheck

/-- A configured amount. -/
inductive Amount where
  /-- A whole number. -/
  | whole (n : Int)
  /-- A truth value, counted as one or zero. -/
  | flag (b : Bool)
  /-- A real number. -/
  | real (x : Float)

namespace Amount

/-- An integer beyond every quantity that is compared with an infinite amount. -/
def boundless : Int := 2 ^ 2048

/-- The greatest integer not above the amount: `n > a` exactly if `n > a.floor`. -/
def floor : Amount → Int
  | whole n => n
  | flag b => if b then 1 else 0
  | real x =>
      match Decimal.Binary.ofFloat x with
      | .finite negative mantissa exponent _ => Decimal.Binary.floor negative mantissa exponent
      | .infinite true => -boundless
      | .infinite false | .nan => boundless

/-- The least integer not below the amount: `n ≥ a` exactly if `n ≥ a.ceil`. -/
def ceil : Amount → Int
  | whole n => n
  | flag b => if b then 1 else 0
  | real x =>
      match Decimal.Binary.ofFloat x with
      | .finite negative mantissa exponent _ => Decimal.Binary.ceil negative mantissa exponent
      | .infinite true => -boundless
      | .infinite false | .nan => boundless

/-- The amount as a count of items, which a real number is not. -/
def count? : Amount → Option Int
  | whole n => some n
  | flag b => some (if b then 1 else 0)
  | real _ => none

/-- So many times the amount. -/
def times : Amount → Int → Amount
  | whole n, k => whole (n * k)
  | flag b, k => whole ((if b then 1 else 0) * k)
  | real x, k => real (x * Float.ofInt k)

/-- The amount as it is written in messages. -/
def text : Amount → String
  | whole n => toString n
  | flag b => if b then "True" else "False"
  | real x => Decimal.shortest x

@[simp] theorem floor_whole (n : Int) : (whole n).floor = n := rfl

@[simp] theorem ceil_whole (n : Int) : (whole n).ceil = n := rfl

@[simp] theorem times_whole (n k : Int) : (whole n).times k = whole (n * k) := rfl

end Amount

end FlowCheck
