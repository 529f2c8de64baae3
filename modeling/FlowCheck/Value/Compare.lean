import FlowCheck.Value.Basic

/-!
# Comparing values

Numbers of all kinds compare by their exact values, truth values counting as one and zero.  Texts
compare with texts.  Everything else has no order, but equality is defined for all values.
-/

namespace FlowCheck.Value

/-- How a float stands to an integer; nothing for a value that is not a number. -/
def orderFloatInt (x : Float) (n : Int) : Option Ordering :=
  match Decimal.Binary.ofFloat x with
  | .nan => none
  | .infinite negative => some (if negative then .lt else .gt)
  | .finite negative mantissa exponent _ =>
      let low := Decimal.Binary.floor negative mantissa exponent
      if low < n then some .lt
      else if low = n ∧ Decimal.Binary.ceil negative mantissa exponent = n then some .eq
      else some .gt

/-- The order of two values, if their kinds have one; the inner option is empty for a value that is
not a number. -/
def order? : Value → Value → Option (Option Ordering)
  | float x, float y =>
      some (if x < y then some .lt else if y < x then some .gt else if x == y then some .eq else none)
  | text s, text t => some (some (if s < t then .lt else if s == t then .eq else .gt))
  | float x, w => w.integer?.map (fun n => orderFloatInt x n)
  | v, float y => v.integer?.map (fun n => (orderFloatInt y n).map Ordering.swap)
  | v, w =>
      match v.integer?, w.integer? with
      | some m, some n => some (some (compare m n))
      | _, _ => none

mutual

/-- Whether two values are equal. -/
def same : Value → Value → Bool
  | null, null => true
  | list xs, list ys => sameItems xs ys
  | map xs, map ys => xs.length == ys.length && sameEntries xs ys
  | codes ps, codes qs => ps == qs
  | moment m, moment n => m == n
  | list _, _ | map _, _ | null, _ => false
  | v, w => order? v w == some (some .eq)

/-- Whether two lists are equal item by item. -/
def sameItems : List Value → List Value → Bool
  | [], [] => true
  | x :: xs, y :: ys => same x y && sameItems xs ys
  | _, _ => false

/-- Whether every entry of the first map has an equal entry in the second. -/
def sameEntries : List (Value × Value) → List (Value × Value) → Bool
  | [], _ => true
  | (k, v) :: rest, ys => ys.any (fun (k', v') => same k k' && same v v') && sameEntries rest ys

end

end FlowCheck.Value
