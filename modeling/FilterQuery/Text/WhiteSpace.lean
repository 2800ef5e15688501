import FilterQuery.Text

/-!
# White space

* `isWhiteSpace`   the characters with the Unicode property `White_Space`;
* `Text.trim`      a text without them at either end.
-/

namespace FilterQuery

def isWhiteSpace (c : Char) : Bool :=
  ('\u0009' ≤ c && c ≤ '\u000d') || c = '\u0020' || c = '\u0085' || c = '\u00a0' ||
    c = '\u1680' || ('\u2000' ≤ c && c ≤ '\u200a') || c = '\u2028' || c = '\u2029' ||
    c = '\u202f' || c = '\u205f' || c = '\u3000'

namespace Text

def trimStart (s : Text) : Text := s.dropWhile isWhiteSpace

def trim (s : Text) : Text := (trimStart (trimStart s).reverse).reverse

end Text

end FilterQuery
