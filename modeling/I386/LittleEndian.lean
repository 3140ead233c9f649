/-!
Contract: little-endian words.

Owns:
- the word that up to four bytes stand for, least significant byte first;
- the bytes of a word, least significant first.

Does not own: where bytes come from.
-/

namespace I386.LittleEndian

/-- The word whose bytes, from the least significant one, are given. -/
def ofBytes : List UInt8 → UInt32
  | [] => 0
  | byte :: rest => byte.toUInt32 ||| (ofBytes rest <<< 8)

/-- The lowest `count` bytes of a word, least significant first. -/
def bytes : Nat → UInt32 → List UInt8
  | 0, _ => []
  | count + 1, word => word.toUInt8 :: bytes count (word >>> 8)

end I386.LittleEndian
