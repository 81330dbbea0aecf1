import RuleCheck.Pattern.CharSet

/-!
# Character sets as byte sequences

The UTF-8 encodings of the characters of a set are the byte sequences that fit one of finitely
many patterns, each a range of bytes per place. A range of characters with encodings of one length
is split at its ends: the first pattern covers the characters that share the first byte of the
least character, the last one those that share the first byte of the greatest, and the middle one
all that is between.
-/

namespace RuleCheck

abbrev ByteRange := Nat × Nat

/-- The byte patterns of the characters from `low` to `high`, numbered from the first character
whose encoding has `following` bytes after the first one; `mark` is added to the first byte. -/
def byteSequences (mark : Nat) : Nat → Nat → Nat → List (List ByteRange)
  | 0, low, high => [[(mark + low, mark + high)]]
  | following + 1, low, high =>
      let block := Nat.pow 64 (following + 1)
      let lowDigit := low / block
      let highDigit := high / block
      if lowDigit = highDigit then
        (byteSequences 0x80 following (low % block) (high % block)).map
          ((mark + lowDigit, mark + lowDigit) :: ·)
      else
        let startsBlock := low % block = 0
        let endsBlock := high % block = block - 1
        let first := if startsBlock then [] else
          (byteSequences 0x80 following (low % block) (block - 1)).map
            ((mark + lowDigit, mark + lowDigit) :: ·)
        let last := if endsBlock then [] else
          (byteSequences 0x80 following 0 (high % block)).map
            ((mark + highDigit, mark + highDigit) :: ·)
        let firstFull := if startsBlock then lowDigit else lowDigit + 1
        let lastFull := if endsBlock then highDigit else highDigit - 1
        let middle := if firstFull ≤ lastFull then
          [(mark + firstFull, mark + lastFull) :: List.replicate (following + 1) (0x80, 0xbf)]
          else []
        first ++ middle ++ last

/-- Characters whose encodings have one length, with so many bytes following the first one, to which
`mark` is added. -/
structure EncodingBand where
  low : Nat
  high : Nat
  following : Nat
  mark : Nat

/-- The characters of all lengths in ascending order; surrogates are left out. -/
def encodingBands : List EncodingBand := [
  ⟨0, 0x7f, 0, 0⟩, ⟨0x80, 0x7ff, 1, 0xc0⟩, ⟨0x800, 0xd7ff, 2, 0xe0⟩, ⟨0xe000, 0xffff, 2, 0xe0⟩,
  ⟨0x10000, 0x10ffff, 3, 0xf0⟩]

def CharSet.byteSequences (set : CharSet) : List (List ByteRange) :=
  set.ranges.flatMap fun (low, high) ↦
    encodingBands.flatMap fun band ↦
      let least := max low band.low
      let greatest := min high band.high
      if least ≤ greatest then
        RuleCheck.byteSequences band.mark band.following least greatest
      else []

end RuleCheck
