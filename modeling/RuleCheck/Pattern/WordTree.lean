/-!
# Trees of words

Words over bytes, with their common beginnings stored once. Where a word ends that others go on
from, the tree keeps the order in which the words came: bytes that were there before the end of
the word are not used by words that come later.
-/

namespace RuleCheck.Pattern

/-- What may follow a beginning of words; what came after the latest end stands first. A stop is the
end of a word, before what came earlier, and an arrow stands before other bytes. -/
inductive WordTree where
  | nil
  | stop (rest : WordTree)
  | arrow (byte : UInt8) (target rest : WordTree)

namespace WordTree

def hasArrow : WordTree → Bool
  | .nil => false
  | .stop rest => rest.hasArrow
  | .arrow _ _ _ => true

/-- What follows a byte, among the words that came after the latest end. -/
def find? (byte : UInt8) : WordTree → Option WordTree
  | .nil => none
  | .stop _ => none
  | .arrow first target rest => if first = byte then some target else rest.find? byte

/-- Says what follows a byte, among the words that came after the latest end. -/
def put (byte : UInt8) (target : WordTree) : WordTree → WordTree
  | .arrow first old rest =>
      if first = byte then .arrow byte target rest else .arrow first old (put byte target rest)
  | tree => .arrow byte target tree

/-- Marks the end of a word; a word that ends where nothing goes on is marked once. -/
def close : WordTree → WordTree
  | .nil => .stop .nil
  | tree => if tree.hasArrow then .stop tree else tree

def insert : List UInt8 → WordTree → WordTree
  | [], tree => tree.close
  | byte :: rest, tree => put byte (insert rest ((tree.find? byte).getD .nil)) tree

def ofWords (words : List (List UInt8)) : WordTree :=
  words.foldl (fun tree word ↦ insert word tree) .nil

end WordTree

end RuleCheck.Pattern
