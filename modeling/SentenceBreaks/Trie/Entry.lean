/-! The entries of a trie: sequences of 16-bit units with a value each. -/

namespace SentenceBreaks.Trie

abbrev Entry := List UInt16 × Int32

end SentenceBreaks.Trie
