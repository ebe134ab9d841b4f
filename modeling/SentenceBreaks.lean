import SentenceBreaks.Segmenter
import SentenceBreaks.Abbreviation.Source
import SentenceBreaks.Proofs.Trie.CodecRoundTrip
import SentenceBreaks.Proofs.Trie.CodecWidths
import SentenceBreaks.Proofs.Trie.TailContents
import SentenceBreaks.Proofs.Trie.LayoutEntries
import SentenceBreaks.Proofs.Trie.DraftEntries
import SentenceBreaks.Proofs.Trie.LayoutOfEntries
import SentenceBreaks.Proofs.Trie.Numbering
import SentenceBreaks.Proofs.Trie.RankOrder
import SentenceBreaks.Proofs.Trie.SerialForm
import SentenceBreaks.Proofs.Trie.NodeForm
import SentenceBreaks.Proofs.Trie.Remainder
import SentenceBreaks.Proofs.Trie.BuiltTrie
import SentenceBreaks.Proofs.Trie.ProbeFollows
import SentenceBreaks.Proofs.Trie.SerialWriting
import SentenceBreaks.Proofs.Trie.ListingOrder
import SentenceBreaks.Proofs.Trie.LayoutEdges
import SentenceBreaks.Proofs.Trie.PlainSize
import SentenceBreaks.Proofs.Trie.SharedSize
import SentenceBreaks.Proofs.Trie.UnsharedSize
import SentenceBreaks.Proofs.Trie.DraftCalls
import SentenceBreaks.Proofs.Trie.ClearBranches
import SentenceBreaks.Proofs.Trie.Places
import SentenceBreaks.Proofs.Trie.LiveUnits
import SentenceBreaks.Proofs.Trie.JumpTargets
import SentenceBreaks.Proofs.Trie.BufferCalls
import SentenceBreaks.Proofs.Trie.MaximalSharing
import SentenceBreaks.Proofs.Boundary.CursorMoves
import SentenceBreaks.Proofs.Abbreviation.Suppression
import SentenceBreaks.Proofs.Abbreviation.Marks
import SentenceBreaks.Proofs.Abbreviation.IndexEntries
import SentenceBreaks.Proofs.Boundary.PathSearch
import SentenceBreaks.Proofs.Boundary.CursorRuns
import SentenceBreaks.Proofs.Boundary.DetectorRules
import SentenceBreaks.Proofs.Boundary.SentenceEnds
import SentenceBreaks.Proofs.SegmenterMoves
import SentenceBreaks.Proofs.SegmenterCalls
import SentenceBreaks.Proofs.SegmenterWalks
import SentenceBreaks.Proofs.SegmenterStands
import SentenceBreaks.Proofs.Abbreviation.SingleSegment
import SentenceBreaks.Proofs.Abbreviation.ProfileKeys
import SentenceBreaks.Proofs.Trie.ListingTurns
import SentenceBreaks.Proofs.Trie.ProbeFeeds
import SentenceBreaks.Proofs.SegmenterCounts
