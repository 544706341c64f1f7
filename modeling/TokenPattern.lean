import TokenPattern.Expansion
import TokenPattern.Proofs.Blocks
import TokenPattern.Proofs.CaseFolding
import TokenPattern.Proofs.Construction
import TokenPattern.Proofs.EmptyMatches
import TokenPattern.Proofs.Finiteness
import TokenPattern.Proofs.FixedLength
import TokenPattern.Proofs.Flattening
import TokenPattern.Proofs.History
import TokenPattern.Proofs.Limits
import TokenPattern.Proofs.Lookahead
import TokenPattern.Proofs.Nullability
import TokenPattern.Proofs.OrderedChoice
import TokenPattern.Proofs.Preference
import TokenPattern.Proofs.Progress
import TokenPattern.Proofs.RawCounts
import TokenPattern.Proofs.Reading
import TokenPattern.Proofs.Repetition
import TokenPattern.Proofs.Soundness
import TokenPattern.Proofs.Tightness
import TokenPattern.Proofs.Translation
import TokenPattern.RuleSet
import TokenPattern.Tree.Outline
