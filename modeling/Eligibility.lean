import Eligibility.Book.Operation
import Eligibility.Record.Codec
import Eligibility.Rule.Render
import Eligibility.Proofs.Scanning
import Eligibility.Proofs.Tokens
import Eligibility.Proofs.Grammar
import Eligibility.Proofs.Recognition
import Eligibility.Proofs.RoundTrip
import Eligibility.Proofs.ExactValue
import Eligibility.Proofs.Semantics
import Eligibility.Proofs.Journal
import Eligibility.Proofs.Refinement
import Eligibility.Proofs.Unambiguity
import Eligibility.Proofs.JsonText
import Eligibility.Proofs.Rounding
import Eligibility.Proofs.Decoding
import Eligibility.Proofs.RuleJson
import Eligibility.Proofs.FaultSites
import Eligibility.Proofs.Provenance
import Eligibility.Proofs.EntryJson
import Eligibility.Proofs.Quotation
import Eligibility.Proofs.Nesting
import Eligibility.Proofs.Composition
import Eligibility.Proofs.Nearest
import Eligibility.Proofs.Spelling
import Eligibility.Proofs.Monotonicity
import Eligibility.Proofs.IntegerOrder
import Eligibility.Proofs.Lockstep
import Eligibility.Proofs.TextPairing
import Eligibility.Proofs.Finality
import Eligibility.Proofs.Respacing
import Eligibility.Proofs.Spacing
import Eligibility.Proofs.Completion
import Eligibility.Proofs.Parentheses
import Eligibility.Proofs.Influence
import Eligibility.Proofs.TextLiteral
import Eligibility.Proofs.Presentation
import Eligibility.Proofs.RecordJson
import Eligibility.Proofs.ConfigJson
import Eligibility.Proofs.Seeding
import Eligibility.Proofs.Erasure
import Eligibility.Proofs.TreeSize
import Eligibility.Proofs.Legality
import Eligibility.Proofs.LongestMatch
