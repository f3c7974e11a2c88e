import WireSchema.Main
import WireSchema.Wire.Decode
import WireSchema.Wire.Encode
import WireSchema.Wire.Value
import WireSchema.Proofs.Acceptance
import WireSchema.Proofs.RoundTrip
import WireSchema.Proofs.Format
import WireSchema.Proofs.Intake
import WireSchema.Proofs.Runs
import WireSchema.Proofs.Repetition
import WireSchema.Proofs.Delimited
import WireSchema.Proofs.Fuel
import WireSchema.Proofs.Truncation
import WireSchema.Proofs.Typing
import WireSchema.Proofs.Steadiness
import WireSchema.Proofs.Confinement
import WireSchema.Proofs.Isolation
import WireSchema.Proofs.Evolution
import WireSchema.Proofs.Effect
import WireSchema.Proofs.Recursion
import WireSchema.Proofs.Lexemes
import WireSchema.Proofs.Lexing
import WireSchema.Proofs.Locality
import WireSchema.Proofs.Places
import WireSchema.Proofs.Spacing
import WireSchema.Proofs.Naming
import WireSchema.Proofs.Declarations
import WireSchema.Proofs.Positions
import WireSchema.Proofs.Breaches
import WireSchema.Proofs.Refusal
import WireSchema.Proofs.Outputs
import WireSchema.Proofs.Terminators
import WireSchema.Proofs.Weight
import WireSchema.Proofs.Alignment
import WireSchema.Proofs.Texts
import WireSchema.Proofs.Wrapping
import WireSchema.Proofs.Printing
import WireSchema.Proofs.Keywords
import WireSchema.Proofs.Misnumbering
import WireSchema.Proofs.Source
import WireSchema.Proofs.Vocabulary
import WireSchema.Proofs.Wording
import WireSchema.Proofs.Capture
import WireSchema.Proofs.Payloads
import WireSchema.Proofs.Batches
import WireSchema.Proofs.Stems
import WireSchema.Proofs.Rebasing
import WireSchema.Proofs.Casing
