import CSpelling.Anonymous
import CSpelling.BaseType
import CSpelling.Main
import CSpelling.Proofs.Declaring
import CSpelling.Proofs.Decorations
import CSpelling.Proofs.Mentions
import CSpelling.Proofs.Recording
import CSpelling.Proofs.FunctionTypes
import CSpelling.Proofs.Objects
import CSpelling.Proofs.Order
import CSpelling.Proofs.Qualifying
import CSpelling.Proofs.Rendering
import CSpelling.Proofs.ResizedTypes
import CSpelling.Proofs.Splitting
import CSpelling.Proofs.Unwinding
import CSpelling.Proofs.TokenSequences
import CSpelling.Proofs.Invocations
import CSpelling.Proofs.Conservation
import CSpelling.Proofs.Groupings
import CSpelling.Proofs.DimensionReadings
import CSpelling.Proofs.Packages
import CSpelling.Proofs.Identifiers
import CSpelling.Proofs.Places
import CSpelling.Proofs.Classifying
import CSpelling.Proofs.Constants
import CSpelling.Proofs.Rescanning
import CSpelling.Proofs.Enumerations
import CSpelling.Proofs.Contexts
import CSpelling.Proofs.Qualifiers
import CSpelling.Proofs.Kinds
import CSpelling.Proofs.BaseTypes
import CSpelling.Proofs.Lines
import CSpelling.Proofs.Matching
import CSpelling.Proofs.Blocks
