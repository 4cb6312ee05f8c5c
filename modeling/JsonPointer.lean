import JsonPointer.Binding
import JsonPointer.Pointer.Report
import JsonPointer.Proofs.Container
import JsonPointer.Proofs.Telling
import JsonPointer.Proofs.Descent
import JsonPointer.Proofs.Frame
import JsonPointer.Proofs.Atomicity
import JsonPointer.Proofs.Extension
import JsonPointer.Proofs.Obstacles
import JsonPointer.Proofs.Overwrite
import JsonPointer.Proofs.Similar
import JsonPointer.Proofs.Commute
import JsonPointer.Proofs.Exact
import JsonPointer.Proofs.Written
import JsonPointer.Proofs.Locality
import JsonPointer.Proofs.Escapes
import JsonPointer.Proofs.EscapedForm
import JsonPointer.Proofs.Numerals
import JsonPointer.Proofs.Grammar
import JsonPointer.Proofs.RoundTrip
import JsonPointer.Proofs.Sessions
import JsonPointer.Proofs.Policies
import JsonPointer.Proofs.Limits
import JsonPointer.Proofs.Failures
import JsonPointer.Proofs.Constraints
import JsonPointer.Proofs.Conversion
import JsonPointer.Proofs.Lookup
import JsonPointer.Proofs.WellFormed
import JsonPointer.Proofs.JsonTexts
import JsonPointer.Proofs.Bindings
import JsonPointer.Proofs.Fragments
import JsonPointer.Proofs.Counting
import JsonPointer.Proofs.PlainForms
import JsonPointer.Proofs.Growth
import JsonPointer.Proofs.Shape
import JsonPointer.Proofs.Flavours
import JsonPointer.Proofs.Duplicates
import JsonPointer.Proofs.Agreement
