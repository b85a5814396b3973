import Stache.Decimal.Numeral
import Stache.Command.Disk
import Stache.Main
import Stache.Proofs.Whitespace.Tildes
import Stache.Proofs.Whitespace.Lines
import Stache.Proofs.Mapping.Faithful
import Stache.Proofs.Bundle.Shift
import Stache.Proofs.Bundle.Quotes
import Stache.Proofs.Script.Lookups
import Stache.Proofs.Script.Form
import Stache.Proofs.Script.Hooks
import Stache.Proofs.Script.Scoping
import Stache.Proofs.Script.Chains
import Stache.Proofs.Script.Contributions
import Stache.Proofs.Bundle.Naming
import Stache.Proofs.Bundle.Switch
import Stache.Proofs.Whitespace.Frame
import Stache.Proofs.Whitespace.Standalone
import Stache.Proofs.Mapping.RoundTrip
import Stache.Proofs.Nesting.Partials
import Stache.Proofs.Nesting.Events
import Stache.Proofs.Nesting.Shape
import Stache.Proofs.Checked.Total
import Stache.Proofs.Grammar.Tags
import Stache.Proofs.Glob.Relative
import Stache.Proofs.Glob.Standard
import Stache.Proofs.Script.Verbatim
import Stache.Proofs.Script.Numerals
import Stache.Proofs.Script.Strings
import Stache.Proofs.Bundle.Reserved
import Stache.Proofs.Checked.Places
import Stache.Proofs.Command.Encoded
import Stache.Proofs.Nesting.Concatenation
import Stache.Proofs.Items.Bodies
