import Shortcode.Text.Blank
import Shortcode.Text.Word
import Shortcode.Text.Lowercase
import Shortcode.Text.Printable
import Shortcode.OrderedMap.Lemmas
import Shortcode.Attributes.Merge
import Shortcode.Pattern.Source
import Shortcode.Scan
import Shortcode.Splice
import Shortcode.Logger
import Shortcode.Session.Exec
import Shortcode.Handler
import Shortcode.Proofs.Pattern.Preferred
import Shortcode.Proofs.Pattern.Occurrence
import Shortcode.Proofs.Pattern.Source
import Shortcode.Proofs.Scan.Offsets
import Shortcode.Proofs.Scan.Leftmost
import Shortcode.Proofs.Scan.Coverage
import Shortcode.Proofs.Document.Basic
import Shortcode.Proofs.Scan.Replace
import Shortcode.Proofs.Document.Scan
import Shortcode.Proofs.Engine.Render
import Shortcode.Proofs.Session.Confined
import Shortcode.Proofs.Engine.Doubled
import Shortcode.Proofs.Scan.Enclosed
import Shortcode.Proofs.Document.Nested
import Shortcode.Proofs.Document.Expansion
import Shortcode.Proofs.Engine.Bracketed
import Shortcode.Proofs.Engine.Wrapped
import Shortcode.Proofs.Engine.Plain
import Shortcode.Proofs.Engine.Blank
import Shortcode.Proofs.Engine.Ambient
import Shortcode.Proofs.Attributes.Written
import Shortcode.Proofs.Attributes.Line
import Shortcode.Proofs.Session.Ledger
import Shortcode.Proofs.Session.Twins
import Shortcode.Proofs.Session.Transparent
import Shortcode.Proofs.Engine.Recursive
import Shortcode.Proofs.Registry.History
import Shortcode.Proofs.Session.Catalogue
import Shortcode.Proofs.Engine.Surrounded
import Shortcode.Proofs.Attributes.Decoding
import Shortcode.Proofs.Scan.NameOrder
import Shortcode.Proofs.Attributes.EscapeUnits
import Shortcode.Proofs.Attributes.Reading
import Shortcode.Proofs.Attributes.Tiling
import Shortcode.Proofs.Attributes.Escaped
import Shortcode.Proofs.Attributes.Shortening
import Shortcode.Proofs.Attributes.Margins
import Shortcode.Proofs.Attributes.Table
