import XmlBinding.Document.Equality
import XmlBinding.Input.Operation
import XmlBinding.Proofs.Blaming
import XmlBinding.Proofs.Buffering
import XmlBinding.Proofs.Builders
import XmlBinding.Proofs.CharacterData
import XmlBinding.Proofs.Closing
import XmlBinding.Proofs.Coalescing
import XmlBinding.Proofs.Failing
import XmlBinding.Proofs.Faithful
import XmlBinding.Proofs.Halting
import XmlBinding.Proofs.Handing
import XmlBinding.Proofs.Histories
import XmlBinding.Proofs.Marshaled
import XmlBinding.Proofs.Pointing
import XmlBinding.Proofs.Quoting
import XmlBinding.Proofs.Recognizing
import XmlBinding.Proofs.References
import XmlBinding.Proofs.Rendering
import XmlBinding.Proofs.Representing
import XmlBinding.Proofs.Reusing
import XmlBinding.Proofs.RoundTrip
import XmlBinding.Proofs.Sections
import XmlBinding.Proofs.Shaped
import XmlBinding.Proofs.Sparing
import XmlBinding.Proofs.Splitting
import XmlBinding.Proofs.Trailing
import XmlBinding.Proofs.Visiting
import XmlBinding.Proofs.Wrapping
import XmlBinding.Typed.Access
import XmlBinding.Typed.Marshal
import XmlBinding.Typed.Unmarshal
