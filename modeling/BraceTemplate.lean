import BraceTemplate.Site.Delivery
import BraceTemplate.Proofs.Composition
import BraceTemplate.Proofs.DefaultModifier
import BraceTemplate.Proofs.Diagnostics
import BraceTemplate.Proofs.History
import BraceTemplate.Proofs.Agreement
import BraceTemplate.Proofs.Containment
import BraceTemplate.Proofs.Registration
import BraceTemplate.Proofs.Grammar
import BraceTemplate.Proofs.FaithfulReport
import BraceTemplate.Proofs.Redelivery
import BraceTemplate.Proofs.DeliveryOrder
import BraceTemplate.Proofs.Quoting
import BraceTemplate.Proofs.Nesting
import BraceTemplate.Proofs.SlotFilling
import BraceTemplate.Proofs.Exclusion
import BraceTemplate.Proofs.Blocks
import BraceTemplate.Proofs.Expression
import BraceTemplate.Proofs.Notes
import BraceTemplate.Proofs.Following
import BraceTemplate.Proofs.Footprint
import BraceTemplate.Proofs.Overriding
import BraceTemplate.Proofs.Finding
import BraceTemplate.Proofs.Acceptance
import BraceTemplate.Proofs.Rereading
import BraceTemplate.Proofs.Aggregation
import BraceTemplate.Proofs.NormalForm
