import InterfaceSurface.Metadata.Handles
import InterfaceSurface.Projection
import InterfaceSurface.Surface.Lemmas
import InterfaceSurface.Surface.Route
import InterfaceSurface.Proofs.Closure.Deciding
import InterfaceSurface.Proofs.Layout.Growth
import InterfaceSurface.Proofs.Surface.History
import InterfaceSurface.Proofs.Closure.Log
import InterfaceSurface.Proofs.Metadata.Alike
import InterfaceSurface.Proofs.Closure.Accounting
import InterfaceSurface.Proofs.Closure.OwnPart
import InterfaceSurface.Proofs.Closure.Upgrades
import InterfaceSurface.Proofs.Closure.Counterparts
import InterfaceSurface.Proofs.Closure.Grounded
import InterfaceSurface.Proofs.Closure.Listing
import InterfaceSurface.Proofs.Closure.OwnFacets
import InterfaceSurface.Proofs.Layout.Reordering
import InterfaceSurface.Proofs.Metadata.BaseChain
import InterfaceSurface.Proofs.Closure.Dangling
import InterfaceSurface.Proofs.Metadata.Respelling
import InterfaceSurface.Proofs.Naming.Instantiation
import InterfaceSurface.Proofs.Projection.Respelled
import InterfaceSurface.Proofs.Naming.Outline
import InterfaceSurface.Proofs.Naming.Unambiguous
import InterfaceSurface.Proofs.Metadata.Relocation
import InterfaceSurface.Proofs.Closure.Relocated
import InterfaceSurface.Proofs.Projection.Reloaded
import InterfaceSurface.Proofs.Metadata.Extension
import InterfaceSurface.Proofs.Projection.Extended
import InterfaceSurface.Proofs.Layout.OtherBases
import InterfaceSurface.Proofs.Projection.Producible
import InterfaceSurface.Proofs.Closure.Exclusive
import InterfaceSurface.Proofs.Metadata.BuiltMethod
import InterfaceSurface.Proofs.Layout.Eligible
import InterfaceSurface.Proofs.Metadata.Insertions
import InterfaceSurface.Proofs.Layout.Window
import InterfaceSurface.Proofs.Layout.DefaultFirst
import InterfaceSurface.Proofs.Closure.Precedence
import InterfaceSurface.Proofs.Layout.Slots
import InterfaceSurface.Proofs.Layout.Repeated
import InterfaceSurface.Proofs.Layout.TearOffs
import InterfaceSurface.Proofs.Metadata.BaseRun
import InterfaceSurface.Proofs.Closure.Nesting
import InterfaceSurface.Proofs.Naming.LongestStem
import InterfaceSurface.Proofs.Attributes.Reading
import InterfaceSurface.Proofs.Attributes.StageNames
import InterfaceSurface.Proofs.Attributes.Malformed
import InterfaceSurface.Proofs.Attributes.Contracts
import InterfaceSurface.Proofs.Projection.Declared
import InterfaceSurface.Proofs.Naming.DottedText
import InterfaceSurface.Proofs.Projection.EntryNames
import InterfaceSurface.Proofs.Naming.Synonyms
