import Lineage.Main
import Lineage.Session.Editing
import Lineage.Proofs.Session.Transparent
import Lineage.Proofs.Difference.DirectParents
import Lineage.Proofs.Difference.Scan
import Lineage.Proofs.Token.Pairs
import Lineage.Proofs.Token.RoundTrip
import Lineage.Proofs.Graph.WellFormed
import Lineage.Proofs.Graph.Calls
import Lineage.Proofs.Graph.Survey
import Lineage.Proofs.Graph.Lazy
import Lineage.Proofs.Graph.Parallel
import Lineage.Proofs.Graph.Failure
import Lineage.Proofs.Cache.History
import Lineage.Proofs.Cache.Kinds
import Lineage.Proofs.Refresher.Once
import Lineage.Proofs.Paths.Agreement
import Lineage.Proofs.Paths.Enumeration
import Lineage.Proofs.Paths.Stack
import Lineage.Proofs.Token.Canonical
import Lineage.Proofs.Graph.Depth
import Lineage.Proofs.Cache.Renaming
import Lineage.Proofs.Graph.Renaming
import Lineage.Proofs.Session.Renaming
import Lineage.Proofs.Log.Nesting
import Lineage.Proofs.Session.Nesting
import Lineage.Proofs.Difference.FreshChild
import Lineage.Proofs.Difference.Exchange
import Lineage.Proofs.Graph.Canonical
import Lineage.Proofs.Paths.Beside
import Lineage.Proofs.Paths.Recovery
import Lineage.Proofs.Difference.Survivors
import Lineage.Proofs.Difference.Orientation
import Lineage.Proofs.Token.Grammar
import Lineage.Proofs.Token.Reading
import Lineage.Proofs.Graph.Asking
import Lineage.Proofs.Cache.Balance
import Lineage.Proofs.Graph.Queries
import Lineage.Proofs.Session.Scope
import Lineage.Proofs.Fixture.Loading
import Lineage.Proofs.Sources.Auxiliary
import Lineage.Proofs.Sources.Hooks
import Lineage.Proofs.Settings.Overrides
