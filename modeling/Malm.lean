import Malm.Commit.RemovalOrder
import Malm.Config.BindingValues
import Malm.Commit.JournalTheorems
import Malm.Engine.ReconstructTheorems
import Malm.Engine.Profiles
import Malm.Engine.UnmanagedRuns
import Malm.Authoring.OverlayTheorems
import Malm.Commit.FsckClosure
import Malm.Pack.VerifiedTheorems
import Malm.Commit.PackObjectTheorems
import Malm.Commit.GraphTheorems
import Malm.Commit.OutcomeTheorems
import Malm.Commit.Recovery
import Malm.Store.ProjectionTheorems
import Malm.Store.DestinationTheorems
import Malm.Store.ReconcileTheorems
import Malm.Store.RetentionAuthority
import Malm.Store.GenerationTheorems
import Malm.Store.CatalogTheorems
import Malm.Commit.Checkout
import Malm.Commit.PinsTheorems
import Malm.Commit.ObservedIdentities
import Malm.Pack.LockValidity
import Malm.Pack.Identity
import Malm.Pack.ManifestObjectTheorems
import Malm.Tree.SummaryTheorems
import Malm.Config.ProfileTheorems
import Malm.Archive.ReaderTheorems
import Malm.Engine.CoverageTheorems
import Malm.Authoring.EscapeTheorems
import Malm.Authoring.BudgetTheorems
import Malm.Authoring.TemplatePieces
import Malm.Authoring.TypeExpressionTheorems
import Malm.Config.JsonTransformTheorems
import Malm.Config.RichTypeTheorems
import Malm.Config.RunTheorems
import Malm.Engine.Deployed
