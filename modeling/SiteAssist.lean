import SiteAssist.Report.Formatting
import SiteAssist.Report.Tasks
import SiteAssist.Server.Session
import SiteAssist.Proofs.Glob.Components
import SiteAssist.Proofs.FileTree.Locating
import SiteAssist.Proofs.Glob.Search
import SiteAssist.Proofs.FilePattern.Agreement
import SiteAssist.Proofs.Cache.Effect
import SiteAssist.Proofs.Document.Place
import SiteAssist.Proofs.Server.Documents
import SiteAssist.Proofs.FileTree.Change
import SiteAssist.Proofs.Cache.Upkeep
import SiteAssist.Proofs.Site.Upkeep
import SiteAssist.Proofs.Po.RoundTrip
import SiteAssist.Proofs.Server.Watching
import SiteAssist.Proofs.Server.Places
import SiteAssist.Proofs.Server.Resolving
import SiteAssist.Proofs.Report.Replacing
import SiteAssist.Proofs.Offer.Texts
import SiteAssist.Proofs.Offer.Literal
import SiteAssist.Proofs.Server.Inserting
import SiteAssist.Proofs.Hook.Renaming
import SiteAssist.Proofs.Po.Faults
import SiteAssist.Proofs.Po.Separation
import SiteAssist.Proofs.Document.Protocol
import SiteAssist.Proofs.Offer.Expression
import SiteAssist.Proofs.Uri.Encoding
import SiteAssist.Proofs.Module.Enclosing
import SiteAssist.Proofs.Path.Child
import SiteAssist.Proofs.Site.Run
import SiteAssist.Proofs.Site.Routing
import SiteAssist.Proofs.Server.Telling
import SiteAssist.Proofs.Composer.Locked
import SiteAssist.Proofs.Site.Version
import SiteAssist.Proofs.Site.Choosing
import SiteAssist.Proofs.Module.Naming
import SiteAssist.Proofs.Report.Reading
import SiteAssist.Proofs.Report.Marking
import SiteAssist.Proofs.DocComment.Layout
import SiteAssist.Proofs.Settings.Written
import SiteAssist.Proofs.Server.Configuring
import SiteAssist.Proofs.Server.Warning
import SiteAssist.Proofs.Offer.Documenting
import SiteAssist.Proofs.Glob.Expansion
