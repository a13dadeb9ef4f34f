import PageIndex.Json.Comments
import PageIndex.Main
import PageIndex.Workspace
import PageIndex.Proofs.FileTree.Contents
import PageIndex.Proofs.Lookup.Session
import PageIndex.Proofs.Lookup.Guard
import PageIndex.Proofs.Lookup.Forward
import PageIndex.Proofs.Page.Outcome
import PageIndex.Proofs.Lookup.Interface
import PageIndex.Proofs.Page.Closure
import PageIndex.Proofs.Lookup.Order
import PageIndex.Proofs.Lookup.Shape
import PageIndex.Proofs.FileTree.Distinct
import PageIndex.Proofs.Page.Walk
import PageIndex.Proofs.Lookup.Literal
import PageIndex.Proofs.Site.Partition
import PageIndex.Proofs.Site.OnePass
import PageIndex.Proofs.Page.Listing
import PageIndex.Proofs.Json.Layout
import PageIndex.Proofs.Json.Tokens
import PageIndex.Proofs.Json.Rendering
import PageIndex.Proofs.Json.Reading
import PageIndex.Proofs.Workspace.History
import PageIndex.Proofs.Workspace.Made
import PageIndex.Proofs.Options.Flag
import PageIndex.Proofs.Command.Status
import PageIndex.Proofs.Lookup.Trail
import PageIndex.Proofs.Lookup.Chain
import PageIndex.Proofs.First
import PageIndex.Proofs.Script.First
import PageIndex.Proofs.Lookup.Precedence
import PageIndex.Proofs.Lookup.Omission
import PageIndex.Proofs.Lookup.Object
import PageIndex.Proofs.Page.Fallback
import PageIndex.Proofs.Lookup.Straight
import PageIndex.Proofs.Route.Segments
import PageIndex.Proofs.Json.OnePass
import PageIndex.Proofs.Alias.Substitution
import PageIndex.Proofs.Route.Canonical
import PageIndex.Proofs.FileTree.Names
import PageIndex.Proofs.Route.Levels
import PageIndex.Proofs.Page.Collision
import PageIndex.Proofs.Path.Inside
import PageIndex.Proofs.Engine.Opening
import PageIndex.Proofs.Engine.Roots
import PageIndex.Proofs.Options.Reading
import PageIndex.Proofs.Page.Finding
import PageIndex.Proofs.Site.Covering
import PageIndex.Proofs.FileTree.Throughout
import PageIndex.Proofs.Site.Reading
import PageIndex.Proofs.Report.Styling
import PageIndex.Proofs.Report.Totals
