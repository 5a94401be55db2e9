import SpecLens.Main
import SpecLens.Proofs.App.OpenFiles
import SpecLens.Proofs.App.Poll
import SpecLens.Proofs.CommandLine.Request
import SpecLens.Proofs.Explorer.Cursor
import SpecLens.Proofs.Explorer.Gate
import SpecLens.Proofs.Explorer.Run
import SpecLens.Proofs.Explorer.Request
import SpecLens.Proofs.Run.ShellLine
import SpecLens.Proofs.Spec.Enclosing
import SpecLens.Proofs.Spec.Marker
import SpecLens.Proofs.Spec.Listing
import SpecLens.Proofs.Spec.Path
import SpecLens.Proofs.Spec.Innermost
import SpecLens.Proofs.Style.Stub
import SpecLens.Proofs.Explorer.Refresh
import SpecLens.Proofs.Project.Polling
import SpecLens.Proofs.App.GoneFiles
import SpecLens.Proofs.Config.RoundTrip
import SpecLens.Proofs.Spec.Comment
import SpecLens.Proofs.Project.ModuleName
import SpecLens.Proofs.Spec.Ownership
import SpecLens.Proofs.Spec.Growth
import SpecLens.Proofs.Kotlin.Escape
import SpecLens.Proofs.Spec.Requoted
import SpecLens.Proofs.Explorer.Toggle
import SpecLens.Proofs.Explorer.Expansion
import SpecLens.Proofs.Kotlin.Entry
import SpecLens.Proofs.CommandLine.Line
import SpecLens.Proofs.Explorer.Rows
import SpecLens.Proofs.App.FileCursor
import SpecLens.Proofs.Project.Containment
import SpecLens.Proofs.Text.Position
import SpecLens.Proofs.Kotlin.Declaration
import SpecLens.Proofs.Style.Grammar
import SpecLens.Proofs.App.FilesPane
import SpecLens.Proofs.Spec.Start
