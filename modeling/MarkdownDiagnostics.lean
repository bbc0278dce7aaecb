import MarkdownDiagnostics.ResourceMap
import MarkdownDiagnostics.Link
import MarkdownDiagnostics.LinkWatcher
import MarkdownDiagnostics.InflightRequests
import MarkdownDiagnostics.Reporter
import MarkdownDiagnostics.Computer
import MarkdownDiagnostics.Configuration
import MarkdownDiagnostics.IgnoreLinks
import MarkdownDiagnostics.Manager
import MarkdownDiagnostics.ManagerInvariants
import MarkdownDiagnostics.PendingUris
import MarkdownDiagnostics.Progress
import MarkdownDiagnostics.StaticWorkspace
