import CrdtEditor.Document.Buffer
import CrdtEditor.Document.Traversal
import CrdtEditor.Document.Convergence
import CrdtEditor.Wire.OperationCodec
import CrdtEditor.Persistence.Database
import CrdtEditor.Persistence.DocumentStore
import CrdtEditor.Persistence.Restart
import CrdtEditor.Wire.Message
import CrdtEditor.Server.State
import CrdtEditor.Server.Agreement
import CrdtEditor.Document.Navigation
import CrdtEditor.Foundations.Lines
import CrdtEditor.Document.Coordinates
import CrdtEditor.Document.Edit
import CrdtEditor.Editor.Cursor
import CrdtEditor.Editor.InputHandler
import CrdtEditor.Session.State
import CrdtEditor.Editor.PlainEditor
import CrdtEditor.Session.Command
import CrdtEditor.Session.Refinement
import CrdtEditor.Session.Replica
import CrdtEditor.Persistence.Growth
import CrdtEditor.Server.Registry
import CrdtEditor.Persistence.Failures
import CrdtEditor.Persistence.Readback
import CrdtEditor.Server.Failures
import CrdtEditor.Server.Protocol
import CrdtEditor.Server.Membership
import CrdtEditor.Foundations.Asio
import CrdtEditor.Server.Transport
import CrdtEditor.Client.NetworkClient
import CrdtEditor.Client.Generations
import CrdtEditor.Session.Widget
import CrdtEditor.Server.Sizes
import CrdtEditor.System.State
import CrdtEditor.System.Phases
import CrdtEditor.Session.Effects
import CrdtEditor.System.Known
import CrdtEditor.System.Flow
import CrdtEditor.Client.WriteQueue
import CrdtEditor.Server.Presence
import CrdtEditor.Editor.Selection
import CrdtEditor.Session.Selection
import CrdtEditor.Session.Columns
import CrdtEditor.Server.Admission
import CrdtEditor.Session.Carets
import CrdtEditor.Session.Latest
import CrdtEditor.Server.Attribution
import CrdtEditor.Session.Emission
import CrdtEditor.System.Quiet
import CrdtEditor.Editor.Viewport
import CrdtEditor.Session.OperationLog
import CrdtEditor.Wire.Framing
import CrdtEditor.System.Reading
import CrdtEditor.Document.Drain
import CrdtEditor.Wire.Canonical
import CrdtEditor.Document.Source
import CrdtEditor.Session.Clock
import CrdtEditor.Editor.Roaming
import CrdtEditor.Session.Outbox
import CrdtEditor.Server.Foresight
import CrdtEditor.System.Clearance
import CrdtEditor.System.Unique
import CrdtEditor.UI.EditorWidget
import CrdtEditor.Editor.MarkedEditor
import CrdtEditor.Session.Marked
import CrdtEditor.UI.Mouse
import CrdtEditor.UI.Painting
import CrdtEditor.Session.Following
