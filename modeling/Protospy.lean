import Protospy.Lib.Machine
import Protospy.Proxy.Wrapper
import Protospy.Proxy.Event
import Protospy.Proxy.StreamIntegrity
import Protospy.Proxy.Outcomes
import Protospy.Ui.Bodies
import Protospy.Reconstruction
import Protospy.FailedBody
import Protospy.Server.Events
import Protospy.Proxy.Target
import Protospy.Proxy.Captured
import Protospy.Ui.SseData
import Protospy.Ui.VisibleRows
import Protospy.Ui.JsonRender
import Protospy.Ui.JsonCopy
import Protospy.Ui.TruncationMarker
import Protospy.Ui.JsonViewer
import Protospy.Ui.JsonNumbering
import Protospy.Ui.Transcript
import Protospy.Ui.JsonParse
import Protospy.Ui.SseChunks
import Protospy.Ui.ContentType
import Protospy.Ui.Ndjson
import Protospy.Ui.TraceRail
import Protospy.Ui.Format
import Protospy.Ui.Hex
import Protospy.Ui.WorkerJobs
import Protospy.Ui.Download
import Protospy.Ui.Navigation
import Protospy.Conformance.Termination
import Protospy.Conformance.ChunkedEncoding
import Protospy.Conformance.ResponseRoundTrip
import Protospy.Ui.HeadersPane
import Protospy.Ui.BodyDecoding
import Protospy.Lib.Paragraphs
import Protospy.Ui.JsonClipboard
import Protospy.Ui.JsonPretty
import Protospy.Ui.BodyPane
import Protospy.Ui.StreamView
import Protospy.SentBody
import Protospy.Heads
import Protospy.Restart
import Protospy.Main
import Protospy.Recorder
import Protospy.Server.Streams
