import Pinokio.BrowserArchive.Integrity
import Pinokio.BrowserArchive.Permissions
import Pinokio.Server.NoAdmission
import Pinokio.Server.AdmissionPhase
import Pinokio.Server.Refused
import Pinokio.Server.Cap
import Pinokio.Server.Drain
import Pinokio.Server.Children
import Pinokio.Server.Sweep
import Pinokio.Server.Teardown
import Pinokio.Server
import Pinokio.Chromium.Lifecycle
import Pinokio.Chromium.TimeZone
import Pinokio.Config.FailClosed
import Pinokio.Queue.Admission
import Pinokio.Queue.Fairness
import Pinokio.Proxy.Transparency
import Pinokio.Proxy.Backpressure
import Pinokio.Proxy.CloseCode
import Pinokio.Proxy.Deadline
import Pinokio.Auth
import Pinokio.BrowserArchive.Failure
import Pinokio.Chromium.Endpoint
import Pinokio.Chromium.Extensions
import Pinokio.Config.Ranges
import Pinokio.Config.Blame
import Pinokio.Queue.FirstCome
import Pinokio.Server.Readiness
import Pinokio.Server.Completion
import Pinokio.Preparation.Startup
