import YoinkCore.Storage.Failure
import YoinkCore.Downloads.Resubmission
import YoinkCore.Downloads.Network
import YoinkCore.Storage.TextDispatch
import YoinkCore.Storage.Unwedged
import YoinkCore.Storage.Quota
import YoinkCore.Storage.StoredRequest
import YoinkCore.Storage.ActorCap
import YoinkCore.Downloads.WorkerJob
import YoinkCore.Downloads.QualityChoices
import YoinkCore.Inbox.NotificationOrder
import YoinkCore.Inbox.MutationEvidence
import YoinkCore.Inbox.Pipeline
import YoinkCore.Inbox.Slugs
import YoinkCore.Insight.Glob
import YoinkCore.Storage.CacheRuns
import YoinkCore.Downloads.DeliveryUnits
import YoinkCore.Insight.Borderless
import YoinkCore.Insight.DeviceSerial
import YoinkCore.Insight.QuotaRuns
import YoinkCore.Identity.OwnerRuns
import YoinkCore.Insight.AccessViews
import YoinkCore.Identity.MembershipAnswers
import YoinkCore.Auth.SignIn
import YoinkCore.Downloads.NormalDomains
import YoinkCore.Executor.Frames
import YoinkCore.Telegram.RawPolling
import YoinkCore.Telegram.Rendering
import YoinkCore.Telegram.CutButtons
import YoinkCore.Telegram.MediaForms
import YoinkCore.Downloads.CookieTokens
import YoinkCore.Stats.Chunks
import YoinkCore.Stats.Scan
import YoinkCore.Stats.Delays
import YoinkCore.Inbox.FeedPages
import YoinkCore.Telegram.InlineSearch
import YoinkCore.Stats.DesktopImport
import YoinkCore.Telegram.InlineUrl
import YoinkCore.Telegram.CookieFetch
import YoinkCore.Worker.ClipCover
import YoinkCore.Music.TrackRequests
import YoinkCore.Downloads.DialogRecipes
import YoinkCore.Inbox.JobRuns
