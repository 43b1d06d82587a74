import YoinkCore.Domain.Request

/-!
# Storage vocabulary

Errors, identifiers, policies and claims of the operation store, with the checks
its methods make on their arguments.
-/

namespace YoinkCore.Storage

open Lib Domain

inductive StoreError where
  | invalidInput
  | conflict
  | capacity
  | quotaExceeded (retryAfterSecs : Nat)
  | notFoundOrStale
  | unauthorized
  | database
  | invalidStoredData
deriving DecidableEq

/-- A UUID, ordered as its hexadecimal text. -/
structure Uuid where
  bits : BitVec 128
deriving DecidableEq

/-- The identifier with a small number. -/
def uuid (n : Nat) : Uuid := ⟨.ofNat 128 n⟩

/-- A span of time in nanoseconds. -/
structure Duration where
  nanos : Nat
deriving DecidableEq

namespace Duration

def ofSecs (n : Nat) : Duration := ⟨n * 1000000000⟩
def asSecs (d : Duration) : Nat := d.nanos / 1000000000
def subsecNanos (d : Duration) : Nat := d.nanos % 1000000000

end Duration

/-- What the statements of one call read as the current time, in microseconds.
Each statement reads its own instant, and time does not run backwards. -/
structure Clock where
  tick : Nat → Int
  mono : ∀ m n, m ≤ n → tick m ≤ tick n

def micros (secs : Nat) : Int := secs * 1000000

def i32Max : Nat := 2 ^ 31 - 1

/-! ## Enumerations -/

inductive OperationStatus where
  | queued | running | delivering | deliveryUnknown | deliveryPartial
  | succeeded | failed | cancelled
deriving DecidableEq

namespace OperationStatus

/-- A worker holds a lease. -/
def leased : OperationStatus → Bool
  | running | delivering => true
  | _ => false

/-- Counted against the admission capacity. -/
def pending : OperationStatus → Bool
  | queued | running | delivering => true
  | _ => false

end OperationStatus

inductive UnitStatus where
  | sending | sent | rejected | unknown
deriving DecidableEq

inductive ProgressStage where
  | fetching | processing | writingArtifact
deriving DecidableEq

inductive ContentFailure where
  | nsfwBlocked | nsfwPolicyUnavailable
deriving DecidableEq

inductive StopDeliveryReason where
  | cancel | denied | nsfwBlocked | nsfwPolicyUnavailable | shutdown
deriving DecidableEq

/-- The public classifications of a failed attempt. -/
inductive FailureCode where
  | unsupportedSource | sourceUnavailable | rateLimited | invalidMedia
  | processingFailed | resourceLimit | cookieRequired | geoBlocked | ageRestricted
  | privateContent | liveStream | noMedia | mediaTimeout | networkDenied
  | contentUnavailable | sourceBlocked
deriving DecidableEq

def FailureCode.parse : String → Option FailureCode
  | "unsupported_source" => some .unsupportedSource
  | "source_unavailable" => some .sourceUnavailable
  | "rate_limited" => some .rateLimited
  | "invalid_media" => some .invalidMedia
  | "processing_failed" => some .processingFailed
  | "resource_limit" => some .resourceLimit
  | "cookie_required" => some .cookieRequired
  | "geo_blocked" => some .geoBlocked
  | "age_restricted" => some .ageRestricted
  | "private_content" => some .privateContent
  | "live_stream" => some .liveStream
  | "no_media" => some .noMedia
  | "media_timeout" => some .mediaTimeout
  | "network_denied" => some .networkDenied
  | "content_unavailable" => some .contentUnavailable
  | "source_blocked" => some .sourceBlocked
  | _ => none

/-! ## Policies -/

def ensure (valid : Bool) : Except StoreError Unit :=
  if valid then .ok () else .error .invalidInput

@[simp] theorem ensure_eq_ok {valid : Bool} : ensure valid = .ok () ↔ valid = true := by
  cases valid <;> simp [ensure]

structure AdmissionPolicy where
  maxAttempts : Nat
  retryDelay : Duration
  maxPendingGlobal : Nat
  maxPendingActor : Nat
deriving DecidableEq

structure QuotaLimits where
  minute : Nat := 5
  hour : Nat := 30
  day : Nat := 100
deriving DecidableEq

def QuotaLimits.validate (q : QuotaLimits) : Except StoreError Unit :=
  ensure ([q.minute, q.hour, q.day].all (DownloaderSettings.within 1 1000000))

structure ClaimPolicy where
  maxActiveActor : Nat := 3
deriving DecidableEq

def ClaimPolicy.validate (p : ClaimPolicy) : Except StoreError Unit :=
  ensure (DownloaderSettings.within 1 100 p.maxActiveActor)

structure Admission where
  operationId : Uuid
  created : Bool
deriving DecidableEq

/-- A leased operation, as its worker sees it. -/
structure Claim [Platform] where
  operationId : Uuid
  attempt : Nat
  leaseToken : Uuid
  workerId : String
  request : DownloadRequest
  cancelRequested : Bool
  cacheBypassed : Bool
  leaseExpiresAt : Int

structure LeaseHeartbeat where
  leaseExpiresAt : Int
  cancelRequested : Bool
deriving DecidableEq

/-! ## Argument checks -/

/-- Up to 128 printable ASCII bytes. -/
def boundedAscii (s : String) : Bool :=
  let t := s.toList
  !t.isEmpty && decide (Text.byteLen t ≤ 128) && t.all Text.isAscii &&
    !t.any Text.isAsciiControl

def validateKey (key : String) : Except StoreError Unit := ensure (boundedAscii key)

def validateWorker (workerId : String) : Except StoreError Unit :=
  ensure (boundedAscii workerId)

def validateLease (lease : Duration) : Except StoreError Unit :=
  ensure (DownloaderSettings.within (Duration.ofSecs 1).nanos (Duration.ofSecs 300).nanos
    lease.nanos)

def validateClaim [Platform] (c : Claim) : Except StoreError Unit := do
  validateWorker c.workerId
  ensure (DownloaderSettings.within 1 i32Max c.attempt)

def validatePolicy (p : AdmissionPolicy) : Except StoreError Unit :=
  ensure (DownloaderSettings.within 1 100 p.maxAttempts && p.retryDelay.subsecNanos == 0 &&
    decide (p.retryDelay.nanos ≤ (Duration.ofSecs 300).nanos) &&
    DownloaderSettings.within 1 10000 p.maxPendingGlobal &&
    DownloaderSettings.within 1 10000 p.maxPendingActor)

/-- Whole seconds, a started one counting in full. -/
def retryAfterSeconds (delay : Duration) : Except StoreError Nat :=
  let seconds := delay.asSecs + (if 0 < delay.subsecNanos then 1 else 0)
  if seconds ≤ i32Max then .ok seconds else .error .invalidInput

end YoinkCore.Storage
