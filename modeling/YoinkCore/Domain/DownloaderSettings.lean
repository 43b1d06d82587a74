import YoinkCore.Lib.Text

/-!
# Downloader settings

The limits an administrator stores under `dl.*`, read once at admission and kept
with the operation. Every stored value is text; a value that does not parse or
falls outside its range refuses the whole snapshot.
-/

namespace YoinkCore.Domain

open Lib

def u32Max : Nat := 2 ^ 32 - 1
def u64Max : Nat := 2 ^ 64 - 1

/-- Stored settings, by key. -/
abbrev SettingValues := List (String × String)

structure DownloaderSettings where
  downloadRetries : Nat := 3
  downloadTimeout : Nat := 1200
  maxFileSizeMb : Nat := 2048
  rateLimitPerMinute : Nat := 5
  rateLimitPerHour : Nat := 30
  rateLimitPerDay : Nat := 100
  maxPlaylistCount : Nat := 50
deriving DecidableEq

namespace DownloaderSettings

def invalidLimits : String := "Invalid downloader limits"

/-- `(lo..=hi).contains(n)`. -/
def within (lo hi n : Nat) : Bool := decide (lo ≤ n) && decide (n ≤ hi)

def inRange (s : DownloaderSettings) : Bool :=
  within 1 10 s.downloadRetries && within 60 86400 s.downloadTimeout &&
    within 1 2048 s.maxFileSizeMb && within 1 500 s.maxPlaylistCount &&
    [s.rateLimitPerMinute, s.rateLimitPerHour, s.rateLimitPerDay].all
      (within 1 1000000)

def validate (s : DownloaderSettings) : Except String DownloaderSettings :=
  if s.inRange then .ok s else .error invalidLimits

/-- Replace a default by the stored value, when there is one. -/
def read (values : SettingValues) (key : String) (hi current : Nat) :
    Except String Nat :=
  match values.lookup key with
  | none => .ok current
  | some value =>
      match Text.parseUnsigned hi value.toList with
      | some n => .ok n
      | none => .error invalidLimits

/-- The imported limit in gigabytes, unless one in megabytes is stored. -/
def readGigabytes (values : SettingValues) (current : Nat) : Except String Nat :=
  if (values.lookup "dl.max_file_size_mb").isSome then .ok current
  else
    match values.lookup "dl.max_file_size_gb" with
    | none => .ok current
    | some gb =>
        match Text.parseF64 gb.toList with
        | none => .error invalidLimits
        | some x =>
            let mb := x * 1024.0
            if mb.isFinite && decide (1.0 ≤ mb) && decide (mb ≤ 2048.0) then
              .ok mb.toUInt64.toNat
            else .error invalidLimits

def fromSettings (values : SettingValues) : Except String DownloaderSettings := do
  let d : DownloaderSettings := {}
  let downloadRetries ← read values "dl.download_retries" u32Max d.downloadRetries
  let downloadTimeout ← read values "dl.download_timeout" u64Max d.downloadTimeout
  let maxFileSizeMb ← read values "dl.max_file_size_mb" u64Max d.maxFileSizeMb
  let rateLimitPerMinute ←
    read values "dl.rate_limit_per_minute" u32Max d.rateLimitPerMinute
  let rateLimitPerHour ← read values "dl.rate_limit_per_hour" u32Max d.rateLimitPerHour
  let rateLimitPerDay ← read values "dl.rate_limit_per_day" u32Max d.rateLimitPerDay
  let maxPlaylistCount ← read values "dl.max_playlist_count" u64Max d.maxPlaylistCount
  let maxFileSizeMb ← readGigabytes values maxFileSizeMb
  validate {
    downloadRetries, downloadTimeout, maxFileSizeMb, rateLimitPerMinute,
    rateLimitPerHour, rateLimitPerDay, maxPlaylistCount }

theorem inRange_of_validate {s t : DownloaderSettings} (h : s.validate = .ok t) :
    t = s ∧ t.inRange = true := by
  unfold validate at h
  split at h
  · cases h
    exact ⟨rfl, by assumption⟩
  · cases h

/-- Settings that were read satisfy their limits. -/
theorem inRange_of_fromSettings {values : SettingValues} {s : DownloaderSettings}
    (h : fromSettings values = .ok s) : s.inRange = true := by
  unfold fromSettings at h
  simp only [bind, Except.bind] at h
  repeat' split at h
  all_goals first
    | exact (inRange_of_validate h).2
    | cases h

example : fromSettings [("dl.max_file_size_gb", "1.5")] =
    .ok { maxFileSizeMb := 1536 } := by decide

end DownloaderSettings

end YoinkCore.Domain
