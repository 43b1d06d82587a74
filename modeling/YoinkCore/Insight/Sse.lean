import YoinkCore.Lib.Bytes
import YoinkCore.Lib.Framing

/-!
# Server-sent events

The decoder takes the bytes of a response as they come, cuts them into lines and joins the
data fields of an event. A push that finds a fault hands over none of its events.
-/

namespace YoinkCore.Insight

open Lib Framing

inductive Error where
  | code (c : String)
  | database
deriving DecidableEq

def invalid : Error := .code "invalid_request"

def tooLarge : Error := .code "response_too_large"

def parseFailed : Error := .code "parse_failed"

/-! ## Lines -/

def newline : UInt8 := 10

/-- A line, with the data before it: the data after it, and the event it ends. -/
def readLine (data : List String) (line : List UInt8) :
    Except Error (List String × Option String) :=
  match Bytes.text line with
  | none => .error parseFailed
  | some line =>
      let line := Text.trimEnd '\r' line.toList
      if line.isEmpty then
        if data.isEmpty then .ok (data, none) else .ok ([], some ("\n".intercalate data))
      else
        match Text.stripPrefix "data:".toList line with
        | some field =>
            .ok (data ++ [String.ofList ((Text.stripPrefix [' '] field).getD field)], none)
        | none => .ok (data, none)

/-- The events of some lines, and the data that they leave. -/
def readLines (data : List String) :
    List (List UInt8) → Except Error (List String × List String)
  | [] => .ok ([], data)
  | line :: lines => do
      let (data, event) ← readLine data line
      let (events, data) ← readLines data lines
      .ok (event.toList ++ events, data)

/-! ## The decoder -/

structure SseDecoder where
  pending : List UInt8
  data : List String
  bytes : Nat
  maxBytes : Nat

namespace SseDecoder

def new (maxBytes : Nat) : SseDecoder := ⟨[], [], 0, maxBytes⟩

def push (d : SseDecoder) (bytes : List UInt8) : Except Error (List String × SseDecoder) :=
  if d.maxBytes < d.bytes + bytes.length then .error tooLarge
  else do
    let (lines, pending) := frames newline (d.pending ++ bytes)
    let (events, data) ← readLines d.data lines
    .ok (events, { d with pending, data, bytes := d.bytes + bytes.length })

/-- The end of the stream ends its last line, and its last event. -/
def finish (d : SseDecoder) : Except Error (List String × SseDecoder) :=
  { d with maxBytes := d.maxBytes + 2 }.push [newline, newline]

end SseDecoder

/-! ## Lines one after the other -/

theorem readLines_append (data : List String) (a b : List (List UInt8)) :
    readLines data (a ++ b) = (do
      let (events, data) ← readLines data a
      let (more, data) ← readLines data b
      .ok (events ++ more, data)) := by
  induction a generalizing data with
  | nil =>
      simp only [List.nil_append, readLines, bind, Except.bind]
      cases readLines data b <;> rfl
  | cons line lines ih =>
      simp only [List.cons_append, readLines, bind, Except.bind] at ih ⊢
      cases readLine data line with
      | error e => rfl
      | ok r =>
          obtain ⟨data, event⟩ := r
          simp only [ih]
          cases readLines data lines with
          | error e => rfl
          | ok r =>
              obtain ⟨events, data⟩ := r
              dsimp only
              cases readLines data b with
              | error e => rfl
              | ok r => simp only [List.append_assoc]

/-- A line that is not UTF-8 is the only fault of lines. -/
theorem readLine_error {data : List String} {line : List UInt8} {e : Error}
    (h : readLine data line = .error e) :
    e = parseFailed ∧ ∀ data, readLine data line = .error e := by
  unfold readLine at h
  cases hline : Bytes.text line with
  | none =>
      rw [hline] at h
      cases h
      exact ⟨rfl, fun _ => by rw [readLine, hline]⟩
  | some text =>
      rw [hline] at h
      simp only at h
      split at h
      · split at h <;> cases h
      · split at h <;> cases h

/-- The lines up to the first fault. -/
theorem readLines_error {data : List String} {lines : List (List UInt8)} {e : Error}
    (h : readLines data lines = .error e) :
    e = parseFailed ∧ ∃ before line after events data', lines = before ++ line :: after ∧
      readLines data before = .ok (events, data') ∧ ∀ data, readLine data line = .error e := by
  induction lines generalizing data with
  | nil => cases h
  | cons line lines ih =>
      simp only [readLines] at h
      cases hline : readLine data line with
      | error e' =>
          rw [hline] at h
          cases h
          obtain ⟨rfl, hall⟩ := readLine_error hline
          exact ⟨rfl, [], line, lines, [], data, rfl, rfl, hall⟩
      | ok r =>
          obtain ⟨data', event⟩ := r
          rw [hline] at h
          change (readLines data' lines >>= fun r => _) = _ at h
          cases hlines : readLines data' lines with
          | ok r => rw [hlines] at h; cases h
          | error e' =>
              rw [hlines] at h
              cases h
              obtain ⟨rfl, before, bad, after, events, data'', rfl, hbefore, hbad⟩ := ih hlines
              refine ⟨rfl, line :: before, bad, after, event.toList ++ events, data'', rfl, ?_,
                hbad⟩
              simp only [readLines, hline]
              show (readLines data' before >>= fun r => _) = _
              rw [hbefore]
              rfl

end YoinkCore.Insight
