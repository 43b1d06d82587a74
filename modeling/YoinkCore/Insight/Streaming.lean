import YoinkCore.Insight.Sse
import YoinkCore.Lib.Json

/-!
# Streamed completions

Routes are tried one after the other. An attempt hands the text of each event to the sink as
it comes; what a route has handed over cannot be taken back, so no other route is tried after
it. `streamRoutes` is the call, with what each route answers and when the attempt is
interrupted.
-/

namespace YoinkCore.Insight

open Lib

/-! ## Documents -/

/-- The reader of JSON texts. -/
class JsonReader where
  parse : String → Option Json

/-- An index of a JSON pointer: no sign, and no leading zero. -/
def pointerIndex (token : String) : Option Nat :=
  if token.toList.head? = some '0' && token.length ≠ 1 then none else Text.digits token.toList

/-- `Value::pointer` -/
def pointer (v : Json) : List String → Option Json
  | [] => some v
  | token :: tokens =>
      match v with
      | .obj fields => (Json.get? fields token).bind (pointer · tokens)
      | .arr items => ((pointerIndex token).bind (items[·]?)).bind (pointer · tokens)
      | _ => none
termination_by tokens => tokens.length

/-! ## Routes -/

inductive Shape where
  | openAi | anthropic | gemini
deriving DecidableEq

structure Route where
  shape : Shape
  base : String
  key : String
  model : String
  via : String

def Route.isByok (r : Route) : Bool := r.via = "byok" || "byok_".toList.isPrefixOf r.via.toList

/-- Endpoint, headers and body of a request. -/
structure ProviderContract where
  endpoint : String
  headers : List (String × String)
  body : Json

def contract (route : Route) (prompt : String) : Except Error ProviderContract :=
  let base := Text.trimEnd '/' route.base.toList
  let endsWith (s : String) := s.toList.isSuffixOf base
  let base := String.ofList base
  let messages := Json.arr [.obj [("role", .str "user"), ("content", .str prompt)]]
  match route.shape with
  | .openAi => .ok {
      endpoint := base ++ "/chat/completions"
      headers := [("authorization", "Bearer " ++ route.key)]
      body := .obj [("model", .str route.model), ("messages", messages),
        ("stream", .bool false)] }
  | .anthropic => .ok {
      endpoint :=
        if endsWith "/v1/messages" then base
        else if endsWith "/v1" || !route.isByok then base ++ "/messages"
        else base ++ "/v1/messages"
      headers := [("x-api-key", route.key), ("anthropic-version", "2023-06-01")]
      body := .obj [("model", .str route.model), ("max_tokens", .int 8192),
        ("messages", messages), ("stream", .bool false)] }
  | .gemini =>
      if route.model.toList.all fun c => Text.isAlphanumeric c || ['-', '_', '.'].contains c then
        .ok {
          endpoint := base ++ "/models/" ++ route.model ++ ":generateContent"
          headers := [("x-goog-api-key", route.key)]
          body := .obj [("contents", .arr [.obj [("role", .str "user"),
            ("parts", .arr [.obj [("text", .str prompt)]])]])] }
      else .error invalid

/-- The contract of a streaming request. -/
def streamContract (route : Route) (prompt : String) : Except Error ProviderContract := do
  let c ← contract route prompt
  let c := match route.shape with
    | .openAi => { c with body := c.body.withEntry "stream" (.bool true) }
    | .anthropic => { c with
        body := (c.body.withEntry "stream" (.bool true)).withEntry "max_tokens" (.int 4096) }
    | .gemini => { c with endpoint := String.ofList (Text.replace ":generateContent".toList
        ":streamGenerateContent?alt=sse".toList c.endpoint.toList) }
  return { c with headers := c.headers ++ [("accept", "text/event-stream")] }

def status (code : Nat) : Error :=
  .code (if code = 401 || code = 403 then "auth_failed"
    else if code = 402 then "insufficient_credits"
    else if code = 404 then "model_not_found"
    else if code = 429 then "provider_rate_limited"
    else if 500 ≤ code && code ≤ 599 then "provider_unavailable"
    else "llm_error")

/-! ## Dialects -/

/-- What an event says: why the stream ends, and its text, with whether it is the last one. -/
abbrev Reading := String × Except Error (String × Bool)

def readOpenAi (value : Json) (endReason : String) : Reading :=
  let choice := pointer value ["choices", "0"]
  let text := ((choice.bind (pointer · ["delta", "content"])).bind Json.asStr).getD ""
  let finish := (choice.bind (·.member? "finish_reason")).bind Json.asStr
  let endReason := match finish with
    | some "stop" => "stop"
    | some "length" => "length"
    | some "content_filter" => "content_filter"
    | some _ => "other"
    | none => endReason
  if finish = some "length" then (endReason, .error (.code "response_truncated"))
  else if finish = some "content_filter" then (endReason, .error (.code "content_blocked"))
  else (endReason, .ok (text, finish.isSome))

def readAnthropic (value : Json) (endReason : String) : Reading :=
  let type := value.entry "type"
  let delta := value.entry "delta"
  let endReason :=
    if type = .str "message_delta" then
      match (delta.entry "stop_reason").asStr with
      | some "max_tokens" => "max_tokens"
      | some "end_turn" => "end_turn"
      | some "stop_sequence" => "stop_sequence"
      | some _ => "other"
      | none => endReason
    else endReason
  if type = .str "message_delta" && endReason = "max_tokens" then
    (endReason, .error (.code "response_truncated"))
  else
    let text :=
      if type = .str "content_block_delta" && delta.entry "type" = .str "text_delta" then
        (delta.entry "text").asStr.getD ""
      else ""
    (endReason, .ok (text, type = .str "message_stop"))

def readGemini (value : Json) (endReason : String) : Reading :=
  if (pointer value ["promptFeedback", "blockReason"]).isSome then
    (endReason, .error (.code "content_blocked"))
  else
    let candidate := pointer value ["candidates", "0"]
    let finish := (candidate.bind (·.member? "finishReason")).bind Json.asStr
    let endReason := match finish with
      | some "STOP" => "stop"
      | some "MAX_TOKENS" => "max_tokens"
      | some _ => "other"
      | none => endReason
    if finish = some "MAX_TOKENS" then (endReason, .error (.code "response_truncated"))
    else if finish.any fun f => f ≠ "STOP" && f ≠ "MAX_TOKENS" then
      (endReason, .error (.code "content_blocked"))
    else
      let parts := (candidate.bind (pointer · ["content", "parts"])).bind Json.asArr
      let text := String.join ((parts.getD []).filterMap fun p => (p.entry "text").asStr)
      (endReason, .ok (text, finish.isSome))

def Shape.read (value : Json) (endReason : String) : Shape → Reading
  | openAi => readOpenAi value endReason
  | anthropic => readAnthropic value endReason
  | gemini => readGemini value endReason

/-! ## Events -/

/-- What the sink answers to the last of some deltas. -/
abbrev DeltaSink := List String → Except Error Unit

/-- An attempt, with the deltas it has handed to the sink. -/
structure StreamState where
  text : String
  terminal : Bool
  emitted : Bool
  deltas : List String
  endReason : String

def StreamState.start : StreamState := ⟨"", false, false, [], "absent"⟩

section

variable [JsonReader]

/-- What an event says that is not the marker of the end. -/
def StreamState.value (shape : Shape) (event : String) (s : StreamState) : Reading :=
  match JsonReader.parse event with
  | none => (s.endReason, .error parseFailed)
  | some value =>
      if (value.member? "error").isSome || value.entry "type" = .str "error" then
        (s.endReason, .error (.code "llm_error"))
      else shape.read value s.endReason

def StreamState.event (sink : DeltaSink) (shape : Shape) (event : String) (s : StreamState) :
    Except Error Unit × StreamState :=
  if s.terminal then (.ok (), s)
  else if Text.trim event.toList = "[DONE]".toList then
    if shape ≠ .openAi then (.error parseFailed, s)
    else (.ok (), { s with terminal := true, endReason := "done" })
  else
    match s.value shape event with
    | (endReason, .error e) => (.error e, { s with endReason })
    | (endReason, .ok (delta, terminal)) =>
        if delta.isEmpty then (.ok (), { s with endReason, terminal })
        else
          -- It counts as handed over before the sink has answered.
          let s := { s with endReason, emitted := true, deltas := s.deltas ++ [delta] }
          match sink s.deltas with
          | .error e => (.error e, s)
          | .ok () => (.ok (), { s with text := s.text ++ delta, terminal })

def StreamState.events (sink : DeltaSink) (shape : Shape) :
    List String → StreamState → Except Error Unit × StreamState
  | [], s => (.ok (), s)
  | event :: more, s =>
      match s.event sink shape event with
      | (.error e, s) => (.error e, s)
      | (.ok (), s) => s.events sink shape more

/-! ## Attempts -/

/-- The connection may break after the chunks. -/
structure Response where
  status : Nat
  contentLength : Option Nat
  chunks : List (List UInt8)
  broken : Bool

/-- The chunks of a response, up to the event that ends it. -/
def readChunks (sink : DeltaSink) (shape : Shape) (broken : Bool) :
    List (List UInt8) → SseDecoder → StreamState → Except Error SseDecoder × StreamState
  | [], d, s => (if broken then .error (.code "provider_unavailable") else .ok d, s)
  | chunk :: chunks, d, s =>
      match d.push chunk with
      | .error e => (.error e, s)
      | .ok (events, d) =>
          match s.events sink shape events with
          | (.error e, s) => (.error e, s)
          | (.ok (), s) =>
              if s.terminal then (.ok d, s) else readChunks sink shape broken chunks d s

/-- What the end of the stream ends. -/
def readEnd (sink : DeltaSink) (shape : Shape) (d : SseDecoder) (s : StreamState) :
    Except Error Unit × StreamState :=
  if s.terminal then (.ok (), s)
  else
    match d.finish with
    | .error e => (.error e, s)
    | .ok (events, _) => s.events sink shape events

/-- The answer of an attempt whose stream is over. -/
def StreamState.answer (s : StreamState) : Except Error String :=
  if !s.terminal then .error (.code "stream_incomplete")
  else if (Text.trim s.text.toList).isEmpty then .error (.code "empty_response")
  else .ok s.text

/-- What an attempt comes to that has a decoder and some chunks before it. -/
def readFrom (sink : DeltaSink) (shape : Shape) (broken : Bool) (chunks : List (List UInt8))
    (d : SseDecoder) (s : StreamState) : Except Error String × StreamState :=
  match readChunks sink shape broken chunks d s with
  | (.error e, s) => (.error e, s)
  | (.ok d, s) =>
      match readEnd sink shape d s with
      | (.error e, s) => (.error e, s)
      | (.ok (), s) => (s.answer, s)

/-- The response whose body is read, or what stands in its way. `reply` is the error of the
client or the connection, when there is no response. -/
def openStream (maxBytes : Nat) (route : Route) (prompt : String)
    (reply : Except Error Response) : Except Error Response := do
  let _ ← streamContract route prompt
  let response ← reply
  if !(200 ≤ response.status && response.status ≤ 299) then throw (status response.status)
  if response.contentLength.any (maxBytes < ·) then throw tooLarge
  return response

def streamAttempt (maxBytes : Nat) (sink : DeltaSink) (route : Route) (prompt : String)
    (reply : Except Error Response) : Except Error String × StreamState :=
  match openStream maxBytes route prompt reply with
  | .error e => (.error e, .start)
  | .ok response =>
      readFrom sink route.shape response.broken response.chunks (.new maxBytes) .start

/-! ## Routes in turn -/

/-- An attempt is dropped at an await: of the response, of a chunk, or of the sink. -/
structure Interruption where
  cause : Error
  chunks : Option Nat
  deltas : Nat

/-- A route, what it answers, and when the attempt is interrupted. -/
structure Offer where
  route : Route
  reply : Except Error Response
  interruption : Option Interruption

/-- What an attempt sees up to its interruption. -/
def Interruption.reply (i : Interruption) (reply : Except Error Response) :
    Except Error Response := do
  let response ← reply
  match i.chunks with
  | none => .error i.cause
  | some n => .ok { response with chunks := response.chunks.take n, broken := true }

def Interruption.sink (i : Interruption) (sink : DeltaSink) : DeltaSink := fun deltas =>
  if i.deltas < deltas.length then .error i.cause else sink deltas

def Offer.attempt (maxBytes : Nat) (prompt : String) (sink : DeltaSink) (o : Offer) :
    Except Error String × StreamState :=
  match o.interruption with
  | none => streamAttempt maxBytes sink o.route prompt o.reply
  | some i =>
      (.error i.cause, (streamAttempt maxBytes (i.sink sink) o.route prompt (i.reply o.reply)).2)

/-- The deltas with the number of the attempt they come from, how many routes were tried, and
what the call returned. -/
structure Outcome where
  deltas : List (Nat × String)
  tried : Nat
  result : Except Error String

/-- The routes that are left, after some attempts with what they handed over. -/
def tryRoutes (maxBytes : Nat) (prompt : String) (sink : DeltaSink) :
    List Offer → Nat → List (Nat × String) → Error → Outcome
  | [], tried, handed, last => ⟨handed, tried, .error last⟩
  | o :: offers, tried, handed, _ =>
      let sink' : DeltaSink := fun deltas => sink (handed.map Prod.snd ++ deltas)
      let (result, s) := o.attempt maxBytes prompt sink'
      let handed := handed ++ s.deltas.map fun delta => (tried + 1, delta)
      match result with
      | .ok text => ⟨handed, tried + 1, .ok text⟩
      | .error e =>
          if o.interruption.isSome || s.emitted || o.route.isByok then
            ⟨handed, tried + 1, .error e⟩
          else tryRoutes maxBytes prompt sink offers (tried + 1) handed e

def streamRoutes (maxBytes : Nat) (prompt : String) (sink : DeltaSink) (offers : List Offer) :
    Outcome :=
  if 1024 * 1024 < Text.byteLen prompt.toList then ⟨[], 0, .error invalid⟩
  else tryRoutes maxBytes prompt sink offers 0 [] (.code "no_route")

end

end YoinkCore.Insight
