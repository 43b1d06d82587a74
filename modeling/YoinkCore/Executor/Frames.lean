import YoinkCore.Lib.Framing
import YoinkCore.Lib.Transaction
import YoinkCore.Worker.Request

/-!
# Worker output

A worker writes events, each on a line: how far it is, and at last what it ended with. The
output is read in whatever pieces it arrives.
-/

namespace YoinkCore.Executor

open Lib
open Storage (Uuid)
open Worker (maxFrameBytes)

/-! ## Events -/

inductive ProgressStage where
  | fetching | processing | writingArtifact
deriving DecidableEq

/-- What a worker tells. Every kind but progress is an end. -/
inductive WorkerEventKind (ρ : Type) where
  | progress (percent : Float32) (stage : ProgressStage)
  | terminal (result : ρ)

def WorkerEventKind.isProgress {ρ : Type} : WorkerEventKind ρ → Bool
  | .progress _ _ => true
  | .terminal _ => false

def WorkerEventKind.isTerminal {ρ : Type} (e : WorkerEventKind ρ) : Bool := !e.isProgress

structure WorkerEvent (ρ : Type) where
  version : Nat
  operationId : Uuid
  attempt : UInt32
  event : WorkerEventKind ρ

/-- `serde_json::from_slice` of an event, and what is asked of the results in it -/
class EventReader (ρ : Type) where
  read : List UInt8 → Option (WorkerEvent ρ)
  validResult : ρ → Bool

variable {ρ : Type} [EventReader ρ]

def WorkerEvent.valid (e : WorkerEvent ρ) : Bool :=
  e.version == Worker.protocolVersion && e.operationId != ⟨0⟩ && e.attempt != 0 &&
    match e.event with
    | .progress percent _ => percent.isFinite && decide (0.0 ≤ percent) && decide (percent ≤ 100.0)
    | .terminal result => EventReader.validResult result

/-- `decode_event_frame` -/
def decodeEventFrame (frame : List UInt8) : Option (WorkerEvent ρ) :=
  if maxFrameBytes < frame.length then none else (EventReader.read frame).filter WorkerEvent.valid

/-! ## Reading -/

inductive ExecutorError where
  | protocol | resourceLimit
deriving DecidableEq

/-- What is expected of the output. -/
structure Expected where
  maxOutput : Nat
  version : Nat
  operationId : Uuid
  attempt : UInt32
  allowProgress : Bool
  /-- Somebody watches the progress. -/
  watched : Bool

/-- What was read so far, and the progress that was told. -/
structure Reader (ρ : Type) where
  line : List UInt8
  frames : List (WorkerEvent ρ)
  terminalSeen : Bool
  progress : Option (Float32 × ProgressStage)

def Expected.isFor (c : Expected) (e : WorkerEvent ρ) : Bool :=
  e.version == c.version && e.operationId == c.operationId && e.attempt == c.attempt

/-- `parse_line` -/
def parseLine (c : Expected) (s : Reader ρ) : Except ExecutorError (Reader ρ) :=
  if s.line.isEmpty || s.terminalSeen then .error .protocol
  else
    match decodeEventFrame s.line with
    | none => .error .protocol
    | some e =>
        if !c.isFor e then .error .protocol
        else
          match e.event with
          | .progress percent stage =>
              .ok { s with progress := if c.watched then some (percent, stage) else s.progress }
          | .terminal _ => .ok { s with terminalSeen := true, frames := s.frames ++ [e] }

/-- The end of a line, or of the output behind a line. -/
def endLine (c : Expected) (s : Reader ρ) : Except ExecutorError (Reader ρ) :=
  if !c.allowProgress &&
      (decodeEventFrame s.line : Option (WorkerEvent ρ)).any (·.event.isProgress) then
    .error .protocol
  else parseLine c s

def newline : UInt8 := 10

def pushByte (c : Expected) (s : Reader ρ) (b : UInt8) : Except ExecutorError (Reader ρ) :=
  if b = newline then
    if s.line.isEmpty then .error .protocol
    else (endLine c s).map fun s => { s with line := [] }
  else if s.terminalSeen then .error .protocol
  else if maxFrameBytes ≤ s.line.length then .error .resourceLimit
  else .ok { s with line := s.line ++ [b] }

def finish (c : Expected) (s : Reader ρ) : Except ExecutorError (List (WorkerEvent ρ)) :=
  if s.line.isEmpty then .ok s.frames else (endLine c s).map (·.frames)

/-- What one read returns before the end: something, and no more than the buffer holds. -/
structure Chunk where
  bytes : List UInt8
  bytes_ne : bytes ≠ []
  bytes_le : bytes.length ≤ 8192

def readChunks (c : Expected) (total : Nat) (s : Reader ρ) :
    List Chunk → Except ExecutorError (List (WorkerEvent ρ))
  | [] => finish c s
  | chunk :: rest =>
      if c.maxOutput < total + chunk.bytes.length then .error .resourceLimit
      else do
        let s ← chunk.bytes.foldlM (pushByte c) s
        readChunks c (total + chunk.bytes.length) s rest

/-- `read_frames_mode` -/
def readFrames (c : Expected) (chunks : List Chunk) :
    Except ExecutorError (List (WorkerEvent ρ)) :=
  readChunks c 0 ⟨[], [], false, none⟩ chunks

/-! ## The end -/

/-- One event after the others in `execute`, which keeps the end it has found. -/
def checkEvent (c : Expected) (terminal : Option (WorkerEventKind ρ)) (e : WorkerEvent ρ) :
    Except ExecutorError (Option (WorkerEventKind ρ)) :=
  if !c.isFor e then .error .protocol
  else if e.event.isTerminal then
    if terminal.isSome then .error .protocol else .ok (some e.event)
  else if terminal.isSome then .error .protocol
  else .ok terminal

def terminalOf (c : Expected) (events : List (WorkerEvent ρ)) :
    Except ExecutorError (WorkerEventKind ρ) := do
  let terminal ← events.foldlM (checkEvent c) none
  match terminal with
  | some e => .ok e
  | none => .error .protocol

/-- The output as `execute` takes it. -/
def readOutput (c : Expected) (chunks : List Chunk) :
    Except ExecutorError (WorkerEventKind ρ) := do
  terminalOf c (← readFrames c chunks)

/-! ## What is accepted -/

/-- A line that may be read, and its event. -/
structure Frame (c : Expected) (line : List UInt8) (e : WorkerEvent ρ) : Prop where
  line_ne : line ≠ []
  no_newline : newline ∉ line
  line_le : line.length ≤ maxFrameBytes
  decoded : decodeEventFrame line = some e
  identity : c.isFor e = true

/-- A stream of lines that tell of progress, and of the end in the last one. -/
def Lines (c : Expected) (stream : List UInt8) (e : WorkerEventKind ρ) : Prop :=
  ∃ (lines : List (List UInt8)) (last tail : List UInt8),
    stream = lines.flatMap (· ++ [newline]) ++ last ++ tail ∧
    (tail = [] ∨ tail = [newline]) ∧
    (∀ line ∈ lines, c.allowProgress = true ∧
      ∃ told : WorkerEvent ρ, Frame c line told ∧ told.event.isProgress = true) ∧
    ∃ ended, Frame c last ended ∧ ended.event = e

structure Accepted (c : Expected) (stream : List UInt8) (e : WorkerEventKind ρ) : Prop where
  size : stream.length ≤ c.maxOutput
  terminal : e.isTerminal = true
  lines : Lines c stream e

/-! ## Lines -/

/-- Between two lines, before the end. -/
def Reader.idle (progress : Option (Float32 × ProgressStage)) : Reader ρ :=
  ⟨[], [], false, progress⟩

variable {p : Option (Float32 × ProgressStage)} {c : Expected} {line : List UInt8}

theorem push_text {s s' : Reader ρ} {text : List UInt8} (hn : newline ∉ text)
    (hseen : s.terminalSeen = false) (hl : s.line.length ≤ maxFrameBytes) :
    text.foldlM (pushByte c) s = .ok s' ↔
      (s.line ++ text).length ≤ maxFrameBytes ∧ s' = { s with line := s.line ++ text } := by
  induction text generalizing s with
  | nil =>
      rw [List.append_nil]
      constructor
      · intro h
        cases h
        exact ⟨hl, rfl⟩
      · rintro ⟨-, rfl⟩
        rfl
  | cons b text ih =>
      rw [List.mem_cons, not_or] at hn
      rw [List.foldlM_cons, Tx.result_bind_eq_ok]
      by_cases hfull : maxFrameBytes ≤ s.line.length
      · have hp : pushByte c s b = .error .resourceLimit := by
          rw [pushByte, if_neg (Ne.symm hn.1), if_neg (by simp [hseen]), if_pos hfull]
        rw [hp]
        constructor
        · rintro ⟨_, h, -⟩
          cases h
        · rintro ⟨h, -⟩
          rw [List.length_append, List.length_cons] at h
          omega
      · have hp : pushByte c s b = .ok { s with line := s.line ++ [b] } := by
          rw [pushByte, if_neg (Ne.symm hn.1), if_neg (by simp [hseen]), if_neg hfull]
        rw [hp]
        have hnext : ({ s with line := s.line ++ [b] } : Reader ρ).line.length ≤ maxFrameBytes := by
          simp only [List.length_append, List.length_singleton]
          omega
        have ih := ih (s := { s with line := s.line ++ [b] }) hn.2 hseen hnext
        rw [List.append_assoc, List.singleton_append] at ih
        rw [← ih]
        constructor
        · rintro ⟨_, h, hrest⟩
          cases h
          exact hrest
        · intro hrest
          exact ⟨_, rfl, hrest⟩

/-- **A line by itself.** It tells of progress, where that is allowed, or of the end. -/
theorem endLine_cases {s : Reader ρ} (h : endLine c ⟨line, [], false, p⟩ = .ok s) :
    line ≠ [] ∧ ∃ e : WorkerEvent ρ, decodeEventFrame line = some e ∧ c.isFor e = true ∧
      ((e.event.isProgress = true ∧ c.allowProgress = true ∧ ∃ p', s = ⟨line, [], false, p'⟩) ∨
        (e.event.isTerminal = true ∧ s = ⟨line, [e], true, p⟩)) := by
  unfold endLine at h
  split at h
  · cases h
  rename_i hallow
  simp only [parseLine, Bool.or_false] at h
  split at h
  · cases h
  rename_i hne
  split at h
  · cases h
  rename_i e he
  split at h
  · cases h
  rename_i hfor
  refine ⟨by simpa using hne, e, he, by simpa using hfor, ?_⟩
  split at h
  · rename_i hevent
    cases h
    refine .inl ⟨by rw [hevent]; rfl, ?_, _, rfl⟩
    simp only [he, Option.any_some, hevent, WorkerEventKind.isProgress, Bool.and_true,
      Bool.not_eq_true'] at hallow
    simpa using hallow
  · rename_i hevent
    cases h
    exact .inr ⟨by rw [hevent]; rfl, rfl⟩

theorem endLine_progress {e : WorkerEvent ρ} (hframe : Frame c line e)
    (he : e.event.isProgress = true) (hallow : c.allowProgress = true) :
    ∃ p', endLine c (⟨line, [], false, p⟩ : Reader ρ) = .ok ⟨line, [], false, p'⟩ := by
  cases hevent : e.event with
  | progress percent stage =>
      refine ⟨if c.watched then some (percent, stage) else p, ?_⟩
      simp [endLine, parseLine, hallow, hframe.line_ne, hframe.decoded, hframe.identity, hevent]
  | terminal result =>
      rw [hevent] at he
      cases he

theorem endLine_terminal {e : WorkerEvent ρ} (hframe : Frame c line e)
    (he : e.event.isTerminal = true) :
    endLine c (⟨line, [], false, p⟩ : Reader ρ) = .ok ⟨line, [e], true, p⟩ := by
  cases hevent : e.event with
  | progress percent stage =>
      rw [hevent] at he
      cases he
  | terminal result =>
      simp [endLine, parseLine, hframe.line_ne, hframe.decoded, hframe.identity, hevent,
        WorkerEventKind.isProgress]

/-- A line with its newline, from where lines begin, when it goes through. -/
theorem push_line_cases {s : Reader ρ} (hn : newline ∉ line)
    (h : (line ++ [newline]).foldlM (pushByte c) (Reader.idle p) = .ok s) :
    line.length ≤ maxFrameBytes ∧
      ∃ s', endLine c ⟨line, [], false, p⟩ = .ok s' ∧ s = { s' with line := [] } := by
  rw [List.foldlM_append, Tx.result_bind_eq_ok] at h
  obtain ⟨s₁, htext, h⟩ := h
  obtain ⟨hle, rfl⟩ := (push_text hn rfl (Nat.zero_le _)).mp htext
  rw [List.foldlM_cons, Tx.result_bind_eq_ok] at h
  obtain ⟨s₂, hnewline, h⟩ := h
  cases h
  unfold pushByte at hnewline
  rw [if_pos rfl] at hnewline
  split at hnewline
  · cases hnewline
  obtain ⟨s', hend, rfl⟩ := Tx.result_map_eq_ok.mp hnewline
  exact ⟨hle, s', hend, rfl⟩

/-- A line with its newline, from where lines begin. -/
theorem push_line (hn : newline ∉ line) (hne : line ≠ []) (hl : line.length ≤ maxFrameBytes) :
    (line ++ [newline]).foldlM (pushByte c) (Reader.idle p : Reader ρ) =
      (endLine c ⟨line, [], false, p⟩).map fun s => { s with line := [] } := by
  have htext : line.foldlM (pushByte c) (Reader.idle p : Reader ρ) =
      .ok ⟨line, [], false, p⟩ := (push_text hn rfl (Nat.zero_le _)).mpr ⟨hl, rfl⟩
  have hnewline : pushByte c (⟨line, [], false, p⟩ : Reader ρ) newline =
      (endLine c ⟨line, [], false, p⟩).map fun s => { s with line := [] } := by
    rw [pushByte, if_pos rfl, if_neg (by simpa using hne)]
  rw [List.foldlM_append, htext]
  show [newline].foldlM (pushByte c) (⟨line, [], false, p⟩ : Reader ρ) = _
  rw [List.foldlM_cons, hnewline]
  cases endLine c (⟨line, [], false, p⟩ : Reader ρ) <;> rfl

/-! ## The whole output -/

/-- Nothing follows the end but the newline of its line. -/
theorem push_after_end {e : WorkerEvent ρ} {b : UInt8} {rest : List UInt8} {s : Reader ρ} :
    (b :: rest).foldlM (pushByte c) (⟨[], [e], true, p⟩ : Reader ρ) ≠ .ok s := by
  intro h
  rw [List.foldlM_cons, Tx.result_bind_eq_ok] at h
  obtain ⟨_, h, -⟩ := h
  unfold pushByte at h
  split at h <;> cases h

omit [EventReader ρ] in
theorem terminalOf_nil {e : WorkerEventKind ρ} : terminalOf c [] ≠ .ok e := nofun

omit [EventReader ρ] in
theorem terminalOf_single {e : WorkerEvent ρ} (hfor : c.isFor e = true)
    (he : e.event.isTerminal = true) : terminalOf c [e] = .ok e.event := by
  simp [terminalOf, checkEvent, hfor, he, bind, Except.bind, pure, Except.pure]

/-- What is read to its end is made of lines that may be read. The induction is on the lines
that have ended. -/
theorem lines_of_push {e : WorkerEventKind ρ} {rest : List UInt8} (hrest : newline ∉ rest)
    {lines : List (List UInt8)} (hlines : ∀ l ∈ lines, newline ∉ l) {s : Reader ρ}
    {events : List (WorkerEvent ρ)}
    (hpush : (lines.flatMap (· ++ [newline]) ++ rest).foldlM (pushByte c) (Reader.idle p) = .ok s)
    (hfinish : finish c s = .ok events) (hterminal : terminalOf c events = .ok e) :
    e.isTerminal = true ∧ Lines c (lines.flatMap (· ++ [newline]) ++ rest) e := by
  induction lines generalizing p with
  | nil =>
      rw [List.flatMap_nil, List.nil_append] at hpush ⊢
      obtain ⟨hle, rfl⟩ := (push_text hrest rfl (Nat.zero_le _)).mp hpush
      unfold finish at hfinish
      split at hfinish
      · cases hfinish
        exact absurd hterminal terminalOf_nil
      obtain ⟨s', hend, rfl⟩ := Tx.result_map_eq_ok.mp hfinish
      obtain ⟨hne, ended, hdecoded, hfor, hkind⟩ := endLine_cases hend
      rcases hkind with ⟨-, -, p', rfl⟩ | ⟨hended, rfl⟩
      · exact absurd hterminal terminalOf_nil
      · rw [terminalOf_single hfor hended] at hterminal
        cases hterminal
        exact ⟨hended, [], rest, [], by simp, .inl rfl, nofun, ended,
          ⟨hne, hrest, hle, hdecoded, hfor⟩, rfl⟩
  | cons line lines ih =>
      rw [List.forall_mem_cons] at hlines
      rw [List.flatMap_cons, List.append_assoc] at hpush ⊢
      rw [List.foldlM_append, Tx.result_bind_eq_ok] at hpush
      obtain ⟨s₁, hline, hpush⟩ := hpush
      obtain ⟨hle, s', hend, rfl⟩ := push_line_cases hlines.1 hline
      obtain ⟨hne, told, hdecoded, hfor, hkind⟩ := endLine_cases hend
      have hframe : Frame c line told := ⟨hne, hlines.1, hle, hdecoded, hfor⟩
      rcases hkind with ⟨htold, hallow, p', rfl⟩ | ⟨hended, rfl⟩
      · obtain ⟨he, ls, last, tail, hstream, htail, hls, hlast⟩ := ih hlines.2 hpush
        refine ⟨he, line :: ls, last, tail, ?_, htail, ?_, hlast⟩
        · rw [hstream]
          simp only [List.flatMap_cons, List.append_assoc]
        · rw [List.forall_mem_cons]
          exact ⟨⟨hallow, told, hframe, htold⟩, hls⟩
      · -- nothing can follow the end
        cases hafter : lines.flatMap (· ++ [newline]) ++ rest with
        | cons b more =>
            rw [hafter] at hpush
            exact absurd hpush push_after_end
        | nil =>
            rw [hafter] at hpush
            cases hpush
            cases hfinish
            rw [terminalOf_single hfor hended] at hterminal
            cases hterminal
            exact ⟨hended, [], line, [newline], by simp, .inr rfl, nofun, told, hframe, rfl⟩

/-- Lines that may be read are read to their end. -/
theorem push_of_lines {lines : List (List UInt8)} {last tail : List UInt8} {ended : WorkerEvent ρ}
    (htail : tail = [] ∨ tail = [newline]) (hlines : ∀ line ∈ lines, c.allowProgress = true ∧
      ∃ told : WorkerEvent ρ, Frame c line told ∧ told.event.isProgress = true)
    (hlast : Frame c last ended) (hended : ended.event.isTerminal = true)
    (p : Option (Float32 × ProgressStage)) :
    ∃ s, (lines.flatMap (· ++ [newline]) ++ last ++ tail).foldlM (pushByte c) (Reader.idle p) =
      .ok s ∧ finish c s = .ok [ended] := by
  induction lines generalizing p with
  | nil =>
      rw [List.flatMap_nil, List.nil_append]
      have hend := endLine_terminal (p := p) hlast hended
      rcases htail with rfl | rfl
      · rw [List.append_nil]
        refine ⟨_, (push_text hlast.no_newline rfl (Nat.zero_le _)).mpr ⟨hlast.line_le, rfl⟩, ?_⟩
        show finish c ⟨last, [], false, p⟩ = _
        rw [finish, if_neg (by simpa using hlast.line_ne), hend]
        rfl
      · refine ⟨⟨[], [ended], true, p⟩, ?_, rfl⟩
        rw [push_line hlast.no_newline hlast.line_ne hlast.line_le, hend]
        rfl
  | cons line lines ih =>
      rw [List.forall_mem_cons] at hlines
      obtain ⟨⟨hallow, told, hframe, htold⟩, hlines⟩ := hlines
      obtain ⟨p', hend⟩ := endLine_progress (p := p) hframe htold hallow
      obtain ⟨s, hpush, hfinish⟩ := ih hlines p'
      refine ⟨s, ?_, hfinish⟩
      rw [List.flatMap_cons, List.append_assoc, List.append_assoc, List.foldlM_append,
        push_line hframe.no_newline hframe.line_ne hframe.line_le, hend, ← List.append_assoc]
      exact hpush

/-- Only the bytes of the reads matter, and how many they are. -/
theorem readChunks_eq_ok {events : List (WorkerEvent ρ)} {chunks : List Chunk} :
    ∀ {total : Nat} {s : Reader ρ}, total ≤ c.maxOutput →
      (readChunks c total s chunks = .ok events ↔
        total + (chunks.flatMap (·.bytes)).length ≤ c.maxOutput ∧
          ∃ s', (chunks.flatMap (·.bytes)).foldlM (pushByte c) s = .ok s' ∧
            finish c s' = .ok events) := by
  induction chunks with
  | nil =>
      intro total s htotal
      constructor
      · intro h
        exact ⟨htotal, s, rfl, h⟩
      · rintro ⟨-, s', hs, h⟩
        cases hs
        exact h
  | cons chunk chunks ih =>
      intro total s htotal
      rw [readChunks, List.flatMap_cons, List.length_append]
      by_cases hfull : c.maxOutput < total + chunk.bytes.length
      · rw [if_pos hfull]
        constructor
        · intro h
          cases h
        · rintro ⟨h, -⟩
          omega
      · rw [if_neg hfull, Tx.result_bind_eq_ok, List.foldlM_append]
        constructor
        · rintro ⟨s₁, hchunk, h⟩
          obtain ⟨hle, s', hpush, hfinish⟩ := (ih (by omega)).mp h
          exact ⟨by omega, s', Tx.result_bind_eq_ok.mpr ⟨s₁, hchunk, hpush⟩, hfinish⟩
        · rintro ⟨hle, s', hpush, hfinish⟩
          obtain ⟨s₁, hchunk, hpush⟩ := Tx.result_bind_eq_ok.mp hpush
          exact ⟨s₁, hchunk, (ih (by omega)).mpr ⟨by omega, s', hpush, hfinish⟩⟩

/-- **Worker output is accepted exactly, in whatever pieces it arrives.** -/
theorem read_exactly (c : Expected) (chunks : List Chunk) (e : WorkerEventKind ρ) :
    (readOutput c chunks = .ok e ↔ Accepted c (chunks.flatMap (·.bytes)) e) ∧
      ∀ chunks' : List Chunk, chunks'.flatMap (·.bytes) = chunks.flatMap (·.bytes) →
        (readOutput c chunks' = .ok e ↔ readOutput c chunks = .ok e) := by
  have hiff : ∀ chunks : List Chunk,
      readOutput c chunks = .ok e ↔ Accepted c (chunks.flatMap (·.bytes)) e := by
    intro chunks
    rw [readOutput, Tx.result_bind_eq_ok]
    constructor
    · rintro ⟨events, hread, hterminal⟩
      obtain ⟨hsize, s, hpush, hfinish⟩ := (readChunks_eq_ok (Nat.zero_le _)).mp hread
      have hjoin := Framing.flatMap_frames newline (chunks.flatMap (·.bytes))
      obtain ⟨hlines, hrest⟩ := Framing.sep_not_mem newline (chunks.flatMap (·.bytes))
      rw [← hjoin] at hpush
      obtain ⟨he, hl⟩ := lines_of_push hrest hlines hpush hfinish hterminal
      rw [hjoin] at hl
      exact ⟨by omega, he, hl⟩
    · rintro ⟨hsize, he, lines, last, tail, hstream, htail, hlines, ended, hlast, rfl⟩
      obtain ⟨s, hpush, hfinish⟩ := push_of_lines htail hlines hlast he none
      rw [← hstream] at hpush
      exact ⟨[ended], (readChunks_eq_ok (Nat.zero_le _)).mpr ⟨by omega, s, hpush, hfinish⟩,
        terminalOf_single hlast.identity he⟩
  refine ⟨hiff chunks, fun chunks' h => ?_⟩
  rw [hiff chunks', hiff chunks, h]

end YoinkCore.Executor
