import YoinkCore.Lib.Text
import YoinkCore.Lib.Timeline
import YoinkCore.Lib.Transaction

/-!
# Clips of playlists

A clip of a stream is cut from the segments of its playlist that the clip meets. One scan over the
lines keeps the time that has elapsed and the duration that was announced for the next segment.
Times are rationals.
-/

namespace YoinkCore.Worker.ClipHls

open Lib Text

/-- What a text is read as by the standard library. -/
class PyValues where
  /-- `float`: nothing if it raises, and no number for infinities and for what is not a number. -/
  float : Str → Option (Option ℚ)
  /-- `urljoin`: nothing if it raises. -/
  urljoin : Str → Str → Option Str

/-! ## Lines -/

/-- `str.isspace` -/
def isSpace (c : Char) : Bool :=
  let within (low high : Nat) : Bool := decide (low ≤ c.toNat) && decide (c.toNat ≤ high)
  within 0x09 0x0D || within 0x1C 0x20 || within 0x2000 0x200A ||
    [0x85, 0xA0, 0x1680, 0x2028, 0x2029, 0x202F, 0x205F, 0x3000].contains c.toNat

def strip (t : Str) : Str := (t.dropWhile isSpace).rdropWhile isSpace

def endsLine (c : Char) : Bool :=
  [0x0A, 0x0B, 0x0C, 0x0D, 0x1C, 0x1D, 0x1E, 0x85, 0x2028, 0x2029].contains c.toNat

/-- The lines of a text behind the beginning of one. -/
def linesFrom (line : Str) : Str → List Str
  | [] => if line = [] then [] else [line]
  | '\r' :: '\n' :: t => line :: linesFrom [] t
  | c :: t => if endsLine c then line :: linesFrom [] t else linesFrom (line ++ [c]) t

/-- `str.splitlines` -/
def splitlines (t : Str) : List Str := linesFrom [] t

/-! ## Tags -/

/-- A key, a map, a byte range or a discontinuity. -/
def refused (line : Str) : Bool :=
  ["#EXT-X-KEY:", "#EXT-X-MAP:", "#EXT-X-BYTERANGE:", "#EXT-X-DISCONTINUITY"].any fun tag =>
    tag.toList.isPrefixOf line

def isInf (line : Str) : Bool := "#EXTINF:".toList.isPrefixOf line

/-- A line that is neither empty nor a tag or a comment. -/
def isMedia (line : Str) : Bool := !line.isEmpty && line.head? != some '#'

/-- What stands between the colon and the comma. -/
def durationText (line : Str) : Str :=
  (((splitOnce [':'] line).map Prod.snd).getD []).takeWhile (· ≠ ',')

/-! ## Segments -/

inductive SegmentFailure where
  | unsupportedSource | invalidMedia | valueError
deriving DecidableEq

structure Scan where
  elapsed : ℚ
  duration : Option ℚ
  selected : List (Str × ℚ)

section

variable [PyValues]

open PyValues

/-- A duration that is a positive number. -/
def durationOf (line : Str) : Option ℚ := ((float (durationText line)).join).filter (0 < ·)

/-- One media line, with the duration that was announced. -/
def scanMedia (base : Str) (start stop : ℚ) (st : Scan) (line : Str) (duration : ℚ) :
    Except SegmentFailure Scan :=
  if st.elapsed < stop ∧ start < st.elapsed + duration then
    match urljoin base line with
    | none => .error .valueError
    | some url => .ok ⟨st.elapsed + duration, none, st.selected ++ [(url, st.elapsed)]⟩
  else .ok ⟨st.elapsed + duration, none, st.selected⟩

def scanLine (base : Str) (start stop : ℚ) (st : Scan) (line : Str) : Except SegmentFailure Scan :=
  if refused line then .error .unsupportedSource
  else if isInf line then
    match durationOf line with
    | none => .error .invalidMedia
    | some duration => .ok { st with duration := some duration }
  else if isMedia line then
    match st.duration with
    | none => .error .invalidMedia
    | some duration => scanMedia base start stop st line duration
  else .ok st

def scanLines (base : Str) (start stop : ℚ) : Scan → List Str → Except SegmentFailure Scan
  | st, [] => .ok st
  | st, line :: lines => (scanLine base start stop st line).bind fun st =>
      scanLines base start stop st lines

/-- The lines as the scan reads them. -/
def linesOf (text : Str) : List Str := (splitlines text).map strip

def segments (text base : Str) (start stop : ℚ) : Except SegmentFailure (List (Str × ℚ)) :=
  if ¬ "#EXT-X-ENDLIST".toList <:+: text then .error .unsupportedSource
  else (scanLines base start stop ⟨0, none, []⟩ (linesOf text)).bind fun st =>
    if st.selected.isEmpty ∨ st.elapsed < stop then .error .invalidMedia else .ok st.selected

/-! ## Offsets -/

/-- Where a clip begins in the segments of each track, of which there are one or two. -/
def offsets (start stop : ℚ) : List (Str × Str) → Except SegmentFailure (List ℚ)
  | [] => .ok []
  | (text, base) :: manifests =>
      (segments text base start stop).bind fun chosen =>
        (offsets start stop manifests).bind fun rest =>
          match chosen with
          | [] => .error .valueError
          | (_, first) :: _ => .ok ((start - first) :: rest)

end

end YoinkCore.Worker.ClipHls
