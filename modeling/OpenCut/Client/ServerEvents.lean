import OpenCut.Domain.Edit
import OpenCut.Lib.Chunks

/-!
# Streams of server-sent events

`packages/contracts/src/sse.ts`: the client decodes an event stream chunk by chunk. Line ends are
unified in each chunk on its own, before it is appended to the buffer in which the frames are
found. So the events depend on the text alone as long as no chunk ends between the two characters
of a line end (`readServerEvents_uncut`); otherwise an event can be lost (`event_lost`).
-/

namespace OpenCut

open Chunks Outcome List

/-! ## The model -/

/-- `ServerEvent`: the data are what `JSON.parse` returns, or the lines that it is to parse. -/
structure ServerEvent (J : Type) where
  event : Text
  id : Option Text
  retry : Option Nat
  data : J
deriving DecidableEq

/-- The value of a text of digits. -/
def digitsValue (digits : Text) : Nat := digits.foldl (fun n c => 10 * n + (c.toNat - '0'.toNat)) 0

/-- One line of a frame. -/
def readField (fields : ServerEvent (List Text)) (line : Text) : ServerEvent (List Text) :=
  if line = [] ∨ line.head? = some ':' then fields else
    let field := line.takeWhile (· ≠ ':')
    let value := line.drop (field.length + 1)
    let value := if value.head? = some ' ' then value.tail else value
    if field = "event".toList then { fields with event := value }
    else if field = "id".toList then { fields with id := some value }
    else if field = "retry".toList ∧ value ≠ [] ∧ value.all Char.isDigit then
      { fields with retry := some (digitsValue value) }
    else if field = "data".toList then { fields with data := fields.data ++ [value] }
    else fields

variable {J : Type} (parse : Text → Option J)

/-- `parseFrame`, with `JSON.parse`: an event, none, or an exception. -/
def parseFrame (frame : Text) : Except Unit (Option (ServerEvent J)) :=
  let fields := (frame.splitOn '\n').foldl readField ⟨"message".toList, none, none, []⟩
  if fields.data = [] then .ok none
  else match parse (['\n'].intercalate fields.data) with
    | some data => .ok (some { fields with data })
    | none => .error ()

/-- A frame is taken from the buffer. An exception comes after the events so far. -/
def yieldFrame (events : List (ServerEvent J)) (frame : Text) :
    Except (List (ServerEvent J)) (List (ServerEvent J)) :=
  match parseFrame parse frame with
  | .ok event => .ok (events ++ event.toList)
  | .error _ => .error events

/-- `replaceAll("\r\n", "\n")`. -/
def unifyLineEnds : Text → Text
  | [] => []
  | c :: text =>
    if c = '\r' ∧ text.head? = some '\n' then unifyLineEnds text else c :: unifyLineEnds text

variable (chunks : List Text)

/-- `readServerEvents` on the decoded chunks: the buffer and the events, or the events before an
    exception. -/
def readServerEvents : Except (List (ServerEvent J)) (Text × List (ServerEvent J)) :=
  (chunks.map unifyLineEnds).foldlM (feed (cons_ne_nil '\n' ['\n']) (yieldFrame parse)) ([], [])

/-! ## Chunks that do not cut a line end -/

/-- No chunk ends between the two characters of a line end. -/
def Uncut : Prop :=
  ∀ before after, chunks = before ++ after → before.flatten.getLast? = some '\r' →
    after.flatten.head? ≠ some '\n'

theorem unifyLineEnds_append {first second : Text}
    (h : first.getLast? = some '\r' → second.head? ≠ some '\n') :
    unifyLineEnds (first ++ second) = unifyLineEnds first ++ unifyLineEnds second := by
  induction first with
  | nil => rfl
  | cons c first ih =>
    rw [cons_append, unifyLineEnds, unifyLineEnds]
    cases first with
    | nil =>
      have hcut : ¬(c = '\r' ∧ second.head? = some '\n') := fun hc => h (by simp [hc.1]) hc.2
      simp [hcut, unifyLineEnds]
    | cons =>
      rw [ih (by simpa using h), cons_append, head?_cons, head?_cons]
      split
      · rfl
      · rfl

theorem unifyLineEnds_flatten {chunks : List Text} (h : Uncut chunks) :
    (chunks.map unifyLineEnds).flatten = unifyLineEnds chunks.flatten := by
  induction chunks with
  | nil => rfl
  | cons chunk chunks ih =>
    have hrest : Uncut chunks := by
      rintro before after rfl hlast
      refine h (chunk :: before) after rfl ?_
      rw [flatten_cons, getLast?_append, hlast]
      rfl
    rw [map_cons, flatten_cons, flatten_cons, ih hrest, unifyLineEnds_append]
    simpa using h [chunk] chunks rfl

/-- Where no line end is cut, the events do not depend on the chunks. -/
theorem readServerEvents_uncut {chunks chunks' : List Text} (h : Uncut chunks) (h' : Uncut chunks')
    (htext : chunks.flatten = chunks'.flatten) :
    readServerEvents parse chunks = readServerEvents parse chunks' := by
  rw [readServerEvents, readServerEvents, foldlM_feed _ rfl, foldlM_feed _ rfl,
    unifyLineEnds_flatten h, unifyLineEnds_flatten h', htext]

theorem readServerEvents_uncut_sample :
    readServerEvents some ["data: 1\r\n".toList, "\r\n".toList] =
      readServerEvents some ["data: 1\r\n\r\n".toList] := by
  refine readServerEvents_uncut some ?_ ?_ rfl <;> intro before after heq <;>
    rcases before with _ | ⟨_, _ | ⟨_, _ | _⟩⟩ <;> cases heq <;> decide

/-- An event is lost where the line end after it is cut. -/
theorem event_lost :
    readServerEvents some ["data: 1\r\n\r\n".toList] =
      .ok ([], [⟨"message".toList, none, none, ['1']⟩]) ∧
    readServerEvents some ["data: 1\r\n\r".toList, ['\n']] = .ok ("data: 1\n\r\n".toList, []) := by
  decide +kernel

end OpenCut
