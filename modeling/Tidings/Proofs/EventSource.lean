import Tidings.Http.EventStream
import Tidings.Proofs.Numerals
import Tidings.Text.Split
import Tidings.Text.Utf8
/-!
Reading the body of a stream response. A client decodes it, takes it apart into lines, and dispatches an event
at each empty line; what payloads hold never breaks a line.
-/
namespace Tidings

namespace Text

section Decoding
variable {w : Nat}

theorem Lead.ofByte_two (hlow : 2 ≤ w) (hhigh : w < 32) :
    Lead.ofByte (UInt8.ofNat (w + 192)) = .more ⟨1, 0x80, 0xBF, w⟩ := by
  have hbyte : (UInt8.ofNat (w + 192)).toNat = w + 192 := UInt8.toNat_ofNat'.trans (Nat.mod_eq_of_lt (by omega))
  have hvalue : w + 192 - 0xC0 = w := by omega
  simp only [ofByte, hbyte]
  rw [if_neg (by omega), if_neg (by omega), if_pos (by omega), hvalue]

theorem Lead.ofByte_three (h : w < 16) : Lead.ofByte (UInt8.ofNat (w + 224)) =
    .more ⟨2, if w = 0 then 0xA0 else 0x80, if w = 13 then 0x9F else 0xBF, w⟩ := by
  have hbyte : (UInt8.ofNat (w + 224)).toNat = w + 224 := UInt8.toNat_ofNat'.trans (Nat.mod_eq_of_lt (by omega))
  have hvalue : w + 224 - 0xE0 = w := by omega
  have hfirst : w + 224 = 0xE0 ↔ w = 0 := by omega
  have hsurrogate : w + 224 = 0xED ↔ w = 13 := by omega
  simp only [ofByte, hbyte]
  rw [if_neg (by omega), if_neg (by omega), if_neg (by omega), if_pos (by omega), hvalue]
  simp only [hfirst, hsurrogate]

theorem Lead.ofByte_four (h : w < 5) : Lead.ofByte (UInt8.ofNat (w + 240)) =
    .more ⟨3, if w = 0 then 0x90 else 0x80, if w = 4 then 0x8F else 0xBF, w⟩ := by
  have hbyte : (UInt8.ofNat (w + 240)).toNat = w + 240 := UInt8.toNat_ofNat'.trans (Nat.mod_eq_of_lt (by omega))
  have hvalue : w + 240 - 0xF0 = w := by omega
  have hfirst : w + 240 = 0xF0 ↔ w = 0 := by omega
  have hlast : w + 240 = 0xF4 ↔ w = 4 := by omega
  simp only [ofByte, hbyte]
  rw [if_neg (by omega), if_neg (by omega), if_neg (by omega), if_neg (by omega), if_pos (by omega), hvalue]
  simp only [hfirst, hlast]

/-- The bytes of a character are read as the character. -/
theorem utf8Parts_char (c : Char) (bytes : List UInt8) :
    utf8Parts none (String.utf8EncodeChar c ++ bytes) = some c :: utf8Parts none bytes := by
  have hback : Char.ofNat c.val.toNat = c := Char.ofNat_toNat c
  have hvalid : c.val.toNat < 0xD800 ∨ 0xDFFF < c.val.toNat ∧ c.val.toNat < 0x110000 := c.valid
  unfold String.utf8EncodeChar
  generalize c.val.toNat = v at *
  have hcontinued (u : Nat) : (UInt8.ofNat (u % 64 + 128)).toNat = u % 64 + 128 :=
    UInt8.toNat_ofNat'.trans (Nat.mod_eq_of_lt (by omega))
  dsimp only
  split
  · have hbyte : (UInt8.ofNat v).toNat = v := UInt8.toNat_ofNat'.trans (Nat.mod_eq_of_lt (by omega))
    simp only [List.cons_append, List.nil_append, utf8Parts, Lead.ofByte, hbyte]
    rw [if_pos (by omega)]
    simp only [hback]
  split
  · have hlead := Lead.ofByte_two (show 2 ≤ v / 64 % 32 by omega) (by omega)
    have hvalue : 64 * (v / 64 % 32) + (v % 64 + 128 - 0x80) = v := by omega
    simp only [List.cons_append, List.nil_append, utf8Parts, hlead, hcontinued]
    rw [if_pos (by omega), if_pos (by omega), hvalue, hback]
  split
  · have hlead := Lead.ofByte_three (show v / 4096 % 16 < 16 by omega)
    have hrange : (if v / 4096 % 16 = 0 then 0xA0 else 0x80) ≤ v / 64 % 64 + 128 ∧
        v / 64 % 64 + 128 ≤ if v / 4096 % 16 = 13 then 0x9F else 0xBF := by
      split <;> split <;> omega
    have hvalue : 64 * (64 * (v / 4096 % 16) + (v / 64 % 64 + 128 - 0x80)) + (v % 64 + 128 - 0x80) = v := by omega
    simp only [List.cons_append, List.nil_append, utf8Parts, hlead, hcontinued]
    rw [if_pos hrange, if_neg (by omega), if_pos (by omega), if_pos (by omega), hvalue, hback]
  · have hlead := Lead.ofByte_four (show v / 262144 % 8 < 5 by omega)
    have hrange : (if v / 262144 % 8 = 0 then 0x90 else 0x80) ≤ v / 4096 % 64 + 128 ∧
        v / 4096 % 64 + 128 ≤ if v / 262144 % 8 = 4 then 0x8F else 0xBF := by
      split <;> split <;> omega
    have hvalue : 64 * (64 * (64 * (v / 262144 % 8) + (v / 4096 % 64 + 128 - 0x80)) + (v / 64 % 64 + 128 - 0x80)) +
        (v % 64 + 128 - 0x80) = v := by omega
    simp only [List.cons_append, List.nil_append, utf8Parts, hlead, hcontinued]
    rw [if_pos hrange, if_neg (by omega), if_pos (by omega), if_neg (by omega), if_pos (by omega),
      if_pos (by omega), hvalue, hback]

/-- What is encoded is decoded again, without a replacement. -/
theorem ofUtf8Lossy_encode (cs : List Char) : (ofUtf8Lossy (cs.flatMap String.utf8EncodeChar)).toList = cs := by
  have hparts : utf8Parts none (cs.flatMap String.utf8EncodeChar) = cs.map some := by
    induction cs with
    | nil => rfl
    | cons c cs ih => rw [List.flatMap_cons, utf8Parts_char, ih, List.map_cons]
  rw [ofUtf8Lossy, String.toList_ofList, hparts, List.map_map]
  exact List.map_id cs

end Decoding

/-- Whether a text has no character below the space, so no line ends in it. -/
def IsUnbroken (cs : List Char) : Prop := ∀ c ∈ cs, 32 ≤ c.toNat

theorem IsUnbroken.nil : IsUnbroken [] := List.forall_mem_nil _

theorem IsUnbroken.append {cs ds : List Char} (h : IsUnbroken cs) (hds : IsUnbroken ds) : IsUnbroken (cs ++ ds) :=
  List.forall_mem_append.2 ⟨h, hds⟩

theorem IsUnbroken.cons {cs : List Char} {c : Char} (hc : 32 ≤ c.toNat) (h : IsUnbroken cs) : IsUnbroken (c :: cs) :=
  List.forall_mem_cons.2 ⟨hc, h⟩

theorem IsUnbroken.not_mem {cs : List Char} {c : Char} (h : IsUnbroken cs) (hc : c.toNat < 32) : c ∉ cs :=
  fun hm => Nat.not_le.2 hc (h c hm)

end Text

namespace Json
open Text

theorem isUnbroken_escape (c : Char) : IsUnbroken (escape c) := by
  have hdigit : ∀ d < 16, 32 ≤ (Nat.digitChar d).toNat := by decide
  unfold escape IsUnbroken
  split
  · simp
  split
  · simp
  split
  · simp
  split
  · simp
  split
  · simp
  split
  · simp
  split
  · simp
  split
  · have hhigh := hdigit (c.toNat / 16) (by omega)
    have hlow := hdigit (c.toNat % 16) (Nat.mod_lt _ (by decide))
    simp [hhigh, hlow]
  · next hlow => simpa using hlow

theorem isUnbroken_quoted (s : String) : IsUnbroken (quoted s) := by
  refine .cons (by decide) (.append (fun c hc => ?_) (.cons (by decide) .nil))
  obtain ⟨d, _, hd⟩ := List.mem_flatMap.1 hc
  exact isUnbroken_escape d c hd

theorem isUnbroken_number (n : Number) : IsUnbroken n.render := by
  intro c hc
  have hchar := (isNumberText_render n).chars c hc
  simp only [isNumberChar, Bool.or_eq_true, decide_eq_true_eq, Char.isDigit_iff_toNat] at hchar
  rcases hchar with ((((hdigit | rfl) | rfl) | rfl) | rfl) | rfl
  · exact Nat.le_trans (by decide) hdigit.1
  all_goals decide

mutual
/-- The text of a value is one line. -/
theorem isUnbroken_render : ∀ v : Value, IsUnbroken v.render
  | .null => by simp [Value.render, IsUnbroken]
  | .bool true => by simp [Value.render, IsUnbroken]
  | .bool false => by simp [Value.render, IsUnbroken]
  | .num n => isUnbroken_number n
  | .str s => isUnbroken_quoted s
  | .arr items => .cons (by decide) (isUnbroken_items items)
  | .obj members => .cons (by decide) (isUnbroken_members members)

theorem isUnbroken_items : ∀ items : List Value, IsUnbroken (Value.renderItems items)
  | [] => .cons (by decide) .nil
  | [v] => (isUnbroken_render v).append (.cons (by decide) .nil)
  | v :: w :: rest => (isUnbroken_render v).append (.cons (by decide) (isUnbroken_items (w :: rest)))

theorem isUnbroken_members : ∀ members : List (String × Value), IsUnbroken (Value.renderMembers members)
  | [] => .cons (by decide) .nil
  | [(k, v)] => (isUnbroken_quoted k).append (.cons (by decide) ((isUnbroken_render v).append (.cons (by decide) .nil)))
  | (k, v) :: m :: rest => (isUnbroken_quoted k).append
      (.cons (by decide) ((isUnbroken_render v).append (.cons (by decide) (isUnbroken_members (m :: rest)))))
end

end Json

namespace Http

/-- What a reader of event streams hands on: a name, the data, and the identifier that was last set. -/
structure Dispatched where
  name : String
  data : String
  id : String
deriving DecidableEq, Repr

/-- A reader of event streams: the name and the data of the event that is being read, the identifier, how long
to wait before connecting again if that was said, and what was dispatched. -/
structure EventSource where
  name : List Char := []
  data : List Char := []
  id : List Char := []
  retry : Option Nat := none
  dispatched : List Dispatched := []
deriving DecidableEq, Repr

namespace EventSource

/-- The end of an event. One without data is dropped; one without a name is a message. -/
def dispatch (s : EventSource) : EventSource :=
  if s.data = [] then { s with name := [] }
  else
    let name := if s.name = [] then "message" else String.ofList s.name
    let data := if s.data.getLast? = some '\n' then s.data.dropLast else s.data
    { s with name := [], data := [], dispatched := s.dispatched ++ [⟨name, String.ofList data, String.ofList s.id⟩] }

def field (s : EventSource) (name value : List Char) : EventSource :=
  if name = "event".toList then { s with name := value }
  else if name = "data".toList then { s with data := s.data ++ value ++ ['\n'] }
  else if name = "id".toList then
    if Char.ofNat 0 ∈ value then s else { s with id := value }
  else if name = "retry".toList then
    if value.all Char.isDigit then { s with retry := some (Text.decimalValue value) } else s
  else s

/-- A value does without one space after the colon. A line that begins with a colon is a comment. -/
def line (s : EventSource) (cs : List Char) : EventSource :=
  if cs = [] then s.dispatch
  else
    match Text.cut ':' cs with
    | (name, none) => s.field name []
    | ([], some _) => s
    | (name, some (' ' :: value)) => s.field name value
    | (name, some value) => s.field name value

/-- A text in which every line ends with a line feed. -/
def plainBreaks : List Char → List Char
  | [] => []
  | '\r' :: '\n' :: cs => '\n' :: plainBreaks cs
  | '\r' :: cs => '\n' :: plainBreaks cs
  | c :: cs => c :: plainBreaks cs

/-- The lines of a text. What stands after the last end of a line is not one yet. -/
def lines (cs : List Char) : List (List Char) := (Text.splitAll '\n' (plainBreaks cs)).dropLast

def withoutMark (cs : List Char) : List Char := if cs.head? = some '\uFEFF' then cs.tail else cs

/-- Reads a body to its end. -/
def ofBytes (bytes : List UInt8) : EventSource :=
  (lines (withoutMark (Text.ofUtf8Lossy bytes).toList)).foldl line {}

theorem plainBreaks_append {cs : List Char} (h : Text.IsUnbroken cs) (rest : List Char) :
    plainBreaks (cs ++ rest) = cs ++ plainBreaks rest := by
  induction cs with
  | nil => rfl
  | cons c cs ih =>
    obtain ⟨hc, hcs⟩ := List.forall_mem_cons.1 h
    have hne : c ≠ '\r' := by
      rintro rfl
      exact absurd hc (by decide)
    rw [List.cons_append, plainBreaks, ih hcs]
    · rfl
    · exact fun _ heq _ => hne heq
    · exact hne

theorem lines_append {cs : List Char} (h : Text.IsUnbroken cs) (rest : List Char) :
    lines (cs ++ '\n' :: rest) = cs :: lines rest := by
  have hbreak : plainBreaks ('\n' :: rest) = '\n' :: plainBreaks rest := rfl
  have hsplit := Text.splitAll_append (h.not_mem (by decide : '\n'.toNat < 32)) (plainBreaks rest)
  rw [lines, plainBreaks_append h, hbreak, hsplit, List.dropLast_cons_of_ne_nil (Text.splitAll_ne_nil _ _)]
  rfl

theorem line_field (s : EventSource) {name : List Char} (hne : name ≠ []) (hname : ':' ∉ name) (value : List Char) :
    s.line (name ++ ':' :: ' ' :: value) = s.field name value := by
  obtain ⟨c, cs, rfl⟩ := List.exists_cons_of_ne_nil hne
  rw [line, if_neg (by simp), Text.cut_append hname]
  rfl

end EventSource

/-- What is written into a body: what there is for a frame, or a comment to keep the connection alive. -/
inductive Piece where
  | frame (f : Frame)
  | keepalive
deriving Repr

namespace Piece

def chunk (displaySeconds : Nat) : Piece → String
  | .frame f => frameChunk displaySeconds f
  | .keepalive => keepaliveChunk

def frame? : Piece → Option Frame
  | .frame f => some f
  | .keepalive => none

def frames (ps : List Piece) : List Frame := ps.filterMap frame?

/-- The bytes of a body in which some pieces were written. -/
def body (displaySeconds : Nat) (ps : List Piece) : List UInt8 :=
  ps.flatMap fun p => Text.toUtf8 (p.chunk displaySeconds)

end Piece

/-- What a client is to be handed for a frame. -/
def dispatchedFor (displaySeconds : Nat) : Frame → Dispatched
  | .message e => ⟨"message", (Json.Value.obj (e.wire displaySeconds)).text, ""⟩
  | .sync => ⟨"sync", "", ""⟩

theorem isUnbroken_text (v : Json.Value) : Text.IsUnbroken v.text.toList := by
  rw [Json.Value.text, String.toList_ofList]
  exact Json.isUnbroken_render v

theorem toList_eventChunk (name data : String) (rest : List Char) : (eventChunk name data).toList ++ rest =
    ("event".toList ++ ':' :: ' ' :: name.toList) ++ '\n' :: (("data".toList ++ ':' :: ' ' :: data.toList) ++
      '\n' :: ([] ++ '\n' :: rest)) := by
  simp [eventChunk]

namespace EventSource

/-- An event that is written on two lines is dispatched as it was written. -/
theorem foldl_eventChunk (done : List Dispatched) {name data : String} (hne : name ≠ "")
    (hname : Text.IsUnbroken name.toList) (hdata : Text.IsUnbroken data.toList) (rest : List Char) :
    (lines ((eventChunk name data).toList ++ rest)).foldl line { dispatched := done } =
      (lines rest).foldl line { dispatched := done ++ [⟨name, data, ""⟩] } := by
  have hprefix {cs : List Char} (label : String) (hlabel : Text.IsUnbroken label.toList) (h : Text.IsUnbroken cs) :
      Text.IsUnbroken (label.toList ++ ':' :: ' ' :: cs) :=
    hlabel.append (.cons (by decide) (.cons (by decide) h))
  have hevent := hprefix "event" (by simp [Text.IsUnbroken]) hname
  have hvalue := hprefix "data" (by simp [Text.IsUnbroken]) hdata
  have hread : (({ dispatched := done } : EventSource).field "event".toList name.toList).field "data".toList data.toList =
      { name := name.toList, data := data.toList ++ ['\n'], dispatched := done } := by
    simp [field]
  have hend : ({ name := name.toList, data := data.toList ++ ['\n'], dispatched := done } : EventSource).dispatch =
      { dispatched := done ++ [⟨name, data, ""⟩] } := by
    simp [dispatch, hne]
  rw [toList_eventChunk, lines_append hevent, lines_append hvalue, lines_append .nil, List.foldl_cons, List.foldl_cons,
    List.foldl_cons, line_field _ (by simp) (by simp), line_field _ (by simp) (by simp), hread, line, if_pos rfl, hend]

theorem foldl_keepaliveChunk (s : EventSource) (hs : s.name = []) (hdata : s.data = []) (rest : List Char) :
    (lines (keepaliveChunk.toList ++ rest)).foldl line s = (lines rest).foldl line s := by
  have hchunk : keepaliveChunk.toList ++ rest = [':'] ++ '\n' :: ([] ++ '\n' :: rest) := by simp [keepaliveChunk]
  have hcomment : s.line [':'] = s := rfl
  have hblank : s.line [] = s := by
    rw [line, if_pos rfl, dispatch, if_pos hdata, ← hs]
  rw [hchunk, lines_append (by simp [Text.IsUnbroken]), lines_append .nil, List.foldl_cons, List.foldl_cons, hcomment,
    hblank]

/-- A piece that is read hands on its frame, if it has one, and leaves the reader as at the start. -/
theorem foldl_chunk (displaySeconds : Nat) (done : List Dispatched) (p : Piece) (rest : List Char) :
    (lines ((p.chunk displaySeconds).toList ++ rest)).foldl line { dispatched := done } = (lines rest).foldl line
      { dispatched := done ++ p.frame?.toList.map (dispatchedFor displaySeconds) } := by
  cases p with
  | frame f =>
    cases f with
    | message e =>
      exact foldl_eventChunk done (by decide) (by simp [Text.IsUnbroken]) (isUnbroken_text _) rest
    | sync => exact foldl_eventChunk done (by decide) (by simp [Text.IsUnbroken]) (by simp [Text.IsUnbroken]) rest
  | keepalive =>
    have hnothing : done ++ Piece.keepalive.frame?.toList.map (dispatchedFor displaySeconds) = done :=
      List.append_nil done
    rw [hnothing]
    exact foldl_keepaliveChunk _ rfl rfl rest

theorem foldl_body (displaySeconds : Nat) (ps : List Piece) (done : List Dispatched) :
    (lines (ps.flatMap fun p => (p.chunk displaySeconds).toList)).foldl line { dispatched := done } =
      { dispatched := done ++ (Piece.frames ps).map (dispatchedFor displaySeconds) } := by
  induction ps generalizing done with
  | nil => simp [Piece.frames, lines, plainBreaks, Text.splitAll]
  | cons p ps ih =>
    rw [List.flatMap_cons, foldl_chunk, ih, List.append_assoc, ← List.map_append]
    cases p <;> rfl

/-- A body does not begin with a byte order mark. -/
theorem withoutMark_body (displaySeconds : Nat) (ps : List Piece) :
    withoutMark (ps.flatMap fun p => (p.chunk displaySeconds).toList) =
      ps.flatMap fun p => (p.chunk displaySeconds).toList := by
  cases ps with
  | nil => rfl
  | cons p ps =>
    rw [List.flatMap_cons, withoutMark, if_neg]
    cases p with
    | frame f => cases f <;> simp [Piece.chunk, frameChunk, toList_eventChunk]
    | keepalive => simp [Piece.chunk, keepaliveChunk]

theorem ofBytes_body (displaySeconds : Nat) (ps : List Piece) : ofBytes (Piece.body displaySeconds ps) =
    { dispatched := (Piece.frames ps).map (dispatchedFor displaySeconds) } := by
  have hchars : Piece.body displaySeconds ps =
      (ps.flatMap fun p => (p.chunk displaySeconds).toList).flatMap String.utf8EncodeChar :=
    List.flatMap_assoc.symm
  rw [ofBytes, hchars, Text.ofUtf8Lossy_encode, withoutMark_body, foldl_body, List.nil_append]

end EventSource

namespace EventStream

/-- What is written in some reads of a stream, whatever the timer and the register are at each of them. -/
def written (settings : Settings) : List (Nat × Registry) → EventStream → List String
  | [], _ => []
  | (timer, r) :: reads, e =>
    let ((chunks, _), e, _) := e.read settings timer r
    chunks ++ written settings reads e

/-- The frames that the stream has in these reads. -/
def framesOver : List (Nat × Registry) → Stream → List Frame
  | [], _ => []
  | (_, r) :: reads, t =>
    let ((frames, _), t, _) := t.read none r
    frames ++ framesOver reads t

theorem chunks_read (settings : Settings) (timer : Nat) (e : EventStream) (r : Registry) :
    ∃ ps, (e.read settings timer r).1.1 = ps.map (Piece.chunk settings.timeseriesDisplaySecs) ∧
      Piece.frames ps = (e.stream.read none r).1.1 ∧ (e.read settings timer r).2.1.stream = (e.stream.read none r).2.1 := by
  rcases hread : e.stream.read none r with ⟨⟨frames, ended⟩, stream, r'⟩
  have hframes : Piece.frames (frames.map .frame) = frames := by
    rw [Piece.frames, List.filterMap_map]
    exact List.filterMap_some
  have hchunks : frames.map (frameChunk settings.timeseriesDisplaySecs) =
      (frames.map .frame).map (Piece.chunk settings.timeseriesDisplaySecs) := by
    rw [List.map_map]
    rfl
  unfold read
  rw [hread]
  dsimp only
  split
  · exact ⟨_, hchunks, hframes, rfl⟩
  split
  · exact ⟨_, hchunks, hframes, rfl⟩
  · next hempty =>
    obtain rfl : frames = [] := List.map_eq_nil_iff.1 (not_not.1 hempty)
    split
    · exact ⟨[.keepalive], rfl, rfl, rfl⟩
    · exact ⟨[], rfl, rfl, rfl⟩

theorem written_eq (settings : Settings) (reads : List (Nat × Registry)) (e : EventStream) :
    ∃ ps, written settings reads e = ps.map (Piece.chunk settings.timeseriesDisplaySecs) ∧
      Piece.frames ps = framesOver reads e.stream := by
  induction reads generalizing e with
  | nil => exact ⟨[], rfl, rfl⟩
  | cons read reads ih =>
    obtain ⟨timer, r⟩ := read
    obtain ⟨now, hnow, hframes, hstream⟩ := chunks_read settings timer e r
    obtain ⟨later, hlater, hrest⟩ := ih (e.read settings timer r).2.1
    refine ⟨now ++ later, ?_, ?_⟩
    · rw [List.map_append, ← hnow, ← hlater]
      rfl
    · rw [hstream] at hrest
      rw [Piece.frames, List.filterMap_append]
      exact congrArg₂ (· ++ ·) hframes hrest

end EventStream

/-- No text that is put into an event breaks its line. Whatever the frames are and wherever comments stand between
them, a reader of the body dispatches the frames, each once and in order, and nothing else. -/
theorem event_streams_are_lossless :
    (∀ (displaySeconds : Nat) (e : Event),
      '\r' ∉ (Json.Value.obj (e.wire displaySeconds)).text.toList ∧
        '\n' ∉ (Json.Value.obj (e.wire displaySeconds)).text.toList) ∧
    (∀ (displaySeconds : Nat) (ps : List Piece), EventSource.ofBytes (Piece.body displaySeconds ps) =
      { dispatched := (Piece.frames ps).map (dispatchedFor displaySeconds) }) ∧
    ∀ (settings : Settings) (reads : List (Nat × Registry)) (e : EventStream),
      EventSource.ofBytes ((EventStream.written settings reads e).flatMap Text.toUtf8) =
        { dispatched := (EventStream.framesOver reads e.stream).map (dispatchedFor settings.timeseriesDisplaySecs) } := by
  refine ⟨fun displaySeconds e => ?_, EventSource.ofBytes_body, fun settings reads e => ?_⟩
  · have hunbroken := isUnbroken_text (.obj (e.wire displaySeconds))
    exact ⟨hunbroken.not_mem (by decide), hunbroken.not_mem (by decide)⟩
  · obtain ⟨ps, hwritten, hframes⟩ := EventStream.written_eq settings reads e
    have hbody : (EventStream.written settings reads e).flatMap Text.toUtf8 =
        Piece.body settings.timeseriesDisplaySecs ps := by
      rw [hwritten, List.flatMap_map]
      rfl
    rw [hbody, EventSource.ofBytes_body, hframes]

end Http

end Tidings
