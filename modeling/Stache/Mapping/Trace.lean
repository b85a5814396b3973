/-
  Tracing generated code to the template it came from.

  Each traced chunk of the output gives one SEGMENT, which says where the chunk begins in the output
  and where it came from. All four numbers of a segment count from zero, lines as well, and are kept
  in 32 bits. The segments of a row of chunks are found by walking over the chunks with a position
  (`segmentsFrom`); their text gives each number as the difference to the one before, with the column
  in the output starting over on every line.

  The layout of the document and the way its mappings are written are those of a library for source
  maps, revision 3 of the format. It is ASSUMED of that library that it writes the segments as they
  are handed to it, in order of their places in the output, each with four numbers.
-/
import Stache.Mapping.Vlq
import Stache.Script.Write

namespace Stache.Mapping

/-- Where a chunk begins in the output, and where it came from. -/
structure Segment where
  line : Nat
  column : Nat
  sourceLine : Nat
  sourceColumn : Nat
deriving DecidableEq, Repr

/-- Traces the place `place` in the output to what is reported of `origin`. The counters that go
    along with the output are of 32 bits, too. -/
def Segment.ofPositions (place origin : Position) : Segment :=
  ⟨(place.line - 1).toUInt32.toNat, place.column.toUInt32.toNat, origin.reported.line - 1,
    origin.reported.column⟩

/-- The segments of chunks that begin at `place` in the output. -/
def segmentsFrom (place : Position) : List Script.Chunk → List Segment
  | [] => []
  | chunk :: rest =>
    (chunk.origin.map (Segment.ofPositions place)).toList
      ++ segmentsFrom (place.advance chunk.text.toList) rest

/-- The segments of a whole text, which begins where all counting begins. -/
def segments (chunks : List Script.Chunk) : List Segment := segmentsFrom .origin chunks

/-- The text of segments that follow `last` in the output. -/
def encodeFrom (last : Segment) : List Segment → List Char
  | [] => []
  | s :: rest =>
    let newLines := s.line - last.line
    let separators := if newLines = 0 then [','] else List.replicate newLines ';'
    let column := if newLines = 0 then last.column else 0
    separators ++ encodeSegment column last s ++ encodeFrom s rest
where
  /-- The four numbers of a segment: column, file, and line and column in the file. There is only
      one file. -/
  encodeSegment (column : Nat) (last s : Segment) : List Char :=
    vlq (s.column - column : Int) ++ vlq 0 ++ vlq (s.sourceLine - last.sourceLine : Int)
      ++ vlq (s.sourceColumn - last.sourceColumn : Int)

/-- The text of all segments of an output. -/
def encode : List Segment → String
  | [] => ""
  | s :: rest =>
    let zero : Segment := ⟨0, 0, 0, 0⟩
    String.ofList
      (List.replicate s.line ';' ++ encodeFrom.encodeSegment 0 zero s ++ encodeFrom s rest)

/-- The text of the source map of generated code. -/
def render (source : String) (dest : Option String) (chunks : List Script.Chunk) : String :=
  Text.braces
    ([Text.field "version" "3"]
      ++ (dest.map fun file => Text.field "file" (Text.jsonQuoted file)).toList
      ++ [Text.field "sources" (Text.brackets [Text.jsonQuoted source]), Text.field "names" "[]",
        Text.field "mappings" (Text.jsonQuoted (encode (segments chunks)))])

end Stache.Mapping
