import LineSearch.Text.Segments
import LineSearch.Text.Utf8

namespace LineSearch.Lines

/-!
# Lines of a stream

A stream arrives in chunks, which may cut it anywhere. Each newline ends a line.
What follows the last newline is a line of its own when there is something of it
and the stream came to its end; a stream that broke off loses it. A carriage
return at the end of a line belongs to its ending.
-/

/-- The byte that ends a line. -/
def newline : UInt8 := 10

/-- The byte that may stand before the one that ends a line. -/
def carriageReturn : UInt8 := 13

/-- The lines that one more chunk finishes, and the line that is under way behind it. -/
def takeChunk (underWay chunk : List UInt8) : List (List UInt8) × List UInt8 :=
  match segments newline chunk with
  | [] => ([], underWay)
  | first :: rest =>
      let pieces := (underWay ++ first) :: rest
      (pieces.dropLast, pieces.getLast (List.cons_ne_nil _ _))

/-- The lines of the chunks still to come, with one line under way already. -/
def continueWith
    (brokeOff : Bool)
    (underWay : List UInt8) :
    List (List UInt8) → List (List UInt8)
  | [] => if brokeOff || underWay.isEmpty then [] else [underWay]
  | chunk :: rest =>
      let (finished, next) := takeChunk underWay chunk
      finished ++ continueWith brokeOff next rest

/-- A line without one carriage return at its end. -/
def dropCarriageReturn (line : List UInt8) : List UInt8 :=
  if line.getLast? = some carriageReturn then line.dropLast else line

/-- The lines of a stream that arrives in these chunks, without their endings. -/
def ofChunks (chunks : List (List UInt8)) (brokeOff : Bool) : List (List UInt8) :=
  (continueWith brokeOff [] chunks).map dropCarriageReturn

/-- The texts of the lines of a stream that arrives in these chunks. -/
def texts (chunks : List (List UInt8)) (brokeOff : Bool) : List String :=
  (ofChunks chunks brokeOff).map Utf8.decode

end LineSearch.Lines
