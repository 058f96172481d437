import TileGrid.Shape.Basic

/-!
What a run reports as it goes, and the line that each report is printed as.
-/

namespace TileGrid

/-- What a run reports (`GridTraceEvent`). -/
inductive Event where
  | start (domain nominal counts : Shape)
  | tile (id offset : Index) (shape : Shape)
  | finish (tiles : Number)
  | abort (id : Index) (tiles : Number) (reason : String)

/-- The line that a driver prints an event as. -/
def Event.line : Event → String
  | start domain nominal counts =>
    s!"[grid] launch global={domain.text} local={nominal.text} groups={counts.text}"
  | tile id offset shape =>
    s!"[grid] tile id={Shape.text id} offset={Shape.text offset} shape={shape.text}"
  | finish tiles => s!"[grid] finish tiles={tiles.text}"
  | abort id tiles reason =>
    s!"[grid] abort at {Shape.text id} after {tiles.text} tiles: {reason}"

/-- An entry of a trace. -/
inductive Entry where
  | event (e : Event)
  /-- What a caller put in, field by field. -/
  | given (fields : List (String × Number))
  /-- What a caller put in the place of an event. -/
  | value (v : Number)

end TileGrid
