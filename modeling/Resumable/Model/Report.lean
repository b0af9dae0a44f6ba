import Resumable.Instrument
import Resumable.Json.Basic

/-!
# Reports as JSON

What was found in the methods of a program, and what became of its classes.

* `ClassReport.listToJson` : the report of a run over a program;
* `Analysis.toJson` : the report of one method, with its frames if they are asked for.
-/

namespace Resumable

/-- a category by the name of its sort; a reference carries its type -/
def Category.toJson : Category → Json
  | .empty => .obj [("t", .str "Uninitialized")]
  | .int => .obj [("t", .str "Int")]
  | .long => .obj [("t", .str "Long")]
  | .float => .obj [("t", .str "Float")]
  | .double => .obj [("t", .str "Double")]
  | .null => .obj [("t", .str "Null")]
  | .ref t => .obj [("t", .str "Reference"), ("v", .str t)]
  | .returnAddress => .obj [("t", .str "ReturnAddress")]

/-- a frame, its stack from the bottom up -/
def Frame.toJson (f : Frame) : Json :=
  .obj [("locals", .arr (f.locals.map Category.toJson)),
    ("stack", .arr (f.stack.reverse.map Category.toJson))]

/-- the members of a method's report -/
def MethodReport.members (r : MethodReport) : List (String × Json) :=
  [("method", .str r.method), ("restore_point_calls", .ofNat r.calls),
    ("restore_points", .strings r.restorePoints), ("unpatchable", .strings r.unpatchable),
    ("root_entry", .bool r.rootEntry)]

def MethodReport.toJson (r : MethodReport) : Json := .obj r.members

/-- the report of a class; an error is left out where there is none -/
def ClassReport.toJson (r : ClassReport) : Json :=
  .obj ([("name", .str r.name), ("modified", .bool r.modified),
      ("methods", .arr (r.methods.map MethodReport.toJson))] ++
    (match r.error with
      | some e => [("error", .str e)]
      | none => []))

/-- the report of a run over a program -/
def ClassReport.listToJson (rs : List ClassReport) : Json :=
  .obj [("classes", .arr (rs.map ClassReport.toJson))]

/-- the frame before an instruction; an unreachable one has none -/
def Frame.optionToJson : Option Frame → Json
  | some f => f.toJson
  | none => .null

/-- the report of one method, followed by its frames if they are asked for -/
def Analysis.toJson (a : Analysis) (withFrames : Bool) : Json :=
  .obj ((MethodReport.ofAnalysis a).members ++
    (if withFrames then [("frames", .arr (a.frames.map Frame.optionToJson))] else []))

end Resumable
