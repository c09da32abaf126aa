import PowerLift.Graph.Basic
import PowerLift.Text.Json

/-!
The graph as JSON, for other tools.
-/

namespace PowerLift

open Text (Json)

namespace Json

def word (value : UInt32) : Json :=
  .number value.toNat

def optional (encode : α → Json) : Option α → Json
  | some value => encode value
  | none => .null

end Json

namespace Span

def toJson (span : Span) : Json :=
  .object [("start", Json.word span.start), ("end", Json.word span.stop)]

end Span

namespace Call

def toJson (call : Call) : Json :=
  .object [
    ("site", Json.word call.site),
    ("target", Json.optional Json.word call.target),
    ("is_tail_call", .boolean call.isTail)]

end Call

namespace JumpTable

def toJson (table : JumpTable) : Json :=
  .object [
    ("address", Json.word table.address),
    ("table_base", Json.optional Json.word table.base),
    ("index_register", .number table.register),
    ("targets", .array (table.targets.map Json.word)),
    ("source", .string (match table.source with
      | .configured => "Configured"
      | .recognized => "Recognized"))]

end JumpTable

namespace FunctionNode

def toJson (node : FunctionNode) : Json :=
  .object [
    ("address", Json.word node.address),
    ("size", Json.word node.size),
    ("authority", .string (match node.authority with
      | .discovered => "Discovered"
      | .configured => "Configured")),
    ("blocks", .array (node.blocks.map Span.toJson)),
    ("calls", .array (node.calls.map Call.toJson)),
    ("jump_tables", .object (node.jumpTables.map fun table =>
      (toString table.address.toNat, table.toJson))),
    ("unresolved_jumps", .array (node.unresolvedJumps.map Json.word)),
    ("name", Json.optional .string node.name),
    ("parent", Json.optional Json.word node.parent)]

end FunctionNode

namespace Graph

def toJson (graph : Graph) : String :=
  Json.render 0 (.object [("functions", .object (graph.nodes.map fun node =>
    (toString node.address.toNat, node.toJson)))])

end Graph

end PowerLift
