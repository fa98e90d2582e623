import MacroAsm.Log.Event
import MacroAsm.Lowering.Source

/-!
# What lowering reports

The events of a run of passes, read off the run itself: a pass reports every instruction it
replaced, up to the failure if there is one, and reports itself when it is through.

## Main definitions

* `ofPass`, `ofPipeline` — the events of a pass and of a pipeline.
* `ofSource` — the events of lowering a text.
-/

namespace MacroAsm.Log

/-- The replacements of a pass over a list of nodes, up to the first failure. -/
def replacements (p : Pass) : List Node → Supply → List Event
  | [], _ => []
  | node :: nodes, supply =>
    match (p.expandNode node).runFrom supply with
    | (.error _, _) => []
    | (.ok expanded, after) =>
      match node with
      | .instruction i =>
        if p.handles i.opcode then
          .replaced p i expanded.length :: replacements p nodes after
        else
          replacements p nodes after
      | _ => replacements p nodes after

/-- The events of a pass. -/
def ofPass (p : Pass) (nodes : List Node) (supply : Supply) : List Event :=
  let replaced := replacements p nodes supply
  match (p.run nodes).runFrom supply with
  | (.error _, _) => replaced
  | (.ok _, after) =>
    let taken := after.allocated - supply.allocated
    replaced ++ [.passFinished p nodes.length replaced.length taken]

/-- The events of passes that run one after the other. -/
def ofPasses : Pipeline → List Node → Supply → List Event
  | [], _, _ => []
  | pass :: passes, nodes, supply =>
    ofPass pass nodes supply ++
      match (pass.run nodes).runFrom supply with
      | (.error _, _) => []
      | (.ok lowered, after) => ofPasses passes lowered after

/-- The events of a pipeline; an empty one reports nothing. -/
def ofPipeline (passes : Pipeline) (nodes : List Node) (supply : Supply) : List Event :=
  if passes.isEmpty then
    []
  else
    ofPasses passes nodes supply ++
      match (passes.run nodes).runFrom supply with
      | (.error _, _) => []
      | (.ok lowered, _) => [.pipelineFinished passes.length nodes.length lowered.length]

/-- The events of lowering a text. -/
def ofSource (passes : Pipeline) (file text : String) : List Event :=
  match Listing.read file text with
  | .error _ => []
  | .ok nodes =>
    let supply := Supply.above (Node.maxTemporary nodes)
    .parsed file nodes.length :: ofPipeline passes nodes supply ++
      match lowerNodes passes nodes with
      | (.error _, _) => []
      | (.ok _, after) => [.lowered file after.allocated]

end MacroAsm.Log
