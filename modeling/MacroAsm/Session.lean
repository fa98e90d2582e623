import MacroAsm.Lowering.Source

/-!
# Sessions

A session holds a list of nodes and a supply of temporaries, and applies one step after the other to
them.  A step that fails leaves the nodes as they were; temporaries it took before it failed stay
taken.

## Main definitions

* `Session` — the nodes and the supply.
* `Session.Step`, `Session.Reply` — what can be asked, and what is answered.
* `Session.step` — one step.
* `Session.replay` — the answers and states of a list of steps.
-/

namespace MacroAsm

/-- A list of nodes and a supply of temporaries. -/
structure Session where
  nodes : List Node
  supply : Supply
deriving DecidableEq, Repr

namespace Session

/-- A session with no nodes and a full supply. -/
def empty : Session := ⟨[], .above none⟩

/-- What can be asked of a session. -/
inductive Step where
  /-- Replace the nodes by those of a text, and start a supply above its temporaries. -/
  | load (file text : String)
  /-- Add the nodes of a text and keep the supply. -/
  | append (file text : String)
  /-- Add a node. -/
  | push (node : Node)
  /-- Drop all nodes. -/
  | clear
  /-- Start a supply above a number. -/
  | restart (highest : Option UInt32)
  /-- Take a temporary. -/
  | take (bank : RegisterClass) (origin : Origin)
  /-- Run one pass. -/
  | pass (p : Pass)
  /-- Run a pipeline. -/
  | pipeline (passes : Pipeline)
  /-- Print the nodes and load what was printed. -/
  | reread (file : String)
deriving DecidableEq, Repr

/-- What a session answers. -/
inductive Reply where
  | done
  | highest (id : Option UInt32)
  | taken (t : Temporary)
  | reread (same : Bool)
  | failed (e : SourceError)
deriving DecidableEq, Repr

/-- Reads a text and goes on with its nodes; a text that cannot be read changes nothing. -/
def withText (s : Session) (file text : String) (next : List Node → Session × Reply) :
    Session × Reply :=
  match Listing.read file text with
  | .ok nodes => next nodes
  | .error e => (s, .failed (.read e))

/-- Runs a lowering over the nodes; when it fails, the nodes stay and the supply does not. -/
def withLowering (s : Session) (lowering : List Node → LowerM (List Node)) : Session × Reply :=
  match (lowering s.nodes).runFrom s.supply with
  | (.ok nodes, supply) => (⟨nodes, supply⟩, .done)
  | (.error e, supply) => (⟨s.nodes, supply⟩, .failed (.lower e))

/-- One step of a session. -/
def step (s : Session) : Step → Session × Reply
  | .load file text =>
    s.withText file text fun nodes => (⟨nodes, .above (Node.maxTemporary nodes)⟩, .done)
  | .append file text =>
    s.withText file text fun nodes =>
      (⟨s.nodes ++ nodes, s.supply⟩, .highest (Node.maxTemporary nodes))
  | .push node => (⟨s.nodes ++ [node], s.supply⟩, .done)
  | .clear => (⟨[], s.supply⟩, .done)
  | .restart highest => (⟨s.nodes, .above highest⟩, .done)
  | .take bank origin =>
    match (fresh bank origin).runFrom s.supply with
    | (.ok t, supply) => (⟨s.nodes, supply⟩, .taken t)
    | (.error e, supply) => (⟨s.nodes, supply⟩, .failed (.lower e))
  | .pass p => s.withLowering p.run
  | .pipeline passes => s.withLowering passes.run
  | .reread file =>
    s.withText file (Node.print s.nodes) fun nodes =>
      (⟨nodes, .above (Node.maxTemporary nodes)⟩, .reread (nodes == s.nodes))

/-- The states after each of a list of steps, with the replies. -/
def replay (s : Session) : List Step → List (Session × Reply)
  | [] => []
  | step :: steps =>
    let after := s.step step
    after :: replay after.1 steps

end Session

end MacroAsm
