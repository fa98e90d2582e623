import MacroAsm.Proofs.Lowering.Requests
import MacroAsm.Session
import Mathlib.Data.List.Forall2

/-!
# The supply of a session

The steps of a session are of three kinds: some start a new supply, some use the one that is there,
and the others leave it alone.  A ledger beside the session writes down the number above which the
supply was started, and its uses since then.  It tells the supply of the session at every point of a
replay, so what is known of a sequence of uses is known of every session.

## Main definitions

* `Session.Step.start?`, `Session.Step.use?` — the supply that a step starts, and the use it makes
  of the one that is there.
* `Session.Ledger` — where a supply started, and its uses.
* `Session.ledgers` — the ledgers beside a replay.
* `Session.Ledger.Tells` — what a ledger says of a supply.

## Main statements

* `Session.supply_step` — what a step does to the supply.
* `Session.replay_accounts` — the ledger accounts for the supply at every point of a replay.
* `Session.step_of_exhausted` — once the numbers are used up, a step that needs one changes nothing.
-/

namespace MacroAsm

namespace Session

/-- The number above which a step starts a supply, if it starts one. -/
def Step.start? (nodes : List Node) : Step → Option (Option UInt32)
  | load file text => (Listing.read file text).toOption.map Node.maxTemporary
  | restart highest => some highest
  | reread file => (Listing.read file (Node.print nodes)).toOption.map Node.maxTemporary
  | _ => none

/-- The use that a step makes of the supply, if it makes one. -/
def Step.use? (nodes : List Node) : Step → Option Use
  | take bank origin => some (.take bank origin)
  | pass p => some (.pass p nodes)
  | pipeline ps => some (.pipeline ps nodes)
  | _ => none

/-- The number above which a supply was started, and its uses since then. -/
structure Ledger where
  start : Option UInt32
  uses : List Use
deriving DecidableEq, Repr

namespace Ledger

/-- The supply that the uses left. -/
def supply (l : Ledger) : Supply :=
  Use.afterAll l.uses (.above l.start)

/-- The ledger after a step on the given nodes. -/
def enter (l : Ledger) (nodes : List Node) (step : Step) : Ledger :=
  match step.start? nodes with
  | some start => ⟨start, []⟩
  | none => ⟨l.start, l.uses ++ (step.use? nodes).toList⟩

end Ledger

/-- The ledgers after each of a list of steps. -/
def ledgers (s : Session) (l : Ledger) : List Step → List Ledger
  | [] => []
  | step :: steps =>
    let after := l.enter s.nodes step
    after :: ledgers (s.step step).1 after steps

/-! ## One step -/

variable {s : Session} {step : Step} {u : Use}

/-- A computation whose value is dropped ends as the computation does. -/
theorem runFrom_dropped {α : Type} {m : LowerM α} {supply supply' : Supply}
    {outcome : Except LowerError Unit}
    (h : LowerM.runFrom (do let _ ← m) supply = (outcome, supply')) :
    (∃ a, m.runFrom supply = (.ok a, supply') ∧ outcome = .ok ()) ∨
      ∃ e, m.runFrom supply = (.error e, supply') ∧ outcome = .error e := by
  rw [LowerM.runFrom_bind] at h
  rcases hrun : m.runFrom supply with ⟨e | a, left⟩
  · rw [hrun] at h
    obtain ⟨rfl, rfl⟩ := Prod.mk.inj h
    exact .inr ⟨e, rfl, rfl⟩
  · rw [hrun] at h
    obtain ⟨rfl, rfl⟩ := Prod.mk.inj h
    exact .inl ⟨a, rfl, rfl⟩

/-- A lowering of the nodes leaves the supply that its run leaves, and a failure keeps the nodes. -/
theorem withLowering_of_runFrom {lowering : List Node → LowerM (List Node)}
    {outcome : Except LowerError Unit} {supply : Supply}
    (h : LowerM.runFrom (do let _ ← lowering s.nodes) s.supply = (outcome, supply)) :
    (s.withLowering lowering).1.supply = supply ∧
      ∀ e, outcome = .error e →
        s.withLowering lowering = (⟨s.nodes, supply⟩, .failed (.lower e)) := by
  rcases runFrom_dropped h with ⟨nodes, hrun, rfl⟩ | ⟨e, hrun, rfl⟩
  · simp [withLowering, hrun]
  · simp [withLowering, hrun]

/-- A step that uses the supply leaves what the use leaves, and a failure keeps the nodes. -/
theorem step_of_use (h : step.use? s.nodes = some u) {outcome : Except LowerError Unit}
    {supply : Supply} (hrun : u.perform.runFrom s.supply = (outcome, supply)) :
    (s.step step).1.supply = supply ∧
      ∀ e, outcome = .error e → s.step step = (⟨s.nodes, supply⟩, .failed (.lower e)) := by
  cases step with
  | take bank origin =>
      obtain rfl := Option.some.inj h
      rcases runFrom_dropped hrun with ⟨t, hfresh, rfl⟩ | ⟨e, hfresh, rfl⟩
      · simp [Session.step, hfresh]
      · simp [Session.step, hfresh]
  | pass p =>
      obtain rfl := Option.some.inj h
      exact withLowering_of_runFrom hrun
  | pipeline ps =>
      obtain rfl := Option.some.inj h
      exact withLowering_of_runFrom hrun
  | load | append | push | clear | restart | reread => contradiction

/-- A step starts a supply, or uses the one that is there, or leaves it alone. -/
theorem supply_step (s : Session) (step : Step) :
    (s.step step).1.supply =
      match step.start? s.nodes with
      | some start => .above start
      | none => Use.afterAll (step.use? s.nodes).toList s.supply := by
  have huse : ∀ u, step.use? s.nodes = some u →
      (s.step step).1.supply = (u.perform.runFrom s.supply).2 :=
    fun u hu => (step_of_use hu rfl).1
  cases step with
  -- a text that cannot be read starts no supply
  | load file text =>
      simp only [Session.step, withText, Step.start?]
      cases Listing.read file text <;> rfl
  | append file text =>
      simp only [Session.step, withText]
      cases Listing.read file text <;> rfl
  | reread file =>
      simp only [Session.step, withText, Step.start?]
      cases Listing.read file (Node.print s.nodes) <;> rfl
  | take | pass | pipeline => exact huse _ rfl
  | push | clear | restart => rfl

theorem Ledger.supply_enter {l : Ledger} (h : s.supply = l.supply) (step : Step) :
    (s.step step).1.supply = (l.enter s.nodes step).supply := by
  rw [supply_step, Ledger.enter]
  cases step.start? s.nodes with
  | some start => rfl
  | none => simp only [h, Ledger.supply, Use.afterAll, List.foldl_append]

/-- Once the numbers of a session are used up, a step that asks for a temporary fails at the origin
that asks, and changes nothing. -/
theorem step_of_exhausted (hs : s.supply.nextId? = none) (hu : step.use? s.nodes = some u)
    {rs : List Request} {result : Except LowerError Unit × Supply}
    (hasks : u.perform.Asks s.supply rs result) {r : Request} (hr : r ∈ rs) :
    s.step step = (s, .failed (.lower (.exhausted r.origin))) := by
  obtain ⟨hsame, hfail⟩ := hasks.answers.of_exhausted hs
  have herror := hasks.failed_of_mem hr (hfail r hr).2.1
  have hstep := (step_of_use hu hasks.runFrom_eq).2 _ herror
  rw [hsame] at hstep
  exact hstep

/-! ## A replay -/

/-- What a ledger says of a supply: it is the one that the uses left, and the requests of these uses
account for its state. -/
structure Ledger.Tells (l : Ledger) (supply : Supply) : Prop where
  supply_eq : supply = l.supply
  accounts : ∃ rss, Use.AskAll l.uses (.above l.start) rss supply ∧
    supply.Accounts l.start rss.flatten

theorem Ledger.tells_supply (l : Ledger) : l.Tells l.supply := by
  obtain ⟨rss, hrss⟩ := Use.exists_askAll l.uses (.above l.start)
  exact ⟨rfl, rss, hrss, hrss.answers.accounts⟩

/-- **The supply of a session.**  Beside any steps of a session whose supply a ledger tells, the
ledgers tell the supply at every point: above which number it was started, to what it was put since,
and so which numbers were handed out and which are left. -/
theorem replay_accounts {l : Ledger} (h : s.supply = l.supply) (steps : List Step) :
    List.Forall₂ (fun after ledger => ledger.Tells after.1.supply) (s.replay steps)
      (s.ledgers l steps) := by
  -- the ledger changes along with the session, so both are general in the induction
  induction steps generalizing s l with
  | nil => exact .nil
  | cons step steps ih =>
      have hstep := Ledger.supply_enter h step
      refine .cons ?_ (ih hstep)
      rw [hstep]
      exact Ledger.tells_supply _

/-- A session starts with a ledger that has no uses. -/
theorem replay_empty_accounts (steps : List Step) :
    List.Forall₂ (fun after ledger => ledger.Tells after.1.supply) (empty.replay steps)
      (empty.ledgers ⟨none, []⟩ steps) :=
  replay_accounts rfl steps

end Session

end MacroAsm
