import MacroAsm.Lowering.Error

/-!
# The supply of temporaries

Lowering takes fresh temporaries from a supply that hands out consecutive numbers and never the
same one twice.  There are `2 ^ 32` numbers; once the last one is taken, every further request
fails and changes nothing.

Lowering runs in `LowerM`, where a failure keeps the supply as it was when it happened, so that what
was taken before the failure stays taken.

## Main definitions

* `Supply` — the numbers that are left, and how many were handed out.
* `Supply.above` — the supply of the numbers above a given one.
* `fresh` — take a temporary.
-/

namespace MacroAsm

/-- How many temporaries can be told apart. -/
def Supply.capacity : Nat := UInt32.size

/-- A supply of consecutive numbers: the numbers from `next` up to the capacity are left. -/
structure Supply where
  next : Nat
  allocated : Nat
  next_le : next ≤ Supply.capacity
deriving DecidableEq, Repr

namespace Supply

/-- The supply of all numbers above `m`, and of all numbers when there is no such bound. -/
def above : Option UInt32 → Supply
  | none => ⟨0, 0, by decide⟩
  | some m => ⟨m.toNat + 1, 0, m.toNat_lt⟩

/-- The number that will be handed out next, unless the supply is exhausted. -/
def nextId? (s : Supply) : Option UInt32 :=
  if s.next < capacity then some (UInt32.ofNat s.next) else none

/-- The supply after one more number is handed out. -/
def advance (s : Supply) (h : s.next < capacity) : Supply :=
  ⟨s.next + 1, s.allocated + 1, h⟩

@[simp] theorem next_above_none : (above none).next = 0 := rfl

@[simp] theorem next_above_some (m : UInt32) : (above (some m)).next = m.toNat + 1 := rfl

@[simp] theorem allocated_above (m : Option UInt32) : (above m).allocated = 0 := by
  cases m <;> rfl

end Supply

/-- Computations that take temporaries and may fail; a failure keeps the supply it happened at. -/
abbrev LowerM := ExceptT LowerError (StateM Supply)

namespace LowerM

variable {α β : Type}

/-- Runs a computation from a supply, to its outcome and the supply that is left. -/
def runFrom (m : LowerM α) (s : Supply) : Except LowerError α × Supply :=
  m.run.run s

@[simp] theorem runFrom_pure (a : α) (s : Supply) : runFrom (pure a) s = (.ok a, s) := rfl

@[simp] theorem runFrom_throw (e : LowerError) (s : Supply) :
    runFrom (throw e : LowerM α) s = (.error e, s) := rfl

/-- A sequence goes on from where its first part left the supply, unless that part failed. -/
theorem runFrom_bind (m : LowerM α) (f : α → LowerM β) (s : Supply) :
    runFrom (m >>= f) s =
      match runFrom m s with
      | (.ok a, after) => runFrom (f a) after
      | (.error e, after) => (.error e, after) := by
  simp only [runFrom, ExceptT.run_bind, StateT.run_bind]
  generalize m.run.run s = result
  rcases result with ⟨e | a, after⟩ <;> rfl

end LowerM

/-- Takes a temporary of class `bank` for the instruction at `origin`. -/
def fresh (bank : RegisterClass) (origin : Origin) : LowerM Temporary := do
  let s ← get
  if h : s.next < Supply.capacity then
    set (s.advance h)
    return ⟨UInt32.ofNat s.next, bank, origin⟩
  else
    throw (.exhausted origin)

/-- A request succeeds as long as the supply is not exhausted. -/
theorem runFrom_fresh (bank : RegisterClass) (origin : Origin) (s : Supply) :
    (fresh bank origin).runFrom s =
      if h : s.next < Supply.capacity then
        (.ok ⟨UInt32.ofNat s.next, bank, origin⟩, s.advance h)
      else
        (.error (.exhausted origin), s) := by
  unfold fresh
  rw [LowerM.runFrom_bind]
  change LowerM.runFrom (if h : s.next < Supply.capacity then _ else _) s = _
  split <;> rfl

end MacroAsm
