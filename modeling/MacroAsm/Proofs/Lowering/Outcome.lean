import MacroAsm.Proofs.Lowering.Residue
import Mathlib.Data.List.Basic

/-!
# How a run ends

A pass sees what the passes before it left, but what it has to replace can be read off the listing
at the start: the agenda of a run is the list of macro instructions in the order in which they are
replaced.  A run goes through its agenda, each instruction taking its temporaries from the supply,
and ends at the first one that has a wrong number of operands or asks for more than is left.

## Main definitions

* `Supply.left`, `Supply.drain` — what is left of a supply, and the supply when all of it is taken.
* `Pass.arity` — the numbers of operands that a family takes.
* `Pipeline.agenda` — the instructions that a run replaces, in order.
* `Pipeline.settle` — the end of a run through an agenda.

## Main statements

* `Pass.runFrom_expand_of_not_accepts`, `Pass.runFrom_expand_of_exhausted` — how replacing one
  instruction fails.
* `Pipeline.outcome_run` — a run ends as its agenda does.
* `Pipeline.outcome_of_run` — the exact outcome of a run.
-/

namespace MacroAsm

/-! ## What is left of a supply -/

namespace Supply

variable {s : Supply}

/-- How many numbers are left. -/
def left (s : Supply) : Nat :=
  capacity - s.next

theorem le_left_iff {n : Nat} : n ≤ s.left ↔ s.next + n ≤ capacity := by
  have := s.next_le
  unfold left
  omega

/-- The supply after all that is left is handed out. -/
def drain (s : Supply) : Supply :=
  s.skip s.left (le_left_iff.mp (Nat.le_refl _))

theorem skip_skip {m n : Nat} (hm : s.next + m ≤ capacity)
    (hn : (s.skip m hm).next + n ≤ capacity) :
    (s.skip m hm).skip n hn = s.skip (m + n) (by rw [next_skip] at hn; omega) := by
  simp [skip, Nat.add_assoc]

/-- Taking numbers up to the capacity takes all of them. -/
theorem skip_eq_drain {n : Nat} (h : s.next + n = capacity) :
    s.skip n (Nat.le_of_eq h) = s.drain := by
  have hn : n = s.left := by
    unfold left
    omega
  subst hn
  rfl

theorem drain_skip {n : Nat} (h : s.next + n ≤ capacity) : (s.skip n h).drain = s.drain := by
  have hleft : (s.skip n h).next + (s.skip n h).left = capacity := by
    rw [left, next_skip]
    omega
  rw [drain, skip_skip]
  refine skip_eq_drain ?_
  rw [next_skip] at hleft
  omega

end Supply

namespace LowerM

variable {α β : Type} {s : Supply}

theorem runFrom_fresh_of_lt (bank : RegisterClass) (origin : Origin)
    (h : s.next + 1 ≤ Supply.capacity) :
    (fresh bank origin).runFrom s = (.ok ⟨s.upcoming 0, bank, origin⟩, s.skip 1 h) :=
  runFrom_fresh_eq_ok.mpr ⟨h, rfl, rfl⟩

theorem runFrom_fresh_of_eq (bank : RegisterClass) (origin : Origin)
    (h : s.next = Supply.capacity) :
    (fresh bank origin).runFrom s = (.error (.exhausted origin), s.drain) := by
  have hdrain : s.skip 0 (Nat.le_of_eq h) = s.drain := Supply.skip_eq_drain (n := 0) h
  rw [runFrom_fresh, dif_neg (by omega), ← hdrain, Supply.skip_zero]

/-- How a computation ends: its failure, if there is one, and the supply that is left. -/
def outcome (result : Except LowerError α × Supply) : Option LowerError × Supply :=
  match result with
  | (.ok _, after) => (none, after)
  | (.error e, after) => (some e, after)

theorem outcome_eq_none {result : Except LowerError α × Supply} :
    outcome result = (none, s) ↔ ∃ a, result = (.ok a, s) := by
  rcases result with ⟨e | a, after⟩ <;> simp [outcome]

theorem outcome_eq_some {result : Except LowerError α × Supply} {e : LowerError} :
    outcome result = (some e, s) ↔ result = (.error e, s) := by
  rcases result with ⟨e' | a, after⟩ <;> simp [outcome]

/-- What is made of the value of a computation does not change how it ends. -/
theorem outcome_bind_pure (m : LowerM α) (f : α → β) (s : Supply) :
    outcome (runFrom (m >>= fun a => pure (f a)) s) = outcome (runFrom m s) := by
  rw [runFrom_bind]
  rcases runFrom m s with ⟨e | a, after⟩ <;> rfl

end LowerM

/-! ## How replacing one instruction fails -/

namespace Pass

/-- The numbers of operands that the instructions of a family take. -/
def arity : Pass → Arity
  | not => .exactly 1
  | mulOverflow => .exactly 3
  | bitTest => .either 2 3

variable {p : Pass} {i : Instruction} {s : Supply}

theorem cases_of_handles {o : Opcode} (hp : p.handles o = true) :
    (∃ width, p = not ∧ o = .not width) ∨ (p = mulOverflow ∧ o = .branchMulOverflow) ∨
      ∃ form width condition, p = bitTest ∧ o = .bitTest form width condition := by
  unfold handles at hp
  split at hp <;> simp_all

theorem expandable_iff_accepts (hp : p.handles i.opcode = true) :
    i.Expandable ↔ p.arity.accepts i.operands.length = true := by
  obtain ⟨opcode, operands, origin⟩ := i
  rcases cases_of_handles hp with
    ⟨width, rfl, rfl⟩ | ⟨rfl, rfl⟩ | ⟨form, width, condition, rfl, rfl⟩
  · simp only [arity, Arity.accepts, beq_iff_eq, List.length_eq_one_iff]
    constructor
    · rintro ⟨⟩
      exact ⟨_, rfl⟩
    · rintro ⟨x, rfl⟩
      exact .not width x origin
  · simp only [arity, Arity.accepts, beq_iff_eq, List.length_eq_three]
    constructor
    · rintro ⟨⟩
      exact ⟨_, _, _, rfl⟩
    · rintro ⟨a, b, target, rfl⟩
      exact .mulOverflow a b target origin
  · simp only [arity, Arity.accepts, Bool.or_eq_true, beq_iff_eq, List.length_eq_two,
      List.length_eq_three]
    constructor
    · rintro (⟨⟩ | ⟨⟩)
      · exact .inl ⟨_, _, rfl⟩
      · exact .inr ⟨_, _, _, rfl⟩
    · rintro (⟨value, target, rfl⟩ | ⟨left, right, target, rfl⟩)
      · exact .testOne form width condition value target origin
      · exact .testTwo form width condition left right target origin

/-- A wrong number of operands is found before anything is taken. -/
theorem runFrom_expand_of_not_accepts (hp : p.handles i.opcode = true)
    (hcount : p.arity.accepts i.operands.length = false) :
    (p.expand i).runFrom s = (.error (i.malformed p.arity), s) := by
  have hi : ¬i.Expandable := by simp [expandable_iff_accepts hp, hcount]
  obtain ⟨opcode, operands, origin⟩ := i
  rcases cases_of_handles hp with
    ⟨width, rfl, rfl⟩ | ⟨rfl, rfl⟩ | ⟨form, width, condition, rfl, rfl⟩
  · simp only [expand, Instruction.expandNot]
    split
    · exact absurd (.not ..) hi
    · rfl
  · simp only [expand, Instruction.expandMulOverflow]
    split
    · exact absurd (.mulOverflow ..) hi
    · rfl
  · simp only [expand, Instruction.expandBitTest]
    split
    · exact absurd (.testOne ..) hi
    · exact absurd (.testTwo ..) hi
    · rfl

/-- Asking for more temporaries than are left takes what is left. -/
theorem runFrom_expand_of_exhausted (hp : p.handles i.opcode = true) (hi : i.Expandable)
    (hfull : Supply.capacity < s.next + i.demand) :
    (p.expand i).runFrom s = (.error (.exhausted i.origin), s.drain) := by
  have hle := s.next_le
  cases hi with
  | not width x origin =>
      simp only [Instruction.demand] at hfull
      omega
  | mulOverflow a b target origin =>
      rw [eq_of_handles hp (q := mulOverflow) rfl]
      simp only [Instruction.demand] at hfull
      simp only [expand, Instruction.expandMulOverflow, LowerM.runFrom_bind]
      by_cases hnext : s.next = Supply.capacity
      · rw [LowerM.runFrom_fresh_of_eq _ _ hnext]
      · -- one temporary is left: it is taken, and the second request fails
        have hone : s.next + 1 = Supply.capacity := by omega
        rw [LowerM.runFrom_fresh_of_lt _ _ (Nat.le_of_eq hone)]
        simp only
        rw [LowerM.runFrom_fresh_of_eq _ _ (by rw [Supply.next_skip, hone]), Supply.drain_skip]
  | testOne form width condition value target origin =>
      simp only [Instruction.demand] at hfull
      omega
  | testTwo form width condition left right target origin =>
      rw [eq_of_handles hp (q := bitTest) rfl]
      simp only [Instruction.demand] at hfull
      split at hfull
      · omega
      · rename_i hmask
        have hnext : s.next = Supply.capacity := by omega
        simp only [Bool.or_eq_true, not_or] at hmask
        simp only [expand, Instruction.expandBitTest, hmask, Bool.false_eq_true, if_false,
          LowerM.runFrom_bind]
        rw [LowerM.runFrom_fresh_of_eq _ _ hnext]

end Pass

/-! ## Agendas -/

namespace Pipeline

/-- The instructions that a run replaces, each with the pass that replaces it, in the order in which
they are replaced.  A pass that runs again finds nothing. -/
def agenda (ps : Pipeline) (nodes : List Node) : List (Pass × Instruction) :=
  ps.eraseDups.flatMap fun p => (p.pending nodes).map (p, ·)

/-- An entry of an agenda with a right number of operands. -/
def accepted (entry : Pass × Instruction) : Bool :=
  entry.1.arity.accepts entry.2.operands.length

/-- How many temporaries the entries of an agenda take together. -/
def totalDemand (entries : List (Pass × Instruction)) : Nat :=
  Instruction.totalDemand (entries.map Prod.snd)

/-- The end of a run through an agenda: the first failure, if there is one, and the supply that is
left. -/
def settle : List (Pass × Instruction) → Supply → Option LowerError × Supply
  | [], s => (none, s)
  | (p, i) :: entries, s =>
    if accepted (p, i) then
      if h : s.next + i.demand ≤ Supply.capacity then settle entries (s.skip i.demand h)
      else (some (.exhausted i.origin), s.drain)
    else (some (i.malformed p.arity), s)

@[simp] theorem totalDemand_nil : totalDemand [] = 0 := rfl

@[simp] theorem totalDemand_cons (p : Pass) (i : Instruction)
    (entries : List (Pass × Instruction)) :
    totalDemand ((p, i) :: entries) = i.demand + totalDemand entries := rfl

theorem settle_append (as bs : List (Pass × Instruction)) (s : Supply) :
    settle (as ++ bs) s =
      match settle as s with
      | (none, after) => settle bs after
      | (some e, after) => (some e, after) := by
  induction as generalizing s with
  | nil => rfl
  | cons entry as ih =>
      obtain ⟨p, i⟩ := entry
      simp only [List.cons_append, settle]
      split
      · split
        · exact ih _
        · rfl
      · rfl

end Pipeline

/-! ## A run ends as its agenda does -/

namespace Pass

open LowerM (outcome)

variable {p : Pass} {s : Supply}

/-- What a pass makes of a list that starts with a kept node ends like the rest. -/
theorem outcome_run_cons_of_keeps {n : Node} (hn : p.Keeps n) (ns : List Node) :
    outcome ((p.run (n :: ns)).runFrom s) = outcome ((p.run ns).runFrom s) := by
  rw [run, LowerM.runFrom_bind, runFrom_expandNode_of_keeps hn]
  exact LowerM.outcome_bind_pure _ _ s

/-- A list that starts with an instruction of the family ends like that instruction's expansion,
and like the rest when the expansion succeeds. -/
theorem outcome_run_cons_of_handles {i : Instruction} (ns : List Node) :
    outcome ((p.run (.instruction i :: ns)).runFrom s) =
      match (p.expand i).runFrom s with
      | (.ok _, after) => outcome ((p.run ns).runFrom after)
      | (.error e, after) => (some e, after) := by
  rw [run, LowerM.runFrom_bind, expandNode, LowerM.runFrom_bind]
  rcases (p.expand i).runFrom s with ⟨e | is, after⟩
  · rfl
  · exact LowerM.outcome_bind_pure _ _ after

theorem outcome_run (p : Pass) (ns : List Node) (s : Supply) :
    outcome ((p.run ns).runFrom s) = Pipeline.settle ((p.pending ns).map (p, ·)) s := by
  induction ns generalizing s with
  | nil => rfl
  | cons n ns ih =>
      by_cases hn : p.Keeps n
      · rw [outcome_run_cons_of_keeps hn, pending_cons_of_keeps hn, ih]
      · obtain ⟨i, rfl, hp⟩ := not_keeps_iff.mp hn
        rw [outcome_run_cons_of_handles, pending_cons_of_handles hp, List.map_cons,
          Pipeline.settle]
        by_cases hcount : Pipeline.accepted (p, i) = true
        · have hi : i.Expandable := (expandable_iff_accepts hp).mpr hcount
          rw [if_pos hcount]
          by_cases hfit : s.next + i.demand ≤ Supply.capacity
          · rw [dif_pos hfit, (runFrom_expand_eq_ok hp).mpr ⟨hi, hfit, rfl, rfl⟩]
            exact ih _
          · rw [dif_neg hfit, runFrom_expand_of_exhausted hp hi (by omega)]
        · rw [if_neg hcount, runFrom_expand_of_not_accepts hp (Bool.eq_false_iff.mpr hcount)]

end Pass

namespace Pipeline

open LowerM (outcome)

variable {ps : Pipeline} {ns : List Node} {s : Supply}

/-- Dropping elements and dropping repetitions can be done in either order. -/
theorem eraseDups_filter (f : Pass → Bool) (ps : List Pass) :
    (ps.filter f).eraseDups = ps.eraseDups.filter f := by
  induction hn : ps.length using Nat.strongRecOn generalizing ps with
  | ind n ih =>
      cases ps with
      | nil => rfl
      | cons p ps =>
          have hlength : (ps.filter fun q => !q == p).length < n := by
            have := List.length_filter_le (fun q => !q == p) ps
            rw [List.length_cons] at hn
            omega
          have hrest := ih _ hlength (ps.filter fun q => !q == p) rfl
          rw [List.eraseDups_cons, List.filter_cons, List.filter_cons]
          split
          · rw [List.eraseDups_cons, ← hrest, List.filter_filter, List.filter_filter]
            simp only [Bool.and_comm]
          · rename_i hp
            rw [← hrest, List.filter_filter]
            congr 1
            refine List.filter_congr fun q _ => ?_
            cases hq : f q with
            | false => rfl
            | true =>
                have hne : q ≠ p := fun heq => hp (heq ▸ hq)
                simp [hne]

/-- After a pass the agenda goes on with what the other passes had to do before it. -/
theorem agenda_cons_of_runs {p : Pass} {mid : List Node} {s₁ : Supply} (h : p.Runs ns s mid s₁)
    (ps : Pipeline) : agenda (p :: ps) ns = (p.pending ns).map (p, ·) ++ agenda ps mid := by
  rw [agenda, agenda, List.eraseDups_cons, List.flatMap_cons, eraseDups_filter]
  congr 1
  induction ps.eraseDups with
  | nil => rfl
  | cons q qs ih =>
      rw [List.filter_cons, List.flatMap_cons, h.pending_eq q]
      by_cases hq : q = p
      · simp [hq, ← ih]
      · simp [hq, ← ih]

/-- A run ends as its agenda does. -/
theorem outcome_run (ps : Pipeline) (ns : List Node) (s : Supply) :
    outcome ((run ps ns).runFrom s) = settle (agenda ps ns) s := by
  induction ps generalizing ns s with
  | nil => rfl
  | cons p ps ih =>
      have hpass := p.outcome_run ns s
      rw [run, LowerM.runFrom_bind]
      rcases hresult : (p.run ns).runFrom s with ⟨e | mid, after⟩
      · rw [hresult] at hpass
        rw [agenda, List.eraseDups_cons, List.flatMap_cons, settle_append, ← hpass]
        rfl
      · rw [hresult] at hpass
        rw [agenda_cons_of_runs (Pass.runFrom_run_eq_ok.mp hresult), settle_append, ← hpass]
        exact ih mid after

/-! ## The end of an agenda -/

theorem settle_of_accepted {entries : List (Pass × Instruction)}
    (haccepted : ∀ entry ∈ entries, accepted entry = true)
    (hfit : s.next + totalDemand entries ≤ Supply.capacity) :
    settle entries s = (none, s.skip (totalDemand entries) hfit) := by
  induction entries generalizing s with
  | nil => rfl
  | cons entry entries ih =>
      obtain ⟨p, i⟩ := entry
      rw [totalDemand_cons] at hfit
      have hfirst : s.next + i.demand ≤ Supply.capacity := by omega
      rw [settle, if_pos (haccepted _ List.mem_cons_self), dif_pos hfirst,
        ih (fun entry hentry => haccepted entry (List.mem_cons_of_mem _ hentry))
          (by rw [Supply.next_skip]; omega),
        Supply.skip_skip]
      rfl

/-- An agenda that does not succeed ends at its first entry with a wrong number of operands or with
a demand that is more than the entries before it left. -/
theorem exists_first_failure {entries : List (Pass × Instruction)}
    (h : ¬((∀ entry ∈ entries, accepted entry = true) ∧
      s.next + totalDemand entries ≤ Supply.capacity)) :
    ∃ before p i after, entries = before ++ (p, i) :: after ∧
      (∀ entry ∈ before, accepted entry = true) ∧
      ∃ hfit : s.next + totalDemand before ≤ Supply.capacity,
        (accepted (p, i) = false ∧
          settle entries s = (some (i.malformed p.arity), s.skip (totalDemand before) hfit)) ∨
        (accepted (p, i) = true ∧ Supply.capacity < s.next + totalDemand before + i.demand ∧
          settle entries s = (some (.exhausted i.origin), s.drain)) := by
  induction entries generalizing s with
  | nil =>
      have := s.next_le
      simp [this] at h
  | cons entry entries ih =>
      obtain ⟨p, i⟩ := entry
      by_cases hcount : accepted (p, i) = true
      · by_cases hfirst : s.next + i.demand ≤ Supply.capacity
        · -- the first entry succeeds, so the failure is one of the rest
          have hrest : ¬((∀ entry ∈ entries, accepted entry = true) ∧
              (s.skip i.demand hfirst).next + totalDemand entries ≤ Supply.capacity) := by
            intro ⟨haccepted, hfit⟩
            apply h
            rw [totalDemand_cons]
            rw [Supply.next_skip] at hfit
            exact ⟨List.forall_mem_cons.mpr ⟨hcount, haccepted⟩, by omega⟩
          obtain ⟨before, q, j, after, rfl, hbefore, hfit, hend⟩ := ih hrest
          have hsettle : settle ((p, i) :: (before ++ (q, j) :: after)) s =
              settle (before ++ (q, j) :: after) (s.skip i.demand hfirst) := by
            rw [settle, if_pos hcount, dif_pos hfirst]
          have hnext := Supply.next_skip s i.demand hfirst
          refine ⟨(p, i) :: before, q, j, after, rfl,
            List.forall_mem_cons.mpr ⟨hcount, hbefore⟩, ?_, ?_⟩
          · rw [totalDemand_cons]
            omega
          · rw [hsettle]
            simp only [totalDemand_cons]
            rw [Supply.skip_skip, Supply.drain_skip] at hend
            rcases hend with hend | ⟨haccepted, hdemand, hend⟩
            · exact .inl hend
            · exact .inr ⟨haccepted, by omega, hend⟩
        · refine ⟨[], p, i, entries, rfl, by simp, s.next_le,
            .inr ⟨hcount, by simpa using hfirst, ?_⟩⟩
          rw [settle, if_pos hcount, dif_neg hfirst]
      · refine ⟨[], p, i, entries, rfl, by simp, s.next_le, .inl ⟨by simpa using hcount, ?_⟩⟩
        rw [settle, if_neg hcount]
        rfl

/-! ## The outcome of a run -/

/-- **The outcome of a run.**  A run succeeds when every entry of its agenda has a right number of
operands and the agenda asks for no more temporaries than are left, and it takes exactly what the
agenda asks for.  Otherwise the first entry that has a wrong number of operands, or asks for more
than the entries before it left, decides: the first kind takes nothing, the second all that is
left. -/
theorem outcome_of_run (ps : Pipeline) (ns : List Node) (s : Supply) :
    ((∀ entry ∈ agenda ps ns, accepted entry = true) ∧ totalDemand (agenda ps ns) ≤ s.left →
      ∃ out hfit, (run ps ns).runFrom s = (.ok out, s.skip (totalDemand (agenda ps ns)) hfit)) ∧
    (¬((∀ entry ∈ agenda ps ns, accepted entry = true) ∧ totalDemand (agenda ps ns) ≤ s.left) →
      ∃ before p i after, agenda ps ns = before ++ (p, i) :: after ∧
        (∀ entry ∈ before, accepted entry = true) ∧ totalDemand before ≤ s.left ∧
        ((p.arity.accepts i.operands.length = false ∧
            ∃ hfit, (run ps ns).runFrom s =
              (.error (.malformed i.opcode p.arity i.operands.length i.origin),
                s.skip (totalDemand before) hfit)) ∨
          (p.arity.accepts i.operands.length = true ∧ s.left < totalDemand before + i.demand ∧
            (run ps ns).runFrom s = (.error (.exhausted i.origin), s.drain)))) := by
  have houtcome := outcome_run ps ns s
  simp only [Supply.le_left_iff]
  constructor
  · rintro ⟨haccepted, hfit⟩
    rw [settle_of_accepted haccepted hfit] at houtcome
    obtain ⟨out, hout⟩ := LowerM.outcome_eq_none.mp houtcome
    exact ⟨out, hfit, hout⟩
  · intro h
    obtain ⟨before, p, i, after, heq, hbefore, hfit, hend⟩ := exists_first_failure h
    refine ⟨before, p, i, after, heq, hbefore, hfit, ?_⟩
    rcases hend with ⟨hcount, hsettle⟩ | ⟨hcount, hdemand, hsettle⟩
    · rw [hsettle] at houtcome
      exact .inl ⟨hcount, hfit, LowerM.outcome_eq_some.mp houtcome⟩
    · rw [hsettle] at houtcome
      have hleft : s.left < totalDemand before + i.demand := by
        unfold Supply.left
        omega
      exact .inr ⟨hcount, hleft, LowerM.outcome_eq_some.mp houtcome⟩

/-- With two temporaries left, the bit test, which comes second in the listing and first on the
agenda, takes one; the multiplication gets the other and fails for want of a second. -/
theorem outcome_of_run_exhausted :
    let multiply : Instruction :=
      ⟨.branchMulOverflow, [.register "a", .register "b", .label ".L"], ⟨"in.s", .onLine 1 1 16⟩⟩
    let test : Instruction :=
      ⟨.bitTest .set .quad .sign, [.register "a", .register "b", .register "c"], .synthetic⟩
    let ps : Pipeline := [.bitTest, .mulOverflow, .bitTest]
    let ns : List Node := [.instruction multiply, .instruction test]
    let s : Supply := .above (some 4294967293)
    agenda ps ns = [(.bitTest, test), (.mulOverflow, multiply)] ∧ s.left = 2 ∧
      (run ps ns).runFrom s = (.error (.exhausted ⟨"in.s", .onLine 1 1 16⟩), s.drain) := by
  intro multiply test ps ns s
  have hagenda : agenda ps ns = [(.bitTest, test), (.mulOverflow, multiply)] := by
    decide
  have hleft : s.left = 2 := by
    decide
  refine ⟨hagenda, hleft, ?_⟩
  obtain ⟨_, hfails⟩ := outcome_of_run ps ns s
  have hdemand : ¬totalDemand (agenda ps ns) ≤ s.left := by
    rw [hagenda, hleft]
    decide
  obtain ⟨before, p, i, after, heq, -, -, hend⟩ := hfails fun h => hdemand h.2
  rw [hagenda] at heq
  rcases before with _ | ⟨first, _ | ⟨second, rest⟩⟩
  · obtain ⟨⟨rfl, rfl⟩, -⟩ : (Pass.bitTest = p ∧ test = i) ∧ _ := by simpa using heq
    rcases hend with ⟨hcount, -⟩ | ⟨-, hshort, -⟩
    · exact absurd hcount (by decide)
    · exact absurd hshort (by decide)
  · obtain ⟨-, ⟨rfl, rfl⟩, -⟩ : _ ∧ (Pass.mulOverflow = p ∧ multiply = i) ∧ _ := by
      simpa using heq
    rcases hend with ⟨hcount, -⟩ | ⟨-, -, hrun⟩
    · exact absurd hcount (by decide)
    · exact hrun
  · simp at heq

end Pipeline

end MacroAsm
