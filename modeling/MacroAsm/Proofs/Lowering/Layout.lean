import MacroAsm.Proofs.Lowering.Residue
import Mathlib.Data.List.Perm.Basic
import Mathlib.Logic.Function.Basic

/-!
# The layout of a lowered listing

The result of a run has one segment for each node of the listing it started from: the node itself,
or its expansion.  The temporaries of an expansion have consecutive numbers, and so have the
expansions of one pass, in the order of the listing.  A layout is therefore known from one number
for each pass that ran, the first that it took.

## Main definitions

* `Slot` — a node of a listing and what became of it.
* `Slot.layout` — the slots of a listing, from the first number of each pass that ran.
* `Pipeline.cursors`, `Pipeline.slots` — the numbers of the passes of a run, and its slots.

## Main statements

* `Slot.taken_layout_update` — a pass takes a block of consecutive numbers.
* `Pass.Runs.eq_layout` — what a pass makes of a layout is a layout.
* `Pipeline.Runs.eq_slots` — the result of a run is the concatenation of its slots.
-/

namespace MacroAsm

namespace Pass

/-- Among passes, the one that handles an opcode is found wherever it stands. -/
theorem find?_handles_eq_some {ps : List Pass} {p : Pass} {o : Opcode} :
    ps.find? (·.handles o) = some p ↔ p ∈ ps ∧ p.handles o = true := by
  have hsome : ∀ {q : Pass}, ps.find? (·.handles o) = some q → q.handles o = true := by
    intro q hq
    simpa using List.find?_some hq
  refine ⟨fun hp => ⟨List.mem_of_find?_eq_some hp, hsome hp⟩, ?_⟩
  rintro ⟨hmem, hp⟩
  cases hfind : ps.find? (·.handles o) with
  | none => simpa [hp] using List.find?_eq_none.mp hfind p hmem
  | some q => rw [eq_of_handles (hsome hfind) hp]

/-- How many temporaries a pass takes for the instructions of a listing. -/
def demandOf (p : Pass) (nodes : List Node) : Nat :=
  Instruction.totalDemand (p.pending nodes)

variable {p : Pass}

theorem demandOf_cons_of_keeps {n : Node} (hn : p.Keeps n) (ns : List Node) :
    p.demandOf (n :: ns) = p.demandOf ns := by
  rw [demandOf, pending_cons_of_keeps hn, demandOf]

theorem demandOf_cons_of_handles {i : Instruction} (hp : p.handles i.opcode = true)
    (ns : List Node) : p.demandOf (.instruction i :: ns) = i.demand + p.demandOf ns := by
  rw [demandOf, pending_cons_of_handles hp, Instruction.totalDemand, demandOf]

end Pass

/-! ## Slots -/

/-- A node of a listing and what became of it: it was kept, or replaced by its expansion with
temporaries numbered from `start`. -/
inductive Slot where
  | kept (node : Node)
  | replaced (i : Instruction) (start : Nat)

namespace Slot

/-- The node of the listing. -/
def input : Slot → Node
  | kept node => node
  | replaced i _ => .instruction i

/-- The nodes that stand in its place. -/
def nodes : Slot → List Node
  | kept node => [node]
  | replaced i start => (i.expansion fun k => UInt32.ofNat (start + k)).map .instruction

/-- The numbers of the temporaries that were taken for it. -/
def taken : Slot → List Nat
  | kept _ => []
  | replaced i start => List.range' start i.demand

/-- The pass that replaces a node and the number it goes on with, given the next number of each pass
that runs. -/
def cursor? (c : Pass → Option Nat) (node : Node) : Option (Pass × Instruction × Nat) := do
  let i ← node.instruction?
  let p ← Pass.all.find? (·.handles i.opcode)
  let start ← c p
  return (p, i, start)

/-- The slots of a listing, given the next number of each pass that runs. -/
def layout : (c : Pass → Option Nat) → List Node → List Slot
  | _, [] => []
  | c, node :: rest =>
    match cursor? c node with
    | some (p, i, start) =>
      replaced i start :: layout (Function.update c p (some (start + i.demand))) rest
    | none => kept node :: layout c rest

variable {c : Pass → Option Nat} {p : Pass}

theorem cursor?_eq_some {n : Node} {i : Instruction} {start : Nat} :
    cursor? c n = some (p, i, start) ↔
      n = .instruction i ∧ p.handles i.opcode = true ∧ c p = some start := by
  cases n with
  | instruction j =>
      simp only [cursor?, Node.instruction?, Option.bind_eq_bind, Option.bind_some,
        Option.bind_eq_some_iff, Pass.find?_handles_eq_some, Pass.mem_all, true_and,
        Option.pure_def, Option.some.injEq, Prod.mk.injEq, Node.instruction.injEq]
      constructor
      · rintro ⟨q, hq, k, hk, rfl, rfl, rfl⟩
        exact ⟨rfl, hq, hk⟩
      · rintro ⟨rfl, hp, hc⟩
        exact ⟨p, hp, start, hc, rfl, rfl, rfl⟩
  | label name o => simp [cursor?, Node.instruction?]
  | directive text o => simp [cursor?, Node.instruction?]
  | comment text o => simp [cursor?, Node.instruction?]

theorem cursor?_eq_none {n : Node} (h : ∀ p, c p ≠ none → p.Keeps n) : cursor? c n = none := by
  rw [Option.eq_none_iff_forall_ne_some]
  rintro ⟨p, i, start⟩ hcursor
  obtain ⟨rfl, hp, hc⟩ := cursor?_eq_some.mp hcursor
  rw [h p (by simp [hc]) i rfl] at hp
  contradiction

theorem layout_cons_of_handles {i : Instruction} {start : Nat} (hp : p.handles i.opcode = true)
    (hc : c p = some start) (ns : List Node) :
    layout c (.instruction i :: ns) =
      replaced i start :: layout (Function.update c p (some (start + i.demand))) ns := by
  rw [layout, cursor?_eq_some.mpr ⟨rfl, hp, hc⟩]

theorem layout_cons_of_keeps {n : Node} (h : ∀ p, c p ≠ none → p.Keeps n) (ns : List Node) :
    layout c (n :: ns) = kept n :: layout c ns := by
  rw [layout, cursor?_eq_none h]

/-- A node is kept by every pass that runs, or it is an instruction of one of them. -/
theorem keeps_or_handles (c : Pass → Option Nat) (n : Node) :
    (∀ p, c p ≠ none → p.Keeps n) ∨
      ∃ p i start, n = .instruction i ∧ p.handles i.opcode = true ∧ c p = some start := by
  by_cases h : ∀ p, c p ≠ none → p.Keeps n
  · exact .inl h
  · right
    simp only [not_forall, Pass.not_keeps_iff] at h
    obtain ⟨p, hc, i, rfl, hp⟩ := h
    obtain ⟨start, hstart⟩ := Option.ne_none_iff_exists'.mp hc
    exact ⟨p, i, start, rfl, hp, hstart⟩

/-- A node that the passes that run and one more keep. -/
theorem keeps_update {n : Node} {start : Nat} (hn : ∀ q, c q ≠ none → q.Keeps n)
    (hp : p.Keeps n) : ∀ q, Function.update c p (some start) q ≠ none → q.Keeps n := by
  intro q hq
  by_cases heq : q = p
  · exact heq ▸ hp
  · rw [Function.update_of_ne heq] at hq
    exact hn q hq

theorem update_ne_none {start : Nat} (hc : c p ≠ none) (q : Pass) :
    Function.update c p (some start) q ≠ none ↔ c q ≠ none := by
  by_cases hq : q = p
  · subst hq
    simp [hc]
  · rw [Function.update_of_ne hq]

/-- A layout has a slot for each node of the listing. -/
theorem map_input_layout (c : Pass → Option Nat) (ns : List Node) :
    (layout c ns).map input = ns := by
  induction ns generalizing c with
  | nil => rfl
  | cons n ns ih =>
      rcases keeps_or_handles c n with hn | ⟨p, i, start, rfl, hp, hc⟩
      · rw [layout_cons_of_keeps hn, List.map_cons, ih, input]
      · rw [layout_cons_of_handles hp hc, List.map_cons, ih, input]

/-- With no pass a layout keeps every node. -/
theorem layout_none (ns : List Node) : layout (fun _ => none) ns = ns.map kept := by
  induction ns with
  | nil => rfl
  | cons n ns ih => rw [layout_cons_of_keeps (by simp), ih, List.map_cons]

/-- What the passes that ran did with a slot: they kept its node, or one of them replaced it. -/
def SettledBy (ran : Pass → Prop) : Slot → Prop
  | kept n => ∀ p, ran p → p.Keeps n
  | replaced i _ => ∃ p, ran p ∧ p.handles i.opcode = true

theorem settledBy_of_mem_layout {slot : Slot} {ns : List Node} (h : slot ∈ layout c ns) :
    slot.SettledBy fun p => c p ≠ none := by
  induction ns generalizing c with
  | nil => simp [layout] at h
  | cons n ns ih =>
      rcases keeps_or_handles c n with hn | ⟨p, i, start, rfl, hp, hc⟩
      · rw [layout_cons_of_keeps hn] at h
        rcases List.mem_cons.mp h with rfl | h
        · exact hn
        · exact ih h
      · have hne : c p ≠ none := by simp [hc]
        rw [layout_cons_of_handles hp hc] at h
        rcases List.mem_cons.mp h with rfl | h
        · exact ⟨p, hne, hp⟩
        · have hslot := ih h
          cases slot with
          | kept m => exact fun q hq => hslot q ((update_ne_none hne q).mpr hq)
          | replaced j k =>
              obtain ⟨q, hq, hj⟩ := hslot
              exact ⟨q, (update_ne_none hne q).mp hq, hj⟩

/-! ## The numbers of a layout -/

/-- A pass that starts at a number takes a block of consecutive numbers from there on, and the
numbers of the passes before it stay as they are. -/
theorem taken_layout_update (hc : c p = none) (start : Nat) (ns : List Node) :
    ((layout (Function.update c p (some start)) ns).flatMap taken).Perm
      ((layout c ns).flatMap taken ++ List.range' start (p.demandOf ns)) := by
  induction ns generalizing c start with
  | nil => simp [layout, Pass.demandOf, Pass.pending, Instruction.totalDemand]
  | cons n ns ih =>
      rcases keeps_or_handles c n with hn | ⟨q, i, k, rfl, hq, hk⟩
      · by_cases hkept : p.Keeps n
        · rw [layout_cons_of_keeps (keeps_update hn hkept), layout_cons_of_keeps hn,
            Pass.demandOf_cons_of_keeps hkept]
          exact ih hc start
        · obtain ⟨i, rfl, hp⟩ := Pass.not_keeps_iff.mp hkept
          rw [layout_cons_of_handles hp (Function.update_self ..), layout_cons_of_keeps hn,
            Pass.demandOf_cons_of_handles hp, Function.update_idem, List.flatMap_cons,
            List.flatMap_cons, taken, taken, List.nil_append]
          have hrest := (ih hc (start + i.demand)).append_left (List.range' start i.demand)
          refine hrest.trans ?_
          rw [← List.range'_append_1, ← List.append_assoc, ← List.append_assoc]
          exact List.perm_append_comm.append_right _
      · have hne : q ≠ p := by
          rintro rfl
          simp [hc] at hk
        have hkeeps := Pass.keeps_of_handles_of_ne hq hne
        rw [layout_cons_of_handles hq (by rwa [Function.update_of_ne hne]),
          layout_cons_of_handles hq hk, Pass.demandOf_cons_of_keeps hkeeps,
          Function.update_comm hne.symm, List.flatMap_cons, List.flatMap_cons, List.append_assoc]
        refine List.Perm.append_left _ (ih ?_ start)
        rwa [Function.update_of_ne hne.symm]

/-- The instructions of the passes that ran have right numbers of operands. -/
def Ready (c : Pass → Option Nat) (ns : List Node) : Prop :=
  ∀ p, c p ≠ none → ∀ i ∈ p.pending ns, i.Expandable

theorem Ready.tail {n : Node} {ns : List Node} (h : Ready c (n :: ns)) : Ready c ns := by
  intro p hc i hi
  refine h p hc i ?_
  by_cases hn : p.Keeps n
  · rwa [Pass.pending_cons_of_keeps hn]
  · obtain ⟨j, rfl, hp⟩ := Pass.not_keeps_iff.mp hn
    rw [Pass.pending_cons_of_handles hp]
    exact List.mem_cons_of_mem j hi

theorem Ready.update {start : Nat} {ns : List Node} (h : Ready c ns) (hc : c p ≠ none) :
    Ready (Function.update c p (some start)) ns := by
  intro q hq
  exact h q ((update_ne_none hc q).mp hq)

theorem Ready.expandable {i : Instruction} {ns : List Node} (h : Ready c (.instruction i :: ns))
    (hp : p.handles i.opcode = true) (hc : c p ≠ none) : i.Expandable := by
  refine h p hc i ?_
  rw [Pass.pending_cons_of_handles hp]
  exact List.mem_cons_self

/-- A pass that ran finds nothing to replace in a layout. -/
theorem keeps_of_mem_layout {m : Node} {ns : List Node} (h : Ready c ns) (hc : c p ≠ none)
    (hm : m ∈ (layout c ns).flatMap nodes) : p.Keeps m := by
  induction ns generalizing c with
  | nil => simp [layout] at hm
  | cons n ns ih =>
      rcases keeps_or_handles c n with hn | ⟨q, i, start, rfl, hq, hstart⟩
      · rw [layout_cons_of_keeps hn, List.flatMap_cons, List.mem_append] at hm
        rcases hm with hm | hm
        · obtain rfl := List.mem_singleton.mp hm
          exact hn p hc
        · exact ih h.tail hc hm
      · have hne : c q ≠ none := by simp [hstart]
        rw [layout_cons_of_handles hq hstart, List.flatMap_cons, List.mem_append] at hm
        rcases hm with hm | hm
        · exact (h.expandable hq hne).keeps_of_mem_expansion p m hm
        · exact ih (h.tail.update hne) ((update_ne_none hne p).mpr hc) hm

end Slot

/-! ## Runs and layouts -/

namespace Pass

open Slot (layout Ready)

variable {p : Pass} {s s' : Supply} {out : List Node}

/-- A pass goes through the nodes it keeps. -/
theorem Runs.append_of_keeps {as bs : List Node} (has : ∀ n ∈ as, p.Keeps n)
    (h : p.Runs (as ++ bs) s out s') : ∃ rest, out = as ++ rest ∧ p.Runs bs s rest s' := by
  induction as generalizing out with
  | nil => exact ⟨out, rfl, h⟩
  | cons n as ih =>
      have hn := has n List.mem_cons_self
      cases h with
      | keep _ hrest =>
          obtain ⟨rest, rfl, hbs⟩ := ih (fun m hm => has m (List.mem_cons_of_mem n hm)) hrest
          exact ⟨rest, rfl, hbs⟩
      | expand hp =>
          rw [hn _ rfl] at hp
          contradiction

/-- A pass replaces an instruction of its family. -/
theorem Runs.cons_of_handles {i : Instruction} {ns : List Node} (hp : p.handles i.opcode = true)
    (h : p.Runs (.instruction i :: ns) s out s') :
    i.Expandable ∧ ∃ hfit rest, out = (i.expansion s.upcoming).map .instruction ++ rest ∧
      p.Runs ns (s.skip i.demand hfit) rest s' := by
  cases h with
  | keep hn _ =>
      rw [hn i rfl] at hp
      contradiction
  | expand _ hi hfit hrest => exact ⟨hi, hfit, _, rfl, hrest⟩

theorem Runs.allocated_eq {ns : List Node} (h : p.Runs ns s out s') :
    s'.allocated + s.next = s.allocated + s'.next := by
  induction h with
  | nil s => rfl
  | keep _ _ ih => exact ih
  | @expand i ns out s s' _ _ hfit _ ih =>
      have hskip : (s.skip i.demand hfit).allocated = s.allocated + i.demand := rfl
      rw [Supply.next_skip, hskip] at ih
      omega

/-- A pass that did not run yet gives the slots of its family their place in the layout, starting at
the next number of the supply. -/
theorem Runs.eq_layout {c : Pass → Option Nat} {ns : List Node} (hc : c p = none)
    (hready : Ready c ns) (h : p.Runs ((layout c ns).flatMap Slot.nodes) s out s') :
    out = (layout (Function.update c p (some s.next)) ns).flatMap Slot.nodes ∧
      s'.next = s.next + p.demandOf ns ∧ ∀ i ∈ p.pending ns, i.Expandable := by
  induction ns generalizing c s out with
  | nil =>
      cases h
      exact ⟨rfl, rfl, by simp [pending]⟩
  | cons n ns ih =>
      rcases Slot.keeps_or_handles c n with hn | ⟨q, i, start, rfl, hq, hstart⟩
      · rw [Slot.layout_cons_of_keeps hn, List.flatMap_cons, Slot.nodes] at h
        by_cases hkept : p.Keeps n
        · obtain ⟨rest, rfl, hrest⟩ := h.append_of_keeps (by simpa using hkept)
          obtain ⟨rfl, hnext, hexpandable⟩ := ih hc hready.tail hrest
          rw [Slot.layout_cons_of_keeps (Slot.keeps_update hn hkept), demandOf_cons_of_keeps hkept,
            pending_cons_of_keeps hkept]
          exact ⟨rfl, hnext, hexpandable⟩
        · obtain ⟨i, rfl, hp⟩ := not_keeps_iff.mp hkept
          obtain ⟨hi, hfit, rest, rfl, hrest⟩ := Runs.cons_of_handles hp h
          obtain ⟨rfl, hnext, hexpandable⟩ := ih hc hready.tail hrest
          rw [Slot.layout_cons_of_handles hp (Function.update_self ..), Function.update_idem,
            demandOf_cons_of_handles hp, pending_cons_of_handles hp, List.flatMap_cons]
          rw [Supply.next_skip] at hnext
          exact ⟨rfl, by omega, List.forall_mem_cons.mpr ⟨hi, hexpandable⟩⟩
      · have hsome : c q ≠ none := by simp [hstart]
        have hne : q ≠ p := by
          rintro rfl
          exact hsome hc
        have hi := hready.expandable hq hsome
        have hkeeps := keeps_of_handles_of_ne hq hne
        rw [Slot.layout_cons_of_handles hq hstart, List.flatMap_cons] at h
        obtain ⟨rest, rfl, hrest⟩ := h.append_of_keeps (hi.keeps_of_mem_expansion p)
        obtain ⟨rfl, hnext, hexpandable⟩ :=
          ih (by rwa [Function.update_of_ne hne.symm]) (hready.tail.update hsome) hrest
        rw [Slot.layout_cons_of_handles hq (by rwa [Function.update_of_ne hne]),
          Function.update_comm hne.symm, demandOf_cons_of_keeps hkeeps,
          pending_cons_of_keeps hkeeps, List.flatMap_cons]
        exact ⟨rfl, hnext, hexpandable⟩

end Pass

namespace Pipeline

open Slot (layout Ready)

/-- The next number of each pass after a run: a pass starts where the passes before it stopped, and
a pass that ran before does not start again. -/
def cursors (ns : List Node) : Pipeline → (Pass → Option Nat) → Nat → Pass → Option Nat
  | [], c, _ => c
  | p :: ps, c, next =>
    match c p with
    | none => cursors ns ps (Function.update c p (some next)) (next + p.demandOf ns)
    | some _ => cursors ns ps c next

variable {ps : Pipeline} {ns out : List Node} {s s' : Supply} {c : Pass → Option Nat}

theorem cursors_ne_none {next : Nat} {p : Pass} :
    cursors ns ps c next p ≠ none ↔ p ∈ ps ∨ c p ≠ none := by
  induction ps generalizing c next with
  | nil => simp [cursors]
  | cons q qs ih =>
      rw [cursors, List.mem_cons]
      cases hq : c q with
      | none =>
          simp only [ih]
          by_cases heq : p = q
          · subst heq
            simp
          · simp [heq]
      | some k =>
          simp only [ih]
          by_cases heq : p = q
          · subst heq
            simp [hq]
          · simp [heq]

theorem Runs.allocated_eq (h : Runs ps ns s out s') :
    s'.allocated + s.next = s.allocated + s'.next := by
  induction h with
  | nil ns s => rfl
  | cons hp _ ih =>
      have := hp.allocated_eq
      omega

/-- A run from a layout ends in a layout of the same listing, and adds the numbers that it took to
those in use. -/
theorem Runs.eq_layout_from (hready : Ready c ns)
    (h : Runs ps ((layout c ns).flatMap Slot.nodes) s out s') :
    out = (layout (cursors ns ps c s.next) ns).flatMap Slot.nodes ∧
      Ready (cursors ns ps c s.next) ns ∧
      ((layout (cursors ns ps c s.next) ns).flatMap Slot.taken).Perm
        ((layout c ns).flatMap Slot.taken ++ List.range' s.next (s'.next - s.next)) := by
  induction ps generalizing c s with
  | nil =>
      cases h
      simp [cursors, hready]
  | cons p ps ih =>
      cases h with
      | @cons _ _ _ mid _ _ s₁ _ hp hps =>
          rw [cursors]
          cases hc : c p with
          | none =>
              obtain ⟨rfl, hnext, hexpandable⟩ := hp.eq_layout hc hready
              have hready' : Ready (Function.update c p (some s.next)) ns := by
                intro q hq
                by_cases heq : q = p
                · exact heq ▸ hexpandable
                · rw [Function.update_of_ne heq] at hq
                  exact hready q hq
              obtain ⟨hout, hend, hperm⟩ := ih hready' hps
              simp only [← hnext]
              refine ⟨hout, hend, hperm.trans ?_⟩
              have hle := hps.next_le_next
              have hblock : List.range' s.next (s'.next - s.next) =
                  List.range' s.next (p.demandOf ns) ++
                    List.range' s₁.next (s'.next - s₁.next) := by
                rw [hnext, List.range'_append_1]
                congr 1
                omega
              rw [hblock, ← List.append_assoc]
              exact (Slot.taken_layout_update hc s.next ns).append_right _
          | some k =>
              have hkeeps : ∀ m ∈ (layout c ns).flatMap Slot.nodes, p.Keeps m :=
                fun m hm => Slot.keeps_of_mem_layout hready (by simp [hc]) hm
              rw [← List.append_nil ((layout c ns).flatMap Slot.nodes)] at hp
              obtain ⟨rest, rfl, hrest⟩ := hp.append_of_keeps hkeeps
              cases hrest
              rw [List.append_nil] at hps
              exact ih hready hps

/-- The slots of a listing after a run that starts with the number `next`. -/
def slots (ps : Pipeline) (ns : List Node) (next : Nat) : List Slot :=
  layout (cursors ns ps (fun _ => none) next) ns

theorem map_input_slots (ps : Pipeline) (ns : List Node) (next : Nat) :
    (slots ps ns next).map Slot.input = ns :=
  Slot.map_input_layout _ ns

theorem settledBy_of_mem_slots {slot : Slot} {next : Nat} (h : slot ∈ slots ps ns next) :
    slot.SettledBy (· ∈ ps) := by
  have hsettled := Slot.settledBy_of_mem_layout h
  simpa only [cursors_ne_none, ne_eq, not_true_eq_false, or_false] using hsettled

/-- **The layout of a lowered listing.**  The result of a run is the concatenation of its slots, one
for each node of the listing; the numbers in the slots are those that the run took, each once; and
the instructions that were replaced had right numbers of operands. -/
theorem Runs.eq_slots (h : Runs ps ns s out s') :
    out = (slots ps ns s.next).flatMap Slot.nodes ∧
      ((slots ps ns s.next).flatMap Slot.taken).Perm (List.range' s.next (s'.next - s.next)) ∧
      ∀ i start, .replaced i start ∈ slots ps ns s.next → i.Expandable := by
  have hstart : (layout (fun _ => none) ns).flatMap Slot.nodes = ns := by
    rw [Slot.layout_none, List.flatMap_map]
    exact List.flatMap_singleton' ns
  have htaken : (layout (fun _ => none) ns).flatMap Slot.taken = [] := by
    rw [Slot.layout_none, List.flatMap_map, List.flatMap_eq_nil_iff]
    exact fun _ _ => rfl
  rw [← hstart] at h
  obtain ⟨hout, hready, hperm⟩ := Runs.eq_layout_from (fun _ hne => absurd rfl hne) h
  rw [htaken, List.nil_append] at hperm
  refine ⟨hout, hperm, ?_⟩
  intro i start hmem
  obtain ⟨p, hran, hp⟩ := Slot.settledBy_of_mem_layout hmem
  have hinput : .instruction i ∈ ns := by
    rw [← map_input_slots ps ns s.next]
    exact List.mem_map.mpr ⟨_, hmem, rfl⟩
  refine hready p hran i (List.mem_filter.mpr ⟨?_, hp⟩)
  exact List.mem_filterMap.mpr ⟨_, hinput, rfl⟩

end Pipeline

end MacroAsm
