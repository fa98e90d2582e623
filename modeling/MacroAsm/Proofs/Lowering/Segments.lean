import MacroAsm.Proofs.Lowering.Assignment
import Mathlib.Algebra.GroupWithZero.Nat

/-!
# The result of a run, node by node

A run rebuilds the whole listing once for each pass, but what becomes of a node can be said at once:
it stays, or it is replaced by its expansion.  The temporaries of an expansion are numbered as if
the passes, each taken where it first occurs, went through their instructions one after the other.
The first number of an expansion is therefore a sum: what the passes before its own take for the
whole listing, and what its own pass takes for the nodes before it.

## Main definitions

* `Pipeline.firstNumber` — the number of the first temporary of an expansion.
* `Pipeline.segment` — what a run makes of the node at a place.

## Main statements

* `Slot.layout_eq_mapIdx` — the slots of a listing, place by place.
* `Pipeline.cursors_eq_some` — the first number of each pass.
* `Pipeline.eq_segments_of_run` — the result of a run in closed form.
-/

namespace MacroAsm

/-! ## The slots of a listing, place by place -/

namespace Slot

/-- The slot of a node that comes after the nodes `before`, given the first number of each pass that
runs. -/
def following (c : Pass → Option Nat) (before : List Node) (node : Node) : Slot :=
  match cursor? c node with
  | some (p, i, start) => replaced i (start + p.demandOf before)
  | none => kept node

variable {c : Pass → Option Nat} {p : Pass} {n : Node} {before : List Node}

theorem following_of_keeps (h : ∀ p, c p ≠ none → p.Keeps n) : following c before n = kept n := by
  rw [following, cursor?_eq_none h]

theorem following_of_handles {i : Instruction} {start : Nat} (hp : p.handles i.opcode = true)
    (hc : c p = some start) :
    following c before (.instruction i) = replaced i (start + p.demandOf before) := by
  rw [following, cursor?_eq_some.mpr ⟨rfl, hp, hc⟩]

/-- A node that every pass keeps does not move the numbers of those after it. -/
theorem following_cons_of_keeps {m : Node} (hm : ∀ p, c p ≠ none → p.Keeps m) :
    following c (m :: before) n = following c before n := by
  rcases keeps_or_handles c n with hn | ⟨p, i, start, rfl, hp, hc⟩
  · rw [following_of_keeps hn, following_of_keeps hn]
  · rw [following_of_handles hp hc, following_of_handles hp hc,
      Pass.demandOf_cons_of_keeps (hm p (by simp [hc]))]

/-- An instruction moves the numbers of its pass on, and those of no other pass. -/
theorem following_cons_of_handles {i : Instruction} {start : Nat} (hp : p.handles i.opcode = true)
    (hc : c p = some start) :
    following c (.instruction i :: before) n =
      following (Function.update c p (some (start + i.demand))) before n := by
  have hne : c p ≠ none := by simp [hc]
  rcases keeps_or_handles c n with hn | ⟨q, j, start', rfl, hq, hc'⟩
  · rw [following_of_keeps hn, following_of_keeps fun q hq => hn q ((update_ne_none hne q).mp hq)]
  · rw [following_of_handles hq hc']
    by_cases heq : q = p
    · subst heq
      obtain rfl : start' = start := by simpa [hc] using hc'.symm
      rw [following_of_handles hq (Function.update_self ..), Pass.demandOf_cons_of_handles hp,
        Nat.add_assoc]
    · have hkeeps := Pass.keeps_of_handles_of_ne hp (Ne.symm heq)
      rw [following_of_handles hq (by rwa [Function.update_of_ne heq]),
        Pass.demandOf_cons_of_keeps hkeeps]

/-- The slot at a place is known from the nodes before it. -/
theorem layout_eq_mapIdx (c : Pass → Option Nat) (ns : List Node) :
    layout c ns = ns.mapIdx fun k => following c (ns.take k) := by
  induction ns generalizing c with
  | nil => rfl
  | cons n ns ih =>
      rw [List.mapIdx_cons]
      simp only [List.take_zero, List.take_succ_cons]
      rcases keeps_or_handles c n with hn | ⟨p, i, start, rfl, hp, hc⟩
      · have htail : (fun k => following c (n :: ns.take k)) =
            fun k => following c (ns.take k) := by
          funext k m
          exact following_cons_of_keeps hn
        rw [layout_cons_of_keeps hn, following_of_keeps hn, ih, htail]
      · have htail : (fun k => following c (.instruction i :: ns.take k)) =
            fun k => following (Function.update c p (some (start + i.demand))) (ns.take k) := by
          funext k m
          exact following_cons_of_handles hp hc
        rw [layout_cons_of_handles hp hc, following_of_handles hp hc, ih, htail]
        rfl

end Slot

/-! ## The first number of each pass -/

namespace Pipeline

variable {ps : Pipeline} {ns : List Node} {c : Pass → Option Nat} {p : Pass} {next : Nat}

/-- A pass that ran before does not start again. -/
theorem cursors_of_eq_some {start : Nat} (hc : c p = some start) :
    cursors ns ps c next p = some start := by
  induction ps generalizing c next with
  | nil => exact hc
  | cons q qs ih =>
      rw [cursors]
      cases hq : c q with
      | some k => exact ih hc
      | none =>
          refine ih ?_
          have hne : p ≠ q := by
            rintro rfl
            simp [hc] at hq
          rwa [Function.update_of_ne hne]

/-- A pass that did not run yet starts after those before it, each of which counts where it first
occurs, if it did not run yet either. -/
theorem cursors_of_eq_none (hc : c p = none) (hp : p ∈ ps) :
    cursors ns ps c next p =
      some (next + (((ps.filter fun q => (c q).isNone).eraseDups.takeWhile (· != p)).map
        (·.demandOf ns)).sum) := by
  induction ps generalizing c next with
  | nil => simp at hp
  | cons q qs ih =>
      rw [cursors]
      cases hq : c q with
      | some k =>
          have hne : p ≠ q := by
            rintro rfl
            simp [hc] at hq
          have hmem : p ∈ qs := by simpa [hne] using hp
          rw [List.filter_cons_of_neg (by simp [hq])]
          exact ih hc hmem
      | none =>
          rw [List.filter_cons_of_pos (by simp [hq]), List.eraseDups_cons]
          by_cases heq : p = q
          · subst heq
            simp [cursors_of_eq_some (Function.update_self ..)]
          · have hmem : p ∈ qs := by simpa [heq] using hp
            have hrest : (qs.filter fun r => (c r).isNone).filter (fun r => !r == q) =
                qs.filter fun r => (Function.update c q (some next) r).isNone := by
              rw [List.filter_filter]
              refine List.filter_congr fun r _ => ?_
              by_cases hr : r = q
              · simp [hr]
              · simp [hr]
            rw [hrest, List.takeWhile_cons_of_pos (by simpa using Ne.symm heq), List.map_cons,
              List.sum_cons, ← Nat.add_assoc]
            exact ih (by rwa [Function.update_of_ne heq]) hmem

/-- The first number of a pass in a run. -/
theorem cursors_eq_some (hp : p ∈ ps) :
    cursors ns ps (fun _ => none) next p =
      some (next + ((ps.eraseDups.takeWhile (· != p)).map (·.demandOf ns)).sum) := by
  rw [cursors_of_eq_none rfl hp, List.filter_eq_self.mpr (by simp)]

/-! ## The result of a run -/

/-- The number of the first temporary of an instruction of the pass `p` at place `k`: the distinct
passes before `p` come first, each with all of its instructions, and then the instructions of `p`
before that place. -/
def firstNumber (ps : Pipeline) (ns : List Node) (next : Nat) (p : Pass) (k : Nat) : Nat :=
  next + ((ps.eraseDups.takeWhile (· != p)).map (·.demandOf ns)).sum + p.demandOf (ns.take k)

/-- What a run makes of the node at place `k`. -/
def segment (ps : Pipeline) (ns : List Node) (next k : Nat) : Node → List Node
  | .instruction i =>
    match ps.find? (·.handles i.opcode) with
    | some p => (i.expansion fun j => .ofNat (firstNumber ps ns next p k + j)).map .instruction
    | none => [.instruction i]
  | node => [node]

theorem segment_of_keeps {n : Node} (h : ∀ p ∈ ps, p.Keeps n) (k : Nat) :
    segment ps ns next k n = [n] := by
  cases n with
  | instruction i =>
      have hnone : ps.find? (·.handles i.opcode) = none := by
        rw [List.find?_eq_none]
        intro p hp
        simp [h p hp i rfl]
      simp only [segment, hnone]
  | label name o => rfl
  | directive text o => rfl
  | comment text o => rfl

theorem segment_of_handles {i : Instruction} (hmem : p ∈ ps) (hp : p.handles i.opcode = true)
    (k : Nat) :
    segment ps ns next k (.instruction i) =
      (Slot.replaced i (firstNumber ps ns next p k)).nodes := by
  simp only [segment, Pass.find?_handles_eq_some.mpr ⟨hmem, hp⟩, Slot.nodes]

theorem slots_eq_mapIdx (ps : Pipeline) (ns : List Node) (next : Nat) :
    slots ps ns next =
      ns.mapIdx fun k => Slot.following (cursors ns ps (fun _ => none) next) (ns.take k) :=
  Slot.layout_eq_mapIdx _ ns

/-- The slot of an instruction that a pass of the run handles. -/
theorem following_eq_replaced {i : Instruction} (hmem : p ∈ ps) (hp : p.handles i.opcode = true)
    (k : Nat) :
    Slot.following (cursors ns ps (fun _ => none) next) (ns.take k) (.instruction i) =
      .replaced i (firstNumber ps ns next p k) :=
  Slot.following_of_handles hp (cursors_eq_some hmem)

theorem nodes_following (ps : Pipeline) (ns : List Node) (next k : Nat) (n : Node) :
    (Slot.following (cursors ns ps (fun _ => none) next) (ns.take k) n).nodes =
      segment ps ns next k n := by
  by_cases hn : ∀ p ∈ ps, p.Keeps n
  · rw [segment_of_keeps hn, Slot.following_of_keeps]
    · rfl
    · intro p hp
      exact hn p (by simpa using cursors_ne_none.mp hp)
  · simp only [not_forall, Pass.not_keeps_iff] at hn
    obtain ⟨p, hmem, i, rfl, hp⟩ := hn
    rw [segment_of_handles hmem hp, following_eq_replaced hmem hp]

variable {out : List Node} {s s' : Supply}

/-- **The result of a run in closed form.**  The result is the concatenation of one segment for each
node of the listing, in order: the node itself, or the expansion of an instruction that a pass of
the run handles, numbered from its first number on.  These numbers are all numbers of temporaries,
so none of them wraps around. -/
theorem eq_segments_of_run (h : (run ps ns).runFrom s = (.ok out, s')) :
    out = (ns.mapIdx (segment ps ns s.next)).flatten ∧
      ∀ k i p, ns[k]? = some (.instruction i) → p ∈ ps → p.handles i.opcode = true →
        ∀ j < i.demand,
          (UInt32.ofNat (firstNumber ps ns s.next p k + j)).toNat =
            firstNumber ps ns s.next p k + j := by
  have hruns := runFrom_run_eq_ok.mp h
  constructor
  · obtain ⟨hout, -, -⟩ := hruns.eq_slots
    rw [hout, slots_eq_mapIdx, List.flatMap_def, List.mapIdx_eq_zipIdx_map, List.map_map,
      List.mapIdx_eq_zipIdx_map]
    refine congrArg List.flatten (List.map_congr_left fun place _ => ?_)
    exact nodes_following ps ns s.next place.2 place.1
  · intro k i p hk hmem hp j hj
    have hslot : .replaced i (firstNumber ps ns s.next p k) ∈ slots ps ns s.next := by
      rw [slots_eq_mapIdx, List.mem_iff_getElem?]
      refine ⟨k, ?_⟩
      rw [List.getElem?_mapIdx, hk, Option.map_some, following_eq_replaced hmem hp]
    have htaken : firstNumber ps ns s.next p k + j ∈
        (Slot.replaced i (firstNumber ps ns s.next p k)).taken :=
      List.mem_range'_1.mpr ⟨by omega, by omega⟩
    have hbound := (hruns.bounds_of_mem_taken hslot htaken).2
    have hcapacity : s'.next ≤ UInt32.size := s'.next_le
    exact UInt32.toNat_ofNat_of_lt (by omega)

/-- The bit test comes after the first multiplication and takes the lowest number, since its pass
runs first; the complement is of no pass that runs. -/
theorem eq_segments_of_run_interleaved :
    let multiply : Instruction :=
      ⟨.branchMulOverflow, [.register "a", .register "b", .label ".L"], ⟨"in.s", .onLine 1 1 15⟩⟩
    let flip : Instruction := ⟨.not .int, [.register "a"], ⟨"in.s", .onLine 2 1 6⟩⟩
    let test : Instruction :=
      ⟨.bitTest .set .quad .sign,
        [.register "a", .temporary ⟨4, .general, .synthetic⟩, .register "c"],
        ⟨"in.s", .onLine 3 1 15⟩⟩
    let ns : List Node :=
      [.instruction multiply, .instruction flip, .instruction test, .instruction multiply]
    let ps : Pipeline := [.bitTest, .mulOverflow, .bitTest]
    let s : Supply := .above (some 4)
    let expanded (i : Instruction) (first : Nat) : List Node :=
      (i.expansion fun j => .ofNat (first + j)).map .instruction
    let out : List Node :=
      expanded multiply 6 ++ [.instruction flip] ++ expanded test 5 ++ expanded multiply 8
    (run ps ns).runFrom s = (.ok out, s.skip 5 (by decide)) ∧
      out = (ns.mapIdx (segment ps ns 5)).flatten ∧
      firstNumber ps ns 5 .bitTest 2 = 5 ∧ firstNumber ps ns 5 .mulOverflow 3 = 8 := by
  intro multiply flip test ns ps s expanded out
  have hrun : (run ps ns).runFrom s = (.ok out, s.skip 5 (by decide)) := by
    decide +kernel
  exact ⟨hrun, (eq_segments_of_run hrun).1, by decide, by decide⟩

end Pipeline

end MacroAsm
