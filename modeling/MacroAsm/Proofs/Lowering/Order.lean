import MacroAsm.Proofs.Lowering.Assignment
import MacroAsm.Proofs.Lowering.Outcome
import Mathlib.Algebra.Group.End
import Mathlib.Algebra.GroupWithZero.Nat
import Mathlib.Data.List.NodupEquivFin

/-!
# The order of the passes

Which numbers an expansion gets depends on the order in which the passes run, and nothing else does.
Pipelines that run the same passes, in any order and with any repetitions, succeed together and take
the same number of temporaries, and what they make of a listing differs by a renumbering of the
temporaries that were taken.

The renumbering is read off the slots of the two results: they are the same but for the numbers, and
the numbers of either are all that were taken, each once.

## Main definitions

* `Node.renumber` — a node with the numbers of its temporaries replaced.
* `Slot.Alike` — slots that differ in numbers only.

## Main statements

* `Slot.map_renumber_flatMap_nodes` — renumbering what was taken turns alike slots into each other.
* `Pipeline.agenda_perm` — the same passes have the same instructions to replace.
* `Pipeline.renumbered_of_same_passes` — the same passes in another order.
-/

namespace MacroAsm

/-! ## Renumbering -/

/-- A temporary with its number replaced. -/
def Temporary.renumber (σ : UInt32 → UInt32) (t : Temporary) : Temporary :=
  { t with id := σ t.id }

/-- An operand with the number of its temporary, if it is one, replaced. -/
def Operand.renumber (σ : UInt32 → UInt32) : Operand → Operand
  | temporary t => temporary (t.renumber σ)
  | operand => operand

/-- An instruction with the numbers of its temporaries replaced. -/
def Instruction.renumber (σ : UInt32 → UInt32) (i : Instruction) : Instruction :=
  { i with operands := i.operands.map (Operand.renumber σ) }

/-- A node with the numbers of its temporaries replaced. -/
def Node.renumber (σ : UInt32 → UInt32) : Node → Node
  | instruction i => instruction (i.renumber σ)
  | node => node

namespace Instruction

variable {σ : UInt32 → UInt32} {i : Instruction}

theorem renumber_eq_of_mem_operands (hi : ∀ t ∈ i.temporaries, σ t.id = t.id) {o : Operand}
    (ho : o ∈ i.operands) : o.renumber σ = o := by
  cases o with
  | temporary t =>
      have ht : t ∈ i.temporaries := List.mem_filterMap.mpr ⟨_, ho, rfl⟩
      simp [Operand.renumber, Temporary.renumber, hi t ht]
  | register name => rfl
  | immediate value => rfl
  | label name => rfl
  | address text => rfl

theorem renumber_eq_self (hi : ∀ t ∈ i.temporaries, σ t.id = t.id) : i.renumber σ = i := by
  have hoperands : i.operands.map (Operand.renumber σ) = i.operands.map id :=
    List.map_congr_left fun o => renumber_eq_of_mem_operands hi
  simp [renumber, hoperands]

/-- A renumbering that leaves an instruction alone renumbers what was taken for its expansion. -/
theorem Expandable.map_renumber_expansion (hexp : i.Expandable)
    (hi : ∀ t ∈ i.temporaries, σ t.id = t.id) {ids ids' : Nat → UInt32}
    (hids : ∀ k < i.demand, σ (ids k) = ids' k) :
    (i.expansion ids).map (renumber σ) = i.expansion ids' := by
  have hoperand : ∀ o ∈ i.operands, o.renumber σ = o := fun o => renumber_eq_of_mem_operands hi
  have himmediate : ∀ v, Operand.renumber σ (.immediate v) = .immediate v := fun v => rfl
  have htaken : ∀ k < i.demand,
      Operand.renumber σ (.temporary ⟨ids k, .general, i.origin⟩) =
        .temporary ⟨ids' k, .general, i.origin⟩ := by
    intro k hk
    simp [Operand.renumber, Temporary.renumber, hids k hk]
  cases hexp with
  | not width x origin =>
      have hx := hoperand x (by simp)
      simp [expansion, replace, renumber, hx, himmediate]
  | mulOverflow a b target origin =>
      have ha := hoperand a (by simp)
      have hb := hoperand b (by simp)
      have htarget := hoperand target (by simp)
      have hupper := htaken 0 Nat.zero_lt_two
      have hsign := htaken 1 Nat.one_lt_two
      simp [expansion, replace, renumber, ha, hb, htarget, hupper, hsign, himmediate]
  | testOne form width condition value target origin =>
      have hvalue := hoperand value (by simp)
      have htarget := hoperand target (by simp)
      simp [expansion, replace, renumber, hvalue, htarget, himmediate]
  | testTwo form width condition left right target origin =>
      have hleft := hoperand left (by simp)
      have hright := hoperand right (by simp)
      have htarget := hoperand target (by simp)
      by_cases hmaskLeft : left.isImmediate (-1) = true
      · simp [expansion, replace, renumber, hmaskLeft, hright, htarget, himmediate]
      by_cases hmaskRight : right.isImmediate (-1) = true
      · simp [expansion, replace, renumber, hmaskLeft, hmaskRight, hleft, htarget, himmediate]
      have hmasked := htaken 0 (by simp [demand, hmaskLeft, hmaskRight])
      simp [expansion, replace, renumber, hmaskLeft, hmaskRight, hleft, hright, htarget, hmasked,
        himmediate]

end Instruction

theorem Node.renumber_eq_self {σ : UInt32 → UInt32} {n : Node}
    (hn : ∀ t ∈ Node.temporaries [n], σ t.id = t.id) : n.renumber σ = n := by
  cases n with
  | instruction i =>
      have hi : ∀ t ∈ i.temporaries, σ t.id = t.id := by
        intro t ht
        exact hn t (by simpa [Node.temporaries, Node.instruction?] using ht)
      rw [renumber, Instruction.renumber_eq_self hi]
  | label name o => rfl
  | directive text o => rfl
  | comment text o => rfl

/-! ## Slots that differ in numbers -/

namespace Slot

/-- Slots of one node that was kept in both or replaced in both. -/
def Alike : Slot → Slot → Prop
  | kept n, kept m => n = m
  | replaced i _, replaced j _ => i = j
  | _, _ => False

/-- The layouts of a listing are alike when the same passes ran. -/
theorem forall₂_alike_layout {c c' : Pass → Option Nat} (h : ∀ p, c p ≠ none ↔ c' p ≠ none)
    (ns : List Node) : List.Forall₂ Alike (layout c ns) (layout c' ns) := by
  induction ns generalizing c c' with
  | nil => exact .nil
  | cons n ns ih =>
      rcases keeps_or_handles c n with hn | ⟨p, i, start, rfl, hp, hc⟩
      · rw [layout_cons_of_keeps hn, layout_cons_of_keeps fun p hp => hn p ((h p).mpr hp)]
        exact .cons rfl (ih h)
      · have hne : c p ≠ none := by simp [hc]
        obtain ⟨start', hc'⟩ := Option.ne_none_iff_exists'.mp ((h p).mp hne)
        rw [layout_cons_of_handles hp hc, layout_cons_of_handles hp hc']
        refine .cons rfl (ih fun q => ?_)
        rw [update_ne_none hne, update_ne_none ((h p).mp hne), h q]

theorem length_taken_eq {slot slot' : Slot} (h : slot.Alike slot') :
    slot.taken.length = slot'.taken.length := by
  cases slot <;> cases slot' <;> simp_all [Alike, taken]

variable {σ : UInt32 → UInt32}

/-- Renumbering what was taken for a slot turns it into a slot that is alike. -/
theorem map_renumber_nodes {slot slot' : Slot} (h : slot.Alike slot')
    (hfix : ∀ t ∈ Node.temporaries [slot.input], σ t.id = t.id)
    (hexp : ∀ i start, slot = .replaced i start → i.Expandable)
    (htaken : slot.taken.map (fun n => σ (.ofNat n)) = slot'.taken.map .ofNat) :
    slot.nodes.map (Node.renumber σ) = slot'.nodes := by
  cases slot with
  | kept n =>
      cases slot' with
      | kept m =>
          obtain rfl : n = m := h
          have hn : n.renumber σ = n := Node.renumber_eq_self hfix
          simp [nodes, hn]
      | replaced j start => exact h.elim
  | replaced i start =>
      cases slot' with
      | kept m => exact h.elim
      | replaced j start' =>
          obtain rfl : i = j := h
          have hi : ∀ t ∈ i.temporaries, σ t.id = t.id := by
            intro t ht
            exact hfix t (by simpa [input, Node.temporaries, Node.instruction?] using ht)
          have hids : ∀ k < i.demand, σ (.ofNat (start + k)) = .ofNat (start' + k) := by
            intro k hk
            have := congrArg (·[k]?) htaken
            simpa [taken, hk] using this
          have hexpansion := (hexp i start rfl).map_renumber_expansion hi hids
          have hcomp : Node.renumber σ ∘ Node.instruction =
              Node.instruction ∘ Instruction.renumber σ := rfl
          rw [nodes, nodes, List.map_map, hcomp, ← List.map_map, hexpansion]

/-- Renumbering what was taken turns slots into slots that are alike. -/
theorem map_renumber_flatMap_nodes {slots slots' : List Slot} (h : List.Forall₂ Alike slots slots')
    (hfix : ∀ slot ∈ slots, ∀ t ∈ Node.temporaries [slot.input], σ t.id = t.id)
    (hexp : ∀ i start, .replaced i start ∈ slots → i.Expandable)
    (htaken : (slots.flatMap taken).map (fun n => σ (.ofNat n)) =
      (slots'.flatMap taken).map .ofNat) :
    (slots.flatMap nodes).map (Node.renumber σ) = slots'.flatMap nodes := by
  induction h with
  | nil => rfl
  | @cons slot slot' slots slots' hslot hslots ih =>
      simp only [List.flatMap_cons, List.map_append] at htaken ⊢
      obtain ⟨hfirst, hrest⟩ := List.append_inj htaken (by simpa using length_taken_eq hslot)
      have hnodes := map_renumber_nodes hslot (hfix slot List.mem_cons_self)
        (fun i start heq => hexp i start (heq ▸ List.mem_cons_self)) hfirst
      have htail := ih (fun slot hmem => hfix slot (List.mem_cons_of_mem _ hmem))
        (fun i start hmem => hexp i start (List.mem_cons_of_mem _ hmem)) hrest
      rw [hnodes, htail]

end Slot

/-! ## The permutation between two lists of numbers -/

/-- Lists that hold the same elements, each once, are matched place by place by a permutation that
moves nothing else. -/
theorem exists_perm_map_eq {α : Type} [DecidableEq α] {as bs : List α} (has : as.Nodup)
    (h : as.Perm bs) :
    ∃ σ : Equiv.Perm α, (∀ a ∉ as, σ a = a) ∧ as.map σ = bs := by
  have hbs : bs.Nodup := h.nodup_iff.mp has
  let place : { a // a ∈ as } ≃ Fin as.length := (has.getEquiv as).symm
  let partner : Fin as.length ≃ { a // a ∈ as } :=
    (finCongr h.length_eq).trans
      ((hbs.getEquiv bs).trans (Equiv.subtypeEquivRight fun _ => h.mem_iff.symm))
  refine ⟨Equiv.Perm.ofSubtype (place.trans partner), ?_, ?_⟩
  · intro a ha
    exact Equiv.Perm.ofSubtype_apply_of_not_mem _ ha
  · refine List.ext_getElem (by simpa using h.length_eq) ?_
    intro k hk hk'
    have hk : k < as.length := by simpa using hk
    rw [List.getElem_map, Equiv.Perm.ofSubtype_apply_of_mem _ (List.getElem_mem hk)]
    have hplace : place ⟨as[k], List.getElem_mem hk⟩ = ⟨k, hk⟩ :=
      (has.getEquiv as).symm_apply_apply ⟨k, hk⟩
    rw [Equiv.trans_apply, hplace]
    rfl

namespace Pipeline

variable {ps qs : Pipeline} {ns out out' : List Node} {s s' s₁ s₂ : Supply}

/-! ## The agendas of the same passes -/

theorem nodup_eraseDups (ps : List Pass) : ps.eraseDups.Nodup := by
  cases ps with
  | nil => exact List.nodup_nil
  | cons p ps =>
      rw [List.eraseDups_cons, List.nodup_cons]
      exact ⟨by simp, nodup_eraseDups (ps.filter fun q => !q == p)⟩
termination_by ps.length
decreasing_by exact Nat.lt_succ_of_le (List.length_filter_le _ _)

/-- The same passes have the same instructions to replace, in some order. -/
theorem agenda_perm (h : ∀ p, p ∈ ps ↔ p ∈ qs) (ns : List Node) :
    (agenda ps ns).Perm (agenda qs ns) := by
  refine List.Perm.flatMap_right _ ?_
  rw [List.perm_ext_iff_of_nodup (nodup_eraseDups ps) (nodup_eraseDups qs)]
  simpa using h

theorem totalDemand_eq_sum (entries : List (Pass × Instruction)) :
    totalDemand entries = (entries.map fun entry => entry.2.demand).sum := by
  induction entries with
  | nil => rfl
  | cons entry entries ih => rw [totalDemand_cons, ih, List.map_cons, List.sum_cons]

/-- An agenda succeeds when every entry has a right number of operands and all find their
temporaries, and its order does not matter then. -/
theorem settle_eq_none_of_perm {entries entries' : List (Pass × Instruction)}
    (h : entries.Perm entries') (hsettle : settle entries s = (none, s')) :
    settle entries' s = (none, s') := by
  have hdemand : totalDemand entries = totalDemand entries' := by
    rw [totalDemand_eq_sum, totalDemand_eq_sum]
    exact (h.map _).sum_nat
  by_cases hentries : (∀ entry ∈ entries, accepted entry = true) ∧
      s.next + totalDemand entries ≤ Supply.capacity
  · obtain ⟨haccepted, hfit⟩ := hentries
    have haccepted' : ∀ entry ∈ entries', accepted entry = true :=
      fun entry hentry => haccepted entry (h.mem_iff.mpr hentry)
    rw [settle_of_accepted haccepted hfit] at hsettle
    rw [settle_of_accepted haccepted' (hdemand ▸ hfit), ← hsettle]
    simp only [hdemand]
  · obtain ⟨_, _, _, _, _, _, _, ⟨_, hend⟩ | ⟨_, _, hend⟩⟩ := exists_first_failure hentries
    · simp [hend] at hsettle
    · simp [hend] at hsettle

/-- A run that succeeds does so with the passes in any other order, and takes as much. -/
theorem exists_run_of_same_passes (h : ∀ p, p ∈ ps ↔ p ∈ qs)
    (hrun : (run ps ns).runFrom s = (.ok out, s')) :
    ∃ out', (run qs ns).runFrom s = (.ok out', s') := by
  have houtcome : settle (agenda ps ns) s = (none, s') := by
    rw [← outcome_run, hrun]
    rfl
  rw [← LowerM.outcome_eq_none, outcome_run]
  exact settle_eq_none_of_perm (agenda_perm h ns) houtcome

/-! ## The results of the same passes -/

/-- A number in the slots of a run is that of a temporary, and was not in use before. -/
theorem Runs.toNat_ofNat_of_mem_taken (h : Runs ps ns s out s') {n : Nat}
    (hn : n ∈ (slots ps ns s.next).flatMap Slot.taken) :
    (UInt32.ofNat n).toNat = n ∧ s.next ≤ n := by
  have hrange := List.mem_range'_1.mp (h.eq_slots.2.1.mem_iff.mp hn)
  have hle := h.next_le_next
  have hcapacity : s'.next ≤ UInt32.size := s'.next_le
  exact ⟨UInt32.toNat_ofNat_of_lt (by omega), hrange.1⟩

/-- The numbers in the slots of a run, as the temporaries have them, are all different. -/
theorem Runs.nodup_taken (h : Runs ps ns s out s') :
    (((slots ps ns s.next).flatMap Slot.taken).map UInt32.ofNat).Nodup := by
  refine List.Nodup.map_on ?_ (h.eq_slots.2.1.nodup_iff.mpr List.nodup_range')
  intro m hm n hn heq
  rw [← (h.toNat_ofNat_of_mem_taken hm).1, ← (h.toNat_ofNat_of_mem_taken hn).1, heq]

/-- The results of the same passes differ by a renumbering of what was taken. -/
theorem Runs.exists_renumber_eq (hsame : ∀ p, p ∈ ps ↔ p ∈ qs)
    (hns : ∀ t ∈ Node.temporaries ns, t.id.toNat < s.next) (h : Runs ps ns s out s')
    (h' : Runs qs ns s out' s') :
    ∃ σ : Equiv.Perm UInt32, (∀ id, id.toNat < s.next → σ id = id) ∧
      out' = out.map (Node.renumber σ) := by
  obtain ⟨rfl, hperm, hexp⟩ := h.eq_slots
  obtain ⟨rfl, hperm', _⟩ := h'.eq_slots
  obtain ⟨σ, hfix, hmap⟩ :=
    exists_perm_map_eq h.nodup_taken ((hperm.trans hperm'.symm).map UInt32.ofNat)
  have hlow : ∀ id : UInt32, id.toNat < s.next → σ id = id := by
    intro id hid
    refine hfix id fun hmem => ?_
    obtain ⟨n, hn, rfl⟩ := List.mem_map.mp hmem
    obtain ⟨heq, hle⟩ := h.toNat_ofNat_of_mem_taken hn
    omega
  have halike : List.Forall₂ Slot.Alike (slots ps ns s.next) (slots qs ns s.next) := by
    refine Slot.forall₂_alike_layout (fun p => ?_) ns
    simp only [cursors_ne_none, hsame p]
  refine ⟨σ, hlow, (Slot.map_renumber_flatMap_nodes halike ?_ hexp ?_).symm⟩
  · intro slot hslot t ht
    exact hlow t.id (hns t (Runs.mem_temporaries_of_mem_input hslot ht))
  · rw [← hmap, List.map_map]
    rfl

/-- **The order of the passes.**  Two pipelines that run the same passes, in any order and with any
repetitions, succeed on the same listings and supplies.  When they do, they leave the same supply,
and the two results differ by a permutation of the temporaries' numbers that moves none of those
below the supply.  The numbers in the listing have to be among these, which is no condition on a
supply that is exhausted. -/
theorem renumbered_of_same_passes (hsame : ∀ p, p ∈ ps ↔ p ∈ qs)
    (hns : s.next < Supply.capacity → ∀ t ∈ Node.temporaries ns, t.id.toNat < s.next) :
    ((∃ out s', (run ps ns).runFrom s = (.ok out, s')) ↔
        ∃ out s', (run qs ns).runFrom s = (.ok out, s')) ∧
      ∀ out out' s₁ s₂, (run ps ns).runFrom s = (.ok out, s₁) →
        (run qs ns).runFrom s = (.ok out', s₂) →
          s₁ = s₂ ∧ ∃ σ : Equiv.Perm UInt32, (∀ id, id.toNat < s.next → σ id = id) ∧
            out' = out.map (Node.renumber σ) := by
  have hbelow : ∀ t ∈ Node.temporaries ns, t.id.toNat < s.next := by
    intro t ht
    by_cases hleft : s.next < Supply.capacity
    · exact hns hleft t ht
    · have hid : t.id.toNat < Supply.capacity := t.id.toNat_lt
      omega
  refine ⟨⟨?_, ?_⟩, ?_⟩
  · rintro ⟨out, s', hrun⟩
    obtain ⟨out', hrun'⟩ := exists_run_of_same_passes hsame hrun
    exact ⟨out', s', hrun'⟩
  · rintro ⟨out, s', hrun⟩
    obtain ⟨out', hrun'⟩ := exists_run_of_same_passes (fun p => (hsame p).symm) hrun
    exact ⟨out', s', hrun'⟩
  · intro out out' s₁ s₂ hrun hrun'
    obtain ⟨again, hagain⟩ := exists_run_of_same_passes hsame hrun
    obtain ⟨-, rfl⟩ := Prod.mk.inj (hagain.symm.trans hrun')
    exact ⟨rfl, (runFrom_run_eq_ok.mp hrun).exists_renumber_eq hsame hbelow
      (runFrom_run_eq_ok.mp hrun')⟩

/-- A multiplication and a bit test: the pass that runs first takes the lower numbers. -/
theorem renumbered_of_same_passes_swap :
    let multiply : Instruction :=
      ⟨.branchMulOverflow, [.register "a", .register "b", .label ".L"], ⟨"in.s", .onLine 1 1 15⟩⟩
    let test : Instruction :=
      ⟨.bitTest .set .quad .sign,
        [.register "a", .temporary ⟨4, .general, .synthetic⟩, .register "c"],
        ⟨"in.s", .onLine 2 1 15⟩⟩
    let ns : List Node := [.instruction multiply, .instruction test]
    let s : Supply := .above (some 4)
    let result (first second : Nat) : List Node :=
      (multiply.expansion fun k => .ofNat (first + k)).map .instruction ++
        (test.expansion fun k => .ofNat (second + k)).map .instruction
    (run [.mulOverflow, .bitTest] ns).runFrom s = (.ok (result 5 7), s.skip 3 (by decide)) ∧
      (run [.bitTest, .mulOverflow, .bitTest] ns).runFrom s =
        (.ok (result 6 5), s.skip 3 (by decide)) ∧
      ∃ σ : Equiv.Perm UInt32, (∀ id, id.toNat < 5 → σ id = id) ∧
        result 6 5 = (result 5 7).map (Node.renumber σ) := by
  intro multiply test ns s result
  have hrun : (run [.mulOverflow, .bitTest] ns).runFrom s =
      (.ok (result 5 7), s.skip 3 (by decide)) := by
    decide +kernel
  have hrun' : (run [.bitTest, .mulOverflow, .bitTest] ns).runFrom s =
      (.ok (result 6 5), s.skip 3 (by decide)) := by
    decide +kernel
  have hsame : ∀ p : Pass, p ∈ [.mulOverflow, .bitTest] ↔ p ∈ [.bitTest, .mulOverflow, .bitTest] := by
    intro p
    cases p <;> decide
  have hrenumbered := @renumbered_of_same_passes _ _ ns s hsame fun _ => by decide
  exact ⟨hrun, hrun', (hrenumbered.2 _ _ _ _ hrun hrun').2⟩

end Pipeline

end MacroAsm
