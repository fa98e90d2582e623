import MacroAsm.Proofs.Lowering.FixedPoint
import MacroAsm.Proofs.Lowering.Layout

/-!
# Fresh temporaries are assigned once

The numbers that a run takes are exactly those above the numbers of the listing it started from, as
many as it took, and each of them stands at two places of the result.  The first is the last operand
of a mask or a shift, which defines the temporary; the second is a source operand of the comparison
that ends the same expansion.

## Main definitions

* `Node.HasAt` — a number stands at a place of a listing.
* `Lifetime` — the two places of a temporary.

## Main statements

* `Instruction.Expandable.exists_lifetime` — the temporaries of one expansion.
* `Pipeline.Runs.exists_lifetime` — the temporaries of a run.
* `assigned_once_of_lowerSource` — the temporaries of a lowered text.
-/

namespace MacroAsm

/-! ## Places of temporaries -/

namespace Node

/-- A temporary numbered `id`, of either class, stands at a place of a listing: a line, and a
position among the operands of the instruction on it. -/
def HasAt (nodes : List Node) (id : UInt32) (place : Nat × Nat) : Prop :=
  ∃ i t, nodes[place.1]? = some (.instruction i) ∧
    i.operands[place.2]? = some (.temporary t) ∧ t.id = id

theorem mem_temporaries {nodes : List Node} {t : Temporary} :
    t ∈ temporaries nodes ↔ ∃ i, .instruction i ∈ nodes ∧ t ∈ i.temporaries := by
  simp only [temporaries, List.mem_flatMap, List.mem_filterMap]
  constructor
  · rintro ⟨i, ⟨node, hnode, hi⟩, ht⟩
    cases node with
    | instruction j =>
        obtain rfl : j = i := by simpa [instruction?] using hi
        exact ⟨j, hnode, ht⟩
    | label name o => simp [instruction?] at hi
    | directive text o => simp [instruction?] at hi
    | comment text o => simp [instruction?] at hi
  · rintro ⟨i, hi, ht⟩
    exact ⟨i, ⟨_, hi, rfl⟩, ht⟩

variable {as bs nodes : List Node} {id : UInt32} {place : Nat × Nat}

theorem HasAt.exists_mem_temporaries (h : HasAt nodes id place) :
    ∃ t ∈ temporaries nodes, t.id = id := by
  obtain ⟨i, t, hline, hoperand, hid⟩ := h
  refine ⟨t, mem_temporaries.mpr ⟨i, List.mem_of_getElem? hline, ?_⟩, hid⟩
  exact List.mem_filterMap.mpr ⟨_, List.mem_of_getElem? hoperand, rfl⟩

theorem HasAt.of_append (h : HasAt (as ++ bs) id place) :
    HasAt as id place ∨ as.length ≤ place.1 ∧ HasAt bs id (place.1 - as.length, place.2) := by
  obtain ⟨i, t, hline, hoperand, hid⟩ := h
  by_cases hlt : place.1 < as.length
  · rw [List.getElem?_append_left hlt] at hline
    exact .inl ⟨i, t, hline, hoperand, hid⟩
  · rw [List.getElem?_append_right (by omega)] at hline
    exact .inr ⟨by omega, i, t, hline, hoperand, hid⟩

end Node

/-- The two places of a temporary: the last operand of a mask or a shift, which defines it, and on a
later line the first or the second operand of a comparison, which uses it.  Its number stands at no
other place. -/
structure Lifetime (nodes : List Node) (t : Temporary) (definition use : Nat × Nat) : Prop where
  definition_lt_use : definition.1 < use.1
  defines : ∃ i, nodes[definition.1]? = some (.instruction i) ∧
    (∃ width, i.opcode = .and width ∨ i.opcode = .rightShift width) ∧
    definition.2 + 1 = i.operands.length ∧ i.operands[definition.2]? = some (.temporary t)
  uses : ∃ i, nodes[use.1]? = some (.instruction i) ∧
    (∃ form width comparison, i.opcode = .compare form width comparison) ∧
    use.2 < 2 ∧ i.operands[use.2]? = some (.temporary t)
  eq_or_eq : ∀ place, Node.HasAt nodes t.id place → place = definition ∨ place = use

/-- A temporary keeps its places, moved by what stands before it, when its number stands nowhere
else. -/
theorem Lifetime.append {before segment after : List Node} {t : Temporary}
    {definition use : Nat × Nat} (h : Lifetime segment t definition use)
    (hbefore : ∀ t' ∈ Node.temporaries before, t'.id ≠ t.id)
    (hafter : ∀ t' ∈ Node.temporaries after, t'.id ≠ t.id) :
    Lifetime (before ++ (segment ++ after)) t (before.length + definition.1, definition.2)
      (before.length + use.1, use.2) := by
  have hline : ∀ {line : Nat} {node : Node}, segment[line]? = some node →
      (before ++ (segment ++ after))[before.length + line]? = some node := by
    intro line node hnode
    have hlt := (List.getElem?_eq_some_iff.mp hnode).1
    rw [List.getElem?_append_right (by omega), Nat.add_sub_cancel_left,
      List.getElem?_append_left hlt, hnode]
  obtain ⟨i, hi, hdefines⟩ := h.defines
  obtain ⟨j, hj, huses⟩ := h.uses
  refine ⟨Nat.add_lt_add_left h.definition_lt_use _, ⟨i, hline hi, hdefines⟩,
    ⟨j, hline hj, huses⟩, ?_⟩
  intro place hplace
  rcases hplace.of_append with hplace | ⟨hle, hplace⟩
  · obtain ⟨t', ht', hid⟩ := hplace.exists_mem_temporaries
    exact absurd hid (hbefore t' ht')
  · rcases hplace.of_append with hplace | ⟨-, hplace⟩
    · have hmoved : place = (before.length + (place.1 - before.length), place.2) := by
        rw [Nat.add_sub_cancel' hle]
      rcases h.eq_or_eq _ hplace with heq | heq
      · left
        rw [hmoved, ← heq]
      · right
        rw [hmoved, ← heq]
    · obtain ⟨t', ht', hid⟩ := hplace.exists_mem_temporaries
      exact absurd hid (hafter t' ht')

/-! ## The temporaries of one expansion -/

namespace Instruction

/-- The places of an expanded multiplication that do not hold an operand of its own. -/
theorem place_of_hasAt_mulOverflow {a b target : Operand} {origin : Origin} {ids : Nat → UInt32}
    {id : UInt32} {place : Nat × Nat}
    (hown : ∀ t : Temporary, t.id = id → .temporary t ∉ [a, b, target])
    (h : Node.HasAt ((expansion ⟨.branchMulOverflow, [a, b, target], origin⟩ ids).map .instruction)
      id place) :
    (id = ids 0 ∧ (place = (1, 2) ∨ place = (4, 0))) ∨
      (id = ids 1 ∧ (place = (2, 2) ∨ place = (4, 1))) := by
  obtain ⟨line, slot⟩ := place
  obtain ⟨i, t, hline, hoperand, hid⟩ := h
  have hne := hown t hid
  simp only [List.mem_cons, List.not_mem_nil, not_or] at hne
  -- five lines of at most three operands
  rcases line with _ | _ | _ | _ | _ | line <;>
    simp [expansion, replace] at hline <;> subst hline <;>
    rcases slot with _ | _ | _ | slot <;> simp at hoperand ⊢ <;> grind

/-- The places of an expanded test of two values that do not hold an operand of its own. -/
theorem place_of_hasAt_testTwo {form : Form} {width : Width} {condition : TestCondition}
    {left right target : Operand} {origin : Origin} {ids : Nat → UInt32} {id : UInt32}
    {place : Nat × Nat} (hleft : left.isImmediate (-1) = false)
    (hright : right.isImmediate (-1) = false)
    (hown : ∀ t : Temporary, t.id = id → .temporary t ∉ [left, right, target])
    (h : Node.HasAt ((expansion ⟨.bitTest form width condition, [left, right, target], origin⟩
      ids).map .instruction) id place) :
    id = ids 0 ∧ (place = (0, 2) ∨ place = (1, 0)) := by
  obtain ⟨line, slot⟩ := place
  obtain ⟨i, t, hline, hoperand, hid⟩ := h
  have hne := hown t hid
  simp only [List.mem_cons, List.not_mem_nil, not_or] at hne
  rcases line with _ | _ | line <;>
    simp [expansion, replace, hleft, hright] at hline <;> subst hline <;>
    rcases slot with _ | _ | _ | slot <;> simp at hoperand ⊢ <;> grind

/-- A temporary that is taken for an instruction, and is none of its own, is defined and used once
in the expansion; the use is in the last instruction. -/
theorem Expandable.exists_lifetime {i : Instruction} (hi : i.Expandable) {ids : Nat → UInt32}
    {k : Nat} (hk : k < i.demand) (hids : ∀ j < i.demand, ids j = ids k → j = k)
    (hown : ∀ t ∈ i.temporaries, t.id ≠ ids k) :
    ∃ definition use, Lifetime ((i.expansion ids).map .instruction) ⟨ids k, .general, i.origin⟩
      definition use ∧ use.1 + 1 = (i.expansion ids).length := by
  have hoperands : ∀ t : Temporary, t.id = ids k → .temporary t ∉ i.operands := by
    intro t ht hmem
    exact hown t (List.mem_filterMap.mpr ⟨_, hmem, rfl⟩) ht
  cases hi with
  | not width x origin => simp [demand] at hk
  | testOne form width condition value target origin => simp [demand] at hk
  | mulOverflow a b target origin =>
      simp only [demand] at hk hids
      have hk : k = 0 ∨ k = 1 := by omega
      rcases hk with rfl | rfl
      · refine ⟨(1, 2), (4, 0), ⟨by decide, ⟨_, rfl, ⟨_, .inr rfl⟩, rfl, rfl⟩,
          ⟨_, rfl, ⟨_, _, _, rfl⟩, by decide, rfl⟩, ?_⟩, rfl⟩
        intro place hplace
        rcases place_of_hasAt_mulOverflow hoperands hplace with ⟨-, hplaces⟩ | ⟨heq, -⟩
        · exact hplaces
        · exact absurd (hids 1 (by decide) heq.symm) (by decide)
      · refine ⟨(2, 2), (4, 1), ⟨by decide, ⟨_, rfl, ⟨_, .inr rfl⟩, rfl, rfl⟩,
          ⟨_, rfl, ⟨_, _, _, rfl⟩, by decide, rfl⟩, ?_⟩, rfl⟩
        intro place hplace
        rcases place_of_hasAt_mulOverflow hoperands hplace with ⟨heq, -⟩ | ⟨-, hplaces⟩
        · exact absurd (hids 0 (by decide) heq.symm) (by decide)
        · exact hplaces
  | testTwo form width condition left right target origin =>
      by_cases hmask : (left.isImmediate (-1) || right.isImmediate (-1)) = true
      · simp [demand, hmask] at hk
      · simp only [Bool.or_eq_true, not_or, Bool.not_eq_true] at hmask
        obtain ⟨hleft, hright⟩ := hmask
        obtain rfl : k = 0 := by simpa [demand, hleft, hright] using hk
        obtain ⟨w, hw⟩ : ∃ w, Opcode.maskOf width = .and w := by
          cases width <;> exact ⟨_, rfl⟩
        refine ⟨(0, 2), (1, 0), ⟨by decide, ?_, ?_, ?_⟩, by simp [expansion, hleft, hright]⟩
        · simp [expansion, replace, hleft, hright, hw]
        · simp [expansion, replace, hleft, hright, Opcode.zeroCompareOf]
        · intro place hplace
          exact (place_of_hasAt_testTwo hleft hright hoperands hplace).2

end Instruction

/-! ## The temporaries of a run -/

namespace Slot

/-- A temporary in the place of a node is one of the node or has a number that was taken for it. -/
theorem mem_temporaries_nodes {slot : Slot} {t : Temporary}
    (hexpandable : ∀ i start, slot = replaced i start → i.Expandable)
    (hcapacity : ∀ n ∈ slot.taken, n < Supply.capacity)
    (ht : t ∈ Node.temporaries slot.nodes) :
    t ∈ Node.temporaries [slot.input] ∨ t.id.toNat ∈ slot.taken := by
  cases slot with
  | kept n => exact .inl ht
  | replaced i start =>
      obtain ⟨j, hj, ht⟩ := Node.mem_temporaries.mp ht
      obtain ⟨_, hj, ⟨⟩⟩ := List.mem_map.mp hj
      rcases ((hexpandable i start rfl).emitted hj).temporaries ht with ht | ⟨k, hk, rfl⟩
      · exact .inl (Node.mem_temporaries.mpr ⟨i, List.mem_singleton.mpr rfl, ht⟩)
      · have hmem : start + k ∈ (replaced i start).taken :=
          List.mem_range'_1.mpr ⟨by omega, by omega⟩
        have hnat : (UInt32.ofNat (start + k)).toNat = start + k :=
          UInt32.toNat_ofNat_of_lt (hcapacity _ hmem)
        right
        change (UInt32.ofNat (start + k)).toNat ∈ _
        rwa [hnat]

/-- A number that was taken for an instruction, and is above those of the instruction, has its two
places in the expansion. -/
theorem exists_lifetime {i : Instruction} {start : Nat} {id : UInt32} (hi : i.Expandable)
    (hcapacity : start + i.demand ≤ Supply.capacity) (hstart : start ≤ id.toNat)
    (hend : id.toNat < start + i.demand) (hown : ∀ t ∈ i.temporaries, t.id ≠ id) :
    ∃ definition use, Lifetime (replaced i start).nodes ⟨id, .general, i.origin⟩ definition use ∧
      use.1 + 1 = (replaced i start).nodes.length := by
  have hid : UInt32.ofNat (start + (id.toNat - start)) = id := by
    rw [Nat.add_sub_cancel' hstart, UInt32.ofNat_toNat]
  have hids : ∀ j < i.demand, UInt32.ofNat (start + j) =
      UInt32.ofNat (start + (id.toNat - start)) → j = id.toNat - start := by
    intro j hj heq
    have hnat : (UInt32.ofNat (start + j)).toNat = start + j :=
      UInt32.toNat_ofNat_of_lt (show start + j < Supply.capacity by omega)
    rw [heq, hid] at hnat
    omega
  obtain ⟨definition, use, hlife, huse⟩ := hi.exists_lifetime (by omega) hids (by rwa [hid])
  rw [hid] at hlife
  exact ⟨definition, use, hlife, by simpa [nodes] using huse⟩

end Slot

namespace Pipeline.Runs

variable {ps : Pipeline} {ns out : List Node} {s s' : Supply}

/-- The numbers in the slots are those that the run took. -/
theorem bounds_of_mem_taken (h : Runs ps ns s out s') {slot : Slot} {n : Nat}
    (hslot : slot ∈ slots ps ns s.next) (hn : n ∈ slot.taken) : s.next ≤ n ∧ n < s'.next := by
  obtain ⟨_, hperm, _⟩ := h.eq_slots
  have hmem := hperm.mem_iff.mp (List.mem_flatMap.mpr ⟨slot, hslot, hn⟩)
  have := List.mem_range'_1.mp hmem
  have := h.next_le_next
  omega

/-- A temporary in the place of a node is one of the node or was taken for it. -/
theorem mem_temporaries_nodes (h : Runs ps ns s out s') {slot : Slot} {t : Temporary}
    (hslot : slot ∈ slots ps ns s.next) (ht : t ∈ Node.temporaries slot.nodes) :
    t ∈ Node.temporaries [slot.input] ∨ t.id.toNat ∈ slot.taken := by
  obtain ⟨_, _, hexpandable⟩ := h.eq_slots
  refine Slot.mem_temporaries_nodes ?_ ?_ ht
  · rintro i start rfl
    exact hexpandable i start hslot
  · intro n hn
    have := h.bounds_of_mem_taken hslot hn
    have := s'.next_le
    omega

theorem mem_temporaries_of_mem_input {next : Nat} {slot : Slot} {t : Temporary}
    (hslot : slot ∈ slots ps ns next) (ht : t ∈ Node.temporaries [slot.input]) :
    t ∈ Node.temporaries ns := by
  obtain ⟨i, hi, ht⟩ := Node.mem_temporaries.mp ht
  refine Node.mem_temporaries.mpr ⟨i, ?_, ht⟩
  rw [List.mem_singleton.mp hi, ← map_input_slots ps ns next]
  exact List.mem_map_of_mem hslot

/-- A number that is not taken for a node, and is above those of the listing, does not stand in the
place of the node. -/
theorem id_ne_of_notMem_taken (h : Runs ps ns s out s')
    (hsource : ∀ t ∈ Node.temporaries ns, t.id.toNat < s.next) {slot : Slot} {id : UInt32}
    (hslot : slot ∈ slots ps ns s.next) (hlow : s.next ≤ id.toNat) (hid : id.toNat ∉ slot.taken) :
    ∀ t ∈ Node.temporaries slot.nodes, t.id ≠ id := by
  rintro t ht rfl
  rcases h.mem_temporaries_nodes hslot ht with hinput | htaken
  · have := hsource t (mem_temporaries_of_mem_input hslot hinput)
    omega
  · exact hid htaken

theorem mem_temporaries_flatMap_nodes {slots : List Slot} {t : Temporary} :
    t ∈ Node.temporaries (slots.flatMap Slot.nodes) ↔
      ∃ slot ∈ slots, t ∈ Node.temporaries slot.nodes := by
  simp only [Node.mem_temporaries, List.mem_flatMap]
  constructor
  · rintro ⟨i, ⟨slot, hslot, hi⟩, ht⟩
    exact ⟨slot, hslot, i, hi, ht⟩
  · rintro ⟨slot, hslot, i, hi, ht⟩
    exact ⟨i, ⟨slot, hslot, hi⟩, ht⟩

/-- A number above those of the listing that stands in the result was taken by the run. -/
theorem lt_next_of_mem_temporaries (h : Runs ps ns s out s')
    (hsource : ∀ t ∈ Node.temporaries ns, t.id.toNat < s.next) {t : Temporary}
    (ht : t ∈ Node.temporaries out) (hlow : s.next ≤ t.id.toNat) : t.id.toNat < s'.next := by
  obtain ⟨hout, _, _⟩ := h.eq_slots
  rw [hout] at ht
  obtain ⟨slot, hslot, ht⟩ := mem_temporaries_flatMap_nodes.mp ht
  by_contra hnot
  refine h.id_ne_of_notMem_taken hsource hslot hlow ?_ t ht rfl
  intro hn
  exact hnot (h.bounds_of_mem_taken hslot hn).2

/-- The slot of a number that a run took, and that no other slot has it. -/
theorem exists_slot_of_taken (h : Runs ps ns s out s') {n : Nat} (hlow : s.next ≤ n)
    (hhigh : n < s'.next) :
    ∃ before i start after, slots ps ns s.next = before ++ .replaced i start :: after ∧
      start ≤ n ∧ n < start + i.demand ∧ ∀ slot ∈ before ++ after, n ∉ slot.taken := by
  obtain ⟨_, hperm, _⟩ := h.eq_slots
  have hmem : n ∈ (slots ps ns s.next).flatMap Slot.taken := by
    rw [hperm.mem_iff, List.mem_range'_1]
    omega
  have hnodup : ((slots ps ns s.next).flatMap Slot.taken).Nodup :=
    hperm.nodup_iff.mpr List.nodup_range'
  obtain ⟨slot, hslot, hn⟩ := List.mem_flatMap.mp hmem
  obtain ⟨before, after, hsplit⟩ := List.append_of_mem hslot
  cases slot with
  | kept node => simp [Slot.taken] at hn
  | replaced i start =>
      refine ⟨before, i, start, after, hsplit, (List.mem_range'_1.mp hn).1,
        (List.mem_range'_1.mp hn).2, ?_⟩
      intro other hother hn'
      rw [hsplit, List.flatMap_append, List.flatMap_cons, List.nodup_append,
        List.nodup_append] at hnodup
      obtain ⟨-, ⟨-, -, hafter⟩, hbefore⟩ := hnodup
      rcases List.mem_append.mp hother with hother | hother
      · exact hbefore n (List.mem_flatMap.mpr ⟨other, hother, hn'⟩) n
          (List.mem_append_left _ hn) rfl
      · exact hafter n hn n (List.mem_flatMap.mpr ⟨other, hother, hn'⟩) rfl

/-- Each number that a run took has one definition and, in the last instruction of the same
expansion, one use. -/
theorem exists_lifetime (h : Runs ps ns s out s')
    (hsource : ∀ t ∈ Node.temporaries ns, t.id.toNat < s.next) {id : UInt32}
    (hlow : s.next ≤ id.toNat) (hhigh : id.toNat < s'.next) :
    ∃ before i start after definition use,
      slots ps ns s.next = before ++ .replaced i start :: after ∧
      Lifetime out ⟨id, .general, i.origin⟩ definition use ∧
      (before.flatMap Slot.nodes).length ≤ definition.1 ∧
      use.1 + 1 = (before.flatMap Slot.nodes ++ (Slot.replaced i start).nodes).length := by
  obtain ⟨hout, _, hexpandable⟩ := h.eq_slots
  obtain ⟨before, i, start, after, hsplit, hstart, hend, hother⟩ :=
    h.exists_slot_of_taken hlow hhigh
  have hmem : ∀ slot ∈ before ++ after, slot ∈ slots ps ns s.next := by
    intro slot hslot
    rw [hsplit]
    rcases List.mem_append.mp hslot with hslot | hslot
    · exact List.mem_append_left _ hslot
    · exact List.mem_append_right _ (List.mem_cons_of_mem _ hslot)
  have hslot : .replaced i start ∈ slots ps ns s.next := by
    rw [hsplit]
    exact List.mem_append_right _ List.mem_cons_self
  have houtside : ∀ part ⊆ before ++ after,
      ∀ t ∈ Node.temporaries (part.flatMap Slot.nodes), t.id ≠ id := by
    intro part hpart t ht
    obtain ⟨slot, hslot, ht⟩ := mem_temporaries_flatMap_nodes.mp ht
    exact h.id_ne_of_notMem_taken hsource (hmem slot (hpart hslot)) hlow
      (hother slot (hpart hslot)) t ht
  have hcapacity : start + i.demand ≤ Supply.capacity := by
    have hlast : start + i.demand - 1 ∈ (Slot.replaced i start).taken :=
      List.mem_range'_1.mpr ⟨by omega, by omega⟩
    have := h.bounds_of_mem_taken hslot hlast
    have := s'.next_le
    omega
  have hown : ∀ t ∈ i.temporaries, t.id ≠ id := by
    rintro t ht rfl
    have hinput : t ∈ Node.temporaries [(Slot.replaced i start).input] :=
      Node.mem_temporaries.mpr ⟨i, List.mem_singleton.mpr rfl, ht⟩
    have := hsource t (mem_temporaries_of_mem_input hslot hinput)
    omega
  obtain ⟨definition, use, hlife, huse⟩ :=
    Slot.exists_lifetime (hexpandable i start hslot) hcapacity hstart hend hown
  have hwhole := hlife.append (houtside before (List.subset_append_left ..))
    (houtside after (List.subset_append_right ..))
  rw [hsplit, List.flatMap_append, List.flatMap_cons] at hout
  refine ⟨before, i, start, after, _, _, hsplit, hout ▸ hwhole, by simp, ?_⟩
  rw [List.length_append, ← huse]
  rfl

/-- A number that a run took stands in the result. -/
theorem exists_hasAt (h : Runs ps ns s out s')
    (hsource : ∀ t ∈ Node.temporaries ns, t.id.toNat < s.next) {id : UInt32}
    (hlow : s.next ≤ id.toNat) (hhigh : id.toNat < s'.next) : ∃ place, Node.HasAt out id place := by
  obtain ⟨_, i, _, _, definition, _, _, hlife, _⟩ := h.exists_lifetime hsource hlow hhigh
  obtain ⟨j, hline, -, -, hoperand⟩ := hlife.defines
  exact ⟨definition, j, _, hline, hoperand, rfl⟩

end Pipeline.Runs

/-! ## The temporaries of a lowered text -/

theorem Temporary.toNat_id_le_highestId {ts : List Temporary} {t : Temporary} (ht : t ∈ ts) :
    ∃ id, highestId ts = some id ∧ t.id.toNat ≤ id.toNat := by
  induction ts with
  | nil => simp at ht
  | cons first rest ih =>
      rw [highestId]
      rcases List.mem_cons.mp ht with rfl | ht
      · cases highestId rest with
        | none => exact ⟨_, rfl, Nat.le_refl _⟩
        | some id =>
            refine ⟨_, rfl, ?_⟩
            split
            · exact Nat.le_refl _
            · rename_i hle
              exact Nat.le_of_lt (UInt32.lt_iff_toNat_lt.mp (UInt32.not_le.mp hle))
      · obtain ⟨id, hid, hle⟩ := ih ht
        rw [hid]
        refine ⟨_, rfl, ?_⟩
        split
        · rename_i hle'
          exact Nat.le_trans hle (UInt32.le_iff_toNat_le.mp hle')
        · exact hle

namespace Node

/-- The highest number of a temporary in a listing, or `-1` when it has none. -/
def highest (nodes : List Node) : Int :=
  (maxTemporary nodes).elim (-1) fun id => id.toNat

theorem next_above_maxTemporary (nodes : List Node) :
    ((Supply.above (maxTemporary nodes)).next : Int) = highest nodes + 1 := by
  unfold highest
  cases maxTemporary nodes with
  | none => rfl
  | some id => rfl

/-- The supply for a listing starts above the temporaries of the listing. -/
theorem toNat_id_lt_next_above {nodes : List Node} {t : Temporary} (ht : t ∈ temporaries nodes) :
    t.id.toNat < (Supply.above (maxTemporary nodes)).next := by
  obtain ⟨id, hid, hle⟩ := Temporary.toNat_id_le_highestId ht
  rw [maxTemporary, hid, Supply.next_above_some]
  omega

end Node

/-- A run from the supply for a listing ends above the numbers of the listing and those it took. -/
theorem Pipeline.Runs.next_eq_highest_add {ps : Pipeline} {nodes out : List Node} {s' : Supply}
    (h : Runs ps nodes (.above (Node.maxTemporary nodes)) out s') :
    (s'.next : Int) = Node.highest nodes + 1 + s'.allocated := by
  have hnext := Node.next_above_maxTemporary nodes
  have hallocated := h.allocated_eq
  rw [Supply.allocated_above] at hallocated
  omega

/-- **Fresh temporaries are assigned once.**  A lowered text has one segment for each node of the
text that was read.  The numbers in it that are above the highest one of the text are the next ones,
without a gap, as many as were taken and none beyond 32 bits.  Each of them stands at two places: it
is defined by a mask or a shift and used by the comparison that ends the same expansion, as a
general temporary with the origin of the instruction that was replaced.  A temporary with any other
number in the place of a node is one of that node. -/
theorem assigned_once_of_lowerSource {passes : Pipeline} {file text : String} {out : List Node}
    (h : lowerSource passes file text = .ok out) :
    ∃ nodes supply slots, Listing.read file text = .ok nodes ∧
      lowerNodes passes nodes = (.ok out, supply) ∧
      slots.map Slot.input = nodes ∧ out = slots.flatMap Slot.nodes ∧
      (∀ slot ∈ slots, slot.SettledBy (· ∈ passes)) ∧
      Node.highest nodes + supply.allocated ≤ 4294967295 ∧
      (∀ id : UInt32, Node.highest nodes < id.toNat →
        ((∃ place, Node.HasAt out id place) ↔
          id.toNat ≤ Node.highest nodes + supply.allocated)) ∧
      (∀ id : UInt32, Node.highest nodes < id.toNat →
        id.toNat ≤ Node.highest nodes + supply.allocated →
        ∃ before i start after definition use, slots = before ++ .replaced i start :: after ∧
          Lifetime out ⟨id, .general, i.origin⟩ definition use ∧
          (before.flatMap Slot.nodes).length ≤ definition.1 ∧
          use.1 + 1 = (before.flatMap Slot.nodes ++ (Slot.replaced i start).nodes).length) ∧
      ∀ slot ∈ slots, ∀ t ∈ Node.temporaries slot.nodes, t.id.toNat ≤ Node.highest nodes →
        t ∈ Node.temporaries [slot.input] := by
  obtain ⟨nodes, supply, hread, hruns⟩ := lowerSource_eq_ok_iff.mp h
  have hsource : ∀ t ∈ Node.temporaries nodes,
      t.id.toNat < (Supply.above (Node.maxTemporary nodes)).next :=
    fun t ht => Node.toNat_id_lt_next_above ht
  have hnext := Node.next_above_maxTemporary nodes
  have hend := hruns.next_eq_highest_add
  have hcapacity : supply.next ≤ 4294967296 := supply.next_le
  refine ⟨nodes, supply, Pipeline.slots passes nodes _, hread, Pipeline.runFrom_run_eq_ok.mpr hruns,
    Pipeline.map_input_slots .., hruns.eq_slots.1, fun _ => Pipeline.settledBy_of_mem_slots,
    by omega, ?_, ?_, ?_⟩
  · intro id hlow
    constructor
    · rintro ⟨place, hplace⟩
      obtain ⟨t, ht, rfl⟩ := hplace.exists_mem_temporaries
      have := hruns.lt_next_of_mem_temporaries hsource ht (by omega)
      omega
    · intro hhigh
      exact hruns.exists_hasAt hsource (by omega) (by omega)
  · intro id hlow hhigh
    exact hruns.exists_lifetime hsource (by omega) (by omega)
  · intro slot hslot t ht hle
    rcases hruns.mem_temporaries_nodes hslot ht with hinput | htaken
    · exact hinput
    · have := hruns.bounds_of_mem_taken hslot htaken
      omega

/-- A text that uses `%t4`: its multiplication takes the numbers 5 and 6. -/
theorem assigned_once_of_lowerSource_multiply :
    let multiply : Instruction :=
      ⟨.branchMulOverflow, [.register "a", .register "b", .label ".L"], ⟨"in.s", .onLine 2 1 15⟩⟩
    let load : Instruction :=
      ⟨.other "loadp", [.address "8[cfr]", .temporary ⟨4, .general, ⟨"in.s", .onLine 1 1 17⟩⟩],
        ⟨"in.s", .onLine 1 1 17⟩⟩
    let out : List Node := .instruction load ::
      (multiply.expansion fun k => UInt32.ofNat (5 + k)).map .instruction
    lowerSource [.bitTest, .mulOverflow] "in.s" "loadp 8[cfr], %t4\nbmulio a, b, .L\n" = .ok out ∧
      ∃ (i : Instruction) (definition use : Nat × Nat),
        Lifetime out ⟨6, .general, i.origin⟩ definition use := by
  intro multiply load out
  have hsource : lowerSource [.bitTest, .mulOverflow] "in.s"
      "loadp 8[cfr], %t4\nbmulio a, b, .L\n" = .ok out := by
    decide +kernel
  have hread : Listing.read "in.s" "loadp 8[cfr], %t4\nbmulio a, b, .L\n" =
      .ok [.instruction load, .instruction multiply] := by
    decide +kernel
  refine ⟨hsource, ?_⟩
  obtain ⟨nodes, supply, _, hnodes, _, _, _, _, _, hnumbers, hlife, _⟩ :=
    assigned_once_of_lowerSource hsource
  obtain rfl := Except.ok.inj (hread.symm.trans hnodes)
  have hplace : Node.HasAt out 6 (3, 2) := ⟨_, _, rfl, rfl, rfl⟩
  obtain ⟨_, i, _, _, definition, use, _, hlifetime, _⟩ :=
    hlife 6 (by decide) ((hnumbers 6 (by decide)).mp ⟨_, hplace⟩)
  exact ⟨i, definition, use, hlifetime⟩

end MacroAsm
