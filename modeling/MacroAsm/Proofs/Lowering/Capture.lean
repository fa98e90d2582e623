import MacroAsm.Proofs.Lowering.Assignment

/-!
# Names of temporaries in a text

A lowered text prints its fresh temporaries by name, and such a name captures one of the text it was
lowered from when both have the same number.  Operands that are temporaries are seen by the supply,
which starts above them, and immediates hold no name.  Registers, labels and addresses are kept as
they are written and may hold any text, names of temporaries included; the supply does not look into
them.

## Main definitions

* `Text.names` — the numbers of the names of temporaries in a text.
* `Operand.isVerbatim` — the operands that are kept as they are written.
* `Node.Captures` — a fresh temporary has the number of a name in the source.

## Main statements

* `Temporary.names_text` — the text of a temporary holds its own name and no other.
* `captures_iff_of_lowerSource` — a name is captured exactly when one with a number that was taken
  stands in a register, a label or an address.
* `captures_in_address` — a fresh temporary that captures a name inside an address.
-/

namespace MacroAsm

/-! ## Names in a text -/

namespace Text

/-- The number of the temporary whose name a text starts with: `%t` or `%f`, and all digits that
follow. -/
def nameAt? : List Char → Option Nat
  | '%' :: letter :: rest =>
    if letter = 't' ∨ letter = 'f' then decimal? (rest.takeWhile Char.isDigit) else none
  | _ => none

/-- The numbers of all names of temporaries in a text. -/
def names : List Char → List Nat
  | [] => []
  | c :: cs => (nameAt? (c :: cs)).toList ++ names cs

theorem nameAt?_cons_of_ne {c : Char} (cs : List Char) (hc : c ≠ '%') :
    nameAt? (c :: cs) = none := by
  unfold nameAt?
  split
  · rename_i heq
    exact absurd (List.cons.inj heq).1 hc
  · rfl

/-- Every name starts with a percent sign. -/
theorem names_eq_nil {cs : List Char} (h : '%' ∉ cs) : names cs = [] := by
  induction cs with
  | nil => rfl
  | cons c cs ih =>
      have hc : c ≠ '%' := fun heq => h (heq ▸ List.mem_cons_self)
      rw [names, nameAt?_cons_of_ne cs hc, ih fun hmem => h (List.mem_cons_of_mem _ hmem)]
      rfl

theorem percent_notMem_toDigits (n : Nat) : '%' ∉ Nat.toDigits 10 n := fun hmem =>
  absurd (Nat.isDigit_of_mem_toDigits (by decide) (by decide) hmem) (by decide)

theorem percent_notMem_intText (n : Int) : '%' ∉ (intText n).toList := by
  cases n with
  | ofNat m =>
      rw [intText, Nat.toList_repr]
      exact percent_notMem_toDigits m
  | negSucc m =>
      rw [intText, String.toList_append, Nat.toList_repr, List.mem_append]
      rintro (hmem | hmem)
      · simp at hmem
      · exact percent_notMem_toDigits _ hmem

end Text

open Text

/-- The text of a temporary holds its own name and no other. -/
theorem Temporary.names_text (t : Temporary) : names t.text.toList = [t.id.toNat] := by
  have htext : t.text.toList = '%' :: t.bank.letter :: Nat.toDigits 10 t.id.toNat := by
    rw [text, String.toList_append, Nat.toList_repr]
    simp
  have hletter : t.bank.letter = 't' ∨ t.bank.letter = 'f' := by
    cases t.bank <;> simp [RegisterClass.letter]
  have hdigit : ∀ c ∈ Nat.toDigits 10 t.id.toNat, c.isDigit = true := fun c hc =>
    Nat.isDigit_of_mem_toDigits (by decide) (by decide) hc
  have hname : nameAt? t.text.toList = some t.id.toNat := by
    rw [htext, nameAt?, if_pos hletter, List.takeWhile_eq_self_iff.mpr hdigit, decimal?_toDigits]
  -- no second percent sign stands behind the letter
  have hrest : '%' ∉ t.bank.letter :: Nat.toDigits 10 t.id.toNat := by
    intro hmem
    rcases List.mem_cons.mp hmem with heq | hmem
    · rcases hletter with hletter | hletter <;> simp [hletter] at heq
    · exact percent_notMem_toDigits _ hmem
  rw [htext] at hname ⊢
  rw [names, hname, names_eq_nil hrest]
  rfl

namespace Operand

/-- The operands that are kept as they are written. -/
def isVerbatim : Operand → Bool
  | register _ => true
  | temporary _ => false
  | immediate _ => false
  | label _ => true
  | address _ => true

theorem names_immediate (value : Int64) : names (immediate value).text.toList = [] :=
  names_eq_nil (percent_notMem_intText _)

/-- A name stands in an operand that is kept as it is written, or it is the operand. -/
theorem eq_temporary_of_mem_names {o : Operand} {n : Nat} (h : n ∈ names o.text.toList) :
    o.isVerbatim = true ∨ ∃ t, o = temporary t ∧ t.id.toNat = n := by
  cases o with
  | register name => exact .inl rfl
  | label name => exact .inl rfl
  | address text => exact .inl rfl
  | immediate value => simp [names_immediate] at h
  | temporary t =>
      have hn : n ∈ [t.id.toNat] := by
        rw [← t.names_text]
        exact h
      exact .inr ⟨t, rfl, (List.mem_singleton.mp hn).symm⟩

end Operand

/-! ## Captured names -/

namespace Node

/-- The operands of a listing, in order of occurrence. -/
def operands (nodes : List Node) : List Operand :=
  (nodes.filterMap instruction?).flatMap Instruction.operands

/-- A fresh temporary of a lowered listing has the number of a name in the source. -/
def Captures (out source : List Node) : Prop :=
  ∃ t ∈ temporaries out, highest source < t.id.toNat ∧
    ∃ o ∈ operands source, t.id.toNat ∈ names o.text.toList

instance (out source : List Node) : Decidable (Captures out source) :=
  inferInstanceAs (Decidable (∃ t ∈ temporaries out, highest source < t.id.toNat ∧
    ∃ o ∈ operands source, t.id.toNat ∈ names o.text.toList))

theorem mem_temporaries_of_mem_operands {nodes : List Node} {t : Temporary}
    (h : .temporary t ∈ operands nodes) : t ∈ temporaries nodes := by
  obtain ⟨i, hi, hoperand⟩ := List.mem_flatMap.mp h
  exact List.mem_flatMap.mpr ⟨i, hi, List.mem_filterMap.mpr ⟨_, hoperand, rfl⟩⟩

/-- A name above the highest number stands in an operand that is kept as it is written. -/
theorem isVerbatim_of_highest_lt {nodes : List Node} {o : Operand} {n : Nat}
    (ho : o ∈ operands nodes) (hn : n ∈ names o.text.toList) (hhigh : highest nodes < n) :
    o.isVerbatim = true := by
  rcases Operand.eq_temporary_of_mem_names hn with hverbatim | ⟨t, rfl, rfl⟩
  · exact hverbatim
  · have hlt := toNat_id_lt_next_above (mem_temporaries_of_mem_operands ho)
    have hnext := next_above_maxTemporary nodes
    omega

end Node

/-- **Captured names.**  The names of a text that is lowered are safe from fresh temporaries in
operands that are temporaries or immediates.  A fresh temporary captures a name exactly when one
stands in a register, a label or an address of the text and has one of the numbers that were
taken. -/
theorem captures_iff_of_lowerSource {passes : Pipeline} {file text : String} {out : List Node}
    (h : lowerSource passes file text = .ok out) :
    ∃ nodes supply, Listing.read file text = .ok nodes ∧
      lowerNodes passes nodes = (.ok out, supply) ∧
      (Node.Captures out nodes ↔
        ∃ o ∈ Node.operands nodes, o.isVerbatim = true ∧
          ∃ n ∈ names o.text.toList, Node.highest nodes < n ∧
            n ≤ Node.highest nodes + supply.allocated) := by
  obtain ⟨nodes, supply, hread, hruns⟩ := lowerSource_eq_ok_iff.mp h
  have hsource : ∀ t ∈ Node.temporaries nodes,
      t.id.toNat < (Supply.above (Node.maxTemporary nodes)).next :=
    fun t ht => Node.toNat_id_lt_next_above ht
  have hnext := Node.next_above_maxTemporary nodes
  have hend := hruns.next_eq_highest_add
  have hcapacity : supply.next ≤ 4294967296 := supply.next_le
  refine ⟨nodes, supply, hread, Pipeline.runFrom_run_eq_ok.mpr hruns, ?_⟩
  constructor
  · rintro ⟨t, ht, hfresh, o, ho, hname⟩
    have := hruns.lt_next_of_mem_temporaries hsource ht (by omega)
    exact ⟨o, ho, Node.isVerbatim_of_highest_lt ho hname hfresh, _, hname, hfresh, by omega⟩
  · rintro ⟨o, ho, -, n, hname, hlow, hhigh⟩
    have hlt : n < 4294967296 := by omega
    have hid : (UInt32.ofNat n).toNat = n := UInt32.toNat_ofNat_of_lt hlt
    have hplaces : ∃ place, Node.HasAt out (.ofNat n) place :=
      hruns.exists_hasAt hsource (by omega) (by omega)
    obtain ⟨place, hplace⟩ := hplaces
    obtain ⟨t, ht, hteq⟩ := hplace.exists_mem_temporaries
    rw [← hid, ← hteq] at hname hlow
    exact ⟨t, ht, hlow, o, ho, hname⟩

/-- The address names `%t9`, and the multiplication takes the numbers 3 and 4. -/
theorem captures_iff_of_lowerSource_apart :
    let load : Instruction :=
      ⟨.other "loadp", [.address "8[%t9]", .temporary ⟨2, .general, ⟨"in.s", .onLine 1 1 17⟩⟩],
        ⟨"in.s", .onLine 1 1 17⟩⟩
    let multiply : Instruction :=
      ⟨.branchMulOverflow, [.register "a", .register "b", .label ".L"], ⟨"in.s", .onLine 2 1 15⟩⟩
    let out : List Node := .instruction load ::
      (multiply.expansion fun k => UInt32.ofNat (3 + k)).map .instruction
    lowerSource .default "in.s" "loadp 8[%t9], %t2\nbmulio a, b, .L\n" = .ok out ∧
      ¬Node.Captures out [.instruction load, .instruction multiply] := by
  intro load multiply out
  have hsource : lowerSource .default "in.s" "loadp 8[%t9], %t2\nbmulio a, b, .L\n" = .ok out := by
    decide +kernel
  have hread : Listing.read "in.s" "loadp 8[%t9], %t2\nbmulio a, b, .L\n" =
      .ok [.instruction load, .instruction multiply] := by
    decide +kernel
  obtain ⟨nodes, supply, hnodes, hrun, hcaptures⟩ := captures_iff_of_lowerSource hsource
  obtain rfl := Except.ok.inj (hread.symm.trans hnodes)
  have hallocated : supply.allocated = 2 :=
    (congrArg (fun result => result.2.allocated) hrun).symm.trans (by decide +kernel)
  rw [hcaptures, hallocated]
  exact ⟨hsource, by decide +kernel⟩

/-- The address names `%t0`, and the bit test takes the number 0. -/
theorem captures_in_address :
    let load : Instruction :=
      ⟨.other "loadp", [.address "8[%t0]", .register "t1"], ⟨"a.asm", .onLine 1 5 16⟩⟩
    let test : Instruction :=
      ⟨.bitTest .branch .int .zero, [.register "t0", .register "t1", .label ".L"],
        ⟨"a.asm", .onLine 2 5 15⟩⟩
    let nodes : List Node := [.instruction load, .instruction test]
    let out : List Node := .instruction load :: (test.expansion fun _ => 0).map .instruction
    Listing.read "a.asm" "    loadp 8[%t0], t1\n    btiz t0, t1, .L\n" = .ok nodes ∧
      lowerSource .default "a.asm" "    loadp 8[%t0], t1\n    btiz t0, t1, .L\n" = .ok out ∧
      Node.Captures out nodes := by
  decide +kernel

end MacroAsm
