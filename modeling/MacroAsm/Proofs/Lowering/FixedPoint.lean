import MacroAsm.Lowering.Source
import MacroAsm.Proofs.Listing.RoundTrip
import MacroAsm.Proofs.Lowering.Runs
import MacroAsm.Proofs.Opcode.Spelling

/-!
# Lowering a lowered text

A lowered listing holds nothing that its passes replace, and its text reads as the same listing as
long as no instruction ends in a colon.  Lowering it again is then the identity.  An instruction
that does end in a colon is read as a label, so the text that is written differs from the text that
was read, or the label has no name and there is no text at all.

## Main statements

* `Instruction.Legible.of_emitted` — expansions of what can be read can be read.
* `Node.print_eq_iff_of_rereads` — the text shows which instructions turned into labels.
* `exists_lowerText_eq_self_iff` — the texts that lowering leaves as they are.
-/

namespace MacroAsm

open Text Listing

/-! ## Lowered nodes can be read -/

/-- The spelling of a known opcode is a word without the characters that start a comment or a
directive, and it stands for that opcode. -/
theorem Opcode.mnemonic_of_mem_known {o : Opcode} (h : o ∈ known) :
    o.mnemonic.toList ≠ [] ∧
      (∀ c ∈ o.mnemonic.toList, isBlank c = false ∧ c ∉ ['#', '.', '/']) ∧
      ofMnemonic o.mnemonic = o := by
  have hwords : known.all (fun o => !o.mnemonic.toList.isEmpty &&
      o.mnemonic.toList.all fun c => !isBlank c && c ∉ ['#', '.', '/']) = true := by
    decide +kernel
  have hword := List.all_eq_true.mp hwords o h
  simp only [Bool.and_eq_true, Bool.not_eq_true', List.isEmpty_eq_false_iff, List.all_eq_true,
    decide_eq_true_eq] at hword
  exact ⟨hword.1, hword.2, (mem_known_iff.mp h).ofMnemonic_mnemonic⟩

theorem Instruction.Legible.of_emitted {i j : Instruction} {ids : Nat → UInt32} (hi : i.Legible)
    (hj : Emitted i ids j) : j.Legible := by
  obtain ⟨hne, hchars, hself⟩ := Opcode.mnemonic_of_mem_known hj.known
  refine ⟨hne, fun c hc => (hchars c hc).1, ?_, ?_, ?_, hself, ?_⟩
  · intro hmem
    exact (hchars '#' hmem).2 (by simp)
  · intro hstart
    exact (hchars '.' (hstart.subset (by simp))).2 (by simp)
  · intro hstart
    exact (hchars '/' (hstart.subset (by simp))).2 (by simp)
  · intro o ho
    cases hj.operands o ho with
    | operand ho => exact hi.operands o ho
    | immediate v => trivial
    | taken hk => trivial

theorem Pipeline.Runs.forall_legible {ps : Pipeline} {ns out : List Node} {s s' : Supply}
    (h : Runs ps ns s out s') (hns : ∀ n ∈ ns, n.Legible) : ∀ m ∈ out, m.Legible := by
  refine h.forall_mem hns ?_
  intro i ids hi hlegible j hj
  exact Instruction.Legible.of_emitted hlegible (hi.emitted hj)

/-! ## What is left for the passes after reading -/

theorem Pass.Keeps.of_rereads {p : Pass} {n m : Node} (h : p.Keeps n) (hm : n.Rereads m) :
    p.Keeps m := by
  cases hm with
  | same _ o =>
      intro i hi
      cases n with
      | instruction j =>
          obtain rfl : j.mapOrigin (fun _ => o) = i := by simpa [Node.mapOrigin] using hi
          exact h j rfl
      | label name o => simp [Node.mapOrigin] at hi
      | directive line o => simp [Node.mapOrigin] at hi
      | comment line o => simp [Node.mapOrigin] at hi
  | label _ name o =>
      intro i hi
      simp at hi

/-! ## The text shows the difference -/

/-- A label starts where its line starts, an instruction does not. -/
theorem Node.dropReturn_label_ne {i : Instruction} {name : String} {o : Origin}
    (hname : (label name o).Legible) :
    dropReturn (label name o).text.toList ≠ dropReturn (instruction i).text.toList := by
  obtain ⟨c, cs, hcs⟩ := List.exists_cons_of_ne_nil hname.1
  have hc : isBlank c = false := (trim_eq_self_iff.mp hname.2.1).1 c (by rw [hcs]; rfl)
  have hlabel : dropReturn (label name o).text.toList = c :: (cs ++ [':']) := by
    rw [dropReturn_of_getLast?_ne (by simp [text])]
    simp [text, hcs]
  have hinstruction : dropReturn (instruction i).text.toList =
      ' ' :: dropReturn (' ' :: ' ' :: ' ' :: i.text.toList) := by
    rw [← dropReturn_cons ' ' (by simp)]
    simp [text]
  rw [hlabel, hinstruction]
  intro heq
  obtain rfl : c = ' ' := (List.cons.inj heq).1
  exact absurd hc (by decide)

/-- The text of what was read is the text it was read from exactly when no instruction ended in a
colon. -/
theorem Node.print_eq_iff_of_rereads {ns ms : List Node} (h : List.Forall₂ Rereads ns ms)
    (hns : ∀ n ∈ ns, n.Legible) (hms : ∀ m ∈ ms, m.Legible) :
    print ms = print ns ↔ ∀ i, instruction i ∈ ns → ¬i.EndsInColon := by
  constructor
  · intro hprint
    have hlines : (ms.map fun m => dropReturn m.text.toList) =
        ns.map fun n => dropReturn n.text.toList := by
      rw [← lines_print hms, hprint, lines_print hns]
    clear hprint
    induction h with
    | nil => simp
    | @cons n m ns ms hfirst hrest ih =>
        simp only [List.map_cons, List.cons.injEq] at hlines
        have hih := ih (fun n hn => hns n (List.mem_cons_of_mem _ hn))
          (fun m hm => hms m (List.mem_cons_of_mem _ hm)) hlines.2
        intro i hi
        rcases List.mem_cons.mp hi with rfl | hi
        · cases hfirst with
          | same hnode o => exact hnode.2
          | label hcolon name o =>
              exact absurd hlines.1 (dropReturn_label_ne (hms _ List.mem_cons_self))
        · exact hih i hi
  · intro hcolon
    exact ((sameUpToOrigins_iff_of_rereads h).mpr hcolon).print_eq

/-! ## Texts that lowering leaves as they are -/

theorem lowerSource_eq_ok_iff {passes : Pipeline} {file text : String} {out : List Node} :
    lowerSource passes file text = .ok out ↔
      ∃ nodes s', read file text = .ok nodes ∧
        Pipeline.Runs passes nodes (.above (Node.maxTemporary nodes)) out s' := by
  unfold lowerSource lowerNodes
  cases read file text with
  | error e => simp
  | ok nodes =>
      simp only [Except.ok.injEq, exists_eq_left', ← Pipeline.runFrom_run_eq_ok, exists_and_left]
      rcases (passes.run nodes).runFrom (.above (Node.maxTemporary nodes)) with ⟨e | lowered, s'⟩
      · simp
      · simp

/-- Reading a lowered text leaves nothing to lower. -/
theorem lowerText_eq_of_rereads {passes : Pipeline} {file : String} {out ms : List Node}
    (hkeeps : ∀ p ∈ passes, ∀ n ∈ out, p.Keeps n) (hms : List.Forall₂ Node.Rereads out ms)
    (hread : read file (Node.print out) = .ok ms) :
    lowerText passes file (Node.print out) = .ok (Node.print ms) := by
  have hrest : ∀ p ∈ passes, ∀ m ∈ ms, p.Keeps m := by
    intro p hp m hm
    obtain ⟨n, hn, hnm⟩ := exists_of_mem_right hms hm
    exact (hkeeps p hp n hn).of_rereads hnm
  have hsource : lowerSource passes file (Node.print out) = .ok ms := by
    rw [lowerSource_eq_ok_iff]
    exact ⟨ms, _, hread, Pipeline.runFrom_run_eq_ok.mp (Pipeline.runFrom_run_of_keeps hrest _)⟩
  rw [lowerText, hsource]
  rfl

/-- **The texts that lowering leaves as they are.**  A lowered text is lowered to itself exactly
when no instruction of the lowered listing ends in a colon.  When one does, the second lowering
either meets a label without a name or writes another text; it never fails to lower. -/
theorem exists_lowerText_eq_self_iff {passes : Pipeline} {file text t : String}
    (h : lowerText passes file text = .ok t) :
    ∃ out, lowerSource passes file text = .ok out ∧
      (lowerText passes file t = .ok t ↔ ∀ i, .instruction i ∈ out → ¬i.EndsInColon) ∧
      ((∃ i, .instruction i ∈ out ∧ i.EndsInColon) →
        (∃ o, lowerText passes file t = .error (.read ⟨.emptyLabel, o⟩)) ∨
          ∃ t', lowerText passes file t = .ok t' ∧ t' ≠ t) := by
  obtain ⟨out, hsource, rfl⟩ : ∃ out, lowerSource passes file text = .ok out ∧
      Node.print out = t := by
    unfold lowerText at h
    cases hsource : lowerSource passes file text with
    | error e => simp [hsource, Except.map] at h
    | ok out => exact ⟨out, rfl, by simpa [hsource, Except.map] using h⟩
  obtain ⟨nodes, s', hnodes, hruns⟩ := lowerSource_eq_ok_iff.mp hsource
  have hlegible : ∀ n ∈ out, n.Legible := hruns.forall_legible (legible_of_read hnodes)
  refine ⟨out, hsource, ?_⟩
  rcases read_print hlegible file with ⟨ms, hread, hms⟩ | ⟨⟨i, hi, hcolon⟩, o, hread⟩
  · have htext := lowerText_eq_of_rereads hruns.keeps hms hread
    have hprint := Node.print_eq_iff_of_rereads hms hlegible (legible_of_read hread)
    simp only [htext, Except.ok.injEq]
    refine ⟨hprint, ?_⟩
    rintro ⟨i, hi, hcolon⟩
    right
    refine ⟨_, rfl, ?_⟩
    rw [Ne, hprint]
    intro hnone
    exact hnone i hi hcolon
  · have htext : lowerText passes file (Node.print out) = .error (.read ⟨.emptyLabel, o⟩) := by
      simp [lowerText, lowerSource, hread, Except.map]
    rw [htext]
    refine ⟨iff_of_false (by simp) fun hnone => hnone i hi hcolon, ?_⟩
    intro _
    exact .inl ⟨o, rfl⟩

/-- The second operand of a multiplication is also where the product goes, the last operand of a
line of the expansion.  A name that ends in a colon puts the colon at the end of that line. -/
theorem lowerText_ne_self_of_colon :
    let t := "    smulli a, b:, b:\n    rshiftp b:, 32, %t0\n    rshifti b:, 31, %t1\n" ++
      "    zxi2p b:, b:\n    bineq %t0, %t1, .L\n"
    lowerText [.mulOverflow] "in.s" "bmulio a, b:, .L\n" = .ok t ∧
      lowerText [.mulOverflow] "in.s" t ≠ .ok t := by
  intro t
  have htext : lowerText [.mulOverflow] "in.s" "bmulio a, b:, .L\n" = .ok t := by
    decide +kernel
  let i : Instruction :=
    ⟨.branchMulOverflow, [.register "a", .register "b:", .label ".L"], ⟨"in.s", .onLine 1 1 16⟩⟩
  have hsource : lowerSource [.mulOverflow] "in.s" "bmulio a, b:, .L\n" =
      .ok ((i.expansion UInt32.ofNat).map .instruction) := by
    decide +kernel
  obtain ⟨out, hout, hself, _⟩ := exists_lowerText_eq_self_iff htext
  obtain rfl := Except.ok.inj (hsource.symm.trans hout)
  refine ⟨htext, ?_⟩
  rw [Ne, hself]
  intro hnone
  refine hnone (i.replace .signedMulLong [.register "a", .register "b:", .register "b:"]) ?_ ?_
  · simp [i, Instruction.expansion]
  · simp [Instruction.endsInColon_iff, Instruction.text, Instruction.replace, Operand.text,
      Opcode.mnemonic]

end MacroAsm
