import MacroAsm.Proofs.Listing.Canonical

/-!
# Reading what was written

The lines of a listing are read one by one, so a listing reads back when each of its lines does.
A canonical node reads back as itself with a new origin.  A legible one may also be an instruction
whose line ends in a colon, and then its line is a label or, with nothing before the colon, no line
at all.

## Main definitions

* `Node.Rereads` — what the line of a node may stand for.

## Main statements

* `Listing.read_print` — what the text of legible nodes reads as.
* `Listing.exists_read_print_iff_canonical` — the lists of nodes that read back.
* `Listing.exists_read_print_iff_of_read` — the texts whose nodes read back.
-/

namespace MacroAsm

open Text Listing

namespace Node

variable {node : Node}

theorem Legible.newline_notMem_text (h : node.Legible) : '\n' ∉ node.text.toList := by
  cases node with
  | instruction i =>
      have hi : '\n' ∉ i.text.toList := Instruction.Legible.newline_notMem_text h
      simpa [text] using hi
  | label name o => simpa [text] using h.2.2.1
  | directive line o => exact h.2.2
  | comment line o => simpa [text] using h.2

/-- The line of a node is not blank. -/
theorem Legible.trim_text_ne_nil (h : node.Legible) : trim node.text.toList ≠ [] := by
  suffices hmem : ∃ c ∈ node.text.toList, isBlank c = false by
    obtain ⟨c, hc, hblank⟩ := hmem
    intro hnil
    have := trim_eq_nil_iff.mp hnil c hc
    simp [hblank] at this
  cases node with
  | instruction i =>
      obtain ⟨c, cs, hmnemonic⟩ := List.exists_cons_of_ne_nil h.mnemonic_ne_nil
      refine ⟨c, ?_, h.not_isBlank c (by simp [hmnemonic])⟩
      simp [text, Instruction.toList_text, hmnemonic]
  | label name o => exact ⟨':', by simp [text], by decide⟩
  | directive line o => exact ⟨'.', h.1.subset (by simp), by decide⟩
  | comment line o => exact ⟨'#', by simp [text], by decide⟩

theorem trim_text_instruction {i : Instruction} (h : i.Legible) :
    trim (instruction i).text.toList = i.text.toList := by
  have hindent : AllBlank "    ".toList := by
    simp [isBlank]
  rw [text, String.toList_append, trim_blank_append hindent, h.trim_text]

theorem readContent_instruction {i : Instruction} (h : i.Legible) (hcolon : ¬i.EndsInColon)
    (origin : Origin) :
    readContent origin (trim (instruction i).text.toList) =
      .ok (instruction (i.mapOrigin fun _ => origin)) := by
  have hcomment := comment?_eq_none_iff.mpr h.not_startsComment_text
  have hlabel : label? i.text.toList = none := if_neg (Instruction.endsInColon_iff.not.mp hcolon)
  have hdot : i.text.toList.head? ≠ some '.' := by
    rw [h.head?_text]
    intro hhead
    obtain ⟨rest, hrest⟩ := List.head?_eq_some_iff.mp hhead
    exact h.not_dot ⟨rest, hrest.symm⟩
  rw [trim_text_instruction h, readContent, hcomment, hlabel]
  dsimp only
  rw [if_neg hdot, h.readInstruction_text]
  rfl

/-- An instruction whose line ends in a colon turns into a label, or into a label without a name. -/
theorem readContent_endsInColon {i : Instruction} (h : i.Legible) (hcolon : i.EndsInColon)
    (origin : Origin) :
    readContent origin (trim (instruction i).text.toList) = .error .emptyLabel ∨
      ∃ name, readContent origin (trim (instruction i).text.toList) = .ok (label name origin) := by
  have hcomment := comment?_eq_none_iff.mpr h.not_startsComment_text
  have hlabel : label? i.text.toList = some (trim i.text.toList.dropLast) :=
    if_pos (Instruction.endsInColon_iff.mp hcolon)
  rw [trim_text_instruction h, readContent, hcomment, hlabel]
  cases trim i.text.toList.dropLast with
  | nil => exact .inl rfl
  | cons c cs => exact .inr ⟨_, rfl⟩

theorem readContent_label {name : String} {o : Origin} (h : (label name o).Legible)
    (origin : Origin) :
    readContent origin (trim (label name o).text.toList) = .ok (label name origin) := by
  obtain ⟨hne, htrim, -, hcomment⟩ := h
  obtain ⟨c, cs, hname⟩ := List.exists_cons_of_ne_nil hne
  have hline : (label name o).text.toList = name.toList ++ [':'] := by
    simp [text]
  have hself : trim (name.toList ++ [':']) = name.toList ++ [':'] := by
    rw [trim_eq_self_iff]
    constructor
    · intro d hd
      rw [hname] at hd htrim
      exact (trim_eq_self_iff.mp htrim).1 d hd
    · intro d hd
      obtain rfl : ':' = d := by simpa using hd
      decide
  have hstart : ¬StartsComment (name.toList ++ [':']) := by
    -- the colon is no part of what starts a comment
    intro hstart
    apply hcomment
    rw [hname] at hstart ⊢
    rcases hstart with hhash | hslashes
    · exact .inl (by simpa using hhash)
    · right
      cases cs with
      | nil => simp at hslashes
      | cons d ds => simpa using hslashes
  have hlabel : label? (name.toList ++ [':']) = some name.toList := by
    simp [label?, htrim]
  rw [hline, hself, readContent, comment?_eq_none_iff.mpr hstart, hlabel, hname]
  dsimp only
  rw [← hname, String.ofList_toList]

theorem readContent_directive {line : String} {o : Origin} (h : (directive line o).Legible)
    (origin : Origin) :
    readContent origin (trim (directive line o).text.toList) = .ok (directive line origin) := by
  obtain ⟨⟨rest, hrest⟩, hlast, -⟩ := h
  have hhead : line.toList.head? = some '.' := by
    rw [← hrest]
    rfl
  have hself : trim line.toList = line.toList := by
    rw [trim_eq_self_iff]
    refine ⟨?_, fun c hc => (hlast c hc).1⟩
    intro c hc
    obtain rfl : '.' = c := by simpa [hhead] using hc
    decide
  have hcomment : comment? line.toList = none := by
    rw [← hrest]
    rfl
  have hlabel : label? line.toList = none := if_neg fun hc => (hlast ':' hc).2 rfl
  rw [text, hself, readContent, hcomment, hlabel]
  dsimp only
  rw [if_pos hhead, String.ofList_toList]

theorem readContent_comment {line : String} {o : Origin} (h : (comment line o).Legible)
    (origin : Origin) :
    readContent origin (trim (comment line o).text.toList) = .ok (comment line origin) := by
  have hline : (comment line o).text.toList = '#' :: ' ' :: line.toList := by
    simp [text]
  -- an empty comment loses the space that stands before its text
  obtain ⟨rest, after, hafter, hrest, htrim⟩ :=
    @exists_trim_cons '#' (by decide) (' ' :: line.toList)
  have htext : trim rest = line.toList := by
    rw [← trim_append_of_blank rest hafter, ← hrest, trim_space_cons, h.1]
  rw [hline, htrim, readContent, comment?]
  dsimp only
  rw [htext, String.ofList_toList]

/-- The line of a canonical node stands for it. -/
theorem Canonical.readContent_text (h : node.Canonical) (origin : Origin) :
    readContent origin (trim node.text.toList) = .ok (node.mapOrigin fun _ => origin) := by
  cases node with
  | instruction i => exact readContent_instruction h.1 h.2 origin
  | label name o => exact readContent_label h origin
  | directive line o => exact readContent_directive h origin
  | comment line o => exact readContent_comment h origin

/-- What the line of a node may stand for: the node itself at another place, or a label when the
line is that of an instruction and ends in a colon. -/
inductive Rereads : Node → Node → Prop
  | same {node : Node} (h : node.Canonical) (o : Origin) : Rereads node (node.mapOrigin fun _ => o)
  | label {i : Instruction} (h : i.EndsInColon) (name : String) (o : Origin) :
      Rereads (instruction i) (label name o)

/-- Nodes read back as themselves exactly when no instruction among them ends in a colon. -/
theorem sameUpToOrigins_iff_of_rereads {ns ms : List Node} (h : List.Forall₂ Rereads ns ms) :
    SameUpToOrigins ms ns ↔ ∀ i, instruction i ∈ ns → ¬i.EndsInColon := by
  induction h with
  | nil => simp [SameUpToOrigins]
  | cons hfirst _ ih =>
      simp only [SameUpToOrigins] at ih
      simp only [SameUpToOrigins, List.map_cons, List.cons.injEq, ih, List.mem_cons]
      cases hfirst with
      | same hnode o =>
          simp only [mapOrigin_const, true_and]
          constructor
          · rintro hrest i (rfl | hi)
            · exact hnode.2
            · exact hrest i hi
          · intro hall i hi
            exact hall i (.inr hi)
      | @label i hcolon name o =>
          simp only [mapOrigin, reduceCtorEq, false_and, false_iff, not_forall]
          exact ⟨i, .inl rfl, fun hnot => hnot hcolon⟩

end Node

namespace Listing

/-! ## The lines of a listing -/

theorem lines_print {ns : List Node} (h : ∀ n ∈ ns, n.Legible) :
    lines (Node.print ns).toList = ns.map fun n => dropReturn n.text.toList := by
  induction ns with
  | nil => rfl
  | cons n ns ih =>
      have hn : '\n' ∉ n.text.toList := (h n List.mem_cons_self).newline_notMem_text
      have hprint : (Node.print (n :: ns)).toList =
          n.text.toList ++ '\n' :: (Node.print ns).toList := by
        simp [Node.print, String.toList_join]
      rw [hprint, lines_append_newline hn, ih fun m hm => h m (List.mem_cons_of_mem n hm)]
      rfl

/-- Reading one line of a listing. -/
theorem readLine_text {node : Node} (h : node.Legible) (file : String) (number : Nat) :
    (∃ m, readLine file number (dropReturn node.text.toList) = .ok (some m) ∧ node.Rereads m) ∨
      (∃ i, node = .instruction i ∧ i.EndsInColon) ∧
        ∃ o, readLine file number (dropReturn node.text.toList) = .error ⟨.emptyLabel, o⟩ := by
  have hne : (trim node.text.toList).isEmpty = false := by
    simpa using h.trim_text_ne_nil
  simp only [readLine, trim_dropReturn, hne, Bool.false_eq_true, if_false]
  generalize lineOrigin file number (dropReturn node.text.toList) = origin
  by_cases hcanonical : node.Canonical
  · left
    rw [hcanonical.readContent_text]
    exact ⟨_, rfl, .same hcanonical origin⟩
  · rw [Node.canonical_iff] at hcanonical
    simp only [h, true_and, not_forall, not_not] at hcanonical
    obtain ⟨i, rfl, hcolon⟩ := hcanonical
    rcases Node.readContent_endsInColon h hcolon origin with hread | ⟨name, hread⟩
    · right
      rw [hread]
      exact ⟨⟨i, rfl, hcolon⟩, origin, rfl⟩
    · left
      rw [hread]
      exact ⟨_, rfl, .label hcolon name origin⟩

theorem readLines_text {ns : List Node} (h : ∀ n ∈ ns, n.Legible) (file : String) (number : Nat) :
    (∃ ms, readLines file number (ns.map fun n => dropReturn n.text.toList) = .ok ms ∧
        List.Forall₂ Node.Rereads ns ms) ∨
      (∃ i, .instruction i ∈ ns ∧ i.EndsInColon) ∧
        ∃ o, readLines file number (ns.map fun n => dropReturn n.text.toList) =
          .error ⟨.emptyLabel, o⟩ := by
  induction ns generalizing number with
  | nil => exact .inl ⟨[], rfl, .nil⟩
  | cons n ns ih =>
      simp only [List.map_cons, readLines, bind, Except.bind, pure, Except.pure]
      rcases readLine_text (h n List.mem_cons_self) file number with
        ⟨m, hline, hm⟩ | ⟨⟨i, rfl, hcolon⟩, o, hline⟩
      · rw [hline]
        rcases ih (fun m hm => h m (List.mem_cons_of_mem n hm)) (number + 1) with
          ⟨ms, hlines, hms⟩ | ⟨⟨i, hi, hcolon⟩, o, hlines⟩
        · rw [hlines]
          exact .inl ⟨m :: ms, rfl, .cons hm hms⟩
        · rw [hlines]
          exact .inr ⟨⟨i, List.mem_cons_of_mem n hi, hcolon⟩, o, rfl⟩
      · rw [hline]
        exact .inr ⟨⟨i, List.mem_cons_self, hcolon⟩, o, rfl⟩

/-- The text of legible nodes reads as these nodes, some instructions turned into labels, unless one
of the labels has no name. -/
theorem read_print {ns : List Node} (h : ∀ n ∈ ns, n.Legible) (file : String) :
    (∃ ms, read file (Node.print ns) = .ok ms ∧ List.Forall₂ Node.Rereads ns ms) ∨
      (∃ i, .instruction i ∈ ns ∧ i.EndsInColon) ∧
        ∃ o, read file (Node.print ns) = .error ⟨.emptyLabel, o⟩ := by
  rw [read, lines_print h]
  exact readLines_text h file 1

/-- Legible nodes read back exactly when no instruction among them ends in a colon. -/
theorem exists_read_print_iff {ns : List Node} (h : ∀ n ∈ ns, n.Legible) (file : String) :
    (∃ ms, read file (Node.print ns) = .ok ms ∧ Node.SameUpToOrigins ms ns) ↔
      ∀ i, .instruction i ∈ ns → ¬i.EndsInColon := by
  rcases read_print h file with ⟨ms, hread, hms⟩ | ⟨⟨i, hi, hcolon⟩, o, hread⟩
  · rw [← Node.sameUpToOrigins_iff_of_rereads hms, hread]
    simp
  · rw [hread]
    simp only [reduceCtorEq, false_and, exists_false, false_iff, not_forall, not_not]
    exact ⟨i, hi, hcolon⟩

/-! ## What was read -/

/-- Every node that is read is the content of a line. -/
theorem exists_line_of_mem_readLines {file : String} {number : Nat} {ls : List (List Char)}
    {nodes : List Node} {node : Node} (h : readLines file number ls = .ok nodes)
    (hnode : node ∈ nodes) :
    ∃ line ∈ ls, trim line ≠ [] ∧ ∃ origin, readContent origin (trim line) = .ok node := by
  induction ls generalizing number nodes with
  | nil =>
      obtain rfl := Except.ok.inj h
      simp at hnode
  | cons line ls ih =>
      simp only [readLines, bind, Except.bind, pure, Except.pure] at h
      split at h
      · simp at h
      rename_i first hfirst
      split at h
      · simp at h
      rename_i rest hrest
      obtain rfl := Except.ok.inj h
      rcases List.mem_append.mp hnode with hnode | hnode
      · refine ⟨line, List.mem_cons_self, ?_⟩
        unfold readLine at hfirst
        dsimp only at hfirst
        split at hfirst
        · obtain rfl := Except.ok.inj hfirst
          simp at hnode
        rename_i hne
        split at hfirst
        · rename_i m hread
          obtain rfl := Except.ok.inj hfirst
          obtain rfl : node = m := by simpa using hnode
          exact ⟨by simpa using hne, _, hread⟩
        · simp at hfirst
      · obtain ⟨other, hother, hread⟩ := ih hrest hnode
        exact ⟨other, List.mem_cons_of_mem line hother, hread⟩

theorem newline_notMem_trim {line : List Char} {text : String}
    (h : line ∈ lines text.toList) : '\n' ∉ trim line :=
  fun hmem => newline_notMem_of_mem_lines h (mem_of_mem_trim hmem)

theorem legible_of_read {file text : String} {nodes : List Node} (h : read file text = .ok nodes) :
    ∀ n ∈ nodes, n.Legible := by
  intro n hn
  obtain ⟨line, hline, hne, origin, hread⟩ := exists_line_of_mem_readLines h hn
  exact legible_of_readContent hne (trim_trim line) (newline_notMem_trim hline) hread

theorem hasColonBeforeHash_of_trim {line : List Char} (h : HasColonBeforeHash (trim line)) :
    HasColonBeforeHash line := by
  obtain ⟨before, ws, after, hws, heq⟩ := h
  obtain ⟨start, rest, _, _, hline⟩ := exists_eq_append_trim line
  refine ⟨start ++ before, ws, after ++ rest, hws, ?_⟩
  rw [hline, heq]
  simp

/-- An instruction that ends in a colon stems from a line whose comment hid the colon. -/
theorem exists_line_of_endsInColon {file text : String} {nodes : List Node} {i : Instruction}
    (h : read file text = .ok nodes) (hi : .instruction i ∈ nodes) (hcolon : i.EndsInColon) :
    ∃ line ∈ lines text.toList, HasColonBeforeHash line := by
  obtain ⟨line, hline, _, origin, hread⟩ := exists_line_of_mem_readLines h hi
  have hlegible : i.Legible := legible_of_read h _ hi
  obtain ⟨_, _, hlast, hinstruction⟩ := readContent_eq_ok_instruction hread
  exact ⟨line, hline, hasColonBeforeHash_of_trim (hasColonBeforeHash_of_endsInColon
    (trim_trim line) (newline_notMem_trim hline) hlast hlegible hcolon hinstruction)⟩

end Listing

/-! ## The listings that read back -/

theorem Operand.canonical_mapOrigin (g : Origin → Origin) (operand : Operand) :
    (operand.mapOrigin g).Canonical ↔ operand.Canonical := by
  cases operand <;> exact Iff.rfl

theorem Instruction.legible_mapOrigin (g : Origin → Origin) (i : Instruction) :
    (i.mapOrigin g).Legible ↔ i.Legible := by
  have hoperands :
      (∀ o ∈ (i.mapOrigin g).operands, o.Canonical) ↔ ∀ o ∈ i.operands, o.Canonical := by
    simp [mapOrigin, Operand.canonical_mapOrigin]
  constructor
  · rintro ⟨h₁, h₂, h₃, h₄, h₅, h₆, h₇⟩
    exact ⟨h₁, h₂, h₃, h₄, h₅, h₆, hoperands.mp h₇⟩
  · rintro ⟨h₁, h₂, h₃, h₄, h₅, h₆, h₇⟩
    exact ⟨h₁, h₂, h₃, h₄, h₅, h₆, hoperands.mpr h₇⟩

@[simp] theorem Node.legible_mapOrigin (g : Origin → Origin) (node : Node) :
    (node.mapOrigin g).Legible ↔ node.Legible := by
  cases node with
  | instruction i => exact Instruction.legible_mapOrigin g i
  | label name o => exact Iff.rfl
  | directive line o => exact Iff.rfl
  | comment line o => exact Iff.rfl

theorem Node.SameUpToOrigins.forall_legible {ms ns : List Node} (h : SameUpToOrigins ms ns)
    (hms : ∀ m ∈ ms, m.Legible) : ∀ n ∈ ns, n.Legible := by
  have hmap : ∀ n ∈ ms.map (mapOrigin fun _ => .synthetic), n.Legible := by
    simpa using hms
  rw [h] at hmap
  simpa using hmap

namespace Listing

/-- **The lists of nodes that read back.**  A list of nodes reads back from its text, up to origins,
exactly when each of its nodes is canonical: no two nodes that are not make up for each other. -/
theorem exists_read_print_iff_canonical (file : String) (ns : List Node) :
    (∃ nodes, read file (Node.print ns) = .ok nodes ∧ Node.SameUpToOrigins nodes ns) ↔
      ∀ n ∈ ns, n.Canonical := by
  have hsplit : (∀ n ∈ ns, n.Canonical) ↔
      (∀ n ∈ ns, n.Legible) ∧ ∀ i, .instruction i ∈ ns → ¬i.EndsInColon := by
    simp only [Node.canonical_iff]
    constructor
    · intro h
      exact ⟨fun n hn => (h n hn).1, fun i hi => (h _ hi).2 i rfl⟩
    · rintro ⟨hlegible, hcolon⟩ n hn
      exact ⟨hlegible n hn, fun i hi => hcolon i (hi ▸ hn)⟩
  rw [hsplit]
  constructor
  · rintro ⟨nodes, hread, hsame⟩
    have hlegible : ∀ n ∈ ns, n.Legible := hsame.forall_legible (legible_of_read hread)
    exact ⟨hlegible, (exists_read_print_iff hlegible file).mp ⟨nodes, hread, hsame⟩⟩
  · rintro ⟨hlegible, hcolon⟩
    exact (exists_read_print_iff hlegible file).mpr hcolon

/-- **The texts whose nodes read back.**  The nodes of a text read back from their own text, with
the same highest temporary, exactly when no instruction among them ends in a colon.  They do
whenever no line of the text has a colon right before a comment. -/
theorem exists_read_print_iff_of_read {file text : String} {nodes : List Node}
    (h : read file text = .ok nodes) (file' : String) :
    ((∃ nodes', read file' (Node.print nodes) = .ok nodes' ∧ Node.SameUpToOrigins nodes' nodes ∧
        Node.maxTemporary nodes' = Node.maxTemporary nodes) ↔
      ∀ i, .instruction i ∈ nodes → ¬i.EndsInColon) ∧
    ((∀ line ∈ lines text.toList, ¬HasColonBeforeHash line) →
      ∃ nodes', read file' (Node.print nodes) = .ok nodes' ∧ Node.SameUpToOrigins nodes' nodes ∧
        Node.maxTemporary nodes' = Node.maxTemporary nodes) := by
  have hiff := exists_read_print_iff (legible_of_read h) file'
  have hmax : (∃ nodes', read file' (Node.print nodes) = .ok nodes' ∧
      Node.SameUpToOrigins nodes' nodes ∧ Node.maxTemporary nodes' = Node.maxTemporary nodes) ↔
      ∀ i, .instruction i ∈ nodes → ¬i.EndsInColon := by
    rw [← hiff]
    constructor
    · rintro ⟨nodes', hread, hsame, _⟩
      exact ⟨nodes', hread, hsame⟩
    · rintro ⟨nodes', hread, hsame⟩
      exact ⟨nodes', hread, hsame, hsame.maxTemporary_eq⟩
  refine ⟨hmax, ?_⟩
  intro hlines
  rw [hmax]
  intro i hi hcolon
  obtain ⟨line, hline, hhash⟩ := exists_line_of_endsInColon h hi hcolon
  exact hlines line hline hhash

/-- A colon that a comment hides is read as the end of a mnemonic, and no more once the comment is
gone. -/
theorem not_exists_read_print_colon :
    let nodes : List Node :=
      [.label "loop" ⟨"in.s", .onLine 1 1 5⟩,
        .instruction ⟨.other "foo:", [], ⟨"in.s", .onLine 2 3 8⟩⟩,
        .instruction ⟨.other "ld", [.temporary ⟨7, .general, ⟨"in.s", .onLine 3 2 16⟩⟩,
          .address "8[sp,r1]"], ⟨"in.s", .onLine 3 2 16⟩⟩]
    read "in.s" "loop:\n  foo: # c\n ld %t7, 8[sp,r1]\n" = .ok nodes ∧
      ¬∃ nodes', read "out.s" (Node.print nodes) = .ok nodes' ∧ Node.SameUpToOrigins nodes' nodes ∧
        Node.maxTemporary nodes' = Node.maxTemporary nodes := by
  intro nodes
  have hread : read "in.s" "loop:\n  foo: # c\n ld %t7, 8[sp,r1]\n" = .ok nodes := by
    decide +kernel
  refine ⟨hread, ?_⟩
  rw [(exists_read_print_iff_of_read hread "out.s").1]
  intro h
  apply h ⟨.other "foo:", [], ⟨"in.s", .onLine 2 3 8⟩⟩ (by simp [nodes])
  simp [Instruction.endsInColon_iff, Instruction.text, Opcode.mnemonic]

end Listing

end MacroAsm
