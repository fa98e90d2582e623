import MacroAsm.Listing.Reader
import MacroAsm.Proofs.Listing.Operands
import MacroAsm.Proofs.Text.Lines

/-!
# Canonical nodes

A node is canonical when its line stands for that node: nothing in its texts starts a comment, ends
the line or changes the kind of line.  A node that is read has all of this but for one thing.  The
line of an instruction may end in a colon, since the colon stood before a comment that is not
written again; such a node is legible, and its line stands for a label.

## Main definitions

* `Instruction.Legible`, `Node.Legible` — what nodes that were read are like.
* `Instruction.EndsInColon` — an instruction whose line ends in a colon.
* `Node.Canonical` — nodes whose lines stand for them.

## Main statements

* `Listing.readContent_eq_ok` — what a line stands for.
* `Listing.legible_of_readContent` — what is read is legible.
* `Listing.hasColonBeforeHash_of_endsInColon` — where an instruction that ends in a colon comes
  from.
-/

namespace MacroAsm

open Text Listing

/-- A text that starts like a comment. -/
def Listing.StartsComment (cs : List Char) : Prop :=
  ['#'] <+: cs ∨ ['/', '/'] <+: cs

/-- A line with a colon that nothing but white space parts from a number sign. -/
def Listing.HasColonBeforeHash (line : List Char) : Prop :=
  ∃ before ws after, AllBlank ws ∧ line = before ++ ':' :: ws ++ '#' :: after

/-- An instruction that can be read: its mnemonic is one word that starts neither a directive nor a
comment and stands for its opcode, and its operands are canonical. -/
structure Instruction.Legible (i : Instruction) : Prop where
  mnemonic_ne_nil : i.opcode.mnemonic.toList ≠ []
  not_isBlank : ∀ c ∈ i.opcode.mnemonic.toList, isBlank c = false
  hash_notMem : '#' ∉ i.opcode.mnemonic.toList
  not_dot : ¬['.'] <+: i.opcode.mnemonic.toList
  not_slashes : ¬['/', '/'] <+: i.opcode.mnemonic.toList
  ofMnemonic_mnemonic : Opcode.ofMnemonic i.opcode.mnemonic = i.opcode
  operands : ∀ operand ∈ i.operands, operand.Canonical

/-- An instruction whose line ends in a colon. -/
def Instruction.EndsInColon (i : Instruction) : Prop :=
  (Node.instruction i).text.toList.getLast? = some ':'

namespace Node

/-- A node that can be read. -/
def Legible : Node → Prop
  | instruction i => i.Legible
  | label name _ =>
    name.toList ≠ [] ∧ trim name.toList = name.toList ∧ '\n' ∉ name.toList ∧
      ¬StartsComment name.toList
  | directive text _ =>
    ['.'] <+: text.toList ∧ (∀ c, text.toList.getLast? = some c → isBlank c = false ∧ c ≠ ':') ∧
      '\n' ∉ text.toList
  | comment text _ => trim text.toList = text.toList ∧ '\n' ∉ text.toList

/-- A node whose line stands for it. -/
def Canonical : Node → Prop
  | instruction i => i.Legible ∧ ¬i.EndsInColon
  | node => node.Legible

theorem canonical_iff {node : Node} :
    node.Canonical ↔ node.Legible ∧ ∀ i, node = instruction i → ¬i.EndsInColon := by
  cases node <;> simp [Canonical, Legible]

end Node

/-- A trimmed line without a number sign is all body. -/
theorem Listing.instructionBody_eq_self {content : List Char} (htrim : trim content = content)
    (hhash : '#' ∉ content) : instructionBody content = content := by
  have hwhole : content.takeWhile (· != '#') = content := by
    rw [List.takeWhile_eq_self_iff]
    intro c hc
    have hne : c ≠ '#' := fun heq => hhash (heq ▸ hc)
    simpa using hne
  rw [instructionBody, hwhole, trimEnd_eq_self_iff]
  exact (trim_eq_self_iff.mp htrim).2

/-! ## The text of an instruction -/

namespace Instruction

variable {i : Instruction}

/-- The texts of the operands. -/
def fields (i : Instruction) : List (List Char) :=
  i.operands.map fun o => o.text.toList

theorem toList_text (i : Instruction) :
    i.text.toList = i.opcode.mnemonic.toList ++
      if i.operands = [] then [] else ' ' :: [',', ' '].intercalate i.fields := by
  cases hops : i.operands with
  | nil => simp [text, hops]
  | cons first rest => simp [text, fields, hops, Function.comp_def]

theorem endsInColon_iff : i.EndsInColon ↔ i.text.toList.getLast? = some ':' := by
  rw [EndsInColon, Node.text, String.toList_append, List.getLast?_append]
  cases i.text.toList.getLast? <;> simp

theorem notMem_text {c : Char} (hmnemonic : c ∉ i.opcode.mnemonic.toList)
    (hsep : c ∉ [',', ' ']) (hfields : ∀ o ∈ i.operands, c ∉ o.text.toList) :
    c ∉ i.text.toList := by
  have hjoin : c ∉ [',', ' '].intercalate i.fields := by
    apply notMem_intercalate hsep
    intro f hf
    obtain ⟨o, ho, rfl⟩ := List.mem_map.mp hf
    exact hfields o ho
  rw [toList_text]
  split
  · simpa using hmnemonic
  · simp only [List.mem_append, List.mem_cons, not_or]
    simp only [List.mem_cons, List.not_mem_nil, or_false, not_or] at hsep
    exact ⟨hmnemonic, hsep.2, hjoin⟩

namespace Legible

theorem isTrimmedField (h : i.Legible) : ∀ f ∈ i.fields, IsTrimmedField f := by
  intro f hf
  obtain ⟨o, ho, rfl⟩ := List.mem_map.mp hf
  exact (h.operands o ho).isOperandText.toIsTrimmedField

theorem hash_notMem_text (h : i.Legible) : '#' ∉ i.text.toList :=
  notMem_text h.hash_notMem (by simp) fun o ho => (h.operands o ho).isOperandText.hash_notMem

theorem newline_notMem_text (h : i.Legible) : '\n' ∉ i.text.toList := by
  have hmnemonic : '\n' ∉ i.opcode.mnemonic.toList := by
    intro hmem
    exact absurd (h.not_isBlank '\n' hmem) (by decide)
  exact notMem_text hmnemonic (by simp) fun o ho =>
    (h.operands o ho).isOperandText.newline_notMem

theorem head?_text (h : i.Legible) : i.text.toList.head? = i.opcode.mnemonic.toList.head? := by
  obtain ⟨c, cs, hmnemonic⟩ := List.exists_cons_of_ne_nil h.mnemonic_ne_nil
  rw [toList_text, hmnemonic]
  rfl

/-- The line ends as the last operand does, or as the mnemonic when there is none. -/
theorem getLast?_text (h : i.Legible) :
    i.text.toList.getLast? =
      match i.operands.getLast? with
      | none => i.opcode.mnemonic.toList.getLast?
      | some last => last.text.toList.getLast? := by
  rw [toList_text]
  cases hlast : i.operands.getLast? with
  | none =>
      obtain hnil : i.operands = [] := List.getLast?_eq_none_iff.mp hlast
      simp [hnil]
  | some last =>
      have hne : i.operands ≠ [] := by
        intro hnil
        simp [hnil] at hlast
      have htext := (h.operands last (List.mem_of_getLast? hlast)).isOperandText
      have hfields : i.fields.getLast? = some last.text.toList := by
        rw [fields, List.getLast?_map, hlast]
        rfl
      obtain ⟨c, hc⟩ := Option.isSome_iff_exists.mp (List.getLast?_isSome.mpr htext.ne_nil)
      have hjoin := getLast?_intercalate [',', ' '] hfields htext.ne_nil
      rw [hc] at hjoin
      rw [if_neg hne, List.getLast?_append, List.getLast?_cons, hjoin]
      exact hc.symm

theorem trim_text (h : i.Legible) : trim i.text.toList = i.text.toList := by
  rw [trim_eq_self_iff, h.head?_text, h.getLast?_text]
  refine ⟨fun c hc => h.not_isBlank c (List.mem_of_mem_head? hc), ?_⟩
  intro c hc
  cases hlast : i.operands.getLast? with
  | none =>
      rw [hlast] at hc
      exact h.not_isBlank c (List.mem_of_getLast? hc)
  | some last =>
      rw [hlast] at hc
      have htext := (h.operands last (List.mem_of_getLast? hlast)).isOperandText
      exact (trim_eq_self_iff.mp htext.trim_eq).2 c hc

/-- The mnemonic is the first word of the line. -/
theorem takeWhile_text (h : i.Legible) :
    i.text.toList.takeWhile (!isBlank ·) = i.opcode.mnemonic.toList := by
  have hall : ∀ c ∈ i.opcode.mnemonic.toList, (!isBlank c) = true := by
    intro c hc
    rw [h.not_isBlank c hc]
    rfl
  rw [toList_text, List.takeWhile_append_of_pos hall]
  split
  · simp
  · simp [isBlank]

/-- The operands are what is left of the line. -/
theorem trim_dropWhile_text (h : i.Legible) :
    trim (i.text.toList.dropWhile (!isBlank ·)) = [',', ' '].intercalate i.fields := by
  have hall : ∀ c ∈ i.opcode.mnemonic.toList, (!isBlank c) = true := by
    intro c hc
    rw [h.not_isBlank c hc]
    rfl
  rw [toList_text, List.dropWhile_append_of_pos hall]
  split
  · rename_i hnil
    simp [fields, hnil]
  · rw [List.dropWhile_cons_of_neg (by simp [isBlank]), trim_space_cons,
      trim_intercalate _ h.isTrimmedField]

/-- A legible instruction reads back from its text. -/
theorem readInstruction_text (h : i.Legible) (origin : Origin) :
    readInstruction origin i.text.toList = .ok (i.mapOrigin fun _ => origin) := by
  have hbody := instructionBody_eq_self h.trim_text h.hash_notMem_text
  have hoperands : i.fields.mapM (readOperand origin) =
      .ok (i.operands.map (Operand.mapOrigin fun _ => origin)) :=
    mapM_readOperand_text h.operands origin
  simp only [readInstruction, hbody, h.takeWhile_text, h.trim_dropWhile_text,
    splitFields_intercalate h.isTrimmedField, hoperands, bind, Except.bind, pure, Except.pure,
    String.ofList_toList, h.ofMnemonic_mnemonic, mapOrigin]

/-- The line of a legible instruction is no comment: only the mnemonic could start one. -/
theorem not_startsComment_text (h : i.Legible) : ¬StartsComment i.text.toList := by
  rintro (hhash | hslashes)
  · exact h.hash_notMem_text (hhash.subset (by simp))
  · apply h.not_slashes
    rw [toList_text] at hslashes
    obtain ⟨c, cs, hmnemonic⟩ := List.exists_cons_of_ne_nil h.mnemonic_ne_nil
    rw [hmnemonic] at hslashes ⊢
    cases cs with
    | nil =>
        split at hslashes <;> simp at hslashes
    | cons d ds => simpa using hslashes

end Legible

end Instruction

/-! ## What is read -/

namespace Listing

theorem comment?_eq_none_iff {cs : List Char} : comment? cs = none ↔ ¬StartsComment cs := by
  unfold comment?
  split
  · simp [StartsComment]
  · simp [StartsComment]
  · rename_i hhash hslashes
    refine iff_of_true rfl ?_
    rintro (⟨rest, rfl⟩ | ⟨rest, rfl⟩)
    · exact hhash rest rfl
    · exact hslashes rest rfl

theorem comment?_eq_some {cs text : List Char} (h : comment? cs = some text) :
    ∃ rest, text = trim rest ∧ rest ⊆ cs := by
  unfold comment? at h
  split at h
  · rename_i rest
    exact ⟨rest, (Option.some.inj h).symm, by simp⟩
  · rename_i rest
    exact ⟨rest, (Option.some.inj h).symm, by simp⟩
  · simp at h

/-- What stands before the colon of a label, trimmed, is where the line starts. -/
theorem trim_dropLast_isPrefix {content : List Char} (htrim : trim content = content) :
    trim content.dropLast <+: content := by
  obtain ⟨before, after, hbefore, _, heq⟩ := exists_eq_append_trim content.dropLast
  cases before with
  | nil =>
      have hpre : trim content.dropLast <+: content.dropLast := by
        refine ⟨after, ?_⟩
        rw [List.nil_append] at heq
        exact heq.symm
      exact hpre.trans (List.dropLast_prefix content)
  | cons c before =>
      -- a line that starts with white space would not be trimmed
      exfalso
      have hhead : content.head? = some c := by
        obtain ⟨tail, htail⟩ := List.dropLast_prefix content
        rw [← htail, heq]
        rfl
      have hblank := (trim_eq_self_iff.mp htrim).1 c hhead
      simp [(allBlank_cons.mp hbefore).1] at hblank

/-- What is read as an instruction: the mnemonic is the first word of the body, and the operands are
those of the fields behind it. -/
theorem readInstruction_eq_ok {origin : Origin} {content : List Char} {i : Instruction}
    (h : readInstruction origin content = .ok i) :
    i.opcode = .ofMnemonic (String.ofList ((instructionBody content).takeWhile (!isBlank ·))) ∧
      ∃ fields, splitFields (trim ((instructionBody content).dropWhile (!isBlank ·))) = .ok fields ∧
        List.Forall₂ (fun field operand => readOperand origin field = .ok operand)
          fields i.operands := by
  simp only [readInstruction, bind, Except.bind] at h
  split at h
  · simp at h
  rename_i fields hfields
  split at h
  · simp at h
  rename_i operands hoperands
  obtain rfl := Except.ok.inj h
  exact ⟨rfl, fields, hfields, mapM_readOperand_eq_ok.mp hoperands⟩

theorem exists_of_mem_right {α β : Type} {R : α → β → Prop} {as : List α} {bs : List β} {b : β}
    (h : List.Forall₂ R as bs) (hb : b ∈ bs) : ∃ a ∈ as, R a b := by
  induction h with
  | nil => simp at hb
  | cons hfirst _ ih =>
      rcases List.mem_cons.mp hb with rfl | hb
      · exact ⟨_, List.mem_cons_self, hfirst⟩
      · obtain ⟨a, ha, hab⟩ := ih hb
        exact ⟨a, List.mem_cons_of_mem _ ha, hab⟩

theorem exists_getLast?_field {R : List Char → Operand → Prop} {fields : List (List Char)}
    {operands : List Operand} {last : Operand} (h : List.Forall₂ R fields operands)
    (hlast : operands.getLast? = some last) :
    ∃ field, fields.getLast? = some field ∧ R field last := by
  rw [← List.forall₂_reverse_iff] at h
  rw [← List.head?_reverse] at hlast
  obtain ⟨rest, hrest⟩ := List.head?_eq_some_iff.mp hlast
  rw [hrest, List.forall₂_cons_right_iff] at h
  obtain ⟨field, others, hread, _, heq⟩ := h
  exact ⟨field, by rw [← List.head?_reverse, heq]; rfl, hread⟩

theorem instructionBody_isPrefix (content : List Char) : instructionBody content <+: content := by
  obtain ⟨ws, _, heq⟩ := exists_eq_trimEnd_append (content.takeWhile (· != '#'))
  have hbody : instructionBody content <+: content.takeWhile (· != '#') := ⟨ws, heq.symm⟩
  exact hbody.trans (List.takeWhile_prefix _)

theorem hash_notMem_instructionBody (content : List Char) : '#' ∉ instructionBody content := by
  obtain ⟨ws, _, heq⟩ := exists_eq_trimEnd_append (content.takeWhile (· != '#'))
  intro hmem
  have hwhile : '#' ∈ content.takeWhile (· != '#') := by
    rw [heq]
    exact List.mem_append_left ws hmem
  simpa using List.mem_takeWhile_imp hwhile

/-- Operands are read from fields that stand as operands. -/
theorem isOperandText_of_mem_fields {content field : List Char} {fields : List (List Char)}
    (hnewline : '\n' ∉ content)
    (h : splitFields (trim ((instructionBody content).dropWhile (!isBlank ·))) = .ok fields)
    (hfield : field ∈ fields) : IsOperandText field := by
  obtain ⟨htrimmed, hsubset⟩ := (splitFields_eq_ok h).1 field hfield
  have hbody : field ⊆ instructionBody content := by
    intro c hc
    exact (List.dropWhile_suffix _).subset (mem_of_mem_trim (hsubset hc))
  refine ⟨htrimmed, ?_, ?_⟩
  · intro hmem
    exact hash_notMem_instructionBody content (hbody hmem)
  · intro hmem
    exact hnewline ((instructionBody_isPrefix content).subset (hbody hmem))

/-- A line that is no comment has a body, and it starts as the line does. -/
theorem head?_instructionBody {content : List Char} {c : Char} (htrim : trim content = content)
    (hcomment : ¬StartsComment content) (hc : content.head? = some c) :
    (instructionBody content).head? = some c := by
  have hblank : isBlank c = false := (trim_eq_self_iff.mp htrim).1 c hc
  obtain ⟨cs, rfl⟩ := List.head?_eq_some_iff.mp hc
  have hhash : c ≠ '#' := by
    rintro rfl
    exact hcomment (.inl (by simp))
  have hwhile : c ∈ (c :: cs).takeWhile (· != '#') := by
    rw [List.takeWhile_cons_of_pos (by simpa using hhash)]
    exact List.mem_cons_self
  have hne : instructionBody (c :: cs) ≠ [] := by
    intro hnil
    obtain ⟨ws, hws, heq⟩ := exists_eq_trimEnd_append ((c :: cs).takeWhile (· != '#'))
    rw [show trimEnd _ = [] from hnil, List.nil_append] at heq
    rw [heq] at hwhile
    have := hws c hwhile
    simp [hblank] at this
  obtain ⟨d, ds, hbody⟩ := List.exists_cons_of_ne_nil hne
  have hpre := instructionBody_isPrefix (c :: cs)
  rw [hbody, List.cons_prefix_cons] at hpre
  rw [hbody, hpre.1]
  rfl

theorem legible_of_readInstruction {origin : Origin} {content : List Char} {i : Instruction}
    (hne : content ≠ []) (htrim : trim content = content) (hnewline : '\n' ∉ content)
    (hcomment : ¬StartsComment content) (hdot : content.head? ≠ some '.')
    (h : readInstruction origin content = .ok i) : i.Legible := by
  obtain ⟨hopcode, fields, hfields, hoperands⟩ := readInstruction_eq_ok h
  have hmnemonic : i.opcode.mnemonic.toList =
      (instructionBody content).takeWhile (!isBlank ·) := by
    rw [hopcode, Opcode.mnemonic_ofMnemonic, String.toList_ofList]
  have hpre : i.opcode.mnemonic.toList <+: content := by
    rw [hmnemonic]
    exact (List.takeWhile_prefix _).trans (instructionBody_isPrefix content)
  obtain ⟨c, cs, rfl⟩ := List.exists_cons_of_ne_nil hne
  have hblank : isBlank c = false := (trim_eq_self_iff.mp htrim).1 c rfl
  refine ⟨?_, ?_, ?_, ?_, ?_, ?_, ?_⟩
  · have hhead := head?_instructionBody htrim hcomment rfl
    obtain ⟨ds, hbody⟩ := List.head?_eq_some_iff.mp hhead
    rw [hmnemonic, hbody, List.takeWhile_cons_of_pos (by simp [hblank])]
    simp
  · intro d hd
    rw [hmnemonic] at hd
    simpa using List.mem_takeWhile_imp hd
  · intro hmem
    rw [hmnemonic] at hmem
    exact hash_notMem_instructionBody _ ((List.takeWhile_prefix _).subset hmem)
  · intro hstart
    obtain ⟨rest, heq⟩ := hstart.trans hpre
    rw [← heq] at hdot
    simp at hdot
  · intro hstart
    exact hcomment (.inr (hstart.trans hpre))
  · rw [hopcode, Opcode.mnemonic_ofMnemonic]
  · intro operand hoperand
    obtain ⟨field, hfield, hread⟩ := exists_of_mem_right hoperands hoperand
    exact (Operand.canonical_of_readOperand (isOperandText_of_mem_fields hnewline hfields hfield)
      hread).1

/-- What a line stands for, by the kind of line. -/
theorem readContent_eq_ok {origin : Origin} {content : List Char} {node : Node}
    (h : readContent origin content = .ok node) :
    (∃ rest, rest ⊆ content ∧ node = .comment (String.ofList (trim rest)) origin) ∨
    (¬StartsComment content ∧ trim content.dropLast ≠ [] ∧
      node = .label (String.ofList (trim content.dropLast)) origin) ∨
    (content.head? = some '.' ∧ content.getLast? ≠ some ':' ∧
      node = .directive (String.ofList content) origin) ∨
    (¬StartsComment content ∧ content.head? ≠ some '.' ∧ content.getLast? ≠ some ':' ∧
      ∃ i, readInstruction origin content = .ok i ∧ node = .instruction i) := by
  unfold readContent at h
  split at h
  · rename_i text htext
    obtain ⟨rest, rfl, hsubset⟩ := comment?_eq_some htext
    exact .inl ⟨rest, hsubset, (Except.ok.inj h).symm⟩
  rename_i hcomment
  rw [comment?_eq_none_iff] at hcomment
  right
  by_cases hcolon : content.getLast? = some ':'
  · left
    rw [label?, if_pos hcolon] at h
    cases hname : trim content.dropLast with
    | nil => simp [hname] at h
    | cons c cs =>
        rw [hname] at h
        exact ⟨hcomment, by simp, (Except.ok.inj h).symm⟩
  right
  rw [label?, if_neg hcolon] at h
  dsimp only at h
  split at h
  · rename_i hdot
    exact .inl ⟨hdot, hcolon, (Except.ok.inj h).symm⟩
  · rename_i hdot
    cases hread : readInstruction origin content with
    | error fault => simp [hread, Except.map] at h
    | ok i =>
        rw [hread] at h
        exact .inr ⟨hcomment, hdot, hcolon, i, rfl, (Except.ok.inj h).symm⟩

/-- A line that stands for an instruction. -/
theorem readContent_eq_ok_instruction {origin : Origin} {content : List Char} {i : Instruction}
    (h : readContent origin content = .ok (.instruction i)) :
    ¬StartsComment content ∧ content.head? ≠ some '.' ∧ content.getLast? ≠ some ':' ∧
      readInstruction origin content = .ok i := by
  rcases readContent_eq_ok h with ⟨_, _, hkind⟩ | ⟨_, _, hkind⟩ | ⟨_, _, hkind⟩ |
    ⟨hcomment, hdot, hcolon, j, hread, hkind⟩
  · simp at hkind
  · simp at hkind
  · simp at hkind
  · obtain rfl : i = j := by simpa using hkind
    exact ⟨hcomment, hdot, hcolon, hread⟩

/-- What is read is legible. -/
theorem legible_of_readContent {origin : Origin} {content : List Char} {node : Node}
    (hne : content ≠ []) (htrim : trim content = content) (hnewline : '\n' ∉ content)
    (h : readContent origin content = .ok node) : node.Legible := by
  rcases readContent_eq_ok h with ⟨rest, hsubset, rfl⟩ | ⟨hcomment, hname, rfl⟩ |
    ⟨hdot, hcolon, rfl⟩ | ⟨hcomment, hdot, _, i, hread, rfl⟩
  · simp only [Node.Legible, String.toList_ofList, trim_trim, true_and]
    intro hmem
    exact hnewline (hsubset (mem_of_mem_trim hmem))
  · have hpre := trim_dropLast_isPrefix htrim
    simp only [Node.Legible, String.toList_ofList, trim_trim, true_and]
    refine ⟨hname, ?_, ?_⟩
    · intro hmem
      exact hnewline (hpre.subset hmem)
    · intro hstart
      apply hcomment
      rcases hstart with hhash | hslashes
      · exact .inl (hhash.trans hpre)
      · exact .inr (hslashes.trans hpre)
  · obtain ⟨cs, rfl⟩ := List.head?_eq_some_iff.mp hdot
    simp only [Node.Legible, String.toList_ofList]
    refine ⟨by simp, ?_, hnewline⟩
    intro c hc
    refine ⟨(trim_eq_self_iff.mp htrim).2 c hc, ?_⟩
    intro heq
    exact hcolon (heq ▸ hc)
  · exact legible_of_readInstruction hne htrim hnewline hcomment hdot hread

/-- An instruction ends as its body does. -/
theorem getLast?_instructionBody {origin : Origin} {content : List Char} {i : Instruction}
    (hnewline : '\n' ∉ content) (hi : i.Legible) (hends : i.EndsInColon)
    (h : readInstruction origin content = .ok i) :
    (instructionBody content).getLast? = some ':' := by
  obtain ⟨hopcode, fields, hfields, hoperands⟩ := readInstruction_eq_ok h
  obtain ⟨before, after, _, hafter, hrest⟩ :=
    exists_eq_append_trim ((instructionBody content).dropWhile (!isBlank ·))
  have hsplit : instructionBody content = i.opcode.mnemonic.toList ++
      (instructionBody content).dropWhile (!isBlank ·) := by
    rw [hopcode, Opcode.mnemonic_ofMnemonic, String.toList_ofList,
      List.takeWhile_append_dropWhile]
  have htrimEnd : trimEnd (instructionBody content) = instructionBody content :=
    List.rdropWhile_idempotent _ _
  rw [Instruction.endsInColon_iff, hi.getLast?_text] at hends
  cases hlast : i.operands.getLast? with
  | none =>
      -- without operands the body is the mnemonic
      rw [hlast] at hends
      rw [List.getLast?_eq_none_iff.mp hlast, List.forall₂_nil_right_iff] at hoperands
      rw [hoperands] at hfields
      have hblank := trim_eq_nil_iff.mp (eq_nil_of_splitFields_eq_ok hfields)
      have hnil : (instructionBody content).dropWhile (!isBlank ·) = [] :=
        eq_nil_of_trimEnd_append (hsplit ▸ htrimEnd) hblank
      rw [hsplit, hnil, List.append_nil]
      exact hends
  | some last =>
      -- with operands it ends as the last field does
      rw [hlast] at hends
      obtain ⟨field, hfield, hread⟩ := exists_getLast?_field hoperands hlast
      have htext := isOperandText_of_mem_fields hnewline hfields (List.mem_of_getLast? hfield)
      have hcolon : field.getLast? = some ':' :=
        (Operand.canonical_of_readOperand htext hread).2 hends
      have hjoined := (splitFields_eq_ok hfields).2 (trim_trim _) field hfield
      rw [hrest, ← List.append_assoc, ← List.append_assoc] at hsplit
      have hnil : after = [] := eq_nil_of_trimEnd_append (hsplit ▸ htrimEnd) hafter
      rw [hsplit, hnil, List.append_nil, List.getLast?_append, ← hjoined, hcolon]
      rfl

/-- An instruction that ends in a colon was read from a line with a colon right before its comment:
without the comment the line would have been a label. -/
theorem hasColonBeforeHash_of_endsInColon {origin : Origin} {content : List Char} {i : Instruction}
    (htrim : trim content = content) (hnewline : '\n' ∉ content)
    (hcolon : content.getLast? ≠ some ':') (hi : i.Legible) (hends : i.EndsInColon)
    (h : readInstruction origin content = .ok i) :
    HasColonBeforeHash content := by
  obtain ⟨ws, hws, hwhile⟩ := exists_eq_trimEnd_append (content.takeWhile (· != '#'))
  obtain ⟨before, hbefore⟩ :=
    List.getLast?_eq_some_iff.mp (getLast?_instructionBody hnewline hi hends h)
  have hsplit : content = before ++ [':'] ++ ws ++ content.dropWhile (· != '#') := by
    rw [← hbefore, instructionBody, ← hwhile, List.takeWhile_append_dropWhile]
  cases hrest : content.dropWhile (· != '#') with
  | nil =>
      exfalso
      rw [hrest, List.append_nil] at hsplit
      have htrimEnd : trimEnd content = content :=
        trimEnd_eq_self_iff.mpr (trim_eq_self_iff.mp htrim).2
      have hnil : ws = [] := eq_nil_of_trimEnd_append (hsplit ▸ htrimEnd) hws
      exact hcolon (by rw [hsplit, hnil]; simp)
  | cons c after =>
      have hc : c = '#' := by
        have := List.head?_dropWhile_not (· != '#') content
        rw [hrest] at this
        simpa using this
      exact ⟨before, ws, after, hws, by rw [hsplit, hrest, hc]; simp⟩

end Listing

end MacroAsm
