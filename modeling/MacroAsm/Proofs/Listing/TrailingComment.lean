import MacroAsm.Proofs.Listing.Canonical

/-!
# Trailing comments

A number sign after an instruction starts a comment, which is dropped when the instruction is read.
But what kind of line it is has been decided before, with the comment still there: a comment that
ends in a colon makes the whole line a label, and the instruction is lost.  Any other comment leaves
the instruction as it is.

## Main statements

* `Listing.readContent_mapOrigin` — but for its origins, a node is known from its trimmed line.
* `Listing.exists_trim_annotated` — what trimming leaves of a line with a comment.
* `Listing.readContent_annotated`, `Listing.readContent_annotated_colon` — what the line stands for,
  by how its comment ends.
* `Listing.exists_read_annotated_iff` — the comments that leave an instruction as it is.
* `Listing.not_forall_read_annotated` — a comment that makes a label of an instruction.
-/

namespace MacroAsm

open Text

namespace Listing

/-! ## Origins of what is read -/

theorem readOperand_mapOrigin (o o' : Origin) (field : List Char) :
    readOperand o' field = (readOperand o field).map (Operand.mapOrigin fun _ => o') := by
  unfold readOperand
  split
  · cases readTemporary? field <;> rfl
  split
  · rfl
  split
  · cases readInteger? field <;> rfl
  split <;> rfl

theorem mapM_readOperand_mapOrigin (o o' : Origin) (fields : List (List Char)) :
    fields.mapM (readOperand o') =
      (fields.mapM (readOperand o)).map (List.map (Operand.mapOrigin fun _ => o')) := by
  induction fields with
  | nil => rfl
  | cons field fields ih =>
      rw [List.mapM_cons, List.mapM_cons, ih, readOperand_mapOrigin o o']
      cases readOperand o field with
      | error fault => rfl
      | ok operand =>
          cases fields.mapM (readOperand o) with
          | error fault => rfl
          | ok operands => rfl

theorem readInstruction_mapOrigin (o o' : Origin) (content : List Char) :
    readInstruction o' content =
      (readInstruction o content).map (Instruction.mapOrigin fun _ => o') := by
  unfold readInstruction
  dsimp only
  cases splitFields (trim ((instructionBody content).dropWhile (!isBlank ·))) with
  | error fault => rfl
  | ok fields =>
      change (fields.mapM (readOperand o') >>= _) = Except.map _ (fields.mapM (readOperand o) >>= _)
      rw [mapM_readOperand_mapOrigin o o']
      cases fields.mapM (readOperand o) with
      | error fault => rfl
      | ok operands => rfl

/-- But for its origins, a node is known from its trimmed line. -/
theorem readContent_mapOrigin (o o' : Origin) (content : List Char) :
    readContent o' content = (readContent o content).map (Node.mapOrigin fun _ => o') := by
  unfold readContent
  cases comment? content with
  | some text => rfl
  | none =>
      dsimp only
      cases label? content with
      | some name => cases name <;> rfl
      | none =>
          dsimp only
          split
          · rfl
          · rw [readInstruction_mapOrigin o o']
            cases readInstruction o content with
            | error fault => rfl
            | ok i => rfl

/-- All origins in a node are the one that its line was read with. -/
theorem mapOrigin_eq_self_of_readContent {o : Origin} {content : List Char} {node : Node}
    (h : readContent o content = .ok node) : node.mapOrigin (fun _ => o) = node := by
  have hself := readContent_mapOrigin o o content
  rw [h] at hself
  exact (Except.ok.inj hself).symm

/-! ## A line with a comment -/

/-- What trimming leaves of a line with a comment: the trimmed body, white space, and a comment that
ends as the trimmed comment does. -/
theorem exists_trim_annotated {body : List Char} (hne : trim body ≠ []) (comment : List Char) :
    ∃ gap rest, AllBlank gap ∧ rest.getLast? = (trim comment).getLast? ∧
      trim (body ++ ' ' :: '#' :: ' ' :: comment) = trim body ++ gap ++ '#' :: rest := by
  obtain ⟨before, after, hbefore, hafter, hbody⟩ := exists_eq_append_trim body
  obtain ⟨rest, tail, htail, hcomment, htrim⟩ :=
    exists_trim_cons (show isBlank '#' = false by decide) (' ' :: comment)
  have hlast : ∀ c, ('#' :: rest).getLast? = some c → isBlank c = false := by
    rw [← htrim]
    exact fun c => getLast?_trim
  have hgap : AllBlank (after ++ [' ']) := by simp [hafter, isBlank]
  refine ⟨after ++ [' '], rest, hgap, ?_, ?_⟩
  · have hrest : trim comment = trim rest := by
      rw [← trim_space_cons, hcomment, trim_append_of_blank rest htail]
    rw [hrest]
    cases hend : rest.getLast? with
    | none =>
        obtain rfl : rest = [] := List.getLast?_eq_none_iff.mp hend
        rfl
    | some c =>
        have hc : isBlank c = false := hlast c (by rw [List.getLast?_cons, hend]; rfl)
        exact (getLast?_trim_of_not_blank hend hc).symm
  · have hline : body ++ ' ' :: '#' :: ' ' :: comment =
        before ++ (trim body ++ (after ++ [' ']) ++ '#' :: rest ++ tail) := by
      conv_lhs => rw [hbody, hcomment]
      simp
    rw [hline, trim_blank_append hbefore, trim_append_of_blank _ htail, trim_eq_self_iff]
    constructor
    · intro c hc
      obtain ⟨d, ds, hd⟩ := List.exists_cons_of_ne_nil hne
      have hhead : (trim body).head? = some c := by
        rw [hd] at hc ⊢
        exact hc
      exact head?_trim hhead
    · intro c hc
      rw [List.getLast?_append_of_ne_nil _ (by simp)] at hc
      exact hlast c hc

section Annotated

variable {content gap : List Char} (hne : content ≠ []) (hgap : AllBlank gap)

include hne hgap in
/-- What follows the body starts no comment at the start of the line. -/
theorem startsComment_annotated_iff (rest : List Char) :
    StartsComment (content ++ gap ++ '#' :: rest) ↔ StartsComment content := by
  obtain ⟨c, cs, rfl⟩ := List.exists_cons_of_ne_nil hne
  cases cs with
  | cons d ds => simp [StartsComment]
  | nil =>
      -- a single slash is followed by white space or the number sign
      cases gap with
      | nil => simp [StartsComment]
      | cons d ds =>
          have hd : d ≠ '/' := by
            rintro rfl
            simp [isBlank] at hgap
          simp [StartsComment, hd.symm]

include hne hgap in
theorem comment?_annotated (hcomment : ¬StartsComment content) (rest : List Char) :
    comment? (content ++ gap ++ '#' :: rest) = none := by
  rw [comment?_eq_none_iff, startsComment_annotated_iff hne hgap]
  exact hcomment

/-- The line ends in a colon when its comment does: a number sign is none. -/
theorem getLast?_annotated_eq_colon_iff (content gap rest : List Char) :
    (content ++ gap ++ '#' :: rest).getLast? = some ':' ↔ rest.getLast? = some ':' := by
  rw [List.getLast?_append_of_ne_nil _ (by simp), List.getLast?_cons]
  cases rest.getLast? <;> simp

include hgap in
/-- The body of an instruction ends before its comment. -/
theorem instructionBody_annotated (htrim : trim content = content) (hhash : '#' ∉ content)
    (rest : List Char) : instructionBody (content ++ gap ++ '#' :: rest) = content := by
  have hbefore : ∀ c ∈ content ++ gap, (c != '#') = true := by
    intro c hc
    have hne : c ≠ '#' := by
      rintro rfl
      rcases List.mem_append.mp hc with hc | hc
      · exact hhash hc
      · exact absurd (hgap '#' hc) (by decide)
    simpa using hne
  have hwhile : (content ++ gap ++ '#' :: rest).takeWhile (· != '#') = content ++ gap := by
    rw [List.takeWhile_append_of_pos hbefore]
    simp
  rw [instructionBody, hwhile, trimEnd_append_blank content hgap, trimEnd_eq_self_iff]
  exact (trim_eq_self_iff.mp htrim).2

include hne hgap in
/-- A comment that does not end in a colon leaves an instruction as it is. -/
theorem readContent_annotated {origin : Origin} {i : Instruction} {rest : List Char}
    (htrim : trim content = content) (hhash : '#' ∉ content)
    (h : readContent origin content = .ok (.instruction i)) (hrest : rest.getLast? ≠ some ':') :
    readContent origin (content ++ gap ++ '#' :: rest) = .ok (.instruction i) := by
  obtain ⟨hcomment, hdot, _, hread⟩ := readContent_eq_ok_instruction h
  have hlabel : label? (content ++ gap ++ '#' :: rest) = none :=
    if_neg ((getLast?_annotated_eq_colon_iff content gap rest).not.mpr hrest)
  have hhead : (content ++ gap ++ '#' :: rest).head? ≠ some '.' := by
    obtain ⟨c, cs, rfl⟩ := List.exists_cons_of_ne_nil hne
    simpa using hdot
  have hbody : readInstruction origin (content ++ gap ++ '#' :: rest) =
      readInstruction origin content := by
    unfold readInstruction
    rw [instructionBody_annotated hgap htrim hhash, instructionBody_eq_self htrim hhash]
  rw [readContent, comment?_annotated hne hgap hcomment, hlabel, hbody, hread]
  dsimp only
  rw [if_neg hhead]
  rfl

include hne hgap in
/-- A comment that ends in a colon makes a label of the whole line. -/
theorem readContent_annotated_colon {origin : Origin} {rest : List Char}
    (htrim : trim content = content) (hcomment : ¬StartsComment content)
    (hrest : rest.getLast? = some ':') :
    ∃ name, readContent origin (content ++ gap ++ '#' :: rest) = .ok (.label name origin) := by
  have hlast := (getLast?_annotated_eq_colon_iff content gap rest).mpr hrest
  have hname : trim (content ++ gap ++ '#' :: rest).dropLast ≠ [] := by
    obtain ⟨c, cs, rfl⟩ := List.exists_cons_of_ne_nil hne
    have hc : isBlank c = false := (trim_eq_self_iff.mp htrim).1 c rfl
    intro hnil
    rw [List.append_assoc, List.cons_append, List.dropLast_cons_of_ne_nil (by simp)] at hnil
    simp [trim_eq_nil_iff, hc] at hnil
  obtain ⟨c, cs, hcs⟩ := List.exists_cons_of_ne_nil hname
  refine ⟨String.ofList (c :: cs), ?_⟩
  rw [readContent, comment?_annotated hne hgap hcomment, label?, if_pos hlast, hcs]

end Annotated

/-! ## A text of one line -/

theorem read_eq_ok_singleton_iff {file text : String} {node : Node} (h : '\n' ∉ text.toList) :
    read file text = .ok [node] ↔
      trim text.toList ≠ [] ∧
        readContent (lineOrigin file 1 text.toList) (trim text.toList) = .ok node := by
  by_cases hempty : text.toList = []
  · simp [read, hempty]
  rw [read, lines_eq_singleton h hempty]
  by_cases hblank : trim text.toList = []
  · simp [readLines, readLine, hblank, bind, Except.bind, pure, Except.pure]
  · cases hread : readContent (lineOrigin file 1 text.toList) (trim text.toList) <;>
      simp [readLines, readLine, hblank, hread, bind, Except.bind, pure, Except.pure]

/-! ## The comments that change nothing -/

/-- **Trailing comments.**  With a comment behind it, a line that is an instruction reads the same
but for origins, exactly when the trimmed comment does not end in a colon.  When it does, the line
is a label. -/
theorem exists_read_annotated_iff {file body comment : String} {i : Instruction}
    (hbody : '\n' ∉ body.toList) (hhash : '#' ∉ body.toList)
    (h : read file body = .ok [.instruction i]) (hcomment : '\n' ∉ comment.toList)
    (file' : String) :
    ((∃ nodes, read file' (body ++ " # " ++ comment) = .ok nodes ∧
        Node.SameUpToOrigins nodes [.instruction i]) ↔
      (trim comment.toList).getLast? ≠ some ':') ∧
    ((trim comment.toList).getLast? = some ':' →
      ∃ name origin, read file' (body ++ " # " ++ comment) = .ok [.label name origin]) := by
  obtain ⟨hne, hread⟩ := (read_eq_ok_singleton_iff hbody).mp h
  obtain ⟨gap, rest, hgap, hlast, htrim⟩ := exists_trim_annotated hne comment.toList
  have hline : (body ++ " # " ++ comment).toList =
      body.toList ++ ' ' :: '#' :: ' ' :: comment.toList := by
    simp
  rw [← hline] at htrim
  have hnewline : '\n' ∉ (body ++ " # " ++ comment).toList := by
    simp [hline, hbody, hcomment]
  have htrimNe : trim (body ++ " # " ++ comment).toList ≠ [] := by
    rw [htrim]
    simp
  have hhashTrim : '#' ∉ trim body.toList := fun hmem => hhash (mem_of_mem_trim hmem)
  -- the line of the instruction moves to where the annotated line is
  have hmoved := readContent_mapOrigin (lineOrigin file 1 body.toList)
    (lineOrigin file' 1 (body ++ " # " ++ comment).toList) (trim body.toList)
  rw [hread] at hmoved
  have hlabel : (trim comment.toList).getLast? = some ':' →
      ∃ name origin, read file' (body ++ " # " ++ comment) = .ok [.label name origin] := by
    intro hcolon
    have hstart := (readContent_eq_ok_instruction hread).1
    obtain ⟨name, hname⟩ := readContent_annotated_colon
      hne hgap (trim_trim _) hstart (hlast.trans hcolon)
    exact ⟨name, _, (read_eq_ok_singleton_iff hnewline).mpr ⟨htrimNe, htrim ▸ hname⟩⟩
  refine ⟨?_, hlabel⟩
  constructor
  · rintro ⟨nodes, hnodes, hsame⟩ hcolon
    obtain ⟨name, origin, hname⟩ := hlabel hcolon
    rw [hname] at hnodes
    obtain rfl := Except.ok.inj hnodes
    simp [Node.SameUpToOrigins, Node.mapOrigin] at hsame
  · intro hcolon
    have hannotated := readContent_annotated hne hgap (trim_trim _) hhashTrim hmoved
      (fun hrest => hcolon (hlast.symm.trans hrest))
    rw [← htrim] at hannotated
    refine ⟨_, (read_eq_ok_singleton_iff hnewline).mpr ⟨htrimNe, hannotated⟩, ?_⟩
    exact congrArg (fun node => [node]) (Node.mapOrigin_const _ (.instruction i) _)

/-- A colon inside a comment is harmless. -/
theorem exists_read_annotated_iff_inner_colon :
    let origin : Origin := ⟨"a.asm", .onLine 1 5 16⟩
    let test : Instruction :=
      ⟨.bitTest .branch .int .zero,
        [.temporary ⟨3, .general, origin⟩, .register "t1", .label ".L"], origin⟩
    read "a.asm" "    btiz %t3, t1, .L" = .ok [.instruction test] ∧
      ∃ nodes, read "b.asm" ("    btiz %t3, t1, .L" ++ " # " ++ "loop: # again ") = .ok nodes ∧
        Node.SameUpToOrigins nodes [.instruction test] := by
  intro origin test
  have hread : read "a.asm" "    btiz %t3, t1, .L" = .ok [.instruction test] := by
    decide +kernel
  have hiff := (exists_read_annotated_iff (by decide) (by decide) hread
    (show '\n' ∉ "loop: # again ".toList by decide) "b.asm").1
  exact ⟨hread, hiff.mpr (by decide +kernel)⟩

/-- A comment may not end in a colon: the instruction is gone, and a label stands in its place. -/
theorem not_forall_read_annotated :
    ¬∀ (file body comment : String) (i : Instruction), '\n' ∉ body.toList → '#' ∉ body.toList →
      read file body = .ok [.instruction i] → '\n' ∉ comment.toList →
      ∃ nodes, read file (body ++ " # " ++ comment) = .ok nodes ∧
        Node.SameUpToOrigins nodes [.instruction i] := by
  intro h
  obtain ⟨nodes, hread, hsame⟩ := h "a.asm" "    noti t0" "see loop:"
    ⟨.not .int, [.register "t0"], ⟨"a.asm", .onLine 1 5 7⟩⟩ (by decide) (by decide)
    (by decide +kernel) (by decide)
  have hlabel : read "a.asm" ("    noti t0" ++ " # " ++ "see loop:") =
      .ok [.label "noti t0 # see loop" ⟨"a.asm", .onLine 1 5 19⟩] := by
    decide +kernel
  rw [hlabel] at hread
  obtain rfl := Except.ok.inj hread
  simp [Node.SameUpToOrigins, Node.mapOrigin] at hsame

end Listing

end MacroAsm
