import MacroAsm.Proofs.Listing.Concatenation

/-!
# Where nodes come from

A node is read from one line that holds more than white space, and its origin says which line that
is and which of its bytes the node was read from: those that are left when white space is taken off
both ends.  Lines without a node still count.  The first line that cannot be read gives the error,
and the error's origin is found in the same way.

## Main definitions

* `Text.numberedContent` — the lines that hold more than white space, with their numbers.
* `Origin.Covers` — an origin that covers the content of a line.
* `Node.StandsFor` — a node that was read from a line.

## Main statements

* `Listing.covers_lineOrigin` — a line is given the origin that covers its content.
* `Listing.readLine_eq_ok_some`, `Listing.readLine_eq_error` — what one line gives.
* `Listing.places_of_read` — where nodes and errors come from.
-/

namespace MacroAsm

open Text

/-! ## Bytes and lines -/

namespace Text

theorem byteLength_eq_utf8ByteSize (cs : List Char) :
    byteLength cs = (String.ofList cs).utf8ByteSize := by
  induction cs with
  | nil => rfl
  | cons c cs ih =>
      rw [byteLength_cons, ih, String.ofList_cons, String.utf8ByteSize_append,
        String.utf8ByteSize_singleton]

/-- The bytes of a stretch of a text, by the lengths of what stands before it and of the stretch. -/
theorem extract_toUTF8 (before middle after : List Char) :
    (String.ofList (before ++ middle ++ after)).toUTF8.extract (byteLength before)
        (byteLength before + byteLength middle) =
      (String.ofList middle).toUTF8 := by
  have hbytes : (String.ofList (before ++ middle ++ after)).toUTF8 =
      (String.ofList before).toUTF8 ++
        ((String.ofList middle).toUTF8 ++ (String.ofList after).toUTF8) := by
    simp only [String.toUTF8, List.append_assoc, String.ofList_append, String.toByteArray_append]
  have hbefore : byteLength before = (String.ofList before).toUTF8.size :=
    byteLength_eq_utf8ByteSize before
  have hmiddle : byteLength middle = (String.ofList middle).toUTF8.size :=
    byteLength_eq_utf8ByteSize middle
  rw [hbytes, hbefore, hmiddle, ← Nat.add_zero (String.ofList before).toUTF8.size, Nat.add_assoc,
    Nat.zero_add, ByteArray.extract_append_size_add, ByteArray.extract_append_eq_left rfl]

/-- Of consecutive lines, the first of them being line `number`, those that hold more than white
space, each with its number. -/
def numberedContent (number : Nat) (ls : List (List Char)) : List (List Char × Nat) :=
  (ls.zipIdx number).filter fun entry => entry.1.any (!isBlank ·)

theorem any_not_isBlank {line : List Char} : line.any (!isBlank ·) = true ↔ trim line ≠ [] := by
  simp [Ne, trim_eq_nil_iff, AllBlank]

theorem numberedContent_cons_of_blank {line : List Char} (h : trim line = []) (number : Nat)
    (ls : List (List Char)) :
    numberedContent number (line :: ls) = numberedContent (number + 1) ls := by
  have hnot : ¬line.any (!isBlank ·) = true := fun hany => any_not_isBlank.mp hany h
  simp [numberedContent, List.zipIdx_cons, hnot]

theorem numberedContent_cons_of_content {line : List Char} (h : trim line ≠ []) (number : Nat)
    (ls : List (List Char)) :
    numberedContent number (line :: ls) = (line, number) :: numberedContent (number + 1) ls := by
  simp only [numberedContent, List.zipIdx_cons, List.filter_cons, any_not_isBlank.mpr h, if_true]

theorem newline_notMem_of_mem_pieces {line cs : List Char} (h : line ∈ pieces cs) :
    '\n' ∉ line := by
  rcases pieces_eq_lines_append cs with heq | heq
  · rw [heq] at h
    exact newline_notMem_of_mem_lines h
  · rw [heq] at h
    rcases List.mem_append.mp h with h | h
    · exact newline_notMem_of_mem_lines h
    · obtain rfl := List.mem_singleton.mp h
      simp

end Text

/-! ## What an origin says -/

/-- An origin that covers the content of a line of a file: it starts behind the leading white space,
and its bytes, from the start column up to the stop column, are the trimmed line.  Columns count from
one. -/
structure Origin.Covers (o : Origin) (file : String) (number : Nat) (line : List Char) : Prop where
  file_eq : o.file = file
  start_line : o.span.start.line = number
  stop_line : o.span.stop.line = number
  start_column : o.span.start.column = 1 + (String.ofList (line.takeWhile isBlank)).utf8ByteSize
  stop_column_le : o.span.stop.column ≤ 1 + (String.ofList line).utf8ByteSize
  bytes : (String.ofList line).toUTF8.extract (o.span.start.column - 1) (o.span.stop.column - 1) =
    (String.ofList (trim line)).toUTF8

/-- A node that was read from a line of a file: it covers the line's content, it is what the trimmed
line gives by itself but for origins, and its temporaries are introduced where it is. -/
structure Node.StandsFor (node : Node) (file : String) (number : Nat) (line : List Char) :
    Prop where
  covers : node.origin.Covers file number line
  alone : ∀ other, ∃ m, Listing.read other (String.ofList (trim line)) = .ok [m] ∧
    Node.SameUpToOrigins [m] [node]
  temporaries : ∀ i, node = .instruction i → ∀ t, .temporary t ∈ i.operands → t.origin = i.origin

@[simp] theorem Node.origin_mapOrigin (g : Origin → Origin) (node : Node) :
    (node.mapOrigin g).origin = g node.origin := by
  cases node <;> rfl

namespace Listing

/-- A line is given the origin that covers its content. -/
theorem covers_lineOrigin (file : String) (number : Nat) (line : List Char) :
    (lineOrigin file number line).Covers file number line := by
  obtain ⟨after, _, hafter⟩ := exists_eq_trimEnd_append (trimStart line)
  have hline : line.takeWhile isBlank ++ trim line ++ after = line := by
    rw [List.append_assoc, trim, ← hafter, takeWhile_append_trimStart]
  have hlength := congrArg byteLength hline
  rw [byteLength_append, byteLength_append] at hlength
  have hbytes := extract_toUTF8 (line.takeWhile isBlank) (trim line) after
  rw [hline] at hbytes
  refine ⟨rfl, rfl, rfl, ?_, ?_, ?_⟩
  · rw [← byteLength_eq_utf8ByteSize]
    rfl
  · rw [← byteLength_eq_utf8ByteSize]
    simp only [lineOrigin, Span.onLine]
    omega
  · simp only [lineOrigin, Span.onLine, Nat.add_assoc, Nat.add_sub_cancel_left]
    exact hbytes

/-! ## What one line gives -/

variable {file : String} {number : Nat} {line : List Char} {node : Node} {e : ReadError}

theorem readLine_of_blank (h : trim line = []) : readLine file number line = .ok none := by
  simp [readLine, h]

theorem readLine_of_content (h : trim line ≠ []) :
    readLine file number line =
      ((readContent (lineOrigin file number line) (trim line)).map some).mapError
        (⟨·, lineOrigin file number line⟩) := by
  have hne : (trim line).isEmpty = false := by simpa using h
  rw [readLine]
  simp only [hne, Bool.false_eq_true, if_false]
  cases readContent (lineOrigin file number line) (trim line) with
  | error fault => rfl
  | ok node => rfl

theorem readLine_eq_ok_none : readLine file number line = .ok none ↔ trim line = [] := by
  by_cases h : trim line = []
  · simp [readLine_of_blank h, h]
  · rw [readLine_of_content h]
    cases readContent (lineOrigin file number line) (trim line) with
    | error fault => simp [Except.map, Except.mapError, h]
    | ok other => simp [Except.map, Except.mapError, h]

theorem readLine_eq_ok_some :
    readLine file number line = .ok (some node) ↔
      trim line ≠ [] ∧ readContent (lineOrigin file number line) (trim line) = .ok node := by
  by_cases h : trim line = []
  · simp [readLine_of_blank h, h]
  · rw [readLine_of_content h]
    cases readContent (lineOrigin file number line) (trim line) with
    | error fault => simp [Except.map, Except.mapError]
    | ok other => simp [Except.map, Except.mapError, h]

theorem readLine_eq_error :
    readLine file number line = .error e ↔
      trim line ≠ [] ∧ readContent (lineOrigin file number line) (trim line) = .error e.fault ∧
        e.origin = lineOrigin file number line := by
  by_cases h : trim line = []
  · simp [readLine_of_blank h, h]
  · rw [readLine_of_content h]
    cases e with
    | mk fault origin =>
        cases readContent (lineOrigin file number line) (trim line) with
        | error fault => simp [Except.map, Except.mapError, h, eq_comm]
        | ok other => simp [Except.map, Except.mapError]

/-! ## Lines by themselves -/

/-- The empty piece behind a last line feed gives nothing. -/
theorem read_eq_readLines_pieces (file text : String) :
    read file text = readLines file 1 (pieces text.toList) := by
  rcases pieces_eq_lines_append text.toList with heq | heq
  · rw [heq, read]
  · rw [heq, readLines_append, read]
    cases readLines file 1 (lines text.toList) with
    | error e => rfl
    | ok nodes => exact congrArg Except.ok (List.append_nil nodes).symm

/-- A text of one line gives what the line gives. -/
theorem read_ofList (h : '\n' ∉ line) (file : String) :
    read file (String.ofList line) = (readLine file 1 line).map Option.toList := by
  rw [read_eq_readLines_pieces, String.toList_ofList, pieces_of_notMem h, readLines]
  cases readLine file 1 line with
  | error e => rfl
  | ok node => exact congrArg Except.ok (List.append_nil node.toList)

/-- A line that gives an error as a part of a text gives it by itself. -/
theorem read_ofList_of_error (hline : '\n' ∉ line) (h : readLine file number line = .error e)
    (other : String) : ∃ origin, read other (String.ofList line) = .error ⟨e.fault, origin⟩ := by
  have hmoved := @readLine_map (fun _ => lineOrigin other 1 line) file other number 1 line rfl
  rw [h] at hmoved
  refine ⟨lineOrigin other 1 line, ?_⟩
  rw [read_ofList hline, hmoved]
  rfl

/-- A line that gives no error as a part of a text gives none by itself. -/
theorem read_ofList_of_ok {result : Option Node} (hline : '\n' ∉ line)
    (h : readLine file number line = .ok result) (other : String) :
    ∃ nodes, read other (String.ofList line) = .ok nodes := by
  have hmoved := @readLine_map (fun _ => lineOrigin other 1 line) file other number 1 line rfl
  rw [h] at hmoved
  rw [read_ofList hline, hmoved]
  exact ⟨_, rfl⟩

theorem standsFor_of_readLine (hline : '\n' ∉ line)
    (h : readLine file number line = .ok (some node)) : node.StandsFor file number line := by
  obtain ⟨hne, hread⟩ := readLine_eq_ok_some.mp h
  have hself := mapOrigin_eq_self_of_readContent hread
  have horigin : node.origin = lineOrigin file number line := by
    rw [← hself, Node.origin_mapOrigin]
  refine ⟨?_, ?_, ?_⟩
  · rw [horigin]
    exact covers_lineOrigin file number line
  · intro other
    have hmoved := readContent_mapOrigin (lineOrigin file number line)
      (lineOrigin other 1 (trim line)) (trim line)
    rw [hread] at hmoved
    have halone : readLine other 1 (trim line) =
        .ok (some (node.mapOrigin fun _ => lineOrigin other 1 (trim line))) := by
      rw [readLine_eq_ok_some, trim_trim]
      exact ⟨hne, hmoved⟩
    refine ⟨node.mapOrigin fun _ => lineOrigin other 1 (trim line), ?_, ?_⟩
    · rw [read_ofList fun hmem => hline (mem_of_mem_trim hmem), halone]
      rfl
    · simp [Node.SameUpToOrigins]
  · rintro i rfl t ht
    -- every operand is the one with the line's origin in it
    have hoperands := congrArg Instruction.operands (Node.instruction.inj hself)
    rw [← hoperands] at ht
    obtain ⟨operand, _, hoperand⟩ := List.mem_map.mp ht
    cases operand with
    | temporary u =>
        obtain rfl := Operand.temporary.inj hoperand
        exact horigin.symm
    | register name => simp [Operand.mapOrigin] at hoperand
    | immediate value => simp [Operand.mapOrigin] at hoperand
    | label name => simp [Operand.mapOrigin] at hoperand
    | address text => simp [Operand.mapOrigin] at hoperand

/-! ## All lines -/

theorem readLines_cons_eq_ok {ls : List (List Char)} {nodes : List Node} :
    readLines file number (line :: ls) = .ok nodes ↔
      ∃ first rest, readLine file number line = .ok first ∧
        readLines file (number + 1) ls = .ok rest ∧ nodes = first.toList ++ rest := by
  rw [readLines]
  cases readLine file number line with
  | error e => simp [bind, Except.bind]
  | ok first =>
      cases readLines file (number + 1) ls with
      | error e => simp [bind, Except.bind]
      | ok rest => simp [bind, Except.bind, pure, Except.pure, eq_comm]

theorem readLines_cons_eq_error {ls : List (List Char)} :
    readLines file number (line :: ls) = .error e ↔
      readLine file number line = .error e ∨
        ∃ first, readLine file number line = .ok first ∧
          readLines file (number + 1) ls = .error e := by
  rw [readLines]
  cases readLine file number line with
  | error e => simp [bind, Except.bind]
  | ok first =>
      cases readLines file (number + 1) ls with
      | error e => simp [bind, Except.bind]
      | ok rest => simp [bind, Except.bind, pure, Except.pure]

/-- The nodes of consecutive lines stand for those that hold more than white space. -/
theorem forall₂_standsFor_of_readLines {ls : List (List Char)} {nodes : List Node}
    (hls : ∀ line ∈ ls, '\n' ∉ line) (h : readLines file number ls = .ok nodes) :
    List.Forall₂ (fun entry node => node.StandsFor file entry.2 entry.1)
      (numberedContent number ls) nodes := by
  induction ls generalizing number nodes with
  | nil =>
      obtain rfl := Except.ok.inj h
      exact .nil
  | cons line ls ih =>
      have hline := hls line List.mem_cons_self
      have hrest := fun l hl => hls l (List.mem_cons_of_mem line hl)
      obtain ⟨first, rest, hfirst, hlines, rfl⟩ := readLines_cons_eq_ok.mp h
      cases first with
      | none =>
          rw [numberedContent_cons_of_blank (readLine_eq_ok_none.mp hfirst)]
          exact ih hrest hlines
      | some node =>
          rw [numberedContent_cons_of_content (readLine_eq_ok_some.mp hfirst).1]
          exact .cons (standsFor_of_readLine hline hfirst) (ih hrest hlines)

/-- The error of consecutive lines is that of the first line that gives one. -/
theorem exists_line_of_readLines_error {ls : List (List Char)}
    (h : readLines file number ls = .error e) :
    ∃ before line k after, ls.zipIdx number = before ++ (line, k) :: after ∧
      readLine file k line = .error e ∧
      ∀ entry ∈ before, ∃ result, readLine file entry.2 entry.1 = .ok result := by
  induction ls generalizing number with
  | nil => contradiction
  | cons line ls ih =>
      rw [List.zipIdx_cons]
      rcases readLines_cons_eq_error.mp h with hfirst | ⟨result, hfirst, hlines⟩
      · exact ⟨[], line, number, _, rfl, hfirst, by simp⟩
      · obtain ⟨before, bad, k, after, hsplit, hbad, hbefore⟩ := ih hlines
        refine ⟨(line, number) :: before, bad, k, after, ?_, hbad, ?_⟩
        · rw [hsplit, List.cons_append]
        · intro entry hentry
          rcases List.mem_cons.mp hentry with rfl | hentry
          · exact ⟨result, hfirst⟩
          · exact hbefore entry hentry

/-- **Where nodes come from.**  The nodes of a text stand, in order, for its lines that hold more than
white space.  When the text cannot be read, the error's origin covers the content of the first line
that cannot be read by itself, and the error is the one that this line gives. -/
theorem places_of_read (file text : String) :
    (∀ nodes, read file text = .ok nodes →
      List.Forall₂ (fun entry node => node.StandsFor file entry.2 entry.1)
        (numberedContent 1 (pieces text.toList)) nodes) ∧
    ∀ e, read file text = .error e →
      ∃ before line number after,
        (pieces text.toList).zipIdx 1 = before ++ (line, number) :: after ∧
        e.origin.Covers file number line ∧
        (∀ other, ∃ origin, read other (String.ofList line) = .error ⟨e.fault, origin⟩) ∧
        ∀ entry ∈ before, ∀ other, ∃ nodes, read other (String.ofList entry.1) = .ok nodes := by
  have hpieces : ∀ line ∈ pieces text.toList, '\n' ∉ line := fun _ => newline_notMem_of_mem_pieces
  rw [read_eq_readLines_pieces]
  refine ⟨fun nodes h => forall₂_standsFor_of_readLines hpieces h, ?_⟩
  intro e h
  obtain ⟨before, line, number, after, hsplit, hline, hbefore⟩ := exists_line_of_readLines_error h
  have hmem : ∀ entry ∈ before ++ (line, number) :: after, entry.1 ∈ pieces text.toList := by
    intro entry hentry
    rw [← hsplit] at hentry
    exact List.fst_mem_of_mem_zipIdx hentry
  refine ⟨before, line, number, after, hsplit, ?_, ?_, ?_⟩
  · rw [(readLine_eq_error.mp hline).2.2]
    exact covers_lineOrigin file number line
  · exact read_ofList_of_error (hpieces line (hmem (line, number) (by simp))) hline
  · intro entry hentry
    obtain ⟨result, hresult⟩ := hbefore entry hentry
    exact read_ofList_of_ok (hpieces entry.1 (hmem entry (by simp [hentry]))) hresult

/-- An ideographic space takes three bytes, a blank line still counts, and a carriage return that ends
no line is white space. -/
theorem places_of_read_wide_space :
    let text := "\u3000\tnoti %t3 # c\r\n \r\n\rx:"
    let origin : Origin := ⟨"f", .onLine 1 5 12⟩
    let not : Node := .instruction ⟨.not .int, [.temporary ⟨3, .general, origin⟩], origin⟩
    let label : Node := .label "x" ⟨"f", .onLine 3 2 2⟩
    read "f" text = .ok [not, label] ∧
      not.StandsFor "f" 1 "\u3000\tnoti %t3 # c".toList ∧ label.StandsFor "f" 3 "\rx:".toList := by
  intro text origin not label
  have hread : read "f" text = .ok [not, label] := by decide +kernel
  have hlines : numberedContent 1 (pieces text.toList) =
      [("\u3000\tnoti %t3 # c".toList, 1), ("\rx:".toList, 3)] := by decide +kernel
  have hplaces := (places_of_read "f" text).1 _ hread
  rw [hlines] at hplaces
  simp only [List.forall₂_cons, List.Forall₂.nil, and_true] at hplaces
  exact ⟨hread, hplaces⟩

end Listing

end MacroAsm
