import MacroAsm.Proofs.Text.Trim

/-!
# Lines that are written one after the other

A text made of lines that each end in a line feed has these lines, less a carriage return at the end
of one.  The carriage return is white space, so a trimmed line does not show whether it was there.

## Main statements

* `lines_append_newline` — the first line of a text, and the lines after it.
* `newline_notMem_of_mem_lines` — no line holds a line feed.
* `pieces_eq_lines_append` — the lines of a text are what stands between its line feeds.
* `lines_append`, `length_lines` — the lines of a text that goes on after a line feed.
-/

namespace MacroAsm.Text

/-- A line without the carriage return that belongs to its ending. -/
def dropReturn (line : List Char) : List Char :=
  if line.getLast? = some '\r' then line.dropLast else line

theorem dropReturn_of_getLast?_ne {line : List Char} (h : line.getLast? ≠ some '\r') :
    dropReturn line = line :=
  if_neg h

theorem dropReturn_cons (c : Char) {line : List Char} (h : line ≠ []) :
    dropReturn (c :: line) = c :: dropReturn line := by
  obtain ⟨d, rest, rfl⟩ := List.exists_cons_of_ne_nil h
  simp only [dropReturn, List.getLast?_cons_cons, List.dropLast_cons_cons]
  split <;> rfl

/-- A trimmed line does not show whether a carriage return ended it. -/
@[simp] theorem trim_dropReturn (line : List Char) : trim (dropReturn line) = trim line := by
  unfold dropReturn
  split
  · rename_i h
    have hne : line ≠ [] := by rintro rfl; simp at h
    have hlast : line.getLast hne = '\r' := by
      rw [List.getLast?_eq_some_getLast hne] at h
      exact Option.some.inj h
    conv_rhs => rw [← List.dropLast_append_getLast hne, hlast]
    exact (trim_append_of_blank _ (by simp [isBlank])).symm
  · rfl

/-- A character that neither ends a line nor belongs to its ending is put in front of the first
line. -/
theorem lines_cons {c : Char} {cs : List Char} (hc : c ≠ '\n')
    (hreturn : c = '\r' → cs.head? ≠ some '\n') :
    lines (c :: cs) =
      match lines cs with
      | [] => [[c]]
      | line :: rest => (c :: line) :: rest := by
  conv_lhs => unfold lines
  split
  · simp_all
  · simp_all
  · rename_i heq
    obtain ⟨rfl, rfl⟩ := List.cons.inj heq
    simp at hreturn
  · rename_i heq
    obtain ⟨rfl, rfl⟩ := List.cons.inj heq
    rfl

/-- A line that is ended by a line feed comes before the lines of the rest. -/
theorem lines_append_newline {line : List Char} (h : '\n' ∉ line) (cs : List Char) :
    lines (line ++ '\n' :: cs) = dropReturn line :: lines cs := by
  induction line with
  | nil => rfl
  | cons c line ih =>
      have hc : c ≠ '\n' := fun heq => h (by simp [heq])
      have hline : '\n' ∉ line := fun hmem => h (List.mem_cons_of_mem c hmem)
      cases line with
      | nil =>
          by_cases hr : c = '\r'
          · subst hr
            rfl
          · have hkeep : dropReturn [c] = [c] := dropReturn_of_getLast?_ne (by simpa using hr)
            rw [List.cons_append, lines_cons hc (fun heq => absurd heq hr), hkeep]
            rfl
      | cons d rest =>
          have hd : d ≠ '\n' := fun heq => hline (by simp [heq])
          rw [List.cons_append, lines_cons hc (by simpa using fun _ => hd), ih hline,
            dropReturn_cons c (by simp)]

/-- A text without line feeds is one line. -/
theorem lines_eq_singleton {line : List Char} (h : '\n' ∉ line) (hne : line ≠ []) :
    lines line = [line] := by
  induction line with
  | nil => exact absurd rfl hne
  | cons c line ih =>
      have hc : c ≠ '\n' := fun heq => h (by simp [heq])
      have hline : '\n' ∉ line := fun hmem => h (List.mem_cons_of_mem c hmem)
      have hreturn : c = '\r' → line.head? ≠ some '\n' :=
        fun _ hhead => hline (List.mem_of_mem_head? hhead)
      rw [lines_cons hc hreturn]
      cases line with
      | nil => rfl
      | cons d rest => rw [ih hline (by simp)]

/-- No line holds a line feed. -/
theorem newline_notMem_of_mem_lines {line cs : List Char} (h : line ∈ lines cs) : '\n' ∉ line := by
  fun_induction lines cs generalizing line with
  | case1 => simp at h
  | case2 cs ih =>
      rcases List.mem_cons.mp h with rfl | h
      · simp
      · exact ih h
  | case3 cs ih =>
      rcases List.mem_cons.mp h with rfl | h
      · simp
      · exact ih h
  | case4 c cs hc _ _ _ =>
      obtain rfl : line = [c] := by simpa using h
      simpa using fun heq => hc heq.symm
  | case5 c cs hc _ first rest hlines ih =>
      rw [hlines] at ih
      rcases List.mem_cons.mp h with rfl | h
      · have hfirst : '\n' ∉ first := ih List.mem_cons_self
        simpa [hfirst] using fun heq => hc heq.symm
      · exact ih (List.mem_cons_of_mem first h)

/-! ## One line after the other -/

/-- A text is a line, or a line with a line feed and a text behind it. -/
@[elab_as_elim]
theorem line_induction {motive : List Char → Prop} (cs : List Char)
    (last : ∀ line, '\n' ∉ line → motive line)
    (cons : ∀ line rest, '\n' ∉ line → motive rest → motive (line ++ '\n' :: rest)) :
    motive cs := by
  induction hlength : cs.length using Nat.strongRecOn generalizing cs with
  | ind n ih =>
      by_cases hmem : '\n' ∈ cs
      · obtain ⟨first, rest, rfl, hfirst⟩ := List.eq_append_cons_of_mem hmem
        refine cons first rest hfirst (ih rest.length ?_ rest rfl)
        simp only [List.length_append, List.length_cons] at hlength
        omega
      · exact last cs hmem

/-- What stands between the line feeds of a text, less a carriage return before a line feed.  Behind
the last line feed there may be nothing, which counts as a piece but is no line. -/
def pieces (cs : List Char) : List (List Char) :=
  (cs.splitOn '\n').dropLast.map dropReturn ++ (cs.splitOn '\n').getLast?.toList

theorem pieces_of_notMem {line : List Char} (h : '\n' ∉ line) : pieces line = [line] := by
  simp [pieces, List.splitOn_eq_singleton h]

theorem pieces_append_newline {line : List Char} (h : '\n' ∉ line) (cs : List Char) :
    pieces (line ++ '\n' :: cs) = dropReturn line :: pieces cs := by
  have hline : ∀ c ∈ line, (c == '\n') = false := by
    intro c hc
    have hne : c ≠ '\n' := fun heq => h (heq ▸ hc)
    simpa using hne
  have hsplit : (line ++ '\n' :: cs).splitOn '\n' = line :: cs.splitOn '\n' :=
    List.splitOnP_append_cons_of_forall_mem hline '\n' rfl cs
  obtain ⟨piece, rest, hrest⟩ := List.exists_cons_of_ne_nil (List.splitOn_ne_nil '\n' cs)
  rw [pieces, pieces, hsplit, hrest]
  rfl

/-- The lines of a text are its pieces, without the empty one behind a last line feed. -/
theorem pieces_eq_lines_append (cs : List Char) :
    pieces cs = lines cs ∨ pieces cs = lines cs ++ [[]] := by
  induction cs using line_induction with
  | last line h =>
      rw [pieces_of_notMem h]
      by_cases hne : line = []
      · right
        rw [hne]
        rfl
      · left
        rw [lines_eq_singleton h hne]
  | cons line rest h ih =>
      rw [pieces_append_newline h, lines_append_newline h, List.cons_append, List.cons_inj_right,
        List.cons_inj_right]
      exact ih

/-- A text behind which a new line starts: it is empty or ends in a line feed. -/
def EndsLine (cs : List Char) : Prop :=
  cs = [] ∨ cs.getLast? = some '\n'

instance (cs : List Char) : Decidable (EndsLine cs) :=
  inferInstanceAs (Decidable (_ ∨ _))

theorem EndsLine.eq_nil {line : List Char} (h : EndsLine line) (hline : '\n' ∉ line) :
    line = [] := by
  rcases h with rfl | hlast
  · rfl
  · exact absurd (List.mem_of_getLast? hlast) hline

theorem endsLine_append_newline {line rest : List Char} :
    EndsLine (line ++ '\n' :: rest) ↔ EndsLine rest := by
  cases rest with
  | nil => simp [EndsLine]
  | cons c cs => simp [EndsLine]

/-- The lines of a text that goes on after a line feed. -/
theorem lines_append {as : List Char} (h : EndsLine as) (bs : List Char) :
    lines (as ++ bs) = lines as ++ lines bs := by
  induction as using line_induction with
  | last line hline =>
      rw [h.eq_nil hline]
      rfl
  | cons line rest hline ih =>
      rw [List.append_assoc, List.cons_append, lines_append_newline hline,
        lines_append_newline hline, ih (endsLine_append_newline.mp h), List.cons_append]

/-- Every line of a text that ends in a line feed has one. -/
theorem length_lines {cs : List Char} (h : EndsLine cs) : (lines cs).length = cs.count '\n' := by
  induction cs using line_induction with
  | last line hline =>
      rw [h.eq_nil hline]
      rfl
  | cons line rest hline ih =>
      rw [lines_append_newline hline, List.length_cons, ih (endsLine_append_newline.mp h),
        List.count_append, List.count_eq_zero_of_not_mem hline, List.count_cons_self, Nat.zero_add]

end MacroAsm.Text
