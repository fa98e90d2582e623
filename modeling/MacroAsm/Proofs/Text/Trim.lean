import MacroAsm.Text.Layout
import Mathlib.Data.List.DropRight
import Mathlib.Data.List.TakeWhile

/-!
# Trimmed texts

A text is trimmed when neither its first nor its last character is white space.  Trimming takes
white space off the ends and nothing else, so it is determined by any way of writing a text as white
space, a trimmed text and white space.

## Main statements

* `trim_eq_self_iff` — which texts are trimmed.
* `exists_eq_append_trim` — what trimming takes off.
* `trim_append_of_blank`, `trim_blank_append` — white space at the ends does not matter.
-/

namespace MacroAsm.Text

/-- Every character of a text is white space. -/
def AllBlank (cs : List Char) : Prop :=
  ∀ c ∈ cs, isBlank c = true

@[simp] theorem allBlank_nil : AllBlank [] := by
  simp [AllBlank]

@[simp] theorem allBlank_cons {c : Char} {cs : List Char} :
    AllBlank (c :: cs) ↔ isBlank c = true ∧ AllBlank cs := by
  simp [AllBlank]

@[simp] theorem allBlank_append {as bs : List Char} :
    AllBlank (as ++ bs) ↔ AllBlank as ∧ AllBlank bs := by
  simp [AllBlank, or_imp, forall_and]

/-! ## One end at a time -/

theorem trimStart_eq_self_iff {cs : List Char} :
    trimStart cs = cs ↔ ∀ c, cs.head? = some c → isBlank c = false := by
  cases cs with
  | nil => simp
  | cons c cs =>
      constructor
      · intro h d hd
        obtain rfl : c = d := by simpa using hd
        by_contra hblank
        have hc : isBlank c = true := by simpa using hblank
        have hlen := congrArg List.length h
        have hle : (cs.dropWhile isBlank).length ≤ cs.length := List.length_dropWhile_le _ _
        simp only [trimStart, List.dropWhile_cons, hc, if_true, List.length_cons] at hlen
        omega
      · intro h
        have hc : isBlank c = false := h c rfl
        simp [trimStart, hc]

theorem trimEnd_eq_reverse (cs : List Char) : trimEnd cs = (trimStart cs.reverse).reverse := rfl

theorem trimEnd_eq_self_iff {cs : List Char} :
    trimEnd cs = cs ↔ ∀ c, cs.getLast? = some c → isBlank c = false := by
  rw [trimEnd_eq_reverse, List.reverse_eq_iff, trimStart_eq_self_iff, List.head?_reverse]

theorem trimStart_blank_append {ws : List Char} (h : AllBlank ws) (cs : List Char) :
    trimStart (ws ++ cs) = trimStart cs :=
  List.dropWhile_append_of_pos h

theorem trimEnd_append_blank (cs : List Char) {ws : List Char} (h : AllBlank ws) :
    trimEnd (cs ++ ws) = trimEnd cs := by
  have hrev : AllBlank ws.reverse := fun c hc => h c (List.mem_reverse.mp hc)
  rw [trimEnd_eq_reverse, List.reverse_append, trimStart_blank_append hrev, ← trimEnd_eq_reverse]

/-- What is taken off the start is white space. -/
theorem exists_eq_append_trimStart (cs : List Char) :
    ∃ ws, AllBlank ws ∧ cs = ws ++ trimStart cs := by
  refine ⟨cs.takeWhile isBlank, ?_, (takeWhile_append_trimStart cs).symm⟩
  intro c hc
  exact List.mem_takeWhile_imp hc

/-- What is taken off the end is white space. -/
theorem exists_eq_trimEnd_append (cs : List Char) :
    ∃ ws, AllBlank ws ∧ cs = trimEnd cs ++ ws := by
  obtain ⟨ws, hws, heq⟩ := exists_eq_append_trimStart cs.reverse
  refine ⟨ws.reverse, fun c hc => hws c (List.mem_reverse.mp hc), ?_⟩
  rw [trimEnd_eq_reverse, ← List.reverse_append, ← heq, List.reverse_reverse]

/-- Nothing is taken off the end of a text, so what is blank there is empty. -/
theorem eq_nil_of_trimEnd_append {cs ws : List Char} (h : trimEnd (cs ++ ws) = cs ++ ws)
    (hws : AllBlank ws) : ws = [] := by
  rw [trimEnd_append_blank cs hws] at h
  obtain ⟨after, _, heq⟩ := exists_eq_trimEnd_append cs
  have hlen := congrArg List.length heq
  rw [h] at hlen
  simp only [List.length_append] at hlen
  exact List.eq_nil_of_length_eq_zero (by omega)

theorem head?_trimStart {cs : List Char} {c : Char} (h : (trimStart cs).head? = some c) :
    isBlank c = false := by
  have hself : trimStart (trimStart cs) = trimStart cs := List.dropWhile_idempotent _ _
  exact trimStart_eq_self_iff.mp hself c h

theorem getLast?_trimEnd {cs : List Char} {c : Char} (h : (trimEnd cs).getLast? = some c) :
    isBlank c = false := by
  rw [trimEnd_eq_reverse, List.getLast?_reverse] at h
  exact head?_trimStart h

/-! ## Both ends -/

/-- The texts that trimming leaves alone. -/
theorem trim_eq_self_iff {cs : List Char} :
    trim cs = cs ↔
      (∀ c, cs.head? = some c → isBlank c = false) ∧
        ∀ c, cs.getLast? = some c → isBlank c = false := by
  constructor
  · intro h
    obtain ⟨before, hbefore, hstart⟩ := exists_eq_append_trimStart cs
    obtain ⟨after, hafter, hend⟩ := exists_eq_trimEnd_append (trimStart cs)
    have hlen : cs.length = before.length + (cs.length + after.length) := by
      conv_lhs => rw [hstart, hend]
      rw [show trimEnd (trimStart cs) = cs from h]
      simp
    have hnil : before = [] := List.eq_nil_of_length_eq_zero (by omega)
    subst hnil
    have hs : trimStart cs = cs := by simpa using hstart.symm
    have he : trimEnd cs = cs := by rw [trim, hs] at h; exact h
    exact ⟨trimStart_eq_self_iff.mp hs, trimEnd_eq_self_iff.mp he⟩
  · rintro ⟨hfirst, hlast⟩
    rw [trim, trimStart_eq_self_iff.mpr hfirst, trimEnd_eq_self_iff.mpr hlast]

/-- Trimming takes white space off both ends. -/
theorem exists_eq_append_trim (cs : List Char) :
    ∃ before after, AllBlank before ∧ AllBlank after ∧ cs = before ++ trim cs ++ after := by
  obtain ⟨before, hbefore, hstart⟩ := exists_eq_append_trimStart cs
  obtain ⟨after, hafter, hend⟩ := exists_eq_trimEnd_append (trimStart cs)
  refine ⟨before, after, hbefore, hafter, ?_⟩
  rw [List.append_assoc, trim, ← hend, ← hstart]

theorem getLast?_trim {cs : List Char} {c : Char} (h : (trim cs).getLast? = some c) :
    isBlank c = false :=
  getLast?_trimEnd h

theorem head?_trim {cs : List Char} {c : Char} (h : (trim cs).head? = some c) :
    isBlank c = false := by
  obtain ⟨after, _, heq⟩ := exists_eq_trimEnd_append (trimStart cs)
  refine @head?_trimStart cs c ?_
  rw [heq, List.head?_append, show (trimEnd (trimStart cs)).head? = some c from h]
  rfl

@[simp] theorem trim_trim (cs : List Char) : trim (trim cs) = trim cs :=
  trim_eq_self_iff.mpr ⟨fun _ => head?_trim, fun _ => getLast?_trim⟩

/-- A text that starts with no white space is trimmed at its end only. -/
theorem exists_trim_cons {c : Char} (hc : isBlank c = false) (cs : List Char) :
    ∃ rest after, AllBlank after ∧ cs = rest ++ after ∧ trim (c :: cs) = c :: rest := by
  obtain ⟨before, after, hbefore, hafter, heq⟩ := exists_eq_append_trim (c :: cs)
  have hnil : before = [] := by
    cases before with
    | nil => rfl
    | cons d before =>
        obtain rfl : c = d := (List.cons.inj heq).1
        simp [hc] at hbefore
  rw [hnil, List.nil_append] at heq
  cases htrim : trim (c :: cs) with
  | nil =>
      rw [htrim, List.nil_append] at heq
      rw [← heq] at hafter
      simp [hc] at hafter
  | cons d rest =>
      rw [htrim, List.cons_append] at heq
      obtain ⟨rfl, hcs⟩ := List.cons.inj heq
      exact ⟨rest, after, hafter, hcs, rfl⟩

/-- A last character that is not white space stays. -/
theorem getLast?_trim_of_not_blank {cs : List Char} {c : Char} (h : cs.getLast? = some c)
    (hc : isBlank c = false) : (trim cs).getLast? = some c := by
  obtain ⟨before, after, hbefore, hafter, heq⟩ := exists_eq_append_trim cs
  cases after using List.reverseRecOn with
  | nil =>
      cases htrim : trim cs using List.reverseRecOn with
      | nil =>
          rw [htrim, List.append_nil, List.append_nil] at heq
          have := hbefore c (by rw [← heq]; exact List.mem_of_getLast? h)
          simp [hc] at this
      | append_singleton body d _ =>
          rw [htrim] at heq
          rw [heq] at h
          simpa using h
  | append_singleton after d _ =>
      rw [heq, ← List.append_assoc, List.getLast?_concat] at h
      obtain rfl := Option.some.inj h
      have := hafter d (by simp)
      simp [hc] at this

theorem mem_of_mem_trim {c : Char} {cs : List Char} (h : c ∈ trim cs) : c ∈ cs := by
  obtain ⟨before, after, _, _, heq⟩ := exists_eq_append_trim cs
  rw [heq]
  simp [h]

/-- White space in front does not matter. -/
theorem trim_blank_append {ws : List Char} (h : AllBlank ws) (cs : List Char) :
    trim (ws ++ cs) = trim cs := by
  rw [trim, trimStart_blank_append h, ← trim]

theorem trim_eq_nil_iff {cs : List Char} : trim cs = [] ↔ AllBlank cs := by
  constructor
  · intro h
    obtain ⟨before, after, hbefore, hafter, heq⟩ := exists_eq_append_trim cs
    rw [heq, h]
    simp [hbefore, hafter]
  · intro h
    have := trim_blank_append h []
    simpa using this

/-- White space behind does not matter. -/
theorem trim_append_of_blank (cs : List Char) {ws : List Char} (h : AllBlank ws) :
    trim (cs ++ ws) = trim cs := by
  by_cases hcs : AllBlank cs
  · rw [trim_eq_nil_iff.mpr hcs, trim_eq_nil_iff]
    simp [hcs, h]
  · have hne : trimStart cs ≠ [] := by
      intro hnil
      apply hcs
      rw [← trim_eq_nil_iff, trim, hnil, trimEnd_nil]
    have hstart : trimStart (cs ++ ws) = trimStart cs ++ ws := by
      rw [trimStart, List.dropWhile_append]
      simp [show cs.dropWhile isBlank ≠ [] from hne, trimStart]
    rw [trim, hstart, trimEnd_append_blank _ h, ← trim]

end MacroAsm.Text
