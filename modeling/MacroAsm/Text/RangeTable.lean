/-!
# Tables of code points

A set of characters as a list of inclusive ranges of code points, in ascending order.

## Main definitions

* `RangeTable` — the ranges.
* `RangeTable.contains` — whether a character is in one of them.
-/

namespace MacroAsm.Text

/-- Inclusive ranges of code points, the lower ones first. -/
abbrev RangeTable := List (Nat × Nat)

namespace RangeTable

/-- Whether a code point is in one of the ranges; the search ends at the first range above it. -/
def covers (n : Nat) : RangeTable → Bool
  | [] => false
  | (first, last) :: table => first ≤ n && (n ≤ last || covers n table)

/-- Whether a character is in one of the ranges. -/
def contains (table : RangeTable) (c : Char) : Bool :=
  covers c.toNat table

/-- Whether no range is empty and each ends below the start of the next. -/
def isAscending : RangeTable → Bool
  | [] => true
  | [(first, last)] => first ≤ last
  | (first, last) :: (next, final) :: table =>
    first ≤ last && last < next && isAscending ((next, final) :: table)

/-- In an ascending table the first range starts below all others. -/
theorem first_le_of_mem {first last : Nat} {table : RangeTable}
    (h : isAscending ((first, last) :: table)) : ∀ range ∈ table, first ≤ range.1 := by
  induction table generalizing first last with
  | nil => simp
  | cons next table ih =>
    obtain ⟨start, stop⟩ := next
    simp only [isAscending, Bool.and_eq_true, decide_eq_true_eq] at h
    intro range hmem
    have hstart : first ≤ start := by omega
    rcases List.mem_cons.1 hmem with rfl | hmem
    · exact hstart
    · exact Nat.le_trans hstart (ih h.2 range hmem)

/-- In an ascending table no range is missed. -/
theorem covers_iff {n : Nat} {table : RangeTable} (h : table.isAscending) :
    covers n table ↔ ∃ range ∈ table, range.1 ≤ n ∧ n ≤ range.2 := by
  induction table with
  | nil => simp [covers]
  | cons range table ih =>
    obtain ⟨first, last⟩ := range
    have htail : isAscending table := by
      cases table with
      | nil => rfl
      | cons next table => simp_all [isAscending]
    have habove : ∀ range ∈ table, first ≤ range.1 := first_le_of_mem h
    have ih := ih htail
    simp only [covers, Bool.and_eq_true, Bool.or_eq_true, decide_eq_true_eq, ih,
      List.mem_cons, exists_eq_or_imp]
    constructor
    · rintro ⟨hfirst, hlast | hrest⟩
      · exact .inl ⟨hfirst, hlast⟩
      · exact .inr hrest
    · rintro (⟨hfirst, hlast⟩ | ⟨range, hmem, hle, hge⟩)
      · exact ⟨hfirst, .inl hlast⟩
      · exact ⟨Nat.le_trans (habove range hmem) hle, .inr ⟨range, hmem, hle, hge⟩⟩

end RangeTable

end MacroAsm.Text
