import MacroAsm.Proofs.Listing.Fields
import Mathlib.Data.List.Infix

/-!
# Which fields an operand text has

The outcome of splitting an operand text, said without following the loop over its characters: by
how many brackets each start of the text opens and closes, and by the stretches that the commas at
depth zero leave.  Unbalanced brackets are reported before a blank stretch, wherever the two stand.

## Main definitions

* `Unbalanced` — some start closes more than it opens, or the totals differ.
* `segments` — the stretches of a text between its commas at depth zero.

## Main statements

* `cutAtCommas_of_balanced` — the cut of a balanced text is into its segments.
* `splitFields_eq_segments` — the outcome of splitting, for every text, and what the fields are.
-/

namespace MacroAsm.Listing

open Text

/-! ## Unbalanced texts -/

/-- Some start of the text closes more brackets than it opens, or the totals differ. -/
def Unbalanced (text : List Char) : Prop :=
  (∃ start ∈ text.inits, start.countP isOpener < start.countP isCloser) ∨
    text.countP isOpener ≠ text.countP isCloser

instance (text : List Char) : Decidable (Unbalanced text) :=
  inferInstanceAs (Decidable (_ ∨ _))

theorem unbalanced_iff {text : List Char} : Unbalanced text ↔ ¬BalancedFrom 0 text := by
  constructor
  · rintro (⟨start, hstart, hcount⟩ | htotal) hbalanced
    · have := hbalanced.nonneg start ((List.mem_inits start text).mp hstart)
      rw [depth] at this
      omega
    · have := hbalanced.settled
      rw [depth] at this
      omega
  · intro h
    by_contra hbalanced
    simp only [Unbalanced, not_or, not_exists, not_and, Nat.not_lt, not_not] at hbalanced
    refine h ⟨?_, ?_⟩
    · intro start hstart
      have := hbalanced.1 start ((List.mem_inits start text).mpr hstart)
      rw [depth]
      omega
    · rw [depth]
      omega

/-! ## Segments -/

/-- The characters of a text, each with the depth before it, when the text starts at depth `d`. -/
def withDepths (d : Int) (text : List Char) : List (Char × Int) :=
  text.mapIdx fun i c => (c, d + depth (text.take i))

/-- A comma outside all brackets. -/
def isOuterComma (place : Char × Int) : Bool :=
  place.1 == ',' && place.2 == 0

/-- The stretches of a text between the commas at depth zero, when it starts at depth `d`. -/
def segmentsFrom (d : Int) (text : List Char) : List (List Char) :=
  ((withDepths d text).splitOnP isOuterComma).map fun stretch => stretch.map Prod.fst

/-- The stretches of a text between the commas at depth zero. -/
def segments (text : List Char) : List (List Char) :=
  segmentsFrom 0 text

theorem weight_comma : weight ',' = 0 := rfl

theorem withDepths_cons (d : Int) (c : Char) (cs : List Char) :
    withDepths d (c :: cs) = (c, d) :: withDepths (d + weight c) cs := by
  simp [withDepths, List.mapIdx_cons, Int.add_assoc]

@[simp] theorem segmentsFrom_nil (d : Int) : segmentsFrom d [] = [[]] := rfl

theorem segmentsFrom_comma (cs : List Char) :
    segmentsFrom 0 (',' :: cs) = [] :: segmentsFrom 0 cs := by
  simp [segmentsFrom, withDepths_cons, List.splitOnP_cons_eq_if_modifyHead, isOuterComma,
    weight_comma]

theorem segmentsFrom_cons {d : Int} {c : Char} (cs : List Char) (hc : c = ',' → d ≠ 0) :
    segmentsFrom d (c :: cs) = consFirst c (segmentsFrom (d + weight c) cs) := by
  have hplain : isOuterComma (c, d) = false := by
    simpa [isOuterComma] using hc
  obtain ⟨first, rest, hsplit⟩ := List.exists_cons_of_ne_nil
    (List.splitOnP_ne_nil isOuterComma (withDepths (d + weight c) cs))
  rw [segmentsFrom, segmentsFrom, withDepths_cons, List.splitOnP_cons_eq_if_modifyHead, hplain,
    hsplit]
  rfl

/-- A balanced text is cut into its segments. -/
theorem cutAtCommas_of_balanced {d : Nat} {text : List Char} (h : BalancedFrom d text) :
    cutAtCommas d text = some (segmentsFrom d text) := by
  induction text generalizing d with
  | nil =>
      obtain rfl : d = 0 := by simpa using h
      rfl
  | cons c cs ih =>
      obtain ⟨_, hcs⟩ := balancedFrom_cons.mp h
      by_cases hc : c = ',' ∧ d = 0
      · obtain ⟨rfl, rfl⟩ := hc
        rw [weight_comma] at hcs
        rw [cutAtCommas_comma, ih hcs]
        exact congrArg some (segmentsFrom_comma cs).symm
      · have hcomma : c = ',' → d ≠ 0 := fun hcomma hd => hc ⟨hcomma, hd⟩
        -- the depth behind `c` is that of the empty start of the rest
        have hnonneg : 0 ≤ (d : Int) + weight c := by
          simpa using hcs.nonneg [] List.nil_prefix
        obtain ⟨e, he⟩ := Int.eq_ofNat_of_zero_le hnonneg
        rw [he] at hcs
        rw [cutAtCommas_cons cs hcomma he, ih hcs, segmentsFrom_cons cs (by simpa using hcomma), he]
        rfl

/-! ## The outcome of splitting -/

instance (cs : List Char) : Decidable (AllBlank cs) :=
  decidable_of_iff (cs.all isBlank = true) List.all_eq_true

theorem splitFields_of_unbalanced {text : List Char} (h : Unbalanced text) :
    splitFields text = .error (.unbalancedBrackets (String.ofList text)) := by
  have hcut : cutAtCommas 0 text = none := by
    rw [← Option.not_isSome_iff_eq_none, cutAtCommas_isSome_iff]
    exact unbalanced_iff.mp h
  have hne : text ≠ [] := by
    rintro rfl
    simp [cutAtCommas] at hcut
  simp [splitFields, hne, hcut]

theorem any_isEmpty_map_trim {pieces : List (List Char)} :
    (pieces.map trim).any List.isEmpty = true ↔ ∃ piece ∈ pieces, AllBlank piece := by
  simp [List.any_eq_true, trim_eq_nil_iff]

/-- What splitting gives for every text: the report of unbalanced brackets, else that of a blank
segment, else the trimmed segments.  The segments with commas between them are the text, the fields
are not empty, balanced and without a comma at depth zero, and written with a comma and a space
between them they are split again. -/
theorem splitFields_eq_segments (text : List Char) :
    splitFields text =
        (if Unbalanced text then .error (.unbalancedBrackets (String.ofList text))
        else if text ≠ [] ∧ ∃ segment ∈ segments text, AllBlank segment then .error .emptyOperand
        else .ok (if text = [] then [] else (segments text).map trim)) ∧
      ∀ fields, splitFields text = .ok fields →
        [','].intercalate (segments text) = text ∧
          (∀ field ∈ fields, field ≠ [] ∧ BalancedFrom 0 field ∧ NoOuterComma 0 field) ∧
          splitFields ([',', ' '].intercalate fields) = .ok fields := by
  refine ⟨?_, ?_⟩
  · by_cases hunbalanced : Unbalanced text
    · rw [if_pos hunbalanced, splitFields_of_unbalanced hunbalanced]
    · have hcut : cutAtCommas 0 text = some (segments text) :=
        cutAtCommas_of_balanced (not_not.mp (unbalanced_iff.not.mp hunbalanced))
      rw [if_neg hunbalanced]
      by_cases hne : text = []
      · subst hne
        simp
      · simp only [splitFields, List.isEmpty_iff, hne, if_false, hcut, any_isEmpty_map_trim,
          ne_eq, not_false_eq_true, true_and]
  · intro fields h
    have hcut : cutAtCommas 0 text = some (segments text) := by
      apply cutAtCommas_of_balanced
      by_contra hunbalanced
      rw [splitFields_of_unbalanced (unbalanced_iff.mpr hunbalanced)] at h
      cases h
    have hfields : ∀ field ∈ fields, IsTrimmedField field := fun field hfield =>
      ((splitFields_eq_ok h).1 field hfield).1
    refine ⟨intercalate_cutAtCommas hcut, ?_, splitFields_intercalate hfields⟩
    intro field hfield
    exact ⟨(hfields field hfield).ne_nil, (hfields field hfield).isField⟩

/-- Brackets of either kind close one another, and a comma between them separates nothing. -/
theorem splitFields_eq_segments_mixed :
    splitFields "8[a,(é],x) , t0".toList = .ok ["8[a,(é],x)".toList, "t0".toList] ∧
      splitFields "8[a,(é],x), t0".toList = .ok ["8[a,(é],x)".toList, "t0".toList] := by
  have hsplit : splitFields "8[a,(é],x) , t0".toList = .ok ["8[a,(é],x)".toList, "t0".toList] :=
    rfl
  exact ⟨hsplit, ((splitFields_eq_segments _).2 _ hsplit).2.2⟩

end MacroAsm.Listing
