import MacroAsm.Listing.Field
import MacroAsm.Proofs.Text.Trim

/-!
# Operand fields and bracket depth

What the cut at commas does, said by counting brackets.  The depth of a text is the number of
brackets it opens less the number it closes.  A text can be cut exactly when its depth never falls
below zero and ends at zero, and the pieces are the stretches between the commas at depth zero.

## Main definitions

* `depth` — brackets opened less brackets closed.
* `BalancedFrom` — brackets match, some being open at the start.
* `IsField` — a balanced text without a comma at depth zero.

## Main statements

* `cutAtCommas_isSome_iff` — the texts that can be cut are the balanced ones.
* `isField_of_mem_cutAtCommas`, `intercalate_cutAtCommas` — what the pieces of a cut are.
* `splitFields_intercalate` — fields written with a comma and a space between them are split again.
* `splitFields_eq_ok` — what fields are like.
-/

namespace MacroAsm.Listing

open Text

/-! ## Depth -/

/-- What a character adds to the bracket depth. -/
def weight (c : Char) : Int :=
  if isOpener c then 1 else if isCloser c then -1 else 0

/-- The brackets that a text opens less those that it closes, of whichever kind. -/
def depth (cs : List Char) : Int :=
  cs.countP isOpener - cs.countP isCloser

@[simp] theorem depth_nil : depth [] = 0 := rfl

theorem not_isCloser_of_isOpener {c : Char} (h : isOpener c = true) : isCloser c = false := by
  simp only [isOpener, Bool.or_eq_true, beq_iff_eq] at h
  rcases h with rfl | rfl <;> rfl

@[simp] theorem depth_cons (c : Char) (cs : List Char) : depth (c :: cs) = weight c + depth cs := by
  simp only [depth, weight, List.countP_cons]
  by_cases ho : isOpener c = true
  · simp only [ho, not_isCloser_of_isOpener ho, if_true, Bool.false_eq_true, if_false]
    omega
  · by_cases hc : isCloser c = true
    · simp only [ho, hc, if_true, Bool.false_eq_true, if_false]
      omega
    · simp only [ho, hc, Bool.false_eq_true, if_false]
      omega

/-- From depth `d` on, the depth never falls below zero, and it ends at zero. -/
structure BalancedFrom (d : Int) (cs : List Char) : Prop where
  nonneg : ∀ p, p <+: cs → 0 ≤ d + depth p
  settled : d + depth cs = 0

/-- From depth `d` on, no comma stands at depth zero. -/
def NoOuterComma (d : Int) (cs : List Char) : Prop :=
  ∀ p rest, cs = p ++ ',' :: rest → d + depth p ≠ 0

/-- From depth `d` on, a text that is balanced and that no comma divides. -/
def IsFieldFrom (d : Int) (cs : List Char) : Prop :=
  BalancedFrom d cs ∧ NoOuterComma d cs

/-- A text that is balanced and that no comma divides. -/
def IsField (cs : List Char) : Prop :=
  IsFieldFrom 0 cs

@[simp] theorem balancedFrom_nil {d : Int} : BalancedFrom d [] ↔ d = 0 := by
  constructor
  · intro h
    simpa using h.settled
  · rintro rfl
    refine ⟨?_, by simp⟩
    intro p hp
    rw [List.prefix_nil.mp hp]
    simp

@[simp] theorem balancedFrom_cons {d : Int} {c : Char} {cs : List Char} :
    BalancedFrom d (c :: cs) ↔ 0 ≤ d ∧ BalancedFrom (d + weight c) cs := by
  constructor
  · intro h
    refine ⟨by simpa using h.nonneg [] (List.nil_prefix), ⟨?_, ?_⟩⟩
    · intro p hp
      have := h.nonneg (c :: p) ((List.prefix_cons_inj c).mpr hp)
      rw [depth_cons] at this
      omega
    · have := h.settled
      rw [depth_cons] at this
      omega
  · rintro ⟨hd, h⟩
    refine ⟨?_, by rw [depth_cons]; have := h.settled; omega⟩
    intro p hp
    rcases List.prefix_cons_iff.mp hp with rfl | ⟨q, rfl, hq⟩
    · simpa using hd
    · have := h.nonneg q hq
      rw [depth_cons]
      omega

@[simp] theorem noOuterComma_nil {d : Int} : NoOuterComma d [] := by
  intro p rest h
  simp at h

@[simp] theorem noOuterComma_cons {d : Int} {c : Char} {cs : List Char} :
    NoOuterComma d (c :: cs) ↔ (c = ',' → d ≠ 0) ∧ NoOuterComma (d + weight c) cs := by
  constructor
  · intro h
    refine ⟨?_, ?_⟩
    · rintro rfl
      simpa using h [] cs rfl
    · intro p rest heq
      have := h (c :: p) rest (by rw [heq]; rfl)
      rw [depth_cons] at this
      omega
  · rintro ⟨hc, h⟩ p rest heq
    cases p with
    | nil =>
        obtain ⟨rfl, _⟩ := List.cons.inj heq
        simpa using hc rfl
    | cons b p =>
        obtain ⟨rfl, htail⟩ := List.cons.inj heq
        have := h p rest htail
        rw [depth_cons]
        omega

@[simp] theorem isFieldFrom_nil {d : Int} : IsFieldFrom d [] ↔ d = 0 := by
  simp [IsFieldFrom]

@[simp] theorem isFieldFrom_cons {d : Int} {c : Char} {cs : List Char} :
    IsFieldFrom d (c :: cs) ↔ 0 ≤ d ∧ (c = ',' → d ≠ 0) ∧ IsFieldFrom (d + weight c) cs := by
  simp only [IsFieldFrom, balancedFrom_cons, noOuterComma_cons]
  tauto

/-! ## White space around a field -/

theorem weight_eq_zero {c : Char} (h : c ∉ ['[', '(', ']', ')']) : weight c = 0 := by
  have hopen : ¬(c = '[' ∨ c = '(') := by
    rintro (rfl | rfl) <;> simp at h
  have hclose : ¬(c = ']' ∨ c = ')') := by
    rintro (rfl | rfl) <;> simp at h
  simp [weight, isOpener, isCloser, hopen, hclose]

/-- White space neither opens nor closes anything. -/
theorem weight_of_isBlank {c : Char} (h : isBlank c = true) : weight c = 0 := by
  apply weight_eq_zero
  intro hmem
  have hnone : ['[', '(', ']', ')'].all (!isBlank ·) = true := by decide
  have hc := List.all_eq_true.mp hnone c hmem
  simp [h] at hc

theorem isField_of_blank_append {ws cs : List Char} (hws : AllBlank ws) (h : IsField (ws ++ cs)) :
    IsField cs := by
  induction ws with
  | nil => exact h
  | cons c ws ih =>
      obtain ⟨hc, hws⟩ := allBlank_cons.mp hws
      rw [IsField, List.cons_append, isFieldFrom_cons, weight_of_isBlank hc] at h
      exact ih hws h.2.2

theorem isFieldFrom_of_append_blank {d : Int} {cs ws : List Char} (hws : AllBlank ws)
    (h : IsFieldFrom d (cs ++ ws)) : IsFieldFrom d cs := by
  induction cs generalizing d with
  | nil =>
      induction ws with
      | nil => exact h
      | cons c ws ih =>
          obtain ⟨hc, hws⟩ := allBlank_cons.mp hws
          rw [List.nil_append, isFieldFrom_cons, weight_of_isBlank hc, Int.add_zero] at h
          exact ih hws h.2.2
  | cons c cs ih =>
      rw [List.cons_append, isFieldFrom_cons] at h
      exact isFieldFrom_cons.mpr ⟨h.1, h.2.1, ih h.2.2⟩

theorem IsField.trim {cs : List Char} (h : IsField cs) : IsField (trim cs) := by
  obtain ⟨before, after, hbefore, hafter, heq⟩ := exists_eq_append_trim cs
  rw [heq, List.append_assoc] at h
  exact isFieldFrom_of_append_blank hafter (isField_of_blank_append hbefore h)

/-! ## Cutting at commas -/

/-- A comma at depth zero ends a piece. -/
theorem cutAtCommas_comma (cs : List Char) :
    cutAtCommas 0 (',' :: cs) = (cutAtCommas 0 cs).map ([] :: ·) := by
  simp [cutAtCommas, isOpener, isCloser]

/-- Any other character goes to the first piece and moves the depth. -/
theorem cutAtCommas_cons {d e : Nat} {c : Char} (cs : List Char) (hc : c = ',' → d ≠ 0)
    (he : (d : Int) + weight c = e) :
    cutAtCommas d (c :: cs) = (cutAtCommas e cs).map (consFirst c) := by
  by_cases hopen : isOpener c = true
  · obtain rfl : e = d + 1 := by simp only [weight, hopen, if_true] at he; omega
    cases d <;> simp [cutAtCommas, hopen]
  · by_cases hclose : isCloser c = true
    · obtain rfl : d = e + 1 := by
        simp only [weight, hopen, hclose, if_true, Bool.false_eq_true, if_false] at he
        omega
      simp [cutAtCommas, hopen, hclose]
    · obtain rfl : d = e := by
        simp only [weight, hopen, hclose, Bool.false_eq_true, if_false] at he
        omega
      cases d with
      | zero =>
          have hcomma : c ≠ ',' := fun heq => hc heq rfl
          simp [cutAtCommas, hopen, hclose, hcomma]
      | succ d => simp [cutAtCommas, hopen, hclose]

/-- A bracket that closes nothing ends the cut. -/
theorem cutAtCommas_of_neg {d : Nat} {c : Char} (cs : List Char) (h : (d : Int) + weight c < 0) :
    cutAtCommas d (c :: cs) = none := by
  have hopen : isOpener c = false := by
    by_contra hne
    rw [Bool.not_eq_false] at hne
    simp only [weight, hne, if_true] at h
    omega
  have hclose : isCloser c = true := by
    by_contra hne
    simp only [weight, hopen, hne, Bool.false_eq_true, if_false] at h
    omega
  obtain rfl : d = 0 := by
    simp only [weight, hopen, hclose, if_true, Bool.false_eq_true, if_false] at h
    omega
  simp [cutAtCommas, hopen, hclose]

/-- What a cut does with the first character. -/
theorem cutAtCommas_cons_eq_some {d : Nat} {c : Char} {cs : List Char}
    {pieces : List (List Char)} (h : cutAtCommas d (c :: cs) = some pieces) :
    (c = ',' ∧ d = 0 ∧ ∃ rest, cutAtCommas 0 cs = some rest ∧ pieces = [] :: rest) ∨
      (c = ',' → d ≠ 0) ∧ ∃ e : Nat, (d : Int) + weight c = e ∧
        ∃ rest, cutAtCommas e cs = some rest ∧ pieces = consFirst c rest := by
  by_cases hc : c = ',' ∧ d = 0
  · obtain ⟨rfl, rfl⟩ := hc
    rw [cutAtCommas_comma] at h
    obtain ⟨rest, hrest, rfl⟩ := Option.map_eq_some_iff.mp h
    exact .inl ⟨rfl, rfl, rest, hrest, rfl⟩
  · have hcomma : c = ',' → d ≠ 0 := fun hcomma hd => hc ⟨hcomma, hd⟩
    by_cases hneg : (d : Int) + weight c < 0
    · rw [cutAtCommas_of_neg cs hneg] at h
      exact absurd h (by simp)
    · obtain ⟨e, he⟩ := Int.eq_ofNat_of_zero_le (Int.not_lt.mp hneg)
      rw [cutAtCommas_cons cs hcomma he] at h
      obtain ⟨rest, hrest, rfl⟩ := Option.map_eq_some_iff.mp h
      exact .inr ⟨hcomma, e, he, rest, hrest, rfl⟩

theorem cutAtCommas_nil_eq_some {d : Nat} {pieces : List (List Char)}
    (h : cutAtCommas d [] = some pieces) : d = 0 ∧ pieces = [[]] := by
  cases d with
  | zero => exact ⟨rfl, (Option.some.inj h).symm⟩
  | succ d => simp [cutAtCommas] at h

theorem cutAtCommas_ne_nil {d : Nat} {cs : List Char} {pieces : List (List Char)}
    (h : cutAtCommas d cs = some pieces) : pieces ≠ [] := by
  cases cs with
  | nil => rw [(cutAtCommas_nil_eq_some h).2]; simp
  | cons c cs =>
      rcases cutAtCommas_cons_eq_some h with ⟨_, _, rest, _, rfl⟩ | ⟨_, _, _, rest, _, rfl⟩
      · simp
      · cases rest <;> simp [consFirst]

/-- Only a text whose brackets match can be cut. -/
theorem cutAtCommas_isSome_iff {d : Nat} {cs : List Char} :
    (cutAtCommas d cs).isSome ↔ BalancedFrom d cs := by
  induction cs generalizing d with
  | nil => cases d <;> simp [cutAtCommas]; omega
  | cons c cs ih =>
      rw [balancedFrom_cons]
      by_cases hc : c = ',' ∧ d = 0
      · obtain ⟨rfl, rfl⟩ := hc
        rw [cutAtCommas_comma, Option.isSome_map, ih]
        simp [weight, isOpener, isCloser]
      · have hcomma : c = ',' → d ≠ 0 := fun hcomma hd => hc ⟨hcomma, hd⟩
        by_cases hneg : (d : Int) + weight c < 0
        · rw [cutAtCommas_of_neg cs hneg]
          refine iff_of_false (by simp) ?_
          rintro ⟨_, hbalanced⟩
          have := hbalanced.nonneg [] List.nil_prefix
          rw [depth_nil] at this
          omega
        · obtain ⟨e, he⟩ := Int.eq_ofNat_of_zero_le (Int.not_lt.mp hneg)
          rw [cutAtCommas_cons cs hcomma he, Option.isSome_map, ih, he]
          simp

/-- The pieces, with the commas between them, are the text. -/
theorem intercalate_cutAtCommas {d : Nat} {cs : List Char} {pieces : List (List Char)}
    (h : cutAtCommas d cs = some pieces) : [','].intercalate pieces = cs := by
  induction cs generalizing d pieces with
  | nil => rw [(cutAtCommas_nil_eq_some h).2]; rfl
  | cons c cs ih =>
      rcases cutAtCommas_cons_eq_some h with
        ⟨rfl, _, rest, hrest, rfl⟩ | ⟨_, e, _, rest, hrest, rfl⟩
      · rw [← ih hrest]
        obtain ⟨first, rest, rfl⟩ := List.exists_cons_of_ne_nil (cutAtCommas_ne_nil hrest)
        simp
      · rw [← ih hrest]
        obtain ⟨first, rest, rfl⟩ := List.exists_cons_of_ne_nil (cutAtCommas_ne_nil hrest)
        cases rest <;> simp [consFirst]

/-- The first piece is a field from the depth at which the cut starts, the others from zero. -/
theorem isField_of_mem_cutAtCommas {d : Nat} {cs first : List Char} {rest : List (List Char)}
    (h : cutAtCommas d cs = some (first :: rest)) :
    IsFieldFrom d first ∧ ∀ piece ∈ rest, IsField piece := by
  induction cs generalizing d first rest with
  | nil =>
      obtain ⟨rfl, heq⟩ := cutAtCommas_nil_eq_some h
      obtain ⟨rfl, rfl⟩ := List.cons.inj heq
      simp
  | cons c cs ih =>
      rcases cutAtCommas_cons_eq_some h with
        ⟨rfl, rfl, pieces, hp, heq⟩ | ⟨hc, e, he, pieces, hp, heq⟩
      · obtain ⟨rfl, rfl⟩ := List.cons.inj heq
        obtain ⟨second, later, rfl⟩ := List.exists_cons_of_ne_nil (cutAtCommas_ne_nil hp)
        obtain ⟨hsecond, hlater⟩ := ih hp
        refine ⟨by simp, ?_⟩
        intro piece hmem
        rcases List.mem_cons.mp hmem with rfl | hmem
        · exact hsecond
        · exact hlater piece hmem
      · obtain ⟨head, later, rfl⟩ := List.exists_cons_of_ne_nil (cutAtCommas_ne_nil hp)
        obtain ⟨rfl, rfl⟩ := List.cons.inj heq
        obtain ⟨hhead, hlater⟩ := ih hp
        refine ⟨?_, hlater⟩
        rw [isFieldFrom_cons, he]
        exact ⟨by omega, by simpa using hc, hhead⟩

/-- A field is cut off at the comma behind it. -/
theorem cutAtCommas_append_comma {d : Nat} {field : List Char} (h : IsFieldFrom d field)
    (cs : List Char) :
    cutAtCommas d (field ++ ',' :: cs) = (cutAtCommas 0 cs).map (field :: ·) := by
  induction field generalizing d with
  | nil =>
      obtain rfl : d = 0 := by simpa using h
      exact cutAtCommas_comma cs
  | cons c field ih =>
      obtain ⟨_, hc, htail⟩ := isFieldFrom_cons.mp h
      have hnonneg : 0 ≤ (d : Int) + weight c := by
        simpa using htail.1.nonneg [] List.nil_prefix
      obtain ⟨e, he⟩ := Int.eq_ofNat_of_zero_le hnonneg
      rw [he] at htail
      rw [List.cons_append, cutAtCommas_cons _ (by simpa using hc) he, ih htail, Option.map_map]
      rfl

/-- A field by itself is one piece. -/
theorem cutAtCommas_of_isField {d : Nat} {field : List Char} (h : IsFieldFrom d field) :
    cutAtCommas d field = some [field] := by
  induction field generalizing d with
  | nil =>
      obtain rfl : d = 0 := by simpa using h
      rfl
  | cons c field ih =>
      obtain ⟨_, hc, htail⟩ := isFieldFrom_cons.mp h
      have hnonneg : 0 ≤ (d : Int) + weight c := by
        simpa using htail.1.nonneg [] List.nil_prefix
      obtain ⟨e, he⟩ := Int.eq_ofNat_of_zero_le hnonneg
      rw [he] at htail
      rw [cutAtCommas_cons _ (by simpa using hc) he, ih htail]
      rfl

/-! ## Splitting into fields -/

/-- A field as it stands between commas once it is trimmed: it has something in it, it is trimmed,
its brackets match and no comma divides it. -/
structure IsTrimmedField (cs : List Char) : Prop where
  ne_nil : cs ≠ []
  trim_eq : trim cs = cs
  isField : IsField cs

/-- A space in front of a text goes to its first piece. -/
theorem cutAtCommas_space (cs : List Char) :
    cutAtCommas 0 (' ' :: cs) = (cutAtCommas 0 cs).map (consFirst ' ') :=
  cutAtCommas_cons cs (by simp) (by rfl)

theorem subset_intercalate (sep : List Char) {piece : List Char} {pieces : List (List Char)}
    (h : piece ∈ pieces) : piece ⊆ sep.intercalate pieces := by
  induction pieces with
  | nil => simp at h
  | cons first pieces ih =>
      cases pieces with
      | nil => simp_all
      | cons next rest =>
          rw [List.intercalate_cons_cons]
          rcases List.mem_cons.mp h with rfl | h
          · simp
          · intro c hc
            exact List.subset_append_right _ _ (ih h hc)

theorem notMem_intercalate {c : Char} {sep : List Char} {pieces : List (List Char)} (hsep : c ∉ sep)
    (h : ∀ piece ∈ pieces, c ∉ piece) : c ∉ sep.intercalate pieces := by
  induction pieces with
  | nil => simp
  | cons first pieces ih =>
      have hfirst : c ∉ first := h first List.mem_cons_self
      cases pieces with
      | nil => simpa using hfirst
      | cons next rest =>
          have hrest := ih fun piece hpiece => h piece (List.mem_cons_of_mem first hpiece)
          rw [List.intercalate_cons_cons]
          simp [hfirst, hsep, hrest]

theorem getLast?_intercalate (sep : List Char) {pieces : List (List Char)} {last : List Char}
    (h : pieces.getLast? = some last) (hne : last ≠ []) :
    (sep.intercalate pieces).getLast? = last.getLast? := by
  induction pieces with
  | nil => simp at h
  | cons piece pieces ih =>
      cases pieces with
      | nil =>
          obtain rfl : piece = last := by simpa using h
          simp
      | cons next rest =>
          have hrest := ih (by simpa using h)
          rw [List.intercalate_cons_cons, List.getLast?_append, hrest]
          obtain ⟨c, hc⟩ := Option.isSome_iff_exists.mp (List.getLast?_isSome.mpr hne)
          rw [hc]
          rfl

/-- Trimmed fields with something between them make a trimmed text. -/
theorem trim_intercalate (sep : List Char) {fields : List (List Char)}
    (h : ∀ f ∈ fields, IsTrimmedField f) :
    trim (sep.intercalate fields) = sep.intercalate fields := by
  cases fields with
  | nil => rfl
  | cons first rest =>
      have hfirst : IsTrimmedField first := h first List.mem_cons_self
      have hhead : (sep.intercalate (first :: rest)).head? = first.head? := by
        obtain ⟨c, cs, rfl⟩ := List.exists_cons_of_ne_nil hfirst.ne_nil
        cases rest <;> simp
      obtain ⟨last, hlast⟩ := Option.isSome_iff_exists.mp
        (List.getLast?_isSome.mpr (List.cons_ne_nil first rest))
      have hlastField : IsTrimmedField last := h last (List.mem_of_getLast? hlast)
      rw [trim_eq_self_iff, hhead, getLast?_intercalate sep hlast hlastField.ne_nil]
      exact ⟨(trim_eq_self_iff.mp hfirst.trim_eq).1, (trim_eq_self_iff.mp hlastField.trim_eq).2⟩

/-- Fields written with a comma and a space between them are cut before the spaces. -/
theorem cutAtCommas_intercalate {field : List Char} {fields : List (List Char)}
    (h : IsField field) (hs : ∀ f ∈ fields, IsField f) :
    cutAtCommas 0 ([',', ' '].intercalate (field :: fields)) =
      some (field :: fields.map (' ' :: ·)) := by
  induction fields generalizing field with
  | nil => simpa using cutAtCommas_of_isField h
  | cons next fields ih =>
      have hnext : IsField next := hs next List.mem_cons_self
      have hrest := ih hnext fun f hf => hs f (List.mem_cons_of_mem next hf)
      rw [List.intercalate_cons_cons, List.append_assoc, List.cons_append, List.cons_append,
        List.nil_append, cutAtCommas_append_comma h, cutAtCommas_space, hrest]
      rfl

theorem trim_space_cons (cs : List Char) : trim (' ' :: cs) = trim cs := by
  have hspace : AllBlank [' '] := by simp [isBlank]
  exact trim_blank_append hspace cs

/-- Fields written with a comma and a space between them are split again. -/
theorem splitFields_intercalate {fields : List (List Char)}
    (h : ∀ f ∈ fields, IsTrimmedField f) :
    splitFields ([',', ' '].intercalate fields) = .ok fields := by
  cases fields with
  | nil => rfl
  | cons field fields =>
      have hfield : IsTrimmedField field := h field List.mem_cons_self
      have hfields : ∀ f ∈ fields, IsTrimmedField f := fun f hf => h f (List.mem_cons_of_mem _ hf)
      have hne : [',', ' '].intercalate (field :: fields) ≠ [] := by
        cases fields <;> simp [hfield.ne_nil]
      have hcut := cutAtCommas_intercalate hfield.isField fun f hf => (hfields f hf).isField
      have htrim : (field :: fields.map (' ' :: ·)).map trim = field :: fields := by
        simp only [List.map_cons, List.map_map, hfield.trim_eq, List.cons.injEq, true_and]
        conv_rhs => rw [← List.map_id fields]
        apply List.map_congr_left
        intro f hf
        rw [Function.comp_apply, trim_space_cons, (hfields f hf).trim_eq, id]
      have hany : (field :: fields).any List.isEmpty = false := by
        rw [List.any_eq_false]
        intro f hf
        simpa using (h f hf).ne_nil
      simp only [splitFields, List.isEmpty_iff, hne, if_false, hcut, htrim, hany,
        Bool.false_eq_true]

/-- Only an empty text has no fields. -/
theorem eq_nil_of_splitFields_eq_ok {text : List Char} (h : splitFields text = .ok []) :
    text = [] := by
  by_contra htext
  simp only [splitFields, List.isEmpty_iff, htext, if_false] at h
  cases hcut : cutAtCommas 0 text with
  | none => simp [hcut] at h
  | some pieces =>
      simp only [hcut] at h
      split at h
      · simp at h
      · have hnil : pieces.map trim = [] := Except.ok.inj h
        exact cutAtCommas_ne_nil hcut (List.map_eq_nil_iff.mp hnil)

/-- The fields of a text are trimmed fields made of its characters, and the last one ends as the
text does. -/
theorem splitFields_eq_ok {text : List Char} {fields : List (List Char)}
    (h : splitFields text = .ok fields) :
    (∀ f ∈ fields, IsTrimmedField f ∧ f ⊆ text) ∧
      (trim text = text → ∀ last, fields.getLast? = some last → last.getLast? = text.getLast?) := by
  by_cases htext : text = []
  · subst htext
    obtain rfl : [] = fields := by simpa using h
    simp
  simp only [splitFields, List.isEmpty_iff, htext, if_false] at h
  cases hcut : cutAtCommas 0 text with
  | none => simp [hcut] at h
  | some pieces =>
      simp only [hcut] at h
      split at h
      · simp at h
      rename_i hany
      obtain rfl := Except.ok.inj h
      have hjoin := intercalate_cutAtCommas hcut
      have hfields : ∀ p ∈ pieces, IsField p := by
        obtain ⟨first, rest, rfl⟩ := List.exists_cons_of_ne_nil (cutAtCommas_ne_nil hcut)
        obtain ⟨hfirst, hrest⟩ := isField_of_mem_cutAtCommas hcut
        intro p hp
        rcases List.mem_cons.mp hp with rfl | hp
        · exact hfirst
        · exact hrest p hp
      have hne : ∀ f ∈ pieces.map trim, f ≠ [] := by
        intro f hf hnil
        exact hany (List.any_eq_true.mpr ⟨f, hf, by simp [hnil]⟩)
      refine ⟨?_, ?_⟩
      · intro f hf
        obtain ⟨p, hp, rfl⟩ := List.mem_map.mp hf
        refine ⟨⟨hne _ hf, trim_trim p, (hfields p hp).trim⟩, ?_⟩
        intro c hc
        rw [← hjoin]
        exact subset_intercalate _ hp (mem_of_mem_trim hc)
      · intro htrim last hlast
        rw [List.getLast?_map] at hlast
        obtain ⟨p, hp, rfl⟩ := Option.map_eq_some_iff.mp hlast
        have hpne : p ≠ [] := by
          rintro rfl
          exact hne [] (List.mem_map.mpr ⟨[], List.mem_of_getLast? hp, rfl⟩) rfl
        have hends := getLast?_intercalate [','] hp hpne
        rw [hjoin] at hends
        obtain ⟨c, hc⟩ := Option.isSome_iff_exists.mp (List.getLast?_isSome.mpr htext)
        have hblank : isBlank c = false := (trim_eq_self_iff.mp htrim).2 c hc
        rw [hc] at hends
        rw [hc, getLast?_trim_of_not_blank hends.symm hblank]

end MacroAsm.Listing
