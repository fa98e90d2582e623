import MacroAsm.Proofs.Machine.Word

/-!
# Lowering keeps what a listing does

On a faithful machine a listing and its lowered form run alike.  The proof goes one pass at a time.
`Lowered` says what a pass does to a listing in the terms of a run: every node is kept, or is
replaced by an expansion whose temporaries no node of the listing names.  One step over a node is
then matched by one or more steps over what replaced it, and since labels are kept, a jump arrives
at the same label in both.

The listing after one pass names the temporaries that this pass took, so the next pass is looked at
with only the temporaries that it takes itself out of sight.

## Main definitions

* `Machine.Lowered` — listings that differ by expansions.
* `Machine.Config.Agree` — runs that stand at the same place in states that agree.

## Main statements

* `Machine.Lowered.of_runs` — what a pass does to a listing.
* `Machine.exists_matches_step`, `Machine.exists_matches_iterate` — one step, and a whole run.
* `Machine.exists_agree_of_runs` — the same for pipelines.
-/

namespace MacroAsm

namespace Machine

universe u v

variable {V : Type u} {M : Type v} {exec : Semantics V M} {F : Set (RegisterClass × UInt32)}
  {ns out : List Node}

/-! ## Lowered listings -/

/-- `Lowered F ns out`: in `out`, some macro instructions of `ns` are replaced by expansions with
distinct temporaries in `F`, and no node of `ns` names a temporary in `F`. -/
inductive Lowered (F : Set (RegisterClass × UInt32)) : List Node → List Node → Prop
  | nil : Lowered F [] []
  | keep {n : Node} {ns out : List Node} (hn : ∀ i, n = .instruction i → ∀ key ∈ i.keys, key ∉ F)
      (hrest : Lowered F ns out) : Lowered F (n :: ns) (n :: out)
  | expand {i : Instruction} {ids : Nat → UInt32} {ns out : List Node} (hi : i.Expandable)
      (hkeys : ∀ key ∈ i.keys, key ∉ F) (hinj : Set.InjOn ids {k | k < i.demand})
      (hids : ∀ k < i.demand, (.general, ids k) ∈ F) (hrest : Lowered F ns out) :
      Lowered F (.instruction i :: ns) ((i.expansion ids).map .instruction ++ out)

theorem Lowered.refl (h : ∀ i, .instruction i ∈ ns → ∀ key ∈ i.keys, key ∉ F) :
    Lowered F ns ns := by
  induction ns with
  | nil => exact .nil
  | cons n ns ih =>
      refine .keep (fun i hi => h i (by simp [hi])) (ih ?_)
      intro i hi
      exact h i (List.mem_cons_of_mem n hi)

theorem notMem_of_toNat_id_lt {bound : Nat}
    (h : ∀ i, .instruction i ∈ ns → ∀ t ∈ i.temporaries, t.id.toNat < bound)
    (hF : ∀ key ∈ F, bound ≤ key.2.toNat) : ∀ i, .instruction i ∈ ns → ∀ key ∈ i.keys, key ∉ F := by
  rintro i hi key ⟨t, ht, rfl⟩ hmem
  have hlow : t.id.toNat < bound := h i hi t ht
  have hhigh : bound ≤ t.id.toNat := hF _ hmem
  omega

/-- What a pass does to a listing whose temporaries are numbered below those in `F`. -/
theorem Lowered.of_runs {p : Pass} {c c' : Supply} (h : p.Runs ns c out c')
    (hF : ∀ i, .instruction i ∈ ns → ∀ key ∈ i.keys, key ∉ F)
    (hfresh : ∀ id : UInt32, c.next ≤ id.toNat → id.toNat < c'.next → (.general, id) ∈ F) :
    Lowered F ns out := by
  induction h with
  | nil s => exact .nil
  | keep hn _ ih =>
      refine .keep (fun i hi => hF i (by simp [hi])) (ih ?_ hfresh)
      intro i hi
      exact hF i (List.mem_cons_of_mem _ hi)
  | @expand i ns out s s' hp hi hfit hrest ih =>
      have hle := hrest.next_le_next
      rw [Supply.next_skip] at hle
      have hnumber : ∀ k < i.demand, (s.upcoming k).toNat = s.next + k := by
        intro k hk
        exact Supply.toNat_upcoming (by omega)
      refine .expand hi (hF i List.mem_cons_self) ?_ ?_ (ih ?_ ?_)
      · intro j hj k hk heq
        have := congrArg UInt32.toNat heq
        rw [hnumber j hj, hnumber k hk] at this
        omega
      · intro k hk
        refine hfresh _ ?_ ?_
        · rw [hnumber k hk]
          omega
        · rw [hnumber k hk]
          omega
      · intro j hj
        exact hF j (List.mem_cons_of_mem _ hj)
      · intro id hlow hhigh
        rw [Supply.next_skip] at hlow
        exact hfresh id (by omega) hhigh

/-- A label is kept, so a search for one arrives at listings that differ in the same way. -/
theorem Lowered.dropWhile (h : Lowered F ns out) (name : String) :
    Lowered F (ns.dropWhile (!·.isLabel name)) (out.dropWhile (!·.isLabel name)) := by
  induction h with
  | nil => exact .nil
  | @keep n ns out hn hrest ih =>
      by_cases hlabel : n.isLabel name = true
      · rw [List.dropWhile_cons_of_neg (by simp [hlabel]),
          List.dropWhile_cons_of_neg (by simp [hlabel])]
        exact .keep hn hrest
      · rw [List.dropWhile_cons_of_pos (by simp [hlabel]),
          List.dropWhile_cons_of_pos (by simp [hlabel])]
        exact ih
  | @expand i ids ns out hi hkeys hinj hids hrest ih =>
      have hexpansion : ∀ n ∈ (i.expansion ids).map Node.instruction, (!n.isLabel name) = true := by
        intro n hn
        obtain ⟨j, _, rfl⟩ := List.mem_map.mp hn
        rfl
      rw [List.dropWhile_cons_of_pos rfl, List.dropWhile_append_of_pos hexpansion]
      exact ih

/-! ## One pass -/

/-- Runs of a listing and of a lowered listing that stand at corresponding places. -/
inductive Matches (F : Set (RegisterClass × UInt32)) : Config V M → Config V M → Prop
  | running {rest rest' : List Node} {s s' : State V M} (hrest : Lowered F rest rest')
      (hs : AgreeOff F s s') : Matches F (.running rest s) (.running rest' s')
  | halted {s s' : State V M} (hs : AgreeOff F s s') (outcome : Outcome) :
      Matches F (.halted s outcome) (.halted s' outcome)

theorem Matches.goto (h : Lowered F ns out) {s s' : State V M} (hs : AgreeOff F s s')
    (target : String) : Matches F (goto ns target s) (goto out target s') := by
  have hdrop := h.dropWhile target
  unfold Machine.goto
  generalize ns.dropWhile (!·.isLabel target) = rest at hdrop
  generalize out.dropWhile (!·.isLabel target) = rest' at hdrop
  cases hdrop with
  | nil => exact .halted hs (.jump target)
  | keep hn hrest => exact .running (.keep hn hrest) hs
  | @expand i ids _ _ hi hkeys hinj hids hrest =>
      have hlowered := Lowered.expand hi hkeys hinj hids hrest
      obtain ⟨j, js, hcons⟩ := List.exists_cons_of_ne_nil (hi.expansion_ne_nil ids)
      rw [hcons] at hlowered ⊢
      exact .running hlowered hs

theorem Matches.resume (h : Lowered F ns out) {rest rest' : List Node}
    (hrest : Lowered F rest rest') {r r' : State V M × Outcome} (hr : SameEffect F r r') :
    Matches F (resume ns rest r) (resume out rest' r') := by
  obtain ⟨s, outcome⟩ := r
  obtain ⟨s', outcome'⟩ := r'
  obtain ⟨rfl, hstate⟩ : outcome = outcome' ∧ AgreeOff F s s' := ⟨hr.outcome, hr.state⟩
  cases outcome with
  | next => exact .running hrest hstate
  | jump target => exact .goto h hstate target

/-- A step over a node is matched by steps over what replaced it. -/
theorem exists_matches_step (hm : Faithful exec) (h : Lowered F ns out) {c c' : Config V M}
    (hc : Matches F c c') :
    ∃ k, 1 ≤ k ∧ Matches F (step exec ns c) ((step exec out)^[k] c') := by
  cases hc with
  | halted hs outcome => exact ⟨1, Nat.le_refl 1, .halted hs outcome⟩
  | running hrest hs =>
      cases hrest with
      | nil => exact ⟨1, Nat.le_refl 1, .halted hs .next⟩
      | @keep n rest rest' hn hrest =>
          refine ⟨1, Nat.le_refl 1, ?_⟩
          cases n with
          | instruction i => exact .resume h hrest (hm.sameEffect_exec (hn i rfl) hs)
          | label name o => exact .running hrest hs
          | directive text o => exact .running hrest hs
          | comment text o => exact .running hrest hs
      | @expand i ids rest rest' hi hkeys hinj hids hrest =>
          rename_i s s'
          obtain ⟨k, hk, hsteps⟩ :=
            exists_iterate_step_execAll (i.expansion ids) (hi.expansion_ne_nil ids) rest' s'
          refine ⟨k, hk, ?_⟩
          rw [hsteps]
          -- the macro instruction does the same in both states, and its expansion does what it does
          have hcall := hm.sameEffect_exec hkeys hs
          have hexpansion :=
            hm.expands i hi ids hinj (fun k hk hmem => hkeys _ hmem (hids k hk)) s'
          have hsub : {key | ∃ k < i.demand, key = (RegisterClass.general, ids k)} ⊆ F := by
            rintro key ⟨k, hk, rfl⟩
            exact hids k hk
          exact .resume h hrest (hcall.trans (hexpansion.mono hsub).symm)

/-- A run is matched, step by step, by a run that is at least as long. -/
theorem exists_matches_iterate (hm : Faithful exec) (h : Lowered F ns out) {c c' : Config V M}
    (hc : Matches F c c') (n : Nat) :
    ∃ k, n ≤ k ∧ Matches F ((step exec ns)^[n] c) ((step exec out)^[k] c') := by
  induction n with
  | zero => exact ⟨0, Nat.le_refl 0, hc⟩
  | succ n ih =>
      obtain ⟨k, hk, hmatches⟩ := ih
      obtain ⟨k', hk', hmatches'⟩ := exists_matches_step hm h hmatches
      refine ⟨k' + k, by omega, ?_⟩
      rw [Function.iterate_succ_apply', Function.iterate_add_apply]
      exact hmatches'

/-! ## Pipelines -/

/-- The labels, directives and comments of a listing. -/
def landmarks (ns : List Node) : List Node :=
  ns.filter (·.instruction?.isNone)

theorem Lowered.landmarks_eq (h : Lowered F ns out) : landmarks ns = landmarks out := by
  induction h with
  | nil => rfl
  | keep _ _ ih =>
      simp only [landmarks, List.filter_cons] at ih ⊢
      rw [ih]
  | expand _ _ _ _ _ ih =>
      simp only [landmarks, List.filter_append, List.filter_map] at ih ⊢
      rw [List.filter_cons_of_neg (by simp [Node.instruction?]), ih]
      simp [Function.comp_def, Node.instruction?]

/-- Runs that stand at the same place, with the same labels ahead or ended in the same way, in
states that agree off `F`. -/
inductive Config.Agree (F : Set (RegisterClass × UInt32)) : Config V M → Config V M → Prop
  | running {rest rest' : List Node} {s s' : State V M} (hrest : landmarks rest = landmarks rest')
      (hs : AgreeOff F s s') : Agree F (.running rest s) (.running rest' s')
  | halted {s s' : State V M} (hs : AgreeOff F s s') (outcome : Outcome) :
      Agree F (.halted s outcome) (.halted s' outcome)

theorem Matches.agree {c c' : Config V M} (h : Matches F c c') : c.Agree F c' := by
  cases h with
  | running hrest hs => exact .running hrest.landmarks_eq hs
  | halted hs outcome => exact .halted hs outcome

theorem Config.Agree.trans {F G : Set (RegisterClass × UInt32)} {a b c : Config V M}
    (hab : a.Agree F b) (hbc : b.Agree G c) (hGF : G ⊆ F) : a.Agree F c := by
  cases hab with
  | running hrest hs =>
      cases hbc with
      | running hrest' hs' => exact .running (hrest.trans hrest') (hs.trans (hs'.mono hGF))
  | halted hs outcome =>
      cases hbc with
      | halted hs' => exact .halted (hs.trans (hs'.mono hGF)) outcome

/-- A run of a listing is matched by one of the lowered listing.  The temporaries in `F` are
numbered above those of the listing, and those that the pipeline takes are among them. -/
theorem exists_agree_of_runs (hm : Faithful exec) {ps : Pipeline} {c c' : Supply}
    (h : Pipeline.Runs ps ns c out c')
    (hns : ∀ i, .instruction i ∈ ns → ∀ t ∈ i.temporaries, t.id.toNat < c.next)
    (hfresh : ∀ id : UInt32, c.next ≤ id.toNat → id.toNat < c'.next → (.general, id) ∈ F)
    (hF : ∀ key ∈ F, c.next ≤ key.2.toNat) {s s' : State V M} (hs : AgreeOff F s s') (n : Nat) :
    ∃ k, n ≤ k ∧ Config.Agree F ((step exec ns)^[n] (.running ns s))
      ((step exec out)^[k] (.running out s')) := by
  induction h generalizing F s n with
  | nil ns c =>
      have hlowered : Lowered F ns ns := .refl (notMem_of_toNat_id_lt hns hF)
      obtain ⟨k, hk, hmatches⟩ := exists_matches_iterate hm hlowered (.running hlowered hs) n
      exact ⟨k, hk, hmatches.agree⟩
  | @cons p ps ns mid out c c₁ c' hp hps ih =>
      have hle := hps.next_le_next
      have hlowered : Lowered F ns mid := by
        refine .of_runs hp (notMem_of_toNat_id_lt hns hF) ?_
        intro id hlow hhigh
        exact hfresh id hlow (by omega)
      obtain ⟨k, hk, hmatches⟩ := exists_matches_iterate hm hlowered (.running hlowered hs) n
      -- the other passes see the temporaries of this one
      let G := {key ∈ F | c₁.next ≤ key.2.toNat}
      have hGF : G ⊆ F := fun key hkey => hkey.1
      have hle₁ := hp.next_le_next
      have hfreshG : ∀ id : UInt32, c₁.next ≤ id.toNat → id.toNat < c'.next →
          (RegisterClass.general, id) ∈ G :=
        fun id hlow hhigh => ⟨hfresh id (by omega) hhigh, hlow⟩
      obtain ⟨k', hk', hagree⟩ :=
        ih (hp.toNat_id_lt hns) hfreshG (fun key hkey => hkey.2) (.refl G s') k
      exact ⟨k', by omega, hmatches.agree.trans hagree hGF⟩

/-! ## Whole programs -/

/-- **Lowering keeps what a listing does.**  Let a pipeline lower `ns` to `out` from a supply above
the temporaries of `ns`.  Let `F` hold the temporaries that the pipeline took and none that is
numbered below the supply.  From states that agree off `F`, every run of `ns` is followed by a run
of `out` that is at least as long and stands at the same place in a state that agrees off `F`.
Hence one halts exactly when the other does, in the same way and in states that agree off `F`. -/
theorem lowered_runs_alike (hm : Faithful exec) {ps : Pipeline} {c c' : Supply}
    (hrun : (ps.run ns).runFrom c = (.ok out, c'))
    (hns : ∀ t ∈ Node.temporaries ns, t.id.toNat < c.next)
    (hfresh : ∀ id : UInt32, c.next ≤ id.toNat → id.toNat < c'.next → (.general, id) ∈ F)
    (hF : ∀ key ∈ F, c.next ≤ key.2.toNat) {s s' : State V M} (hs : AgreeOff F s s') :
    (∀ n, ∃ k, n ≤ k ∧ Config.Agree F ((step exec ns)^[n] (.running ns s))
      ((step exec out)^[k] (.running out s'))) ∧
    (∀ t outcome, Halts exec ns s t outcome →
      ∃ t', Halts exec out s' t' outcome ∧ AgreeOff F t t') ∧
    (∀ t' outcome, Halts exec out s' t' outcome →
      ∃ t, Halts exec ns s t outcome ∧ AgreeOff F t t') := by
  have hinstructions : ∀ i, .instruction i ∈ ns → ∀ t ∈ i.temporaries, t.id.toNat < c.next := by
    intro i hi t ht
    refine hns t (List.mem_flatMap.mpr ⟨i, ?_, ht⟩)
    exact List.mem_filterMap.mpr ⟨.instruction i, hi, rfl⟩
  have hagree :=
    exists_agree_of_runs hm (Pipeline.runFrom_run_eq_ok.mp hrun) hinstructions hfresh hF hs
  refine ⟨hagree, ?_, ?_⟩
  · rintro t outcome ⟨n, hn⟩
    obtain ⟨k, _, hk⟩ := hagree n
    rw [hn] at hk
    generalize hconfig : (step exec out)^[k] (.running out s') = config at hk
    cases hk with
    | halted ht => exact ⟨_, ⟨k, hconfig⟩, ht⟩
  · rintro t' outcome ⟨n, hn⟩
    obtain ⟨k, hle, hk⟩ := hagree n
    -- the run of `out` has ended by then
    have hend : (step exec out)^[k] (.running out s') = .halted t' outcome := by
      obtain ⟨m, rfl⟩ := Nat.exists_eq_add_of_le hle
      rw [Nat.add_comm, Function.iterate_add_apply, hn, iterate_step_halted]
    rw [hend] at hk
    generalize hconfig : (step exec ns)^[n] (.running ns s) = config at hk
    cases hk with
    | halted ht => exact ⟨_, ⟨n, hconfig⟩, ht⟩

/-- A loop that goes back once and is left at its second test, on the machine with 64-bit words; the
temporary that the mask takes starts with a value that the listing never set. -/
theorem lowered_runs_alike_loop :
    let o : Origin := .synthetic
    let x : Temporary := ⟨0, .general, o⟩
    let masked : Temporary := ⟨1, .general, o⟩
    let flip : Instruction := ⟨.not .int, [.register "r1"], o⟩
    let test : Instruction :=
      ⟨.bitTest .branch .int .nonZero, [.temporary x, .register "r1", .label "loop"], o⟩
    let ns : List Node := [.label "loop" o, .instruction flip, .instruction test]
    let out : List Node := [
      .label "loop" o,
      .instruction ⟨.xor .int, [.immediate (-1), .register "r1"], o⟩,
      .instruction ⟨.and .int, [.temporary x, .register "r1", .temporary masked], o⟩,
      .instruction ⟨.compare .branch .int .notEqual,
        [.temporary masked, .immediate 0, .label "loop"], o⟩]
    let s : Word.WordState := ⟨fun _ => 0, fun _ => 1, fun _ => 0⟩
    let s' : Word.WordState := Word.write s 7 (.temporary masked)
    let once : Word.WordState := (Word.exec flip s).1
    let twice : Word.WordState := (Word.exec flip once).1
    ((Pipeline.run [.bitTest, .not, .bitTest] ns).runFrom (.above (some 0))).1 = .ok out ∧
      (step Word.exec ns)^[3] (.running ns s) = .running ns once ∧
      Halts Word.exec ns s twice .next ∧
      ∃ t', Halts Word.exec out s' t' .next ∧ AgreeOff {masked.key} twice t' := by
  intro o x masked flip test ns out s s' once twice
  have hrun : (Pipeline.run [.bitTest, .not, .bitTest] ns).runFrom (.above (some 0)) =
      (.ok out, ⟨2, 1, by decide⟩) := by
    decide +kernel
  have hmem : masked.key ∈ ({masked.key} : Set (RegisterClass × UInt32)) := rfl
  have hs : AgreeOff {masked.key} s s' := (Word.agreeOff_write_temporary s 7 hmem).symm
  have halike := lowered_runs_alike Word.faithful hrun (by decide) ?_ ?_ hs
  · -- the test finds a bit the first time, and none the second time
    have hback : Word.exec test once = (once, .jump "loop") := by
      have hmet : TestCondition.nonZero.holds (Word.low .int (Word.value once (.temporary x)) &&&
          Word.low .int (Word.value once (.register "r1"))) = true := by decide
      simp only [Word.exec, test, hmet]
      rfl
    have hleave : Word.exec test twice = (twice, .next) := by
      have hmet : TestCondition.nonZero.holds (Word.low .int (Word.value twice (.temporary x)) &&&
          Word.low .int (Word.value twice (.register "r1"))) = false := by decide
      simp only [Word.exec, test, hmet]
      rfl
    have hloop : (step Word.exec ns)^[3] (.running ns s) = .running ns once := by
      change resume ns [] (Word.exec test once) = _
      rw [hback]
      rfl
    have hrest : (step Word.exec ns)^[4] (.running ns once) = .halted twice .next := by
      change step _ _ (resume ns [] (Word.exec test twice)) = _
      rw [hleave]
      rfl
    have hhalts : Halts Word.exec ns s twice .next := by
      refine ⟨4 + 3, ?_⟩
      rw [Function.iterate_add_apply, hloop, hrest]
    exact ⟨congrArg Prod.fst hrun, hloop, hhalts, halike.2.1 _ _ hhalts⟩
  · intro id hlow hhigh
    have hid : id = 1 := UInt32.toNat_inj.mp (Nat.le_antisymm (Nat.le_of_lt_succ hhigh) hlow)
    rw [hid]
    rfl
  · rintro key rfl
    decide

end Machine

end MacroAsm
