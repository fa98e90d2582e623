import MacroAsm.Proofs.Command.Jobs
import Mathlib.Data.List.Pairwise

/-!
# What lowering several files leaves

Every file that lowers is written to its destination, and a file that fails changes nothing.  This is
so for any order of the files, and also when the steps of one come between those of another, provided
that no destination is an input and no two are one file.

Without the proviso a lowered text can be lost with no failure.  A destination that is an input is
read as the text written to it, and of two texts with one destination the first is written over.

## Main definitions

* `DestinationsApart` — no two destinations are one file.

## Main statements

* `isolated_of_runLowerMany` — what each file, any order and any run of the jobs gives.
* `delivered_iff_of_runLowerMany` — when every lowered text is there after a command that succeeds.
* `lost_of_destination_input` — a command that succeeds and loses a text.
-/

namespace MacroAsm

open Files (Store Location)
open Relation (ReflTransGen)

variable {passes : Pipeline} {directory : Option Path} {store ready s : Store} {files : List Path}
  {file : Path} {l : Location} {text : String}

/-! ## Destinations -/

/-- No two destinations are one file. -/
def DestinationsApart (directory : Option Path) (s : Store) (files : List Path) : Prop :=
  files.Pairwise fun f g => ¬s.SameFile (destination directory f) (destination directory g)

instance (directory : Option Path) (s : Store) (files : List Path) :
    Decidable (DestinationsApart directory s files) :=
  inferInstanceAs (Decidable (files.Pairwise fun f g =>
    ¬s.SameFile (destination directory f) (destination directory g)))

/-- A destination holds the lowered text of its file when no other text goes there. -/
theorem read_destination (h : ready.Overwritten (outputs passes directory ready files) s)
    (hfile : file ∈ files) (houtput : output? passes directory ready file = some (l, text))
    (hunique : ∀ text', (l, text') ∈ outputs passes directory ready files →
      text' = text) :
    s.read (destination directory file) = .ok text.toUTF8 := by
  have hmem := mem_outputs.mpr ⟨file, hfile, houtput⟩
  refine Store.read_eq_ok.mpr ⟨l, ?_, h.get?_eq_of_mem hmem hunique⟩
  rw [h.tree.location?_eq]
  exact location?_of_output? houtput

theorem eq_of_sameFile_destination {f g : Path} (hapart : DestinationsApart directory ready files)
    (hf : f ∈ files) (hg : g ∈ files)
    (h : ready.SameFile (destination directory f) (destination directory g)) : f = g := by
  have hsymm : Std.Symm fun f g =>
      ¬ready.SameFile (destination directory f) (destination directory g) :=
    ⟨fun _ _ hne hsame => hne hsame.symm⟩
  by_contra hne
  exact List.Pairwise.forall hapart hf hg hne h

/-- When destinations are different files, each location has one text. -/
theorem unique_output (passes : Pipeline) (hapart : DestinationsApart directory ready files)
    (l : Location) (text text' : String)
    (h : (l, text) ∈ outputs passes directory ready files)
    (h' : (l, text') ∈ outputs passes directory ready files) : text' = text := by
  obtain ⟨f, hf, houtput⟩ := mem_outputs.mp h
  obtain ⟨g, hg, houtput'⟩ := mem_outputs.mp h'
  obtain rfl := eq_of_sameFile_destination hapart hf hg
    (Store.sameFile_iff.mpr ⟨l, location?_of_output? houtput, location?_of_output? houtput'⟩)
  rw [houtput] at houtput'
  exact (congrArg Prod.snd (Option.some.inj houtput')).symm

/-- A file that fails leaves its destination as it was. -/
theorem find_destination_of_output?_eq_none
    (h : ready.Overwritten (outputs passes directory ready files) s)
    (hapart : DestinationsApart directory ready files)
    (hfile : file ∈ files) (hnone : output? passes directory ready file = none)
    (e : Files.Entry) :
    s.find (destination directory file) = .ok e ↔
      ready.find (destination directory file) = .ok e := by
  refine h.tree.find_eq_ok fun l hl => h.get?_eq_of_notMem fun text hmem => ?_
  obtain ⟨g, hg, houtput⟩ := mem_outputs.mp hmem
  obtain rfl := eq_of_sameFile_destination hapart hfile hg
    (Store.sameFile_iff.mpr ⟨l, hl, location?_of_output? houtput⟩)
  rw [hnone] at houtput
  contradiction

/-- What no destination leads to is as it was. -/
theorem get?_eq_of_ne_destination
    (h : ready.Overwritten (outputs passes directory ready files) s)
    (hl : ∀ f ∈ files, ready.location? (destination directory f) ≠ some l) :
    s.get? l = ready.get? l := by
  refine h.get?_eq_of_notMem fun text hmem => ?_
  obtain ⟨f, hf, houtput⟩ := mem_outputs.mp hmem
  exact hl f hf (location?_of_output? houtput)

/-! ## The command -/

theorem within_of_makeTarget (h : makeTarget directory store = .ok ready) : store.Within ready := by
  unfold makeTarget at h
  split at h
  · obtain rfl := Except.ok.inj h
    exact .refl store
  · split at h
    · contradiction
    · rename_i made hmade
      obtain rfl := Except.ok.inj h
      exact Store.within_of_createDirectories hmade

theorem runLowerMany_of_makeTarget (h : makeTarget directory store = .ok ready) (passes : Pipeline)
    (files : List Path) :
    (runLowerMany passes directory store files).store = (lowerAll passes directory ready files).1 ∧
      (runLowerMany passes directory store files).failure =
        overallFailure (lowerAll passes directory ready files).2 files.length := by
  simp only [runLowerMany, h, and_self]

theorem overallFailure_eq (failures : List Failure) (total : Nat) :
    overallFailure failures total =
      if failures.length = 0 then none else some (.filesFailed failures.length total) := by
  cases failures with
  | nil => rfl
  | cons failure failures => rfl

/-- The store and the failure that a command leaves, when no destination is an input. -/
theorem overwritten_runLowerMany (hready : makeTarget directory store = .ok ready)
    (passes : Pipeline) (hinputs : InputsApart directory ready files) :
    let failed := files.countP (fails passes directory ready)
    ready.Overwritten (outputs passes directory ready files)
        (runLowerMany passes directory store files).store ∧
      (runLowerMany passes directory store files).failure =
        if failed = 0 then none else some (.filesFailed failed files.length) := by
  intro failed
  obtain ⟨hstore, hfailure⟩ := runLowerMany_of_makeTarget hready passes files
  obtain ⟨hover, hcount⟩ := overwritten_lowerAll passes hinputs
  rw [hstore, hfailure, overallFailure_eq, hcount]
  exact ⟨hover, rfl⟩

/-- **Failures stay with their files, and the order makes no difference.**  Let the directory for the
lowered files be there, let no two destinations be one file and none of them an input.  The store and
the failure are the same for any order of the files, and any run of their jobs to the end leaves that
store and as many failed jobs.  A file that can be read, lowered and written has its lowered text at
its destination; one that fails leaves its destination as it was; nothing else changes.  The command
fails when at least one file does, with the number of those that do. -/
theorem isolated_of_runLowerMany (passes : Pipeline)
    (hready : makeTarget directory store = .ok ready)
    (hapart : DestinationsApart directory ready files)
    (hinputs : InputsApart directory ready files) :
    let effect := runLowerMany passes directory store files
    let failed := files.countP (fails passes directory ready)
    (∀ order, order.Perm files →
      (runLowerMany passes directory store order).store.Same effect.store ∧
        (runLowerMany passes directory store order).failure = effect.failure) ∧
    (∀ s jobs,
      ReflTransGen (Job.Step passes directory) (ready, files.map Job.start) (s, jobs) →
      (∀ j ∈ jobs, j.isDone = true) →
        s.Same effect.store ∧ jobs.countP Job.isFailed = failed) ∧
    (∀ f ∈ files, ∀ source lowered s, ready.readText f = .ok source →
      lowerText passes f.text source = .ok lowered →
      ready.writeText (destination directory f) lowered = .ok s →
        effect.store.read (destination directory f) = .ok lowered.toUTF8) ∧
    (∀ f ∈ files, fails passes directory ready f = true → ∀ e,
      effect.store.find (destination directory f) = .ok e ↔
        ready.find (destination directory f) = .ok e) ∧
    (∀ l, (∀ f ∈ files, ready.location? (destination directory f) ≠ some l) →
      effect.store.get? l = ready.get? l) ∧
    effect.failure = if failed = 0 then none else some (.filesFailed failed files.length) := by
  intro effect failed
  obtain ⟨hover, hfailure⟩ := overwritten_runLowerMany hready passes hinputs
  have hunique := unique_output passes hapart
  refine ⟨?_, ?_, ?_, ?_, ?_, hfailure⟩
  · intro order hperm
    have hinputs' : InputsApart directory ready order :=
      fun f hf g hg => hinputs f (hperm.mem_iff.mp hf) g (hperm.mem_iff.mp hg)
    obtain ⟨hover', hfailure'⟩ := overwritten_runLowerMany hready passes hinputs'
    constructor
    · exact (hover'.congr fun o => (hperm.filterMap _).mem_iff).same hover hunique
    · rw [hfailure', hfailure, hperm.countP_eq, hperm.length_eq]
  · intro s jobs hreaches hdone
    obtain ⟨hover', hcount⟩ := Job.overwritten_of_reaches hinputs hreaches hdone
    exact ⟨hover'.same hover hunique, hcount⟩
  · intro f hf source lowered s hread hlower hwrite
    obtain ⟨l, hl, _⟩ := Store.write_eq_ok.mp hwrite
    have houtput : output? passes directory ready f = some (l, lowered) :=
      output?_eq_some.mpr ⟨lowerFile_eq_ok.mpr ⟨source, hread, hlower⟩, hl⟩
    exact read_destination hover hf houtput fun text' hmem =>
      hunique l lowered text' (mem_outputs.mpr ⟨f, hf, houtput⟩) hmem
  · intro f hf hfails e
    rw [fails_eq, Option.isNone_iff_eq_none] at hfails
    exact find_destination_of_output?_eq_none hover hapart hf hfails e
  · intro l hl
    exact get?_eq_of_ne_destination hover hl

/-- One file of three lowers; one is missing, and one is refused and keeps what was at its
destination. -/
theorem isolated_of_runLowerMany_refused :
    let store : Store :=
      ⟨[(["a.asm"], .file "    noti t0\n".toUTF8), (["c.asm"], .file "    noti t0, t1\n".toUTF8),
        (["c.asm.lowered"], .file "x:\n".toUTF8)], []⟩
    let files : List Path := [⟨"a.asm"⟩, ⟨"b.asm"⟩, ⟨"c.asm"⟩]
    let effect := runLowerMany Pass.all none store files
    effect.failure = some (.filesFailed 2 3) ∧
      effect.store.read ⟨"a.asm.lowered"⟩ = .ok "    xori -1, t0\n".toUTF8 ∧
      effect.store.find ⟨"c.asm.lowered"⟩ = .ok (.file "x:\n".toUTF8) ∧
      ∀ order, order.Perm files →
        (runLowerMany Pass.all none store order).store.Same effect.store := by
  intro store files effect
  obtain ⟨horder, _, hread, hfind, _, hfailure⟩ :=
    @isolated_of_runLowerMany none store store files Pass.all rfl (by decide +kernel)
      (by decide +kernel)
  refine ⟨?_, ?_, ?_, fun order hperm => (horder order hperm).1⟩
  · rw [hfailure]
    decide +kernel
  · have hwrite : store.writeText ⟨"a.asm.lowered"⟩ "    xori -1, t0\n" = .ok _ :=
      Store.write_eq_ok.mpr ⟨["a.asm.lowered"], by decide +kernel, rfl⟩
    exact hread ⟨"a.asm"⟩ (by decide) "    noti t0\n" _ _ (by decide +kernel) (by decide +kernel)
      hwrite
  · exact (hfind ⟨"c.asm"⟩ (by decide) (by decide +kernel) _).mpr (by decide +kernel)

/-! ## Commands that succeed -/

/-- When no file fails, each of them gives something. -/
theorem output?_ne_none_of_success (hready : makeTarget directory store = .ok ready)
    (hinputs : InputsApart directory ready files)
    (hsuccess : (runLowerMany passes directory store files).failure = none)
    (hfile : file ∈ files) : output? passes directory ready file ≠ none := by
  intro hnone
  have hfails : fails passes directory ready file = true := by
    rw [fails_eq, hnone]
    rfl
  have hpos : 0 < files.countP (fails passes directory ready) :=
    List.countP_pos_iff.mpr ⟨file, hfile, hfails⟩
  rw [(overwritten_runLowerMany hready passes hinputs).2, if_neg (Nat.ne_of_gt hpos)] at hsuccess
  contradiction

/-- **When nothing is lost.**  Let every input be a file that can be read, let the command succeed and
let no destination be an input.  Then every destination holds the lowered text of its file, as the file
was before the command, exactly when files with one destination have one lowered text. -/
theorem delivered_iff_of_runLowerMany
    (hregular : ∀ f ∈ files, ∃ content, store.read f = .ok content)
    (hsuccess : (runLowerMany passes directory store files).failure = none)
    (hinputs : InputsApart directory (runLowerMany passes directory store files).store files) :
    (∀ f ∈ files, ∃ text, lowerFile passes store f = .ok text ∧
      (runLowerMany passes directory store files).store.read (destination directory f) =
        .ok text.toUTF8) ↔
    ∀ f ∈ files, ∀ g ∈ files,
      (runLowerMany passes directory store files).store.SameFile (destination directory f)
        (destination directory g) →
      lowerFile passes store f = lowerFile passes store g := by
  obtain ⟨ready, hready⟩ : ∃ ready, makeTarget directory store = .ok ready := by
    cases hready : makeTarget directory store with
    | error failure => simp [runLowerMany, hready] at hsuccess
    | ok ready => exact ⟨ready, rfl⟩
  -- Which paths are one file is the same before and after, so it can be asked of either store.
  have htree : (runLowerMany passes directory store files).store.SameTree ready := by
    rw [(runLowerMany_of_makeTarget hready passes files).1]
    exact sameTree_lowerAll passes directory ready files
  simp only [InputsApart, htree.sameFile_iff] at hinputs ⊢
  obtain ⟨hover, _⟩ := overwritten_runLowerMany hready passes hinputs
  have hlower : ∀ f ∈ files, lowerFile passes store f = lowerFile passes ready f := by
    intro f hf
    obtain ⟨content, hread⟩ := hregular f hf
    have hread' := (within_of_makeTarget hready).read_eq_ok hread
    rw [lowerFile, lowerFile, Store.readText_congr (hread.trans hread'.symm)]
  constructor
  · intro hall f hf g hg hsame
    obtain ⟨text, htext, hread⟩ := hall f hf
    obtain ⟨text', htext', hread'⟩ := hall g hg
    rw [(htree.sameFile_iff.mpr hsame).read_eq_ok, hread'] at hread
    obtain rfl : text' = text := String.toByteArray_inj.mp (Except.ok.inj hread)
    rw [htext, htext']
  · intro hagree f hf
    obtain ⟨⟨l, text⟩, houtput⟩ := Option.ne_none_iff_exists'.mp
      (output?_ne_none_of_success hready hinputs hsuccess hf)
    refine ⟨text, (hlower f hf).trans (output?_eq_some.mp houtput).1, ?_⟩
    refine read_destination hover hf houtput fun text' hmem => ?_
    obtain ⟨g, hg, houtput'⟩ := mem_outputs.mp hmem
    have hsame := Store.sameFile_iff.mpr
      ⟨l, location?_of_output? houtput', location?_of_output? houtput⟩
    have heq := hagree g hg f hf hsame
    rw [hlower g hg, hlower f hf, (output?_eq_some.mp houtput').1,
      (output?_eq_some.mp houtput).1] at heq
    exact Except.ok.inj heq

/-- Files of one name from two directories go to one destination: when their lowered texts agree
nothing is lost, and when they differ one of them is. -/
theorem delivered_iff_of_runLowerMany_collision :
    let files : List Path := [⟨"x/a"⟩, ⟨"y/a"⟩]
    let storeOf (content : String) : Store :=
      ⟨[(["x"], .directory), (["y"], .directory), (["x", "a"], .file "x:\n".toUTF8),
        (["y", "a"], .file content.toUTF8)], []⟩
    let effect (content : String) := runLowerMany Pass.all (some ⟨"o"⟩) (storeOf content) files
    let delivered (content : String) : Prop :=
      ∀ f ∈ files, ∃ text, lowerFile Pass.all (storeOf content) f = .ok text ∧
        (effect content).store.read (destination (some ⟨"o"⟩) f) = .ok text.toUTF8
    ((effect "x:").failure = none ∧ delivered "x:") ∧
      (effect "").failure = none ∧ ¬delivered "" := by
  intro files storeOf effect delivered
  refine ⟨⟨by decide +kernel, ?_⟩, by decide +kernel, ?_⟩
  · have hregular : ∀ f ∈ files, ∃ content, (storeOf "x:").read f = .ok content :=
      List.forall_mem_cons.mpr ⟨⟨"x:\n".toUTF8, by decide +kernel⟩,
        List.forall_mem_singleton.mpr ⟨"x:".toUTF8, by decide +kernel⟩⟩
    exact (delivered_iff_of_runLowerMany hregular (by decide +kernel) (by decide +kernel)).mpr
      (by decide +kernel)
  · have hregular : ∀ f ∈ files, ∃ content, (storeOf "").read f = .ok content :=
      List.forall_mem_cons.mpr ⟨⟨"x:\n".toUTF8, by decide +kernel⟩,
        List.forall_mem_singleton.mpr ⟨"".toUTF8, by decide +kernel⟩⟩
    intro hdelivered
    exact absurd ((delivered_iff_of_runLowerMany hregular (by decide +kernel)
      (by decide +kernel)).mp hdelivered) (by decide +kernel)

/-- An input that is the destination of another is read as the text written to it, and the lowered
text of what it held before is lost. -/
theorem lost_of_destination_input :
    let store : Store :=
      ⟨[(["a.asm"], .file "".toUTF8), (["a.asm.lowered"], .file "x:\n".toUTF8)], []⟩
    let files : List Path := [⟨"a.asm"⟩, ⟨"a.asm.lowered"⟩]
    let effect := runLowerMany Pass.all none store files
    effect.failure = none ∧ lowerFile Pass.all store ⟨"a.asm.lowered"⟩ = .ok "x:\n" ∧
      destination none ⟨"a.asm.lowered"⟩ = ⟨"a.asm.lowered.lowered"⟩ ∧
      effect.store.read ⟨"a.asm.lowered.lowered"⟩ = .ok "".toUTF8 := by
  decide +kernel

end MacroAsm
