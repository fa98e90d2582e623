import MacroAsm.Command.Run
import MacroAsm.Proofs.Files.Locations
import Mathlib.Data.List.Basic
import Mathlib.Logic.Relation

/-!
# Several files at a time

When several files are lowered, each is read, lowered and written in steps of its own, and the steps
of one file may come between those of another.  A job is a file with how far its handling is.

As long as no lowered text goes to a file that is an input, every job finds its input as it was, so
what it writes and whether it fails are decided before the first step.  What is left open is which
text a location holds that several jobs write to.

## Main definitions

* `output?`, `outputs` — the text that a file gives and the location it goes to.
* `InputsApart` — no lowered text goes to an input.
* `Store.Overwritten` — a store after texts were written over another.
* `Job.Step` — one step of one of several jobs.
* `Job.Progress` — what holds at any time, whatever steps were taken.

## Main statements

* `Job.Progress.step`, `Job.progress_of_reaches` — every step keeps it, and so does every run.
* `exists_reaches_lowerAll` — handling one file after the other is such a run.
* `overwritten_lowerAll` — what it leaves and how often it fails.
-/

namespace MacroAsm

open Files (Store Location)
open Relation (ReflTransGen)

/-! ## Stores and texts written over them -/

namespace Files.Store

/-- A store after texts were written over another in some order: a location that texts were written
to holds one of them, and any other what it held before. -/
structure Overwritten (ready : Store) (outputs : List (Location × String)) (s : Store) : Prop where
  tree : SameTree s ready
  entry : ∀ l, (∃ text, (l, text) ∈ outputs ∧ s.get? l = some (.file text.toUTF8)) ∨
    (∀ text, (l, text) ∉ outputs) ∧ s.get? l = ready.get? l

namespace Overwritten

variable {ready s s' : Store} {outputs outputs' : List (Location × String)} {l : Location}
  {text : String}

theorem refl (ready : Store) : Overwritten ready [] ready :=
  ⟨.refl ready, fun _ => .inr ⟨fun _ => List.not_mem_nil, rfl⟩⟩

theorem congr (h : Overwritten ready outputs s) (hmem : ∀ o, o ∈ outputs ↔ o ∈ outputs') :
    Overwritten ready outputs' s := by
  refine ⟨h.tree, fun l => ?_⟩
  simpa only [hmem] using h.entry l

theorem put (h : Overwritten ready outputs s) (hl : s.get? l ≠ some .directory) (text : String) :
    Overwritten ready ((l, text) :: outputs) (s.put l (.file text.toUTF8)) := by
  refine ⟨(sameTree_put hl _).trans h.tree, fun m => ?_⟩
  by_cases heq : m = l
  · subst heq
    exact .inl ⟨text, List.mem_cons_self, get?_put_self s _ (ne_nil_of_get?_ne hl)⟩
  · rw [get?_put_of_ne s _ heq]
    rcases h.entry m with ⟨text', hmem, hget⟩ | ⟨hnone, hget⟩
    · exact .inl ⟨text', List.mem_cons_of_mem _ hmem, hget⟩
    · refine .inr ⟨fun text' hmem => ?_, hget⟩
      rcases List.mem_cons.mp hmem with hhead | htail
      · exact heq (congrArg Prod.fst hhead)
      · exact hnone text' htail

theorem get?_eq_of_notMem (h : Overwritten ready outputs s) (hl : ∀ text, (l, text) ∉ outputs) :
    s.get? l = ready.get? l := by
  rcases h.entry l with ⟨text, hmem, _⟩ | ⟨_, hget⟩
  · exact absurd hmem (hl text)
  · exact hget

/-- A location holds its text when it has no other. -/
theorem get?_eq_of_mem (h : Overwritten ready outputs s) (hmem : (l, text) ∈ outputs)
    (hunique : ∀ text', (l, text') ∈ outputs → text' = text) :
    s.get? l = some (.file text.toUTF8) := by
  rcases h.entry l with ⟨text', hmem', hget⟩ | ⟨hnone, _⟩
  · rw [hget, hunique text' hmem']
  · exact absurd hmem (hnone text)

/-- When no location has two texts, the order in which they were written makes no difference. -/
theorem same (h : Overwritten ready outputs s) (h' : Overwritten ready outputs s')
    (hunique : ∀ l text text', (l, text) ∈ outputs → (l, text') ∈ outputs → text' = text) :
    Same s s' := by
  refine ⟨h.tree.workingDirectory.trans h'.tree.workingDirectory.symm, fun l => ?_⟩
  by_cases hmem : ∃ text, (l, text) ∈ outputs
  · obtain ⟨text, hmem⟩ := hmem
    have hone := fun text' => hunique l text text' hmem
    rw [h.get?_eq_of_mem hmem hone, h'.get?_eq_of_mem hmem hone]
  · have hnone := not_exists.mp hmem
    rw [h.get?_eq_of_notMem hnone, h'.get?_eq_of_notMem hnone]

end Overwritten

end Files.Store

/-! ## What a file gives -/

section

variable {passes : Pipeline} {directory : Option Path} {s t : Store} {file : Path} {l : Location}
  {text : String}

/-- The location that the lowered text of a file goes to, and the text, if both are there. -/
def output? (passes : Pipeline) (directory : Option Path) (s : Store) (file : Path) :
    Option (Location × String) :=
  match lowerFile passes s file, s.fileLocation? (destination directory file) with
  | .ok text, some l => some (l, text)
  | _, _ => none

theorem output?_eq_some :
    output? passes directory s file = some (l, text) ↔
      lowerFile passes s file = .ok text ∧ s.fileLocation? (destination directory file) = some l := by
  unfold output?
  cases lowerFile passes s file with
  | error e => simp
  | ok text' =>
      cases s.fileLocation? (destination directory file) with
      | none => simp
      | some l' => simp [and_comm]

theorem lowerFile_eq_ok :
    lowerFile passes s file = .ok text ↔
      ∃ source, s.readText file = .ok source ∧ lowerText passes file.text source = .ok text := by
  unfold lowerFile
  cases s.readText file with
  | error fault => simp
  | ok source =>
      cases hlower : lowerText passes file.text source with
      | error e => simp [hlower]
      | ok lowered => simp [hlower]

theorem location?_of_output? (h : output? passes directory s file = some (l, text)) :
    s.location? (destination directory file) = some l :=
  (Store.location?_of_fileLocation? (output?_eq_some.mp h).2).1

/-- A file is lowered to its destination exactly when it gives something. -/
theorem lowerTo_eq_ok :
    lowerTo passes directory s file = .ok t ↔
      ∃ l text, output? passes directory s file = some (l, text) ∧
        t = s.put l (.file text.toUTF8) := by
  simp only [output?_eq_some, lowerTo]
  cases lowerFile passes s file with
  | error e => simp
  | ok text =>
      constructor
      · intro h
        simp only at h
        split at h
        · contradiction
        · rename_i u hwrite
          obtain ⟨l, hl, rfl⟩ := Store.write_eq_ok.mp hwrite
          exact ⟨l, text, ⟨rfl, hl⟩, (Except.ok.inj h).symm⟩
      · rintro ⟨l, text', ⟨⟨⟩, hl⟩, rfl⟩
        have hwrite : s.writeText (destination directory file) text = .ok _ :=
          Store.write_eq_ok.mpr ⟨l, hl, rfl⟩
        simp only [hwrite]

/-- Whether a file cannot be lowered to its destination. -/
def fails (passes : Pipeline) (directory : Option Path) (s : Store) (file : Path) : Bool :=
  (failureOf (lowerTo passes directory s file)).isSome

theorem fails_eq :
    fails passes directory s file = (output? passes directory s file).isNone := by
  unfold fails
  cases hlower : lowerTo passes directory s file with
  | error e =>
      cases houtput : output? passes directory s file with
      | none => rfl
      | some output =>
          rw [lowerTo_eq_ok.mpr ⟨output.1, output.2, houtput, rfl⟩] at hlower
          contradiction
  | ok t =>
      obtain ⟨l, text, houtput, _⟩ := lowerTo_eq_ok.mp hlower
      rw [houtput]
      rfl

/-- What files give, in their order. -/
def outputs (passes : Pipeline) (directory : Option Path) (s : Store) (files : List Path) :
    List (Location × String) :=
  files.filterMap (output? passes directory s)

theorem mem_outputs {files : List Path} {o : Location × String} :
    o ∈ outputs passes directory s files ↔ ∃ f ∈ files, output? passes directory s f = some o :=
  List.mem_filterMap

/-- No destination is an input. -/
def InputsApart (directory : Option Path) (s : Store) (files : List Path) : Prop :=
  ∀ f ∈ files, ∀ g ∈ files, ¬s.SameFile (destination directory f) g

instance (directory : Option Path) (s : Store) (files : List Path) :
    Decidable (InputsApart directory s files) :=
  inferInstanceAs (Decidable (∀ f ∈ files, ∀ g ∈ files, ¬s.SameFile (destination directory f) g))

end

/-! ## Jobs and their steps -/

/-- How far the handling of a file is. -/
inductive Stage where
  | waiting
  | loaded (source : String)
  | lowered (text : String)
  | written
  | failed
deriving DecidableEq

/-- A file that is being handled. -/
structure Job where
  file : Path
  stage : Stage

namespace Job

/-- The job of a file that nothing was done for yet. -/
def start (file : Path) : Job :=
  ⟨file, .waiting⟩

/-- Whether a job came to its end without writing anything. -/
def isFailed (j : Job) : Bool :=
  j.stage == .failed

/-- Whether a job came to its end. -/
def isDone (j : Job) : Bool :=
  j.stage == .written || j.isFailed

/-- One step of handling a file: it is read, its text is lowered, or the result is written, and each
of them may fail. -/
inductive Handles (passes : Pipeline) (directory : Option Path) (file : Path) :
    Store → Stage → Store → Stage → Prop
  | load {s source} (h : s.readText file = .ok source) :
      Handles passes directory file s .waiting s (.loaded source)
  | unreadable {s fault} (h : s.readText file = .error fault) :
      Handles passes directory file s .waiting s .failed
  | lower {s source text} (h : lowerText passes file.text source = .ok text) :
      Handles passes directory file s (.loaded source) s (.lowered text)
  | refuse {s source e} (h : lowerText passes file.text source = .error e) :
      Handles passes directory file s (.loaded source) s .failed
  | write {s t text} (h : s.writeText (destination directory file) text = .ok t) :
      Handles passes directory file s (.lowered text) t .written
  | unwritable {s text fault} (h : s.writeText (destination directory file) text = .error fault) :
      Handles passes directory file s (.lowered text) s .failed

/-- One step of one of several jobs. -/
inductive Step (passes : Pipeline) (directory : Option Path) :
    Store × List Job → Store × List Job → Prop
  | mk {s t : Store} {before after : List Job} {file : Path} {stage stage' : Stage}
      (h : Handles passes directory file s stage t stage') :
      Step passes directory (s, before ++ ⟨file, stage⟩ :: after)
        (t, before ++ ⟨file, stage'⟩ :: after)

variable {passes : Pipeline} {directory : Option Path} {ready s t : Store} {file : Path}
  {text : String} {files : List Path} {stage stage' : Stage} {jobs jobs' : List Job}

/-! ## What holds at any time -/

/-- What a stage says about its file in the store at the start. -/
def Sound (passes : Pipeline) (directory : Option Path) (ready : Store) (file : Path) :
    Stage → Prop
  | .waiting => True
  | .loaded source => ready.readText file = .ok source
  | .lowered text => lowerFile passes ready file = .ok text
  | .written => output? passes directory ready file ≠ none
  | .failed => output? passes directory ready file = none

/-- What a job has written. -/
def written? (passes : Pipeline) (directory : Option Path) (ready : Store) (j : Job) :
    Option (Location × String) :=
  if j.stage = .written then output? passes directory ready j.file else none

/-- What holds at any time of handling files from a store: every stage is what the store at the start
says, and the store now is that one with the texts of the finished jobs written over it. -/
structure Progress (passes : Pipeline) (directory : Option Path) (ready : Store)
    (files : List Path) (s : Store) (jobs : List Job) : Prop where
  files_eq : jobs.map Job.file = files
  sound : ∀ j ∈ jobs, Sound passes directory ready j.file j.stage
  overwritten : ready.Overwritten (jobs.filterMap (written? passes directory ready)) s

/-- A step either writes the output of its file, or leaves the store and writes nothing. -/
theorem Handles.cases (h : Handles passes directory file s stage t stage')
    (htree : s.SameTree ready)
    (hread : ∀ source, s.readText file = .ok source ↔ ready.readText file = .ok source)
    (hsound : Sound passes directory ready file stage) :
    stage ≠ .written ∧ Sound passes directory ready file stage' ∧
      (stage' ≠ .written ∧ t = s ∨
        stage' = .written ∧ ∃ l text, output? passes directory ready file = some (l, text) ∧
          s.get? l ≠ some .directory ∧ t = s.put l (.file text.toUTF8)) := by
  have hnone (hfail : ∀ l text, output? passes directory ready file ≠ some (l, text)) :
      output? passes directory ready file = none :=
    Option.eq_none_iff_forall_ne_some.mpr fun o => hfail o.1 o.2
  have hlocation := htree.fileLocation?_eq (destination directory file)
  cases h with
  | load h => exact ⟨by simp, (hread _).mp h, .inl ⟨by simp, rfl⟩⟩
  | unreadable h =>
      refine ⟨by simp, hnone fun l text houtput => ?_, .inl ⟨by simp, rfl⟩⟩
      obtain ⟨source, hsource, _⟩ := lowerFile_eq_ok.mp (output?_eq_some.mp houtput).1
      rw [(hread source).mpr hsource] at h
      contradiction
  | lower h => exact ⟨by simp, lowerFile_eq_ok.mpr ⟨_, hsound, h⟩, .inl ⟨by simp, rfl⟩⟩
  | refuse h =>
      refine ⟨by simp, hnone fun l text houtput => ?_, .inl ⟨by simp, rfl⟩⟩
      obtain ⟨source, hsource, hlower⟩ := lowerFile_eq_ok.mp (output?_eq_some.mp houtput).1
      obtain rfl := Except.ok.inj (hsource.symm.trans hsound)
      rw [hlower] at h
      contradiction
  | write h =>
      obtain ⟨l, hl, rfl⟩ := Store.write_eq_ok.mp h
      have houtput := output?_eq_some.mpr ⟨hsound, hlocation.symm.trans hl⟩
      refine ⟨by simp, ?_, .inr ⟨rfl, l, _, houtput, ?_, rfl⟩⟩
      · rw [Sound, houtput]
        simp
      · exact (Store.location?_of_fileLocation? hl).2
  | unwritable h =>
      refine ⟨by simp, hnone fun l text houtput => ?_, .inl ⟨by simp, rfl⟩⟩
      have hl := hlocation.trans (output?_eq_some.mp houtput).2
      rw [Store.writeText, Store.write_eq_ok.mpr ⟨l, hl, rfl⟩] at h
      contradiction

/-- An input is as it was at the start. -/
theorem Progress.readText_eq_ok (h : Progress passes directory ready files s jobs)
    (hinputs : InputsApart directory ready files) (hfile : file ∈ files) (source : String) :
    s.readText file = .ok source ↔ ready.readText file = .ok source := by
  refine h.overwritten.tree.readText_eq_ok fun l hl => ?_
  refine h.overwritten.get?_eq_of_notMem fun text hmem => ?_
  obtain ⟨k, hk, hwritten⟩ := List.mem_filterMap.mp hmem
  have hkfile : k.file ∈ files := h.files_eq ▸ List.mem_map_of_mem hk
  have houtput := (Option.ite_none_right_eq_some.mp hwritten).2
  exact hinputs k.file hkfile file hfile
    (Store.sameFile_iff.mpr ⟨l, location?_of_output? houtput, hl⟩)

theorem Progress.start (passes : Pipeline) (directory : Option Path) (ready : Store)
    (files : List Path) : Progress passes directory ready files ready (files.map start) where
  files_eq := by simp [Job.start, Function.comp_def]
  sound := by simp [Job.start, Sound]
  overwritten := by
    have hnone : (files.map Job.start).filterMap (written? passes directory ready) = [] := by
      simp [Job.start, written?]
    rw [hnone]
    exact .refl ready

theorem Progress.step (hinputs : InputsApart directory ready files)
    (h : Progress passes directory ready files s jobs)
    (hstep : Step passes directory (s, jobs) (t, jobs')) :
    Progress passes directory ready files t jobs' := by
  obtain @⟨_, _, before, after, file, stage, stage', hhandles⟩ := hstep
  have hfile : file ∈ files := by
    rw [← h.files_eq]
    simp
  obtain ⟨hstage, hsound, hstore⟩ :=
    hhandles.cases h.overwritten.tree (h.readText_eq_ok hinputs hfile)
      (h.sound ⟨file, stage⟩ (by simp))
  refine ⟨?_, ?_, ?_⟩
  · rw [← h.files_eq]
    simp
  · intro j hj
    rcases List.mem_append.mp hj with hj | hj
    · exact h.sound j (List.mem_append_left _ hj)
    rcases List.mem_cons.mp hj with rfl | hj
    · exact hsound
    · exact h.sound j (List.mem_append_right _ (List.mem_cons_of_mem _ hj))
  · have hover := h.overwritten
    have hold : written? passes directory ready ⟨file, stage⟩ = none := if_neg hstage
    rw [List.filterMap_append, List.filterMap_cons_none hold] at hover
    rcases hstore with ⟨hstage', rfl⟩ | ⟨rfl, l, text, houtput, hl, rfl⟩
    · have hnew : written? passes directory ready ⟨file, stage'⟩ = none := if_neg hstage'
      rw [List.filterMap_append, List.filterMap_cons_none hnew]
      exact hover
    · have hnew : written? passes directory ready ⟨file, .written⟩ = some (l, text) :=
        (if_pos rfl).trans houtput
      -- The text was written last, and its job stands anywhere in the list.
      refine (hover.put hl text).congr fun o => ?_
      rw [List.filterMap_append, List.filterMap_cons_some hnew]
      simp only [List.mem_cons, List.mem_append, or_left_comm]

/-- Whatever steps were taken, every stage and the store are those that the start decides. -/
theorem progress_of_reaches (hinputs : InputsApart directory ready files)
    (h : ReflTransGen (Step passes directory) (ready, files.map Job.start) (s, jobs)) :
    Progress passes directory ready files s jobs := by
  suffices hall : ∀ c, ReflTransGen (Step passes directory) (ready, files.map Job.start) c →
      Progress passes directory ready files c.1 c.2 from hall (s, jobs) h
  intro c hc
  induction hc with
  | refl => exact .start passes directory ready files
  | tail _ hstep ih => exact ih.step hinputs hstep

theorem Progress.filterMap_written? (h : Progress passes directory ready files s jobs)
    (hdone : ∀ j ∈ jobs, j.isDone = true) :
    jobs.filterMap (written? passes directory ready) =
      outputs passes directory ready files := by
  rw [← h.files_eq, outputs, List.filterMap_map]
  refine List.filterMap_congr fun j hj => ?_
  have hsound := h.sound j hj
  have hj := hdone j hj
  simp only [isDone, isFailed, Bool.or_eq_true, beq_iff_eq] at hj
  rcases hj with hj | hj
  · simp [written?, hj]
  · rw [hj] at hsound
    simp only [written?, hj, Function.comp_apply]
    exact hsound.symm

theorem Progress.countP_isFailed (h : Progress passes directory ready files s jobs)
    (hdone : ∀ j ∈ jobs, j.isDone = true) :
    jobs.countP isFailed = files.countP (fails passes directory ready) := by
  rw [← h.files_eq, List.countP_map]
  refine List.countP_congr fun j hj => ?_
  have hsound := h.sound j hj
  have hj := hdone j hj
  simp only [isDone, isFailed, Bool.or_eq_true, beq_iff_eq] at hj
  simp only [Function.comp_apply, fails_eq, Option.isNone_iff_eq_none, isFailed,
    beq_iff_eq]
  rcases hj with hj | hj
  · rw [hj] at hsound ⊢
    simpa [Sound] using hsound
  · rw [hj] at hsound ⊢
    simpa [Sound] using hsound

/-- However the steps of the files come between each other, the same texts end up written and the
same number of files fails. -/
theorem overwritten_of_reaches (hinputs : InputsApart directory ready files)
    (h : ReflTransGen (Step passes directory) (ready, files.map Job.start) (s, jobs))
    (hdone : ∀ j ∈ jobs, j.isDone = true) :
    ready.Overwritten (outputs passes directory ready files) s ∧
      jobs.countP isFailed = files.countP (fails passes directory ready) := by
  have hprogress := progress_of_reaches hinputs h
  refine ⟨?_, hprogress.countP_isFailed hdone⟩
  rw [← hprogress.filterMap_written? hdone]
  exact hprogress.overwritten

/-! ## One file after the other -/

theorem Handles.step (h : Handles passes directory file s stage t stage') (rest : List Job) :
    Step passes directory (s, ⟨file, stage⟩ :: rest) (t, ⟨file, stage'⟩ :: rest) :=
  @Step.mk _ _ _ _ [] rest _ _ _ h

theorem Step.cons (j : Job) (h : Step passes directory (s, jobs) (t, jobs')) :
    Step passes directory (s, j :: jobs) (t, j :: jobs') := by
  obtain @⟨_, _, before, after, file, stage, stage', h⟩ := h
  exact @Step.mk _ _ _ _ (j :: before) after _ _ _ h

theorem reaches_lowered (h : lowerFile passes s file = .ok text) (rest : List Job) :
    ReflTransGen (Step passes directory) (s, start file :: rest)
      (s, ⟨file, .lowered text⟩ :: rest) := by
  obtain ⟨source, hread, hlower⟩ := lowerFile_eq_ok.mp h
  exact .head ((Handles.load hread).step rest) (.single ((Handles.lower hlower).step rest))

theorem reaches_written (h : lowerTo passes directory s file = .ok t) (rest : List Job) :
    ReflTransGen (Step passes directory) (s, start file :: rest) (t, ⟨file, .written⟩ :: rest) := by
  obtain ⟨l, text, houtput, rfl⟩ := lowerTo_eq_ok.mp h
  obtain ⟨hfile, hl⟩ := output?_eq_some.mp houtput
  have hwrite : s.writeText (destination directory file) text = .ok _ :=
    Store.write_eq_ok.mpr ⟨l, hl, rfl⟩
  exact (reaches_lowered hfile rest).tail ((Handles.write hwrite).step rest)

theorem reaches_failed {e : Failure} (h : lowerTo passes directory s file = .error e)
    (rest : List Job) :
    ReflTransGen (Step passes directory) (s, start file :: rest) (s, ⟨file, .failed⟩ :: rest) := by
  cases hread : s.readText file with
  | error fault => exact .single ((Handles.unreadable hread).step rest)
  | ok source =>
      cases hlower : lowerText passes file.text source with
      | error e =>
          exact .head ((Handles.load hread).step rest) (.single ((Handles.refuse hlower).step rest))
      | ok text =>
          have hfile := lowerFile_eq_ok.mpr ⟨source, hread, hlower⟩
          cases hwrite : s.writeText (destination directory file) text with
          | error fault =>
              exact (reaches_lowered hfile rest).tail ((Handles.unwritable hwrite).step rest)
          | ok t =>
              obtain ⟨l, hl, rfl⟩ := Store.write_eq_ok.mp hwrite
              rw [lowerTo_eq_ok.mpr ⟨l, text, output?_eq_some.mpr ⟨hfile, hl⟩, rfl⟩] at h
              contradiction

end Job

open Job (Step)

variable {passes : Pipeline} {directory : Option Path} {ready : Store} {files : List Path}

/-- Handling one file after the other is one of the ways in which the steps can come. -/
theorem exists_reaches_lowerAll (passes : Pipeline) (directory : Option Path) (s : Store)
    (files : List Path) :
    ∃ jobs : List Job,
      ReflTransGen (Step passes directory) (s, files.map Job.start)
        ((lowerAll passes directory s files).1, jobs) ∧
      (∀ j ∈ jobs, j.isDone = true) ∧
      jobs.countP Job.isFailed = (lowerAll passes directory s files).2.length := by
  induction files generalizing s with
  | nil => exact ⟨[], .refl, by simp, rfl⟩
  | cons file files ih =>
      -- The jobs behind the first run as they would without it.
      have hbehind (j : Job) {c d : Store × List Job}
          (h : ReflTransGen (Step passes directory) c d) :
          ReflTransGen (Step passes directory) (c.1, j :: c.2) (d.1, j :: d.2) :=
        h.lift (fun c => (c.1, j :: c.2)) fun _ _ hstep => hstep.cons j
      rw [lowerAll]
      cases hlower : lowerTo passes directory s file with
      | ok t =>
          obtain ⟨jobs, hreaches, hdone, hcount⟩ := ih t
          refine ⟨⟨file, .written⟩ :: jobs,
            (Job.reaches_written hlower _).trans (hbehind _ hreaches), ?_, ?_⟩
          · exact List.forall_mem_cons.mpr ⟨rfl, hdone⟩
          · rw [List.countP_cons_of_neg (by simp [Job.isFailed]), hcount]
      | error e =>
          obtain ⟨jobs, hreaches, hdone, hcount⟩ := ih s
          refine ⟨⟨file, .failed⟩ :: jobs,
            (Job.reaches_failed hlower _).trans (hbehind _ hreaches), ?_, ?_⟩
          · exact List.forall_mem_cons.mpr ⟨rfl, hdone⟩
          · rw [List.countP_cons_of_pos (by simp [Job.isFailed]), hcount]
            rfl

theorem overwritten_lowerAll (passes : Pipeline) (hinputs : InputsApart directory ready files) :
    ready.Overwritten (outputs passes directory ready files)
        (lowerAll passes directory ready files).1 ∧
      (lowerAll passes directory ready files).2.length =
        files.countP (fails passes directory ready) := by
  obtain ⟨jobs, hreaches, hdone, hcount⟩ := exists_reaches_lowerAll passes directory ready files
  rw [← hcount]
  exact Job.overwritten_of_reaches hinputs hreaches hdone

/-- Lowering files keeps the directories, whatever their destinations are. -/
theorem sameTree_lowerAll (passes : Pipeline) (directory : Option Path) (s : Store)
    (files : List Path) : (lowerAll passes directory s files).1.SameTree s := by
  induction files generalizing s with
  | nil => exact .refl s
  | cons file files ih =>
      rw [lowerAll]
      cases hlower : lowerTo passes directory s file with
      | ok t =>
          obtain ⟨l, text, houtput, rfl⟩ := lowerTo_eq_ok.mp hlower
          have hl := Store.location?_of_fileLocation? (output?_eq_some.mp houtput).2
          exact (ih _).trans (Store.sameTree_put hl.2 _)
      | error e => exact ih s

end MacroAsm
