import MacroAsm.Files.Store
import Mathlib.Tactic.Common

/-!
# Where paths lead

Reading and writing are described by the location that a path leads to.  The location depends on the
directories of a store and not on its files, so writing a file does not change where any path leads.
Making directories only adds to a store, and what could be found before is found after.

## Main definitions

* `Store.location?` — the location that a path leads to.
* `Store.fileLocation?` — the location where a path lets a file be written.
* `Store.SameFile` — paths that lead to one location.
* `Store.SameTree` — stores with the same directories.
* `Store.Same` — stores with the same directories and files.
* `Store.Within` — a store that is part of another.

## Main statements

* `Store.find_eq_ok`, `Store.read_eq_ok`, `Store.write_eq_ok` — the operations through locations.
* `Store.SameTree.location?_eq`, `Store.SameTree.fileLocation?_eq` — files do not change where paths
  lead.
* `Store.readText_of_writeText` — what is written is read back.
* `Store.within_of_createDirectories` — making directories takes nothing away.
-/

namespace MacroAsm.Files.Store

variable {s t u : Store} {p q : Path} {l m : Location} {names : List String}

/-! ## Locations -/

/-- The location that a path leads to, whether there is anything or not.  A slash at the end asks for
a directory. -/
def location? (s : Store) (p : Path) : Option Location :=
  match accept p with
  | .error _ => none
  | .ok () => (s.follow (s.base p) (if p.endsInSlash then p.names ++ ["."] else p.names)).toOption

/-- The location where a path lets a file be written. -/
def fileLocation? (s : Store) (p : Path) : Option Location :=
  match s.newLocation? p with
  | .ok (some l) =>
    if (p.endsInSlash ∨ s.isDirectoryAt l) ∨ l.any isTooLong then none else some l
  | _ => none

/-- Paths that lead to one location. -/
def SameFile (s : Store) (p q : Path) : Prop :=
  s.location? p ≠ none ∧ s.location? p = s.location? q

instance (s : Store) (p q : Path) : Decidable (s.SameFile p q) :=
  inferInstanceAs (Decidable (_ ∧ _))

theorem sameFile_iff : s.SameFile p q ↔ ∃ l, s.location? p = some l ∧ s.location? q = some l := by
  rw [SameFile, Option.ne_none_iff_exists']
  constructor
  · rintro ⟨⟨l, hp⟩, heq⟩
    exact ⟨l, hp, heq ▸ hp⟩
  · rintro ⟨l, hp, hq⟩
    exact ⟨⟨l, hp⟩, hp.trans hq.symm⟩

theorem SameFile.symm (h : s.SameFile p q) : s.SameFile q p :=
  ⟨h.2 ▸ h.1, h.2.symm⟩

theorem bind_eq_ok {α β : Type} {x : Except Fault α} {f : α → Except Fault β} {b : β} :
    x >>= f = .ok b ↔ ∃ a, x = .ok a ∧ f a = .ok b := by
  cases x with
  | error fault => simp [bind, Except.bind]
  | ok a => simp [bind, Except.bind]

theorem toOption_eq_some {α : Type} {x : Except Fault α} {a : α} :
    x.toOption = some a ↔ x = .ok a := by
  cases x with
  | error fault => simp [Except.toOption]
  | ok b => simp [Except.toOption]

theorem location?_eq_some :
    s.location? p = some l ↔ accept p = .ok () ∧
      s.follow (s.base p) (if p.endsInSlash then p.names ++ ["."] else p.names) = .ok l := by
  unfold location?
  cases accept p with
  | error fault => simp
  | ok _ => simp [toOption_eq_some]

theorem fileLocation?_eq_some :
    s.fileLocation? p = some l ↔ s.newLocation? p = .ok (some l) ∧
      ¬((p.endsInSlash ∨ s.isDirectoryAt l) ∨ l.any isTooLong) := by
  unfold fileLocation?
  split
  · rename_i l' hnew
    rw [hnew, ite_eq_iff]
    constructor
    · rintro (⟨_, hl⟩ | ⟨hfree, hl⟩)
      · contradiction
      · obtain rfl := Option.some.inj hl
        exact ⟨rfl, hfree⟩
    · rintro ⟨hl, hfree⟩
      obtain rfl := Option.some.inj (Except.ok.inj hl)
      exact .inr ⟨hfree, rfl⟩
  · rename_i hne
    refine iff_of_false (by simp) ?_
    rintro ⟨hnew, _⟩
    exact hne l hnew

theorem follow_append (s : Store) (l : Location) (as bs : List String) :
    s.follow l (as ++ bs) = s.follow l as >>= fun m => s.follow m bs := by
  induction as generalizing l with
  | nil => rfl
  | cons name as ih =>
      rw [List.cons_append, follow, follow]
      split
      · rfl
      · rfl
      · split
        · exact ih l
        split
        · exact ih l.dropLast
        split
        · rfl
        · exact ih (l ++ [name])

/-! ## The operations through locations -/

theorem find_eq_ok {e : Entry} :
    s.find p = .ok e ↔ ∃ l, s.location? p = some l ∧ s.get? l = some e := by
  simp only [find, bind_eq_ok, location?_eq_some]
  constructor
  · rintro ⟨⟨⟩, haccept, l, hfollow, hget⟩
    refine ⟨l, ⟨haccept, hfollow⟩, ?_⟩
    split at hget
    · contradiction
    · rename_i e' he'
      obtain rfl := Except.ok.inj hget
      exact he'
  · rintro ⟨l, ⟨haccept, hfollow⟩, hget⟩
    refine ⟨(), haccept, l, hfollow, ?_⟩
    rw [hget]
    rfl

theorem read_eq_ok {content : ByteArray} :
    s.read p = .ok content ↔ ∃ l, s.location? p = some l ∧ s.get? l = some (.file content) := by
  rw [← find_eq_ok, read, bind_eq_ok]
  constructor
  · rintro ⟨e, hfind, he⟩
    cases e with
    | directory => contradiction
    | file content' =>
        obtain rfl := Except.ok.inj he
        exact hfind
  · intro hfind
    exact ⟨_, hfind, rfl⟩

theorem SameFile.read_eq_ok (h : s.SameFile p q) {content : ByteArray} :
    s.read p = .ok content ↔ s.read q = .ok content := by
  rw [Store.read_eq_ok, Store.read_eq_ok, h.2]

theorem readText_eq_ok {text : String} :
    s.readText p = .ok text ↔
      ∃ content, s.read p = .ok content ∧ String.fromUTF8? content = some text := by
  simp only [readText, bind_eq_ok]
  refine exists_congr fun content => and_congr_right fun _ => ?_
  cases String.fromUTF8? content with
  | none => simp [throw, throwThe, MonadExceptOf.throw]
  | some text' => simp [pure, Except.pure]

theorem write_eq_ok {content : ByteArray} :
    s.write p content = .ok t ↔ ∃ l, s.fileLocation? p = some l ∧ t = s.put l (.file content) := by
  simp only [write, bind_eq_ok, fileLocation?_eq_some]
  constructor
  · rintro ⟨_ | l, hnew, hwrite⟩
    · contradiction
    · simp only at hwrite
      split at hwrite
      · contradiction
      split at hwrite
      · contradiction
      rename_i hdirectory hlong
      exact ⟨l, ⟨hnew, not_or.mpr ⟨hdirectory, hlong⟩⟩, (Except.ok.inj hwrite).symm⟩
  · rintro ⟨l, ⟨hnew, hfree⟩, rfl⟩
    obtain ⟨hdirectory, hlong⟩ := not_or.mp hfree
    refine ⟨some l, hnew, ?_⟩
    simp only
    rw [if_neg hdirectory, if_neg hlong]
    rfl

/-- The text of a file depends on its bytes alone. -/
theorem readText_congr (h : s.read p = t.read p) : s.readText p = t.readText p := by
  rw [readText, readText, h]

theorem newLocation?_eq_some :
    s.newLocation? p = .ok (some l) ↔
      ∃ name parent, accept p = .ok () ∧ p.names.getLast? = some name ∧
        s.follow (s.base p) p.names.dropLast = .ok parent ∧ s.get? parent = some .directory ∧
        ¬(name = "." ∨ name = "..") ∧ l = parent ++ [name] := by
  simp only [newLocation?, bind_eq_ok]
  constructor
  · rintro ⟨⟨⟩, haccept, hnew⟩
    cases hname : p.names.getLast? with
    | none =>
        rw [hname] at hnew
        exact absurd (Except.ok.inj hnew) (by simp)
    | some name =>
        simp only [hname, bind_eq_ok] at hnew
        obtain ⟨parent, hfollow, hnew⟩ := hnew
        split at hnew
        · contradiction
        · contradiction
        · rename_i hdirectory
          split at hnew
          · exact absurd (Except.ok.inj hnew) (by simp)
          · rename_i hdots
            obtain rfl := Option.some.inj (Except.ok.inj hnew)
            exact ⟨name, parent, haccept, rfl, hfollow, hdirectory, hdots, rfl⟩
  · rintro ⟨name, parent, haccept, hname, hfollow, hdirectory, hdots, rfl⟩
    refine ⟨(), haccept, ?_⟩
    simp only [hname, bind_eq_ok]
    refine ⟨parent, hfollow, ?_⟩
    simp only [hdirectory]
    rw [if_neg hdots]
    rfl

theorem follow_cons_of_directory (h : s.get? l = some .directory) (name : String)
    (names : List String) :
    s.follow l (name :: names) =
      if name = "." then s.follow l names
      else if name = ".." then s.follow l.dropLast names
      else if isTooLong name then .error .nameTooLong
      else s.follow (l ++ [name]) names := by
  rw [follow, h]

theorem follow_cons_ne_ok (h : s.get? l ≠ some .directory) (name : String) (names : List String) :
    s.follow l (name :: names) ≠ .ok m := by
  rw [follow]
  split
  · simp
  · simp
  · contradiction

/-- A file is written where its path leads, and never in the place of a directory. -/
theorem location?_of_fileLocation? (h : s.fileLocation? p = some l) :
    s.location? p = some l ∧ s.get? l ≠ some .directory := by
  obtain ⟨hnew, hfree⟩ := fileLocation?_eq_some.mp h
  obtain ⟨name, parent, haccept, hname, hfollow, hdirectory, hdots, rfl⟩ :=
    newLocation?_eq_some.mp hnew
  simp only [not_or] at hfree hdots
  obtain ⟨⟨hslash, hnot⟩, hlong⟩ := hfree
  have hnames : p.names = p.names.dropLast ++ [name] := by
    obtain ⟨init, hinit⟩ := List.getLast?_eq_some_iff.mp hname
    rw [hinit, List.dropLast_concat]
  have hshort : ¬isTooLong name = true := fun hname => hlong (by simp [hname])
  refine ⟨location?_eq_some.mpr ⟨haccept, ?_⟩, by simpa [isDirectoryAt] using hnot⟩
  rw [if_neg hslash, hnames, follow_append, hfollow]
  change s.follow parent [name] = _
  rw [follow_cons_of_directory hdirectory, if_neg hdots.1, if_neg hdots.2, if_neg hshort]
  rfl

/-! ## Files do not change where paths lead -/

/-- Stores with the same directories, where relative paths start at the same one. -/
structure SameTree (s t : Store) : Prop where
  workingDirectory : s.workingDirectory = t.workingDirectory
  directory : ∀ l, s.get? l = some .directory ↔ t.get? l = some .directory

namespace SameTree

theorem refl (s : Store) : SameTree s s :=
  ⟨rfl, fun _ => Iff.rfl⟩

theorem trans (h : SameTree s t) (h' : SameTree t u) : SameTree s u :=
  ⟨h.workingDirectory.trans h'.workingDirectory, fun l => (h.directory l).trans (h'.directory l)⟩

theorem base_eq (h : SameTree s t) (p : Path) : s.base p = t.base p := by
  rw [base, base, h.workingDirectory]

theorem follow_eq_ok (h : SameTree s t) : s.follow l names = .ok m ↔ t.follow l names = .ok m := by
  induction names generalizing l with
  | nil => rfl
  | cons name names ih =>
      by_cases hdirectory : s.get? l = some .directory
      · rw [follow_cons_of_directory hdirectory,
          follow_cons_of_directory ((h.directory l).mp hdirectory)]
        split
        · exact ih
        split
        · exact ih
        split
        · rfl
        · exact ih
      · exact iff_of_false (follow_cons_ne_ok hdirectory name names)
          (follow_cons_ne_ok (fun ht => hdirectory ((h.directory l).mpr ht)) name names)

theorem location?_eq (h : SameTree s t) (p : Path) : s.location? p = t.location? p := by
  ext l
  simp only [location?_eq_some, h.base_eq p, h.follow_eq_ok]

theorem fileLocation?_eq (h : SameTree s t) (p : Path) :
    s.fileLocation? p = t.fileLocation? p := by
  have hdirectoryAt : ∀ l, s.isDirectoryAt l = t.isDirectoryAt l := by
    intro l
    rw [Bool.eq_iff_iff]
    simpa [isDirectoryAt] using h.directory l
  ext l
  simp only [fileLocation?_eq_some, newLocation?_eq_some, h.base_eq p, h.follow_eq_ok, h.directory,
    hdirectoryAt]

theorem sameFile_iff (h : SameTree s t) : s.SameFile p q ↔ t.SameFile p q := by
  rw [SameFile, SameFile, h.location?_eq p, h.location?_eq q]

/-- What a path leads to is the same when the location is. -/
theorem find_eq_ok (h : SameTree s t) {e : Entry}
    (hget : ∀ l, t.location? p = some l → s.get? l = t.get? l) :
    s.find p = .ok e ↔ t.find p = .ok e := by
  simp only [Store.find_eq_ok, h.location?_eq p]
  refine exists_congr fun l => and_congr_right fun hl => ?_
  rw [hget l hl]

/-- The text of a file is the same when the location is. -/
theorem readText_eq_ok (h : SameTree s t) {text : String}
    (hget : ∀ l, t.location? p = some l → s.get? l = t.get? l) :
    s.readText p = .ok text ↔ t.readText p = .ok text := by
  simp only [Store.readText_eq_ok, read_eq_ok, ← Store.find_eq_ok, h.find_eq_ok hget]

end SameTree

theorem ne_nil_of_get?_ne (hl : s.get? l ≠ some .directory) : l ≠ [] := by
  rintro rfl
  exact hl rfl

/-- Writing a file keeps the directories. -/
theorem sameTree_put (hl : s.get? l ≠ some .directory) (content : ByteArray) :
    SameTree (s.put l (.file content)) s := by
  refine ⟨rfl, fun m => ?_⟩
  by_cases heq : m = l
  · rw [heq, get?_put_self s _ (ne_nil_of_get?_ne hl)]
    simp [hl]
  · rw [get?_put_of_ne s _ heq]

/-- A text that was written is read back. -/
theorem readText_of_writeText {text : String} (h : s.writeText p text = .ok t) :
    t.readText p = .ok text := by
  obtain ⟨l, hl, rfl⟩ := write_eq_ok.mp h
  obtain ⟨hlocation, hget⟩ := location?_of_fileLocation? hl
  refine readText_eq_ok.mpr ⟨text.toUTF8, read_eq_ok.mpr ⟨l, ?_, ?_⟩, ?_⟩
  · rw [(sameTree_put hget _).location?_eq, hlocation]
  · exact get?_put_self s _ (ne_nil_of_get?_ne hget)
  · exact dif_pos text.isValidUTF8

/-! ## Stores that hold the same -/

/-- Stores with the same directories and files. -/
def Same (s t : Store) : Prop :=
  s.workingDirectory = t.workingDirectory ∧ ∀ l, s.get? l = t.get? l

/-- A store that is part of another: what it has, the other has too. -/
structure Within (s t : Store) : Prop where
  workingDirectory : s.workingDirectory = t.workingDirectory
  entry : ∀ l e, s.get? l = some e → t.get? l = some e

namespace Within

theorem refl (s : Store) : Within s s :=
  ⟨rfl, fun _ _ h => h⟩

theorem trans (h : Within s t) (h' : Within t u) : Within s u :=
  ⟨h.workingDirectory.trans h'.workingDirectory, fun l e he => h'.entry l e (h.entry l e he)⟩

theorem follow_eq_ok (h : Within s t) (hfollow : s.follow l names = .ok m) :
    t.follow l names = .ok m := by
  induction names generalizing l with
  | nil => exact hfollow
  | cons name names ih =>
      by_cases hdirectory : s.get? l = some .directory
      · rw [follow_cons_of_directory hdirectory] at hfollow
        rw [follow_cons_of_directory (h.entry l _ hdirectory)]
        split
        · rw [if_pos ‹_›] at hfollow
          exact ih hfollow
        rw [if_neg ‹_›] at hfollow
        split
        · rw [if_pos ‹_›] at hfollow
          exact ih hfollow
        rw [if_neg ‹_›] at hfollow
        split
        · rw [if_pos ‹_›] at hfollow
          contradiction
        · rw [if_neg ‹_›] at hfollow
          exact ih hfollow
      · exact absurd hfollow (follow_cons_ne_ok hdirectory name names)

/-- What can be read from a part can be read from the whole. -/
theorem read_eq_ok (h : Within s t) {content : ByteArray} (hread : s.read p = .ok content) :
    t.read p = .ok content := by
  obtain ⟨l, hl, hget⟩ := Store.read_eq_ok.mp hread
  obtain ⟨haccept, hfollow⟩ := location?_eq_some.mp hl
  have hbase : s.base p = t.base p := by rw [base, base, h.workingDirectory]
  rw [hbase] at hfollow
  exact Store.read_eq_ok.mpr
    ⟨l, location?_eq_some.mpr ⟨haccept, h.follow_eq_ok hfollow⟩, h.entry l _ hget⟩

end Within

/-! ## Making directories -/

theorem within_of_createDirectory (h : s.createDirectory p = .ok t) : Within s t := by
  obtain ⟨_ | l, _, hmake⟩ := bind_eq_ok.mp h
  · contradiction
  · simp only at hmake
    split at hmake
    · contradiction
    split at hmake
    · contradiction
    rename_i hnone _
    obtain rfl := Except.ok.inj hmake
    refine ⟨rfl, fun m e hm => ?_⟩
    have hne : m ≠ l := by
      rintro rfl
      simp [hm] at hnone
    rw [get?_put_of_ne s _ hne]
    exact hm

theorem within_of_createChain {parents : List Path} (h : s.createChain parents = .ok t) :
    Within s t := by
  induction parents generalizing t with
  | nil =>
      obtain rfl := Except.ok.inj h
      exact .refl s
  | cons p parents ih =>
      rw [createChain] at h
      split at h
      · rename_i made hmade
        obtain rfl := Except.ok.inj h
        exact within_of_createDirectory hmade
      · obtain ⟨outer, houter, h⟩ := bind_eq_ok.mp h
        have hwithin := ih houter
        split at h
        · rename_i made hmade
          obtain rfl := Except.ok.inj h
          exact hwithin.trans (within_of_createDirectory hmade)
        · split at h
          · obtain rfl := Except.ok.inj h
            exact hwithin
          · contradiction
      · split at h
        · obtain rfl := Except.ok.inj h
          exact .refl s
        · contradiction

/-- Making directories takes nothing away. -/
theorem within_of_createDirectories (h : s.createDirectories p = .ok t) : Within s t :=
  within_of_createChain h

end MacroAsm.Files.Store
